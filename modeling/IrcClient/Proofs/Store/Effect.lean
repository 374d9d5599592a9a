import IrcClient.Proofs.Store.Standing
import IrcClient.Store.Basic

/-!
# What the store operations do

For each operation that may fail, the store it gives on sound relations; for the others, what they
leave alone.
-/

namespace IrcClient.Store

variable {s : Store}

/-! ## Forgetting users -/

theorem strikeNick_eq (d : Directory) (nick : String) (id : UserId) :
    ∃ nicks, d.strikeNick nick id = { d with nicks := nicks } := by
  unfold Directory.strikeNick
  split
  · exact ⟨_, rfl⟩
  · exact ⟨d.nicks, rfl⟩

/-- Forgetting a user touches nothing but the users and their nicks. -/
theorem forgetUser_eq (id : UserId) :
    ∃ nicks users, s.forgetUser id =
      { s with directory := { s.directory with nicks := nicks }, users := users } := by
  unfold forgetUser
  split
  · rename_i user _
    obtain ⟨nicks, hstruck⟩ := strikeNick_eq s.directory user.nick id
    exact ⟨nicks, s.users.erase id, by rw [hstruck]⟩
  · exact ⟨s.directory.nicks, s.users, rfl⟩

@[simp] theorem standing_forgetUser (id : UserId) : (s.forgetUser id).standing = s.standing := by
  obtain ⟨nicks, users, hforgot⟩ := forgetUser_eq (s := s) id
  rw [hforgot]

@[simp] theorem contacts_forgetUser (id : UserId) : (s.forgetUser id).contacts = s.contacts := by
  obtain ⟨nicks, users, hforgot⟩ := forgetUser_eq (s := s) id
  rw [hforgot]

@[simp] theorem selfId_forgetUser (id : UserId) : (s.forgetUser id).selfId = s.selfId := by
  obtain ⟨nicks, users, hforgot⟩ := forgetUser_eq (s := s) id
  rw [hforgot]

@[simp] theorem channels_forgetUser (id : UserId) : (s.forgetUser id).channels = s.channels := by
  obtain ⟨nicks, users, hforgot⟩ := forgetUser_eq (s := s) id
  rw [hforgot]

@[simp] theorem nextId_forgetUser (id : UserId) : (s.forgetUser id).nextId = s.nextId := by
  obtain ⟨nicks, users, hforgot⟩ := forgetUser_eq (s := s) id
  rw [hforgot]

theorem key_forgetUser (id : UserId) (name : String) :
    (s.forgetUser id).directory.key name = s.directory.key name := by
  obtain ⟨nicks, users, hforgot⟩ := forgetUser_eq (s := s) id
  rw [hforgot]
  rfl

theorem names_forgetUser (id : UserId) :
    (s.forgetUser id).directory.channels = s.directory.channels := by
  obtain ⟨nicks, users, hforgot⟩ := forgetUser_eq (s := s) id
  rw [hforgot]

theorem caseMapping_forgetUser (id : UserId) :
    (s.forgetUser id).directory.caseMapping = s.directory.caseMapping := by
  obtain ⟨nicks, users, hforgot⟩ := forgetUser_eq (s := s) id
  rw [hforgot]

theorem statusSymbols_forgetUser (id : UserId) :
    (s.forgetUser id).directory.statusSymbols = s.directory.statusSymbols := by
  obtain ⟨nicks, users, hforgot⟩ := forgetUser_eq (s := s) id
  rw [hforgot]

theorem get?_users_forgetUser (id id' : UserId) :
    (s.forgetUser id).users.get? id' = if id = id' then none else s.users.get? id' := by
  unfold forgetUser
  split
  · rw [Table.get?_erase]
  · rename_i hnone
    split
    · rename_i heq
      rw [← heq, hnone]
    · rfl

theorem contains_users_forgetUser (id id' : UserId) :
    (s.forgetUser id).users.contains id' = true ↔ s.users.contains id' = true ∧ id' ≠ id := by
  rw [Table.contains, get?_users_forgetUser, Table.contains]
  by_cases h : id = id'
  · simp [h]
  · simp [h, Ne.symm h]

theorem directory_forgetUser (id : UserId) :
    (s.forgetUser id).directory =
      match s.users.get? id with
      | some user => s.directory.strikeNick user.nick id
      | none => s.directory := by
  cases huser : s.users.get? id <;> simp only [forgetUser, huser]

theorem key_strikeNick (d : Directory) (nick name : String) (id : UserId) :
    (d.strikeNick nick id).key name = d.key name := by
  obtain ⟨nicks, hstruck⟩ := strikeNick_eq d nick id
  rw [hstruck]
  rfl

theorem names_strikeNick (d : Directory) (nick : String) (id : UserId) :
    (d.strikeNick nick id).channels = d.channels := by
  obtain ⟨nicks, hstruck⟩ := strikeNick_eq d nick id
  rw [hstruck]

/-! ## Collecting users -/

@[simp] theorem standing_collect (id : UserId) : (s.collect id).standing = s.standing := by
  unfold collect
  split <;> simp

@[simp] theorem selfId_collect (id : UserId) : (s.collect id).selfId = s.selfId := by
  unfold collect
  split <;> simp

@[simp] theorem nextId_collect (id : UserId) : (s.collect id).nextId = s.nextId := by
  unfold collect
  split <;> simp

@[simp] theorem standing_foldl_collect (ids : List UserId) :
    (ids.foldl collect s).standing = s.standing := by
  induction ids generalizing s with
  | nil => rfl
  | cons id ids ih => rw [List.foldl_cons, ih, standing_collect]

@[simp] theorem selfId_foldl_collect (ids : List UserId) :
    (ids.foldl collect s).selfId = s.selfId := by
  induction ids generalizing s with
  | nil => rfl
  | cons id ids ih => rw [List.foldl_cons, ih, selfId_collect]

@[simp] theorem nextId_foldl_collect (ids : List UserId) :
    (ids.foldl collect s).nextId = s.nextId := by
  induction ids generalizing s with
  | nil => rfl
  | cons id ids ih => rw [List.foldl_cons, ih, nextId_collect]

/-! ## Tracking users and channels -/

theorem trackUser_eq (seen : Hostmask) :
    ∃ nextId nicks users, (s.trackUser seen).1 =
      { s with
        nextId := nextId, directory := { s.directory with nicks := nicks }, users := users } := by
  unfold trackUser
  split
  · exact ⟨s.nextId, s.directory.nicks, _, rfl⟩
  · exact ⟨s.nextId + 1, _, _, rfl⟩

theorem trackChannel_eq (name : String) :
    ∃ nextId directory channels, (s.trackChannel name).1 =
      { s with nextId := nextId, directory := directory, channels := channels } := by
  unfold trackChannel
  split
  · exact ⟨s.nextId, s.directory, s.channels, rfl⟩
  · exact ⟨s.nextId + 1, _, _, rfl⟩

theorem forgetChannel_eq (id : ChannelId) :
    ∃ directory channels, s.forgetChannel id =
      { s with directory := directory, channels := channels } := by
  unfold forgetChannel
  split
  · exact ⟨_, _, rfl⟩
  · exact ⟨s.directory, s.channels, rfl⟩

@[simp] theorem standing_trackUser (seen : Hostmask) :
    (s.trackUser seen).1.standing = s.standing := by
  obtain ⟨nextId, nicks, users, htracked⟩ := trackUser_eq (s := s) seen
  rw [htracked]

@[simp] theorem selfId_trackUser (seen : Hostmask) : (s.trackUser seen).1.selfId = s.selfId := by
  obtain ⟨nextId, nicks, users, htracked⟩ := trackUser_eq (s := s) seen
  rw [htracked]

@[simp] theorem channels_trackUser (seen : Hostmask) :
    (s.trackUser seen).1.channels = s.channels := by
  obtain ⟨nextId, nicks, users, htracked⟩ := trackUser_eq (s := s) seen
  rw [htracked]

theorem names_trackUser (seen : Hostmask) :
    (s.trackUser seen).1.directory.channels = s.directory.channels := by
  obtain ⟨nextId, nicks, users, htracked⟩ := trackUser_eq (s := s) seen
  rw [htracked]

/-- A tracked user is found by the nick it was seen under. -/
theorem userId?_trackUser (seen : Hostmask) :
    (s.trackUser seen).1.userId? seen.nick = some (s.trackUser seen).2 := by
  unfold trackUser
  split
  · rename_i id hid
    exact hid
  · exact (Table.get?_insert ..).trans (if_pos rfl)

@[simp] theorem standing_trackChannel (name : String) :
    (s.trackChannel name).1.standing = s.standing := by
  obtain ⟨nextId, directory, channels, htracked⟩ := trackChannel_eq (s := s) name
  rw [htracked]

@[simp] theorem selfId_trackChannel (name : String) :
    (s.trackChannel name).1.selfId = s.selfId := by
  obtain ⟨nextId, directory, channels, htracked⟩ := trackChannel_eq (s := s) name
  rw [htracked]

@[simp] theorem users_trackChannel (name : String) : (s.trackChannel name).1.users = s.users := by
  obtain ⟨nextId, directory, channels, htracked⟩ := trackChannel_eq (s := s) name
  rw [htracked]

theorem userId?_trackChannel (name nick : String) :
    (s.trackChannel name).1.userId? nick = s.userId? nick := by
  unfold trackChannel
  split <;> rfl

theorem exactChannel?_trackChannel (name : String) :
    (s.trackChannel name).1.directory.exactChannel? name = some (s.trackChannel name).2 := by
  unfold trackChannel
  split
  · rename_i id hid
    exact hid
  · exact (Table.get?_insert ..).trans (if_pos rfl)

@[simp] theorem standing_forgetChannel (id : ChannelId) :
    (s.forgetChannel id).standing = s.standing := by
  obtain ⟨directory, channels, hforgot⟩ := forgetChannel_eq (s := s) id
  rw [hforgot]

@[simp] theorem contacts_forgetChannel (id : ChannelId) :
    (s.forgetChannel id).contacts = s.contacts := by
  obtain ⟨directory, channels, hforgot⟩ := forgetChannel_eq (s := s) id
  rw [hforgot]

@[simp] theorem selfId_forgetChannel (id : ChannelId) : (s.forgetChannel id).selfId = s.selfId := by
  obtain ⟨directory, channels, hforgot⟩ := forgetChannel_eq (s := s) id
  rw [hforgot]

@[simp] theorem nextId_forgetChannel (id : ChannelId) : (s.forgetChannel id).nextId = s.nextId := by
  obtain ⟨directory, channels, hforgot⟩ := forgetChannel_eq (s := s) id
  rw [hforgot]

@[simp] theorem users_forgetChannel (id : ChannelId) : (s.forgetChannel id).users = s.users := by
  obtain ⟨directory, channels, hforgot⟩ := forgetChannel_eq (s := s) id
  rw [hforgot]

/-! ## Operations that may fail -/

/-- What is left after a user is forgotten with all its pairs and marks. -/
def withoutUser (s : Store) (standing : Standing) (id : UserId) : Store :=
  { s with
    standing := standing
    contacts := s.contacts.filter (· ≠ id)
    selfId := if s.selfId = some id then none else s.selfId }.forgetUser id

@[simp] theorem standing_withoutUser (standing : Standing) (id : UserId) :
    (s.withoutUser standing id).standing = standing := by
  rw [withoutUser, standing_forgetUser]

theorem removeUser_spec (h : s.standing.Sound) (id : UserId) :
    ∃ standing, s.removeUser id = .ok (s.withoutUser standing id) ∧ standing.Sound ∧
      s.standing.Sheds standing fun user _ => user = id := by
  obtain ⟨standing, hok, hsound, hsheds⟩ := Standing.removeUser_spec h id
  exact ⟨standing, by rw [removeUser, hok]; rfl, hsound, hsheds⟩

theorem removeMember_spec (h : s.standing.Sound) (user : UserId) (channel : ChannelId) :
    ∃ standing, s.removeMember user channel = .ok ({ s with standing := standing }.collect user) ∧
      standing.Sound ∧
      s.standing.Sheds standing fun user' channel' => user' = user ∧ channel' = channel := by
  obtain ⟨standing, hok, hsound, hsheds⟩ := Standing.leave_spec h user channel
  exact ⟨standing, by rw [removeMember, hok]; rfl, hsound, hsheds⟩

theorem removeChannel_spec (h : s.standing.Sound) (id : ChannelId) :
    ∃ standing, s.removeChannel id = .ok ((s.standing.members.usersOf id).foldl collect
        ({ s with standing := standing }.forgetChannel id)) ∧
      standing.Sound ∧ s.standing.Sheds standing fun _ channel => channel = id := by
  obtain ⟨standing, hok, hsound, hsheds⟩ := Standing.removeChannel_spec h id
  exact ⟨standing, by rw [removeChannel, hok]; rfl, hsound, hsheds⟩

theorem revoke_spec (h : s.standing.Sound) (level : PrivilegeLevel) (user : UserId)
    (channel : ChannelId) :
    ∃ standing, s.revoke level user channel = .ok { s with standing := standing } ∧
      standing.Sound ∧ standing.members = s.standing.members ∧
      ∀ level' user' channel', standing.holds level' user' channel' = true ↔
        s.standing.holds level' user' channel' = true ∧
          ¬ (level' = level ∧ user' = user ∧ channel' = channel) := by
  obtain ⟨standing, hok, hsound, hmembers, hholds⟩ := Standing.revoke_spec h level user channel
  exact ⟨standing, by rw [revoke, hok]; rfl, hsound, hmembers, hholds⟩

/-- A user under its new nick, when nobody else holds that nick any more. -/
def renamed (s : Store) (user : User) (id : UserId) (nick : String) : Store :=
  { s with
    directory := (s.directory.strikeNick user.nick id).enterNick nick id
    users := s.users.modify id fun user => user.withNick nick }

/-- Clearing the way for a nick forgets its holder if that is somebody else. -/
theorem evictOther_spec (h : s.standing.Sound) (id : UserId) (nick : String) :
    (s.evictOther id nick = .ok s ∧ ∀ holder, s.userId? nick = some holder → holder = id) ∨
      ∃ holder standing, s.userId? nick = some holder ∧ holder ≠ id ∧
        s.evictOther id nick = .ok (s.withoutUser standing holder) ∧ standing.Sound ∧
        s.standing.Sheds standing fun user _ => user = holder := by
  unfold evictOther
  cases hholder : s.userId? nick with
  | none => exact Or.inl ⟨rfl, by simp⟩
  | some holder =>
    by_cases heq : holder = id
    · left
      simp [heq]
    · right
      obtain ⟨standing, hok, hsound, hsheds⟩ := removeUser_spec h holder
      exact ⟨holder, standing, rfl, heq, by simpa only [if_neg heq] using hok, hsound, hsheds⟩

theorem renameUser_of_unknown {id : UserId} (hunknown : s.users.get? id = none) (nick : String) :
    s.renameUser id nick = .ok s := by
  simp only [renameUser, hunknown]

theorem renameUser_of_known {id : UserId} {user : User} {nick : String} {cleared : Store}
    (hknown : s.users.get? id = some user) (hcleared : s.evictOther id nick = .ok cleared) :
    s.renameUser id nick = .ok (cleared.renamed user id nick) := by
  simp only [renameUser, hknown, hcleared]
  rfl

end IrcClient.Store
