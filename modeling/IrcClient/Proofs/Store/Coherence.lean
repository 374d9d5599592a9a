import IrcClient.Proofs.Store.Directory
import IrcClient.Proofs.Store.Effect

/-!
# Coherence of the store

A grounded store refers to nobody it does not know: not in a relation, not under a name, not among
the contacts and not as itself. A coherent one also knows nobody without a reason. Adding a user and
giving the reason are different operations, so in between a store is grounded and has one stray.
-/

namespace IrcClient.Store

variable {s : Store}

/-- Whatever the store refers to is known, and names lead to those who bear them. -/
structure Grounded (s : Store) : Prop where
  standing : s.standing.Sound
  member_known : ∀ {user channel}, s.standing.members.contains user channel = true →
    s.users.contains user = true ∧ s.channels.contains channel = true
  nick_known : ∀ {key id}, s.directory.nicks.get? key = some id →
    ∃ user, s.users.get? id = some user ∧ s.directory.key user.nick = key
  name_known : ∀ {key id}, s.directory.channels.get? key = some id →
    ∃ channel, s.channels.get? id = some channel ∧ s.directory.key channel.name = key
  contact_known : ∀ id ∈ s.contacts, s.users.contains id = true
  self_known : ∀ id, s.selfId = some id → s.users.contains id = true
  user_id : ∀ {id user}, s.users.get? id = some user → user.id = id ∧ id.number < s.nextId
  channel_id : ∀ {id channel}, s.channels.get? id = some channel →
    channel.id = id ∧ id.number < s.nextId

/-- There is a reason to know a user: it is on a channel, a contact or the client itself. -/
def Needed (s : Store) (id : UserId) : Prop :=
  (∃ channel, s.standing.members.contains id channel = true) ∨ id ∈ s.contacts ∨ s.selfId = some id

/-- Nobody but these is known without a reason. -/
def NeededBut (s : Store) (strays : List UserId) : Prop :=
  ∀ id, s.users.contains id = true → s.Needed id ∨ id ∈ strays

/-- A grounded store that knows nobody without a reason. -/
structure Coherent (s : Store) : Prop extends s.Grounded where
  needed : ∀ id, s.users.contains id = true → s.Needed id

theorem isNeeded_iff (h : s.standing.Sound) (id : UserId) : s.isNeeded id = true ↔ s.Needed id := by
  simp only [isNeeded, isSelf, Bool.or_eq_true, beq_iff_eq, List.contains_iff_mem, h.hasUser_iff,
    Needed]
  tauto

theorem Coherent.neededBut (h : s.Coherent) (strays : List UserId) : s.NeededBut strays :=
  fun id hid => Or.inl (h.needed id hid)

theorem Grounded.coherent (h : s.Grounded) {id : UserId} (hbut : s.NeededBut [id])
    (hneeded : s.Needed id) : s.Coherent where
  toGrounded := h
  needed id' hid' := by
    rcases hbut id' hid' with hother | hstray
    · exact hother
    · rw [List.mem_singleton.mp hstray]
      exact hneeded

theorem NeededBut.coherent (hbut : s.NeededBut []) (h : s.Grounded) : s.Coherent where
  toGrounded := h
  needed id hid := (hbut id hid).resolve_right List.not_mem_nil

theorem Coherent.initial : Store.initial.Coherent where
  standing := Standing.Sound.empty
  member_known h := by
    simp [Store.initial, Standing.empty, Relation.empty, Relation.contains, Links.has, Links.of] at h
  nick_known h := by cases h
  name_known h := by cases h
  contact_known _ h := by cases h
  self_known _ h := by cases h
  user_id h := by cases h
  channel_id h := by cases h
  needed _ h := by cases h

/-! ## Nicks that lead to their bearers -/

/-- Nicks in the index lead to users who bear them. -/
def NicksKnown (s : Store) : Prop :=
  ∀ ⦃key id⦄, s.directory.nicks.get? key = some id →
    ∃ user, s.users.get? id = some user ∧ s.directory.key user.nick = key

theorem Grounded.nicksKnown (h : s.Grounded) : s.NicksKnown := fun _ _ hget => h.nick_known hget

namespace NicksKnown

/-- A user is entered under its nick, if at all. -/
theorem key_eq (h : s.NicksKnown) {key : String} {id : UserId} {user : User}
    (hget : s.directory.nicks.get? key = some id) (huser : s.users.get? id = some user) :
    s.directory.key user.nick = key := by
  obtain ⟨bearer, hbearer, hnick⟩ := h hget
  rw [huser] at hbearer
  cases hbearer
  exact hnick

theorem key_unique (h : s.NicksKnown) {key key' : String} {id : UserId}
    (hkey : s.directory.nicks.get? key = some id) (hkey' : s.directory.nicks.get? key' = some id) :
    key = key' := by
  obtain ⟨user, huser, rfl⟩ := h hkey
  exact h.key_eq hkey' huser

theorem get?_strikeNick (h : s.NicksKnown) {id id' : UserId} {user : User} {key : String}
    (huser : s.users.get? id = some user) :
    (s.directory.strikeNick user.nick id).nicks.get? key = some id' ↔
      s.directory.nicks.get? key = some id' ∧ id' ≠ id := by
  unfold Directory.strikeNick Directory.userId?
  split
  · rename_i hheld
    rw [Table.get?_erase]
    split
    · rename_i hkey
      rw [← hkey, hheld]
      simp [eq_comm]
    · rename_i hkey
      rw [iff_self_and]
      rintro hget rfl
      exact hkey (h.key_eq hget huser)
  · rename_i hfree
    rw [iff_self_and]
    rintro hget rfl
    exact hfree (by rw [h.key_eq hget huser, hget])

theorem get?_nicks_forgetUser (h : s.NicksKnown) {id id' : UserId} {key : String} :
    (s.forgetUser id).directory.nicks.get? key = some id' ↔
      s.directory.nicks.get? key = some id' ∧ id' ≠ id := by
  rw [directory_forgetUser]
  split
  · rename_i user huser
    exact h.get?_strikeNick huser
  · rename_i hnone
    rw [iff_self_and]
    rintro hget rfl
    obtain ⟨user, huser, -⟩ := h hget
    rw [hnone] at huser
    cases huser

/-- A new user under an id that nobody has. -/
theorem enterUser (h : s.NicksKnown) (hfresh : s.users.get? ⟨s.nextId⟩ = none) (seen : Hostmask) :
    NicksKnown { s with
      nextId := s.nextId + 1
      directory := s.directory.enterNick seen.nick ⟨s.nextId⟩
      users := s.users.insert ⟨s.nextId⟩ (.new ⟨s.nextId⟩ seen) } := by
  intro key id hkey
  simp only [Directory.enterNick, Table.get?_insert] at hkey ⊢
  split at hkey
  · rename_i hseen
    cases hkey
    exact ⟨.new ⟨s.nextId⟩ seen, by simp, hseen⟩
  · -- An older entry cannot lead to the fresh id, which nobody had before.
    obtain ⟨user, huser, hnick⟩ := h hkey
    have hne : (⟨s.nextId⟩ : UserId) ≠ id := by
      rintro rfl
      rw [hfresh] at huser
      cases huser
    exact ⟨user, by simpa [hne] using huser, hnick⟩

theorem modifyUser (h : s.NicksKnown) (id : UserId) {f : User → User}
    (hf : ∀ user, (f user).nick = user.nick) : (s.modifyUser id f).NicksKnown := by
  intro key id' hkey
  obtain ⟨user, huser, hnick⟩ := h hkey
  simp only [Store.modifyUser, Table.get?_modify, huser]
  split
  · exact ⟨f user, rfl, by rw [hf]; exact hnick⟩
  · exact ⟨user, rfl, hnick⟩

theorem forgetUser (h : s.NicksKnown) (id : UserId) : (s.forgetUser id).NicksKnown := by
  intro key id' hget
  obtain ⟨hbefore, hne⟩ := h.get?_nicks_forgetUser.mp hget
  obtain ⟨user, huser, hnick⟩ := h hbefore
  refine ⟨user, ?_, by rw [key_forgetUser, hnick]⟩
  rw [get?_users_forgetUser, if_neg (Ne.symm hne), huser]

/-- After a change of the case mapping every nick still leads to one who bears it. -/
theorem withCaseMapping (h : s.NicksKnown)
    (hids : ∀ {id user}, s.users.get? id = some user → user.id = id) (mapping : CaseMapping) :
    (s.withCaseMapping mapping).NicksKnown := by
  unfold Store.withCaseMapping
  split
  · exact h
  · intro key id hget
    have hentry := Table.mem_of_get?_ofList hget
    simp only [List.map_map, List.mem_map, Function.comp, Prod.mk.injEq,
      Table.mem_values_iff] at hentry
    obtain ⟨user, ⟨id', huser⟩, hkey, rfl⟩ := hentry
    obtain rfl := hids huser
    exact ⟨user, huser, hkey⟩

end NicksKnown

/-! ## Channel names that lead to their bearers -/

/-- Channel names in the index lead to channels that bear them. -/
def NamesKnown (s : Store) : Prop :=
  ∀ ⦃key id⦄, s.directory.channels.get? key = some id →
    ∃ channel, s.channels.get? id = some channel ∧ s.directory.key channel.name = key

theorem Grounded.namesKnown (h : s.Grounded) : s.NamesKnown := fun _ _ hget => h.name_known hget

namespace NamesKnown

/-- A new channel under an id that none has. -/
theorem enterChannel (h : s.NamesKnown) (hfresh : s.channels.get? ⟨s.nextId⟩ = none)
    (name : String) :
    NamesKnown { s with
      nextId := s.nextId + 1
      directory := s.directory.enterChannel name ⟨s.nextId⟩
      channels := s.channels.insert ⟨s.nextId⟩ (.new ⟨s.nextId⟩ name) } := by
  intro key id hkey
  simp only [Directory.enterChannel, Table.get?_insert] at hkey ⊢
  split at hkey
  · rename_i hseen
    cases hkey
    exact ⟨.new ⟨s.nextId⟩ name, by simp, hseen⟩
  · obtain ⟨channel, hchannel, hname⟩ := h hkey
    have hne : (⟨s.nextId⟩ : ChannelId) ≠ id := by
      rintro rfl
      rw [hfresh] at hchannel
      cases hchannel
    exact ⟨channel, by simpa [hne] using hchannel, hname⟩

theorem modifyChannel (h : s.NamesKnown) (id : ChannelId) {f : Channel → Channel}
    (hf : ∀ channel, (f channel).name = channel.name) : (s.modifyChannel id f).NamesKnown := by
  intro key id' hkey
  obtain ⟨channel, hchannel, hname⟩ := h hkey
  simp only [Store.modifyChannel, Table.get?_modify, hchannel]
  split
  · exact ⟨f channel, rfl, by rw [hf]; exact hname⟩
  · exact ⟨channel, rfl, hname⟩

theorem forgetUser (h : s.NamesKnown) (id : UserId) : (s.forgetUser id).NamesKnown := by
  intro key id' hget
  rw [names_forgetUser] at hget
  obtain ⟨channel, hchannel, hname⟩ := h hget
  exact ⟨channel, by rw [channels_forgetUser, hchannel], by rw [key_forgetUser, hname]⟩

/-- The name of a channel that is forgotten leads to it no more. -/
theorem forgetChannel (h : s.NamesKnown) (id : ChannelId) : (s.forgetChannel id).NamesKnown := by
  unfold Store.forgetChannel
  split
  · rename_i gone hgone
    intro key id' hkey
    simp only [Directory.strikeChannel, Table.get?_erase] at hkey ⊢
    split at hkey
    · cases hkey
    · rename_i hstruck
      obtain ⟨channel, hchannel, hname⟩ := h hkey
      have hne : id ≠ id' := by
        rintro rfl
        rw [hgone] at hchannel
        cases hchannel
        exact hstruck hname
      exact ⟨channel, by simpa [hne] using hchannel, hname⟩
  · exact h

theorem withCaseMapping (h : s.NamesKnown)
    (hids : ∀ {id channel}, s.channels.get? id = some channel → channel.id = id)
    (mapping : CaseMapping) : (s.withCaseMapping mapping).NamesKnown := by
  unfold Store.withCaseMapping
  split
  · exact h
  · intro key id hget
    have hentry := Table.mem_of_get?_ofList hget
    simp only [List.map_map, List.mem_map, Function.comp, Prod.mk.injEq,
      Table.mem_values_iff] at hentry
    obtain ⟨channel, ⟨id', hchannel⟩, hkey, rfl⟩ := hentry
    obtain rfl := hids hchannel
    exact ⟨channel, hchannel, hkey⟩

end NamesKnown

namespace Grounded

theorem userId?_known (h : s.Grounded) {nick : String} {id : UserId}
    (hid : s.userId? nick = some id) : s.users.contains id = true := by
  obtain ⟨user, huser, -⟩ := h.nick_known hid
  exact (Table.contains_iff s.users id).mpr ⟨user, huser⟩

theorem exactChannel?_known (h : s.Grounded) {name : String} {id : ChannelId}
    (hid : s.directory.exactChannel? name = some id) : s.channels.contains id = true := by
  obtain ⟨channel, hchannel, -⟩ := h.name_known hid
  exact (Table.contains_iff s.channels id).mpr ⟨channel, hchannel⟩

theorem channelId?_known (h : s.Grounded) {name : String} {id : ChannelId}
    (hid : s.channelId? name = some id) : s.channels.contains id = true := by
  obtain ⟨front, rest, -, hexact, -⟩ := Directory.exists_of_resolve? hid
  exact h.exactChannel?_known hexact

/-- Two keys that lead to one user are the same. -/
theorem nick_unique (h : s.Grounded) {key key' : String} {id : UserId}
    (hkey : s.directory.nicks.get? key = some id) (hkey' : s.directory.nicks.get? key' = some id) :
    key = key' :=
  h.nicksKnown.key_unique hkey hkey'

theorem name_unique (h : s.Grounded) {key key' : String} {id : ChannelId}
    (hkey : s.directory.channels.get? key = some id)
    (hkey' : s.directory.channels.get? key' = some id) : key = key' := by
  obtain ⟨channel, hchannel, rfl⟩ := h.name_known hkey
  obtain ⟨channel', hchannel', rfl⟩ := h.name_known hkey'
  rw [hchannel] at hchannel'
  cases hchannel'
  rfl

theorem same_user_iff (h : s.Grounded) {key key' : String} {id id' : UserId}
    (hkey : s.directory.nicks.get? key = some id) (hkey' : s.directory.nicks.get? key' = some id') :
    id' = id ↔ key' = key := by
  constructor
  · rintro rfl
    exact h.nick_unique hkey' hkey
  · rintro rfl
    rw [hkey] at hkey'
    cases hkey'
    rfl

theorem same_channel_iff (h : s.Grounded) {key key' : String} {id id' : ChannelId}
    (hkey : s.directory.channels.get? key = some id)
    (hkey' : s.directory.channels.get? key' = some id') : id' = id ↔ key' = key := by
  constructor
  · rintro rfl
    exact h.name_unique hkey' hkey
  · rintro rfl
    rw [hkey] at hkey'
    cases hkey'
    rfl

/-- Nobody is known yet under the id that is given out next. -/
theorem fresh_user (h : s.Grounded) : s.users.get? ⟨s.nextId⟩ = none := by
  cases hget : s.users.get? ⟨s.nextId⟩ with
  | none => rfl
  | some user => exact absurd (h.user_id hget).2 (Nat.lt_irrefl _)

theorem fresh_channel (h : s.Grounded) : s.channels.get? ⟨s.nextId⟩ = none := by
  cases hget : s.channels.get? ⟨s.nextId⟩ with
  | none => rfl
  | some channel => exact absurd (h.channel_id hget).2 (Nat.lt_irrefl _)

/-! ## What is known about users and channels changes -/

theorem modifyUser (h : s.Grounded) (id : UserId) {f : User → User}
    (hf : ∀ user, (f user).nick = user.nick ∧ (f user).id = user.id) :
    (s.modifyUser id f).Grounded := by
  refine { h with
    member_known := ?_, nick_known := ?_, contact_known := ?_, self_known := ?_, user_id := ?_ }
  · intro user channel hpair
    simpa [Store.modifyUser] using h.member_known hpair
  · exact fun hkey => h.nicksKnown.modifyUser id (fun user => (hf user).1) hkey
  · intro id' hid'
    simpa [Store.modifyUser] using h.contact_known id' hid'
  · intro id' hid'
    simpa [Store.modifyUser] using h.self_known id' hid'
  · intro id' user huser
    simp only [Store.modifyUser, Table.get?_modify] at huser
    split at huser
    · obtain ⟨old, hold, rfl⟩ := Option.map_eq_some_iff.mp huser
      rw [(hf old).2]
      exact h.user_id hold
    · exact h.user_id huser

theorem modifyChannel (h : s.Grounded) (id : ChannelId) {f : Channel → Channel}
    (hf : ∀ channel, (f channel).name = channel.name ∧ (f channel).id = channel.id) :
    (s.modifyChannel id f).Grounded := by
  refine { h with member_known := ?_, name_known := ?_, channel_id := ?_ }
  · intro user channel hpair
    simpa [Store.modifyChannel] using h.member_known hpair
  · exact fun hkey => h.namesKnown.modifyChannel id (fun channel => (hf channel).1) hkey
  · intro id' channel hchannel
    simp only [Store.modifyChannel, Table.get?_modify] at hchannel
    split at hchannel
    · obtain ⟨old, hold, rfl⟩ := Option.map_eq_some_iff.mp hchannel
      rw [(hf old).2]
      exact h.channel_id hold
    · exact h.channel_id hchannel

/-! ## Users and channels become known -/

/-- A new user, who has no reason to be known yet. -/
theorem enterUser (h : s.Grounded) (seen : Hostmask) :
    Grounded { s with
      nextId := s.nextId + 1
      directory := s.directory.enterNick seen.nick ⟨s.nextId⟩
      users := s.users.insert ⟨s.nextId⟩ (.new ⟨s.nextId⟩ seen) } := by
  refine { h with
    member_known := ?_, nick_known := ?_, contact_known := ?_, self_known := ?_, user_id := ?_
    channel_id := ?_ }
  · intro user channel hpair
    obtain ⟨huser, hchannel⟩ := h.member_known hpair
    exact ⟨(Table.contains_insert _ _ _ _).mpr (Or.inr huser), hchannel⟩
  · exact fun hkey => h.nicksKnown.enterUser h.fresh_user seen hkey
  · exact fun id hid => (Table.contains_insert _ _ _ _).mpr (Or.inr (h.contact_known id hid))
  · exact fun id hid => (Table.contains_insert _ _ _ _).mpr (Or.inr (h.self_known id hid))
  · intro id user huser
    simp only [Table.get?_insert] at huser
    split at huser
    · rename_i hid
      cases huser
      subst hid
      exact ⟨rfl, Nat.lt_succ_self _⟩
    · exact ⟨(h.user_id huser).1, Nat.lt_succ_of_lt (h.user_id huser).2⟩
  · exact fun hchannel => ⟨(h.channel_id hchannel).1, Nat.lt_succ_of_lt (h.channel_id hchannel).2⟩

theorem enterChannel (h : s.Grounded) (name : String) :
    Grounded { s with
      nextId := s.nextId + 1
      directory := s.directory.enterChannel name ⟨s.nextId⟩
      channels := s.channels.insert ⟨s.nextId⟩ (.new ⟨s.nextId⟩ name) } := by
  refine { h with member_known := ?_, name_known := ?_, user_id := ?_, channel_id := ?_ }
  · intro user channel hpair
    obtain ⟨huser, hchannel⟩ := h.member_known hpair
    exact ⟨huser, (Table.contains_insert _ _ _ _).mpr (Or.inr hchannel)⟩
  · exact fun hkey => h.namesKnown.enterChannel h.fresh_channel name hkey
  · exact fun huser => ⟨(h.user_id huser).1, Nat.lt_succ_of_lt (h.user_id huser).2⟩
  · intro id channel hchannel
    simp only [Table.get?_insert] at hchannel
    split at hchannel
    · rename_i hid
      cases hchannel
      subst hid
      exact ⟨rfl, Nat.lt_succ_self _⟩
    · exact ⟨(h.channel_id hchannel).1, Nat.lt_succ_of_lt (h.channel_id hchannel).2⟩

theorem trackUser (h : s.Grounded) (seen : Hostmask) : (s.trackUser seen).1.Grounded := by
  unfold Store.trackUser
  split
  · exact h.modifyUser _ fun user => ⟨user.nick_absorb seen, user.id_absorb seen⟩
  · exact h.enterUser seen

theorem trackChannel (h : s.Grounded) (name : String) : (s.trackChannel name).1.Grounded := by
  unfold Store.trackChannel
  split
  · exact h
  · exact h.enterChannel name

theorem contains_trackChannel (h : s.Grounded) (name : String) (channel : ChannelId) :
    (s.trackChannel name).1.channels.contains channel = true ↔
      channel = (s.trackChannel name).2 ∨ s.channels.contains channel = true := by
  unfold Store.trackChannel
  split
  · rename_i id hid
    rw [iff_or_self]
    rintro rfl
    exact h.exactChannel?_known hid
  · exact Table.contains_insert ..

/-! ## Names are struck out and entered anew -/

theorem get?_strikeNick (h : s.Grounded) {id id' : UserId} {user : User} {key : String}
    (huser : s.users.get? id = some user) :
    (s.directory.strikeNick user.nick id).nicks.get? key = some id' ↔
      s.directory.nicks.get? key = some id' ∧ id' ≠ id :=
  h.nicksKnown.get?_strikeNick huser

theorem get?_nicks_forgetUser (h : s.Grounded) {id id' : UserId} {key : String} :
    (s.forgetUser id).directory.nicks.get? key = some id' ↔
      s.directory.nicks.get? key = some id' ∧ id' ≠ id :=
  h.nicksKnown.get?_nicks_forgetUser

theorem renamed (h : s.Grounded) {id : UserId} {user : User} (huser : s.users.get? id = some user)
    (nick : String) : (s.renamed user id nick).Grounded := by
  have hkey (name : String) : (s.renamed user id nick).directory.key name = s.directory.key name :=
    key_strikeNick s.directory user.nick name id
  refine { h with
    member_known := ?_, nick_known := ?_, name_known := ?_, contact_known := ?_, self_known := ?_
    user_id := ?_ }
  · intro member channel hpair
    simpa [Store.renamed] using h.member_known hpair
  · intro key id' hget
    simp only [hkey]
    simp only [Store.renamed, Directory.enterNick, Table.get?_insert, key_strikeNick,
      Table.get?_modify] at hget ⊢
    split at hget
    · rename_i hnick
      cases hget
      exact ⟨user.withNick nick, by simp [huser], hnick⟩
    · obtain ⟨hbefore, hne⟩ := (h.get?_strikeNick huser).mp hget
      obtain ⟨bearer, hbearer, hname⟩ := h.nick_known hbefore
      exact ⟨bearer, by simpa [Ne.symm hne] using hbearer, hname⟩
  · intro key id' hget
    simp only [hkey]
    simp only [Store.renamed, Directory.enterNick, names_strikeNick] at hget
    exact h.name_known hget
  · intro id' hid'
    simpa [Store.renamed] using h.contact_known id' hid'
  · intro id' hid'
    simpa [Store.renamed] using h.self_known id' hid'
  · intro id' bearer hget
    simp only [Store.renamed, Table.get?_modify] at hget
    split at hget
    · obtain ⟨old, hold, rfl⟩ := Option.map_eq_some_iff.mp hget
      obtain ⟨hid, hlt⟩ := h.user_id hold
      exact ⟨hid, hlt⟩
    · exact h.user_id hget

/-- After a change of the case mapping every name still leads to one who bears it. -/
theorem withCaseMapping (h : s.Grounded) (mapping : CaseMapping) :
    (s.withCaseMapping mapping).Grounded := by
  have hnicks := h.nicksKnown.withCaseMapping (fun hget => (h.user_id hget).1) mapping
  have hnames := h.namesKnown.withCaseMapping (fun hget => (h.channel_id hget).1) mapping
  unfold Store.withCaseMapping at hnicks hnames ⊢
  split
  · exact h
  · rename_i hchanged
    rw [if_neg hchanged] at hnicks hnames
    exact { h with nick_known := fun hget => hnicks hget, name_known := fun hget => hnames hget }

/-! ## Users and channels are forgotten -/

theorem withStanding (h : s.Grounded) {standing : Standing} (hsound : standing.Sound)
    (hknown : ∀ user channel, standing.members.contains user channel = true →
      s.users.contains user = true ∧ s.channels.contains channel = true) :
    Grounded { s with standing := standing } :=
  { h with standing := hsound, member_known := fun hpair => hknown _ _ hpair }

theorem shed (h : s.Grounded) {standing : Standing} {gone : UserId → ChannelId → Prop}
    (hsound : standing.Sound) (hsheds : s.standing.Sheds standing gone) :
    Grounded { s with standing := standing } :=
  h.withStanding hsound fun user channel hpair =>
    h.member_known ((hsheds.members user channel).mp hpair).1

/-- A user without a reason to be known can be forgotten. -/
theorem forgetUser (h : s.Grounded) {id : UserId} (hstray : ¬ s.Needed id) :
    (s.forgetUser id).Grounded := by
  constructor
  · rw [standing_forgetUser]
    exact h.standing
  · intro user channel hpair
    rw [standing_forgetUser] at hpair
    rw [contains_users_forgetUser, channels_forgetUser]
    obtain ⟨huser, hchannel⟩ := h.member_known hpair
    refine ⟨⟨huser, ?_⟩, hchannel⟩
    rintro rfl
    exact hstray (Or.inl ⟨channel, hpair⟩)
  · exact fun hget => h.nicksKnown.forgetUser id hget
  · exact fun hget => h.namesKnown.forgetUser id hget
  · intro id' hid'
    rw [contacts_forgetUser] at hid'
    rw [contains_users_forgetUser]
    refine ⟨h.contact_known id' hid', ?_⟩
    rintro rfl
    exact hstray (Or.inr (Or.inl hid'))
  · intro id' hid'
    rw [selfId_forgetUser] at hid'
    rw [contains_users_forgetUser]
    refine ⟨h.self_known id' hid', ?_⟩
    rintro rfl
    exact hstray (Or.inr (Or.inr hid'))
  · intro id' user huser
    rw [get?_users_forgetUser] at huser
    rw [nextId_forgetUser]
    split at huser
    · cases huser
    · exact h.user_id huser
  · intro id' channel hchannel
    rw [channels_forgetUser] at hchannel
    rw [nextId_forgetUser]
    exact h.channel_id hchannel

theorem collect (h : s.Grounded) (id : UserId) : (s.collect id).Grounded := by
  unfold Store.collect
  split
  · exact h
  · rename_i hstray
    rw [isNeeded_iff h.standing] at hstray
    exact h.forgetUser hstray

theorem foldl_collect (h : s.Grounded) (ids : List UserId) :
    (ids.foldl Store.collect s).Grounded := by
  induction ids generalizing s with
  | nil => exact h
  | cons id ids ih => exact ih (h.collect id)

/-- A channel without members can be forgotten. -/
theorem forgetChannel (h : s.Grounded) {id : ChannelId}
    (hempty : ∀ user, s.standing.members.contains user id ≠ true) :
    (s.forgetChannel id).Grounded := by
  have hnames := h.namesKnown.forgetChannel id
  unfold Store.forgetChannel at hnames ⊢
  split
  · rename_i gone hgone
    rw [hgone] at hnames
    refine { h with member_known := ?_, name_known := fun hkey => hnames hkey, channel_id := ?_ }
    · intro user channel hpair
      obtain ⟨huser, hchannel⟩ := h.member_known hpair
      refine ⟨huser, (Table.contains_erase _ _ _).mpr ⟨hchannel, ?_⟩⟩
      rintro rfl
      exact hempty user hpair
    · intro id' channel hchannel
      simp only [Table.get?_erase] at hchannel
      split at hchannel
      · cases hchannel
      · exact h.channel_id hchannel
  · exact h

theorem withoutUser (h : s.Grounded) {standing : Standing} {id : UserId} (hsound : standing.Sound)
    (hsheds : s.standing.Sheds standing fun user _ => user = id) :
    (s.withoutUser standing id).Grounded := by
  -- First the pairs and marks go, then nothing is left that needs the user.
  have hmarks : Grounded { s with
      standing := standing
      contacts := s.contacts.filter (· ≠ id)
      selfId := if s.selfId = some id then none else s.selfId } := by
    refine { h.shed hsound hsheds with contact_known := ?_, self_known := ?_ }
    · exact fun id' hid' => h.contact_known id' (List.mem_filter.mp hid').1
    · intro id' hid'
      dsimp only at hid'
      split at hid'
      · cases hid'
      · exact h.self_known id' hid'
  apply hmarks.forgetUser
  rintro (⟨channel, hpair⟩ | hcontact | hself)
  · exact ((hsheds.members id channel).mp hpair).2 rfl
  · simp at hcontact
  · dsimp only at hself
    split at hself
    · cases hself
    · contradiction

end Grounded

end IrcClient.Store
