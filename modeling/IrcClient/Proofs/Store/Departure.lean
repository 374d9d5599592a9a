import IrcClient.Proofs.Store.Lookup

/-!
# What a departure takes away

Somebody leaves a channel, the client leaves one, or somebody is gone altogether. Each ends some pairs
of users and channels. A user who is on no channel any more after that is forgotten, unless it is the
client itself or a contact; whoever is gone altogether is forgotten in any case. Nothing else changes.
-/

namespace IrcClient

/-- What a departure is to the client. -/
inductive Departure where
  /-- Nobody has left whom the client knows, or the client itself is gone. -/
  | nobody
  /-- Another user has left a channel. -/
  | leave (user : UserId) (channel : ChannelId)
  /-- The client has left a channel, of which it knows nothing any more. -/
  | close (channel : ChannelId)
  /-- Another user is gone. -/
  | quit (user : UserId)
  deriving DecidableEq

/-- The pairs that a departure ends. -/
def Departure.Ends : Departure → UserId → ChannelId → Prop
  | .nobody, _, _ => False
  | .leave user channel, user', channel' => user' = user ∧ channel' = channel
  | .close channel, _, channel' => channel' = channel
  | .quit user, user', _ => user' = user

namespace Store

variable {s s' : Store} {d : Departure}

/-- Whether a departure after which the store is `s'` forgets a user. -/
def Forgets (s s' : Store) (d : Departure) (id : UserId) : Prop :=
  match d with
  | .quit user => id = user
  | _ => (∃ channel, s.standing.members.contains id channel = true ∧ d.Ends id channel) ∧
      (∀ channel, s'.standing.members.contains id channel ≠ true) ∧ s.selfId ≠ some id ∧
      id ∉ s.contacts

/-- `s'` is `s` without what a departure takes away. -/
structure Loses (s s' : Store) (d : Departure) : Prop where
  standing : s.standing.Sheds s'.standing d.Ends
  users : ∀ {id user}, s'.users.get? id = some user ↔
    s.users.get? id = some user ∧ ¬ s.Forgets s' d id
  channels : ∀ {id channel}, s'.channels.get? id = some channel ↔
    s.channels.get? id = some channel ∧ d ≠ .close id
  nicks : ∀ {key id}, s'.directory.nicks.get? key = some id ↔
    s.directory.nicks.get? key = some id ∧ ¬ s.Forgets s' d id
  names : ∀ {key id}, s'.directory.channels.get? key = some id ↔
    s.directory.channels.get? key = some id ∧ d ≠ .close id
  contacts : ∀ id, id ∈ s'.contacts ↔ id ∈ s.contacts ∧ d ≠ .quit id
  self : ∀ id, s'.selfId = some id ↔ s.selfId = some id ∧ d ≠ .quit id
  caseMapping : s'.directory.caseMapping = s.directory.caseMapping
  statusSymbols : s'.directory.statusSymbols = s.directory.statusSymbols
  channelPrefixes : s'.channelPrefixes = s.channelPrefixes
  nextId : s'.nextId = s.nextId

theorem Loses.key (h : s.Loses s' d) (name : String) :
    s'.directory.key name = s.directory.key name := by
  rw [Directory.key, h.caseMapping, Directory.key]

theorem Loses.userId?_iff (h : s.Loses s' d) {nick : String} {id : UserId} :
    s'.userId? nick = some id ↔ s.userId? nick = some id ∧ ¬ s.Forgets s' d id := by
  rw [Store.userId?, Directory.userId?, h.key]
  exact h.nicks

/-- Whoever is left is still found. -/
theorem Loses.indexed (h : s.Loses s' d) (hindexed : s.Indexed) : s'.Indexed := by
  constructor
  · intro id user huser
    obtain ⟨hbefore, hkept⟩ := h.users.mp huser
    rw [h.key, h.nicks]
    exact ⟨hindexed.nick_found hbefore, hkept⟩
  · intro id channel hchannel
    obtain ⟨hbefore, hkept⟩ := h.channels.mp hchannel
    rw [h.key, h.names]
    exact ⟨hindexed.name_found hbefore, hkept⟩

/-- The client itself is forgotten only if it quits. -/
theorem not_forgets_self {me : UserId} (hself : s.selfId = some me) (hquit : d ≠ .quit me) :
    ¬ s.Forgets s' d me := by
  cases d with
  | quit user =>
    intro heq
    apply hquit
    rw [show me = user from heq]
  | nobody => exact fun hforgets => hforgets.2.2.1 hself
  | leave user channel => exact fun hforgets => hforgets.2.2.1 hself
  | close channel => exact fun hforgets => hforgets.2.2.1 hself

theorem loses_nobody (s : Store) : s.Loses s .nobody := by
  have hends (user : UserId) (channel : ChannelId) : ¬ Departure.nobody.Ends user channel :=
    fun hends => hends
  have hkept (id : UserId) : ¬ s.Forgets s .nobody id := by
    rintro ⟨⟨channel, -, hgone⟩, -⟩
    exact hgone
  constructor
  · constructor
    · exact fun user channel => (and_iff_left (hends user channel)).symm
    · exact fun level user channel => (and_iff_left (hends user channel)).symm
  · exact fun {id _} => (and_iff_left (hkept id)).symm
  · simp
  · exact fun {_ id} => (and_iff_left (hkept id)).symm
  all_goals simp

/-! ## Users are collected -/

/-- `s'` is `s` without some users and their nicks. -/
structure Culls (s s' : Store) (gone : UserId → Prop) : Prop where
  users : ∀ {id user}, s'.users.get? id = some user ↔ s.users.get? id = some user ∧ ¬ gone id
  nicks : ∀ {key id}, s'.directory.nicks.get? key = some id ↔
    s.directory.nicks.get? key = some id ∧ ¬ gone id
  rest : ∃ nicks users, s' =
    { s with directory := { s.directory with nicks := nicks }, users := users }

theorem Culls.refl (s : Store) : s.Culls s fun _ => False where
  users := by simp
  nicks := by simp
  rest := ⟨s.directory.nicks, s.users, rfl⟩

theorem culls_forgetUser (h : s.Grounded) (id : UserId) : s.Culls (s.forgetUser id) (· = id) where
  users {id' user} := by
    rw [get?_users_forgetUser]
    by_cases heq : id = id'
    · simp [heq]
    · simp [heq, Ne.symm heq]
  nicks := h.get?_nicks_forgetUser
  rest := forgetUser_eq id

theorem culls_collect (h : s.Grounded) (id : UserId) :
    s.Culls (s.collect id) fun id' => id' = id ∧ ¬ s.Needed id' := by
  have hneeded := isNeeded_iff h.standing id
  have hgone {id' : UserId} : ¬ s.Needed id → (¬ (id' = id ∧ ¬ s.Needed id') ↔ ¬ id' = id) := by
    intro hstray
    rw [not_iff_not, and_iff_left_iff_imp]
    rintro rfl
    exact hstray
  unfold collect
  split
  · rename_i hreason
    rw [hneeded] at hreason
    have hkept (id' : UserId) : ¬ (id' = id ∧ ¬ s.Needed id') := by
      rintro ⟨rfl, hstray⟩
      exact hstray hreason
    exact ⟨fun {id' _} => (and_iff_left (hkept id')).symm,
      fun {_ id'} => (and_iff_left (hkept id')).symm, (Culls.refl s).rest⟩
  · rename_i hstray
    rw [hneeded] at hstray
    have hforgot := culls_forgetUser h id
    refine ⟨?_, ?_, hforgot.rest⟩
    · intro id' user
      rw [hforgot.users, hgone hstray]
    · intro key id'
      rw [hforgot.nicks, hgone hstray]

theorem culls_foldl_collect (h : s.Grounded) (ids : List UserId) :
    s.Culls (ids.foldl collect s) fun id => id ∈ ids ∧ ¬ s.Needed id := by
  induction ids generalizing s with
  | nil =>
    refine ⟨?_, ?_, (Culls.refl s).rest⟩ <;> simp
  | cons first ids ih =>
    have hfirst := culls_collect h first
    have hrest := ih (h.collect first)
    obtain ⟨nicks, users, heq⟩ := hfirst.rest
    have hneeded (id : UserId) : (s.collect first).Needed id ↔ s.Needed id := by
      rw [heq]
      rfl
    refine ⟨?_, ?_, ?_⟩
    · intro id user
      rw [List.foldl_cons, hrest.users, hfirst.users, hneeded, List.mem_cons]
      tauto
    · intro key id
      rw [List.foldl_cons, hrest.nicks, hfirst.nicks, hneeded, List.mem_cons]
      tauto
    · obtain ⟨nicks', users', heq'⟩ := hrest.rest
      refine ⟨nicks', users', ?_⟩
      rw [List.foldl_cons, heq', heq]

/-! ## Departures -/

/-- A departure from a channel forgets those of the known users whom nothing that is left needs. -/
theorem forgets_iff (h : s.Coherent) (hd : ∀ user, d ≠ .quit user) {standing : Standing}
    (hsheds : s.standing.Sheds standing d.Ends) (hs' : s'.standing = standing) {id : UserId}
    (hknown : s.users.contains id = true) :
    s.Forgets s' d id ↔ ¬ Needed { s with standing := standing } id := by
  have hforgets : s.Forgets s' d id ↔
      (∃ channel, s.standing.members.contains id channel = true ∧ d.Ends id channel) ∧
        (∀ channel, standing.members.contains id channel ≠ true) ∧ s.selfId ≠ some id ∧
        id ∉ s.contacts := by
    rw [← hs']
    cases d with
    | quit user => exact absurd rfl (hd user)
    | nobody => rfl
    | leave user channel => rfl
    | close channel => rfl
  rw [hforgets]
  constructor
  · rintro ⟨-, hnone, hself, hcontact⟩ (⟨channel, hpair⟩ | hcontact' | hself')
    · exact hnone channel hpair
    · exact hcontact hcontact'
    · exact hself hself'
  · intro hstray
    have hnone (channel : ChannelId) : standing.members.contains id channel ≠ true :=
      fun hpair => hstray (Or.inl ⟨channel, hpair⟩)
    have hcontact : id ∉ s.contacts := fun hcontact => hstray (Or.inr (Or.inl hcontact))
    have hself : s.selfId ≠ some id := fun hself => hstray (Or.inr (Or.inr hself))
    -- There was a reason to know the user, so that it was on a channel which it has left now.
    rcases h.needed id hknown with ⟨channel, hpair⟩ | hcontact' | hself'
    · by_cases hends : d.Ends id channel
      · exact ⟨⟨channel, hpair, hends⟩, hnone, hself, hcontact⟩
      · exact absurd ((hsheds.members id channel).mpr ⟨hpair, hends⟩) (hnone channel)
    · exact absurd hcontact' hcontact
    · exact absurd hself' hself

/-- After a departure from a channel it is enough to look at those who were on it. -/
theorem loses_foldl_collect (h : s.Coherent) (hd : ∀ user, d ≠ .quit user) {standing : Standing}
    {channels : Table ChannelId Channel} {names : Table String ChannelId} {ids : List UserId}
    (hgrounded : Grounded { s with
      standing := standing, channels := channels
      directory := { s.directory with channels := names } })
    (hsheds : s.standing.Sheds standing d.Ends)
    (hids : ∀ {id channel}, s.standing.members.contains id channel = true → d.Ends id channel →
      id ∈ ids)
    (hchannels : ∀ {id channel}, channels.get? id = some channel ↔
      s.channels.get? id = some channel ∧ d ≠ .close id)
    (hnames : ∀ {key id}, names.get? key = some id ↔
      s.directory.channels.get? key = some id ∧ d ≠ .close id) :
    s.Loses (ids.foldl collect { s with
      standing := standing, channels := channels
      directory := { s.directory with channels := names } }) d := by
  have hculls := culls_foldl_collect hgrounded ids
  generalize ids.foldl collect _ = s' at hculls ⊢
  obtain ⟨nicks, users, heq⟩ := hculls.rest
  have hstanding : s'.standing = standing := by rw [heq]
  have hgone {id : UserId} (hknown : s.users.contains id = true) :
      (id ∈ ids ∧ ¬ Needed { s with standing := standing } id) ↔ s.Forgets s' d id := by
    rw [forgets_iff h hd hsheds hstanding hknown, and_iff_right_iff_imp]
    intro hstray
    rcases h.needed id hknown with ⟨channel, hpair⟩ | hother
    · by_cases hends : d.Ends id channel
      · exact hids hpair hends
      · exact absurd (Or.inl ⟨channel, (hsheds.members id channel).mpr ⟨hpair, hends⟩⟩) hstray
    · exact absurd (Or.inr hother) hstray
  constructor
  · rw [hstanding]
    exact hsheds
  · intro id user
    refine hculls.users.trans (and_congr_right fun huser => not_congr (hgone ?_))
    exact (Table.contains_iff _ _).mpr ⟨user, huser⟩
  · intro id channel
    rw [heq]
    exact hchannels
  · intro key id
    refine hculls.nicks.trans (and_congr_right fun hkey => not_congr (hgone ?_))
    obtain ⟨user, huser, -⟩ := h.nick_known hkey
    exact (Table.contains_iff _ _).mpr ⟨user, huser⟩
  · intro key id
    rw [heq]
    exact hnames
  · intro id
    rw [heq]
    exact (and_iff_left (hd id)).symm
  · intro id
    rw [heq]
    exact (and_iff_left (hd id)).symm
  all_goals rw [heq]

theorem Coherent.loses_removeMember (h : s.Coherent) (user : UserId) (channel : ChannelId) :
    ∃ s', s.removeMember user channel = .ok s' ∧ s.Loses s' (.leave user channel) := by
  obtain ⟨standing, hok, hsound, hsheds⟩ := removeMember_spec h.standing user channel
  have hended : s.standing.Sheds standing (Departure.leave user channel).Ends := hsheds
  have hloses : s.Loses ([user].foldl collect { s with standing := standing })
      (.leave user channel) := by
    apply loses_foldl_collect h (by simp) (h.toGrounded.shed hsound hsheds) hended
    · rintro id channel' - ⟨rfl, -⟩
      exact List.mem_singleton_self _
    · simp
    · simp
  exact ⟨_, hok, hloses⟩

/-- A channel is closed that has its entry in the index. -/
theorem Coherent.loses_removeChannel (h : s.Coherent) {id : ChannelId} {channel : Channel}
    (hchannel : s.channels.get? id = some channel)
    (hname : s.directory.channels.get? (s.directory.key channel.name) = some id) :
    ∃ s', s.removeChannel id = .ok s' ∧ s.Loses s' (.close id) := by
  obtain ⟨standing, hok, hsound, hsheds⟩ := removeChannel_spec h.standing id
  have hempty : ∀ user, standing.members.contains user id ≠ true := by
    intro user hpair
    exact ((hsheds.members user id).mp hpair).2 rfl
  have hforgot : Store.forgetChannel { s with standing := standing } id = { s with
      standing := standing, channels := s.channels.erase id
      directory := s.directory.strikeChannel channel.name } := by
    simp only [forgetChannel, hchannel]
  have hgrounded := (h.toGrounded.shed hsound hsheds).forgetChannel hempty
  rw [hforgot] at hok hgrounded
  refine ⟨_, hok, loses_foldl_collect h (by simp) hgrounded hsheds ?_ ?_ ?_⟩
  · rintro user channel' hpair rfl
    exact h.standing.members.mem_usersOf.mpr hpair
  · intro id' channel'
    rw [Table.get?_erase]
    by_cases heq : id = id'
    · simp [heq]
    · simp [heq]
  · intro key id'
    rw [Table.get?_erase]
    split
    · rename_i hkey
      rw [← hkey, hname]
      simp
    · rename_i hkey
      rw [iff_self_and]
      rintro hget heq
      cases heq
      obtain ⟨bearer, hbearer, hnamed⟩ := h.name_known hget
      rw [hchannel] at hbearer
      cases hbearer
      exact hkey hnamed

theorem NicksKnown.loses_withoutUser (h : s.NicksKnown) {standing : Standing} {id : UserId}
    (hsheds : s.standing.Sheds standing fun user _ => user = id) :
    s.Loses (s.withoutUser standing id) (.quit id) := by
  have hforgets (id' : UserId) : s.Forgets (s.withoutUser standing id) (.quit id) id' ↔ id' = id :=
    Iff.rfl
  have hdirectory : (s.withoutUser standing id).directory = (s.forgetUser id).directory := by
    rw [Store.withoutUser, directory_forgetUser, directory_forgetUser]
  constructor
  · rw [standing_withoutUser]
    exact hsheds
  · intro id' user
    rw [hforgets, Store.withoutUser, get?_users_forgetUser]
    by_cases heq : id = id'
    · simp [heq]
    · simp [heq, Ne.symm heq]
  · intro id' channel
    rw [Store.withoutUser, channels_forgetUser]
    simp
  · intro key id'
    rw [hforgets, hdirectory]
    exact h.get?_nicks_forgetUser
  · intro key id'
    rw [hdirectory, names_forgetUser]
    simp
  · intro id'
    rw [Store.withoutUser, contacts_forgetUser, List.mem_filter]
    simp [@eq_comm _ id id']
  · intro id'
    rw [Store.withoutUser, selfId_forgetUser]
    dsimp only
    split
    · rename_i hself
      rw [hself]
      simp
    · rename_i hself
      rw [iff_self_and]
      rintro hself' heq
      cases heq
      exact hself hself'
  · rw [hdirectory, caseMapping_forgetUser]
  · rw [hdirectory, statusSymbols_forgetUser]
  · obtain ⟨nicks, users, heq⟩ := forgetUser_eq (s := { s with
      standing := standing
      contacts := s.contacts.filter (· ≠ id)
      selfId := if s.selfId = some id then none else s.selfId }) id
    rw [Store.withoutUser, heq]
  · rw [Store.withoutUser, nextId_forgetUser]

theorem Grounded.loses_removeUser (h : s.Grounded) (id : UserId) :
    ∃ s', s.removeUser id = .ok s' ∧ s.Loses s' (.quit id) := by
  obtain ⟨standing, hok, -, hsheds⟩ := removeUser_spec h.standing id
  exact ⟨_, hok, h.nicksKnown.loses_withoutUser hsheds⟩

end Store

end IrcClient
