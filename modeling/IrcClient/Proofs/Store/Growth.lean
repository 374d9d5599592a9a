import IrcClient.Proofs.Mode.Apply
import IrcClient.Proofs.Store.Lookup

/-!
# Operations that only add

Most lines tell something about users and channels, make users known or put them on channels. None
of this takes anybody off a channel, changes a nick, makes a channel known or forgets one, and it
enters new users into the index where it has no entry yet.
-/

namespace IrcClient

namespace Store

variable {s s' s'' : Store} {channel : ChannelId}

/-- A store in place of another, to which users, pairs of users and channels, and knowledge about
users and channels may have been added. Privileges may have been revoked. -/
structure Grows (s s' : Store) : Prop where
  grounded : s'.Grounded
  indexed : s.Indexed → s'.Indexed
  user_kept : ∀ {id user}, s.users.get? id = some user →
    ∃ user', s'.users.get? id = some user' ∧ user'.nick = user.nick
  nick_kept : ∀ {key id}, s.directory.nicks.get? key = some id →
    s'.directory.nicks.get? key = some id
  channel_kept : ∀ {id channel}, s.channels.get? id = some channel →
    ∃ channel', s'.channels.get? id = some channel' ∧ channel'.name = channel.name
  channel_known : ∀ id, s'.channels.contains id = s.channels.contains id
  member_kept : ∀ {user channel}, s.standing.members.contains user channel = true →
    s'.standing.members.contains user channel = true
  names : s'.directory.channels = s.directory.channels
  self : s'.selfId = s.selfId
  caseMapping : s'.directory.caseMapping = s.directory.caseMapping

theorem Grows.refl (h : s.Grounded) : s.Grows s where
  grounded := h
  indexed hindexed := hindexed
  user_kept huser := ⟨_, huser, rfl⟩
  nick_kept hkey := hkey
  channel_kept hchannel := ⟨_, hchannel, rfl⟩
  channel_known _ := rfl
  member_kept hpair := hpair
  names := rfl
  self := rfl
  caseMapping := rfl

theorem Grows.trans (hfirst : s.Grows s') (hsecond : s'.Grows s'') : s.Grows s'' where
  grounded := hsecond.grounded
  indexed hindexed := hsecond.indexed (hfirst.indexed hindexed)
  user_kept huser := by
    obtain ⟨middle, hmiddle, hnick⟩ := hfirst.user_kept huser
    obtain ⟨last, hlast, hnick'⟩ := hsecond.user_kept hmiddle
    exact ⟨last, hlast, hnick'.trans hnick⟩
  nick_kept hkey := hsecond.nick_kept (hfirst.nick_kept hkey)
  channel_kept hchannel := by
    obtain ⟨middle, hmiddle, hname⟩ := hfirst.channel_kept hchannel
    obtain ⟨last, hlast, hname'⟩ := hsecond.channel_kept hmiddle
    exact ⟨last, hlast, hname'.trans hname⟩
  channel_known id := (hsecond.channel_known id).trans (hfirst.channel_known id)
  member_kept hpair := hsecond.member_kept (hfirst.member_kept hpair)
  names := hsecond.names.trans hfirst.names
  self := hsecond.self.trans hfirst.self
  caseMapping := hsecond.caseMapping.trans hfirst.caseMapping

theorem Grows.user_known (h : s.Grows s') {id : UserId} (hid : s.users.contains id = true) :
    s'.users.contains id = true := by
  obtain ⟨user, huser⟩ := (Table.contains_iff _ _).mp hid
  obtain ⟨user', huser', -⟩ := h.user_kept huser
  exact (Table.contains_iff _ _).mpr ⟨user', huser'⟩

theorem Grows.userId? (h : s.Grows s') {nick : String} {id : UserId}
    (hid : s.userId? nick = some id) : s'.userId? nick = some id := by
  rw [Store.userId?, Directory.userId?, Directory.key, h.caseMapping]
  exact h.nick_kept hid

/-- Names that are apart among more users and channels are apart among fewer. -/
theorem Grows.distinct (h : s.Grows s') (hgrounded : s.Grounded) (hdistinct : s'.Distinct) :
    s.Distinct where
  nicks user huser other hother hsame := by
    have hget := hgrounded.mem_users_iff.mp huser
    have hgetOther := hgrounded.mem_users_iff.mp hother
    obtain ⟨user', huser', hnick⟩ := h.user_kept hget
    obtain ⟨other', hother', hnick'⟩ := h.user_kept hgetOther
    have hids := hdistinct.nicks user' ((Table.mem_values_iff _ _).mpr ⟨_, huser'⟩) other'
      ((Table.mem_values_iff _ _).mpr ⟨_, hother'⟩) (by rwa [h.caseMapping, hnick, hnick'])
    rwa [(h.grounded.user_id huser').1, (h.grounded.user_id hother').1] at hids
  names channel hchannel other hother hsame := by
    have hget := hgrounded.mem_channels_iff.mp hchannel
    have hgetOther := hgrounded.mem_channels_iff.mp hother
    obtain ⟨channel', hchannel', hname⟩ := h.channel_kept hget
    obtain ⟨other', hother', hname'⟩ := h.channel_kept hgetOther
    have hids := hdistinct.names channel' ((Table.mem_values_iff _ _).mpr ⟨_, hchannel'⟩) other'
      ((Table.mem_values_iff _ _).mpr ⟨_, hother'⟩) (by rwa [h.caseMapping, hname, hname'])
    rwa [(h.grounded.channel_id hchannel').1, (h.grounded.channel_id hother').1] at hids

namespace Grounded

/-! ## What is known changes -/

theorem grows_modifyUser (h : s.Grounded) (id : UserId) {f : User → User}
    (hf : ∀ user, (f user).nick = user.nick ∧ (f user).id = user.id) :
    s.Grows (s.modifyUser id f) := by
  refine { Grows.refl h with
    grounded := h.modifyUser id hf, indexed := ?_, user_kept := ?_ }
  · intro hindexed
    refine ⟨?_, hindexed.name_found⟩
    intro id' user huser
    simp only [Store.modifyUser, Table.get?_modify] at huser
    split at huser
    · obtain ⟨old, hold, rfl⟩ := Option.map_eq_some_iff.mp huser
      rw [(hf old).1]
      exact hindexed.nick_found hold
    · exact hindexed.nick_found huser
  · intro id' user huser
    simp only [Store.modifyUser, Table.get?_modify, huser]
    split
    · exact ⟨f user, rfl, (hf user).1⟩
    · exact ⟨user, rfl, rfl⟩

theorem grows_modifyChannel (h : s.Grounded) (id : ChannelId) {f : Channel → Channel}
    (hf : ∀ channel, (f channel).name = channel.name ∧ (f channel).id = channel.id) :
    s.Grows (s.modifyChannel id f) := by
  refine { Grows.refl h with
    grounded := h.modifyChannel id hf, indexed := ?_, channel_kept := ?_, channel_known := ?_ }
  · intro hindexed
    refine ⟨hindexed.nick_found, ?_⟩
    intro id' channel hchannel
    simp only [Store.modifyChannel, Table.get?_modify] at hchannel
    split at hchannel
    · obtain ⟨old, hold, rfl⟩ := Option.map_eq_some_iff.mp hchannel
      rw [(hf old).1]
      exact hindexed.name_found hold
    · exact hindexed.name_found hchannel
  · intro id' channel hchannel
    simp only [Store.modifyChannel, Table.get?_modify, hchannel]
    split
    · exact ⟨f channel, rfl, (hf channel).1⟩
    · exact ⟨channel, rfl, rfl⟩
  · intro id'
    simp only [Store.modifyChannel, Table.contains_modify]

theorem grows_withChannelPrefixes (h : s.Grounded) (prefixes : String) :
    s.Grows (s.withChannelPrefixes prefixes) :=
  { Grows.refl h with
    grounded := { h with }
    indexed := fun hindexed => ⟨hindexed.nick_found, hindexed.name_found⟩ }

theorem grows_withStatusSymbols (h : s.Grounded) (symbols : String) :
    s.Grows (s.withStatusSymbols symbols) :=
  { Grows.refl h with
    grounded := { h with }
    indexed := fun hindexed => ⟨hindexed.nick_found, hindexed.name_found⟩ }

/-! ## Users become known -/

/-- Whoever becomes known gets an id that nobody has, and a nick that leads to nobody. -/
theorem grows_trackUser (h : s.Grounded) (seen : Hostmask) : s.Grows (s.trackUser seen).1 := by
  have hgrounded := h.trackUser seen
  have hindexed := fun hindexed : s.Indexed => hindexed.trackUser seen
  unfold Store.trackUser at hgrounded hindexed ⊢
  split
  · exact h.grows_modifyUser _ fun user => ⟨user.nick_absorb seen, user.id_absorb seen⟩
  · rename_i hfree
    rw [hfree] at hgrounded hindexed
    refine { Grows.refl h with
      grounded := hgrounded, indexed := hindexed, user_kept := ?_, nick_kept := ?_ }
    · intro id user huser
      have hne : (⟨s.nextId⟩ : UserId) ≠ id := by
        rintro rfl
        rw [h.fresh_user] at huser
        cases huser
      exact ⟨user, by simpa [Table.get?_insert, hne] using huser, rfl⟩
    · intro key id hkey
      have hne : s.directory.key seen.nick ≠ key := by
        rintro rfl
        rw [Store.userId?, Directory.userId?, hkey] at hfree
        cases hfree
      simpa [Directory.enterNick, Table.get?_insert, hne] using hkey

theorem grows_addContact (h : s.Grounded) {id : UserId} (hid : s.users.contains id = true) :
    s.Grows (s.addContact id) := by
  unfold Store.addContact
  split
  · exact Grows.refl h
  · refine { Grows.refl h with
      grounded := { h with contact_known := ?_ }
      indexed := fun hindexed => ⟨hindexed.nick_found, hindexed.name_found⟩ }
    intro id' hid'
    rcases List.mem_append.mp hid' with hbefore | hnew
    · exact h.contact_known id' hbefore
    · rw [List.mem_singleton.mp hnew]
      exact hid

/-! ## Relations change -/

theorem grows_withStanding (h : s.Grounded) {standing : Standing} (hsound : standing.Sound)
    (hknown : ∀ user channel, standing.members.contains user channel = true →
      s.users.contains user = true ∧ s.channels.contains channel = true)
    (hkept : ∀ user channel, s.standing.members.contains user channel = true →
      standing.members.contains user channel = true) :
    s.Grows { s with standing := standing } :=
  { Grows.refl h with
    grounded := h.withStanding hsound hknown
    indexed := fun hindexed => ⟨hindexed.nick_found, hindexed.name_found⟩
    member_kept := fun hpair => hkept _ _ hpair }

/-- A pair of a known user and a known channel is added. -/
theorem grows_enrol (h : s.Grounded) {id : UserId} (hid : s.users.contains id = true)
    (hchannel : s.channels.contains channel = true) {standing : Standing} (hsound : standing.Sound)
    (hpairs : ∀ user' channel', standing.members.contains user' channel' = true ↔
      (user' = id ∧ channel' = channel) ∨ s.standing.members.contains user' channel' = true) :
    s.Grows { s with standing := standing } := by
  apply h.grows_withStanding hsound
  · intro user' channel' hpair
    rcases (hpairs user' channel').mp hpair with ⟨rfl, rfl⟩ | hbefore
    · exact ⟨hid, hchannel⟩
    · exact h.member_known hbefore
  · exact fun user' channel' hpair => (hpairs user' channel').mpr (Or.inr hpair)

theorem grows_addMember (h : s.Grounded) {id : UserId} (hid : s.users.contains id = true)
    (hchannel : s.channels.contains channel = true) : s.Grows (s.addMember id channel) :=
  h.grows_enrol hid hchannel (h.standing.join id channel) fun user' channel' =>
    Standing.contains_join id user' channel channel'

theorem grows_grant (h : s.Grounded) (level : PrivilegeLevel) {id : UserId}
    (hid : s.users.contains id = true) (hchannel : s.channels.contains channel = true) :
    s.Grows (s.grant level id channel) :=
  h.grows_enrol hid hchannel (h.standing.grant level id channel) fun user' channel' =>
    Standing.contains_grant level id user' channel channel'

theorem grows_grantAll (h : s.Grounded) (levels : List PrivilegeLevel) {id : UserId}
    (hid : s.users.contains id = true) (hchannel : s.channels.contains channel = true) :
    s.Grows (s.grantAll levels id channel) := by
  induction levels generalizing s with
  | nil => exact Grows.refl h
  | cons level levels ih =>
    have hfirst := h.grows_grant level hid hchannel
    exact hfirst.trans (ih hfirst.grounded hid hchannel)

/-- A list of members puts a user on a channel with some privileges. -/
theorem grows_enlist (h : s.Grounded) (levels : List PrivilegeLevel) {id : UserId}
    (hid : s.users.contains id = true) (hchannel : s.channels.contains channel = true) :
    s.Grows ((s.addMember id channel).grantAll levels id channel) := by
  have hmember := h.grows_addMember hid hchannel
  exact hmember.trans (hmember.grounded.grows_grantAll levels hid hchannel)

/-! ## Mode changes -/

theorem grows_applyModes (h : s.Grounded) (hchannel : s.channels.contains channel = true)
    (source : UserSnapshot) (modes : String) (args : List String) :
    ∃ s' events, s.applyModes channel source modes args = .ok (s', events) ∧ s.Grows s' := by
  have hinvariant : ModeInvariant s.Grows channel := by
    constructor
    · exact fun hgrows hf => hgrows.trans (hgrows.grounded.grows_modifyChannel channel hf)
    · intro s' level nick hgrows
      have htracked := hgrows.grounded.grows_trackUser (.ofNick nick)
      have hid := htracked.grounded.userId?_known (userId?_trackUser (.ofNick nick))
      have hknown := hchannel
      rw [← hgrows.channel_known, ← htracked.channel_known] at hknown
      exact (hgrows.trans htracked).trans (htracked.grounded.grows_grant level hid hknown)
    · intro s' level user hgrows
      obtain ⟨standing, hok, hsound, hmembers, -⟩ :=
        revoke_spec hgrows.grounded.standing level user channel
      refine ⟨_, hok, hgrows.trans (hgrows.grounded.grows_withStanding hsound ?_ ?_)⟩
      · rw [hmembers]
        exact fun _ _ => hgrows.grounded.member_known
      · rw [hmembers]
        exact fun _ _ hpair => hpair
  exact hinvariant.applyModes (Grows.refl h) source modes args

end Grounded

end Store

end IrcClient
