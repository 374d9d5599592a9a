import IrcClient.Proofs.Store.Coherence

/-!
# Operations on a coherent store

Every operation, used on a coherent store with ids that it knows, gives a coherent store again. A
user who has just become known may be a stray until it is told why; `Admits` is the state in between.
-/

namespace IrcClient.Store

variable {s s' s'' : Store} {strays : List UserId} {channel : ChannelId}

/-- A coherent store in place of another. No other user has become the client itself. -/
structure Follows (s s' : Store) : Prop where
  coherent : s'.Coherent
  self : s'.selfId = s.selfId ∨ s'.selfId = none

/-- A coherent store in place of another that still knows a channel. -/
structure FollowsWith (s s' : Store) (channel : ChannelId) : Prop where
  follows : s.Follows s'
  known : s'.channels.contains channel = true

/-- A store in place of another that knows one more user, perhaps without a reason. -/
structure Admits (s s' : Store) (id : UserId) : Prop where
  grounded : s'.Grounded
  known : s'.users.contains id = true
  but : s'.NeededBut [id]
  self : s'.selfId = s.selfId
  channels : s'.channels = s.channels

theorem Coherent.follows (h : s.Coherent) : s.Follows s := ⟨h, Or.inl rfl⟩

theorem Coherent.followsWith (h : s.Coherent) (hchannel : s.channels.contains channel = true) :
    s.FollowsWith s channel :=
  ⟨h.follows, hchannel⟩

theorem Follows.trans (hfirst : s.Follows s') (hsecond : s'.Follows s'') : s.Follows s'' := by
  refine ⟨hsecond.coherent, ?_⟩
  rcases hsecond.self with hkept | hnone
  · rw [hkept]
    exact hfirst.self
  · exact Or.inr hnone

theorem FollowsWith.trans (hfirst : s.FollowsWith s' channel)
    (hsecond : s'.FollowsWith s'' channel) : s.FollowsWith s'' channel :=
  ⟨hfirst.follows.trans hsecond.follows, hsecond.known⟩

/-! ## Reasons to know a user -/

theorem Needed.mono {id : UserId} (h : s.Needed id)
    (hmembers : ∀ channel, s.standing.members.contains id channel = true →
      s'.standing.members.contains id channel = true)
    (hcontacts : id ∈ s.contacts → id ∈ s'.contacts)
    (hself : s.selfId = some id → s'.selfId = some id) : s'.Needed id := by
  rcases h with ⟨channel, hpair⟩ | hcontact | hisSelf
  · exact Or.inl ⟨channel, hmembers channel hpair⟩
  · exact Or.inr (Or.inl (hcontacts hcontact))
  · exact Or.inr (Or.inr (hself hisSelf))

theorem NeededBut.mono {strays' : List UserId} (h : s.NeededBut strays)
    (hknown : ∀ id, s'.users.contains id = true → s.users.contains id = true)
    (hneeded : ∀ id, s.Needed id → s'.Needed id ∨ id ∈ strays') (hstrays : strays ⊆ strays') :
    s'.NeededBut strays' := by
  intro id hid
  rcases h id (hknown id hid) with hreason | hstray
  · exact hneeded id hreason
  · exact Or.inr (hstrays hstray)

theorem NeededBut.modifyUser (h : s.NeededBut strays) (id : UserId) (f : User → User) :
    (s.modifyUser id f).NeededBut strays := by
  intro id' hid'
  apply h id'
  simpa [Store.modifyUser] using hid'

theorem NeededBut.trackUser (h : s.NeededBut strays) (seen : Hostmask) :
    (s.trackUser seen).1.NeededBut ((s.trackUser seen).2 :: strays) := by
  unfold Store.trackUser
  split
  · rename_i id hid
    intro id' hid'
    exact (h.modifyUser id _ id' hid').imp_right (List.mem_cons_of_mem _)
  · intro id hid
    rcases (Table.contains_insert _ _ _ _).mp hid with hnew | hbefore
    · right
      rw [hnew]
      exact List.mem_cons_self
    · exact (h id hbefore).imp_right (List.mem_cons_of_mem _)

theorem NeededBut.forgetUser {id : UserId} (h : s.NeededBut (id :: strays)) :
    (s.forgetUser id).NeededBut strays := by
  intro id' hid'
  obtain ⟨hbefore, hne⟩ := (contains_users_forgetUser id id').mp hid'
  rcases h id' hbefore with hreason | hstray
  · left
    apply hreason.mono <;> simp
  · right
    exact (List.mem_cons.mp hstray).resolve_left hne

theorem NeededBut.collect (hsound : s.standing.Sound) {id : UserId}
    (h : s.NeededBut (id :: strays)) : (s.collect id).NeededBut strays := by
  unfold Store.collect
  split
  · rename_i hneeded
    rw [isNeeded_iff hsound] at hneeded
    intro id' hid'
    rcases h id' hid' with hreason | hstray
    · exact Or.inl hreason
    · rcases List.mem_cons.mp hstray with rfl | hother
      · exact Or.inl hneeded
      · exact Or.inr hother
  · exact h.forgetUser

theorem NeededBut.foldl_collect (hsound : s.standing.Sound) (ids : List UserId)
    (h : s.NeededBut (ids ++ strays)) : (ids.foldl Store.collect s).NeededBut strays := by
  induction ids generalizing s with
  | nil => exact h
  | cons id ids ih =>
    apply ih
    · rw [standing_collect]
      exact hsound
    · exact NeededBut.collect hsound h

theorem NeededBut.forgetChannel (h : s.NeededBut strays) (id : ChannelId) :
    (s.forgetChannel id).NeededBut strays := by
  apply h.mono _ _ (List.Subset.refl _)
  · simp
  · intro id' hreason
    left
    apply hreason.mono <;> simp

/-- After some pairs are gone, only users who were in such a pair may have become strays. -/
theorem NeededBut.shed (h : s.NeededBut []) {standing : Standing} {gone : UserId → ChannelId → Prop}
    (hsheds : s.standing.Sheds standing gone)
    (hstrays : ∀ user channel, s.standing.members.contains user channel = true →
      gone user channel → user ∈ strays) :
    NeededBut { s with standing := standing } strays := by
  refine h.mono (fun _ hid => hid) ?_ (List.nil_subset _)
  intro id hreason
  -- Whoever is no stray lost no pair, so its reason still stands.
  by_cases hstray : id ∈ strays
  · exact Or.inr hstray
  · left
    refine hreason.mono ?_ (fun hcontact => hcontact) (fun hself => hself)
    intro channel hpair
    have hkept : ¬ gone id channel := fun hgone => hstray (hstrays id channel hpair hgone)
    exact (hsheds.members id channel).mpr ⟨hpair, hkept⟩

theorem NeededBut.withoutUser {standing : Standing} {id : UserId} (h : s.NeededBut (id :: strays))
    (hsheds : s.standing.Sheds standing fun user _ => user = id) :
    (s.withoutUser standing id).NeededBut strays := by
  apply NeededBut.forgetUser
  intro id' hid'
  rcases h id' hid' with hreason | hstray
  · by_cases heq : id' = id
    · right
      rw [heq]
      exact List.mem_cons_self
    · left
      apply hreason.mono
      · exact fun channel hpair => (hsheds.members id' channel).mpr ⟨hpair, heq⟩
      · exact fun hcontact => List.mem_filter.mpr ⟨hcontact, by simpa using heq⟩
      · intro hself
        have hother : s.selfId ≠ some id := by
          rw [hself]
          simpa using heq
        simpa only [if_neg hother] using hself
  · exact Or.inr hstray

/-- A user is forgotten, whether it was a stray or not. -/
theorem Grounded.follows_withoutUser (h : s.Grounded) {standing : Standing} {id : UserId}
    (hbut : s.NeededBut [id]) (hsound : standing.Sound)
    (hsheds : s.standing.Sheds standing fun user _ => user = id) :
    s.Follows (s.withoutUser standing id) := by
  refine ⟨(hbut.withoutUser hsheds).coherent (h.withoutUser hsound hsheds), ?_⟩
  simp only [Store.withoutUser, selfId_forgetUser]
  split
  · exact Or.inr rfl
  · exact Or.inl rfl

/-! ## What is known changes -/

theorem Coherent.modifyUser (h : s.Coherent) (id : UserId) {f : User → User}
    (hf : ∀ user, (f user).nick = user.nick ∧ (f user).id = user.id) :
    s.Follows (s.modifyUser id f) :=
  ⟨((h.neededBut []).modifyUser id f).coherent (h.toGrounded.modifyUser id hf), Or.inl rfl⟩

theorem Coherent.modifyChannel (h : s.Coherent) (id : ChannelId) {f : Channel → Channel}
    (hf : ∀ channel, (f channel).name = channel.name ∧ (f channel).id = channel.id) :
    s.Follows (s.modifyChannel id f) :=
  ⟨⟨h.toGrounded.modifyChannel id hf, h.needed⟩, Or.inl rfl⟩

theorem Coherent.withCaseMapping (h : s.Coherent) (mapping : CaseMapping) :
    s.Follows (s.withCaseMapping mapping) := by
  have hgrounded := h.toGrounded.withCaseMapping mapping
  unfold Store.withCaseMapping at hgrounded ⊢
  split
  · exact h.follows
  · rename_i hmapping
    rw [if_neg hmapping] at hgrounded
    exact ⟨⟨hgrounded, h.needed⟩, Or.inl rfl⟩

theorem Coherent.withChannelPrefixes (h : s.Coherent) (prefixes : String) :
    s.Follows (s.withChannelPrefixes prefixes) :=
  ⟨⟨{ h.toGrounded with }, h.needed⟩, Or.inl rfl⟩

theorem Coherent.withStatusSymbols (h : s.Coherent) (symbols : String) :
    s.Follows (s.withStatusSymbols symbols) :=
  ⟨⟨{ h.toGrounded with }, h.needed⟩, Or.inl rfl⟩

theorem Coherent.clear (s : Store) : s.Follows s.clear := by
  refine ⟨?_, Or.inr rfl⟩
  have hinitial := Coherent.initial
  exact {
    standing := hinitial.standing
    member_known := hinitial.member_known
    nick_known := fun hget => by cases hget
    name_known := fun hget => by cases hget
    contact_known := hinitial.contact_known
    self_known := hinitial.self_known
    user_id := fun hget => by cases hget
    channel_id := fun hget => by cases hget
    needed := hinitial.needed }

/-! ## Users and channels become known -/

theorem Coherent.admits (h : s.Coherent) {id : UserId} (hknown : s.users.contains id = true) :
    s.Admits s id :=
  ⟨h.toGrounded, hknown, h.neededBut [id], rfl, rfl⟩

theorem Coherent.trackUser (h : s.Coherent) (seen : Hostmask) :
    s.Admits (s.trackUser seen).1 (s.trackUser seen).2 := by
  have hbut := (h.neededBut []).trackUser seen
  refine ⟨h.toGrounded.trackUser seen, ?_, hbut, selfId_trackUser seen, channels_trackUser seen⟩
  unfold Store.trackUser
  split
  · rename_i id hid
    simpa [Store.modifyUser] using h.toGrounded.userId?_known hid
  · exact (Table.contains_insert _ _ _ _).mpr (Or.inl rfl)

theorem Coherent.trackChannel (h : s.Coherent) (name : String) :
    s.Follows (s.trackChannel name).1 := by
  refine ⟨⟨h.toGrounded.trackChannel name, ?_⟩, Or.inl (selfId_trackChannel name)⟩
  unfold Store.trackChannel
  split <;> exact h.needed

theorem Coherent.trackChannel_known (h : s.Coherent) (name : String) :
    (s.trackChannel name).1.channels.contains (s.trackChannel name).2 = true := by
  unfold Store.trackChannel
  split
  · rename_i id hid
    exact h.toGrounded.exactChannel?_known hid
  · exact (Table.contains_insert _ _ _ _).mpr (Or.inl rfl)

namespace Admits

variable {id : UserId}

theorem follows (h : s.Admits s' id) (hneeded : s'.Needed id) : s.Follows s' :=
  ⟨h.grounded.coherent h.but hneeded, Or.inl h.self⟩

theorem modifyUser (h : s.Admits s' id) (id' : UserId) {f : User → User}
    (hf : ∀ user, (f user).nick = user.nick ∧ (f user).id = user.id) :
    s.Admits (s'.modifyUser id' f) id where
  grounded := h.grounded.modifyUser id' hf
  known := by simpa [Store.modifyUser] using h.known
  but := h.but.modifyUser id' f
  self := h.self
  channels := h.channels

/-- Pairs of the user are added, and with them a reason to know it. -/
theorem enrol (h : s.Admits s' id)
    (hchannel : s.channels.contains channel = true) {standing : Standing} (hsound : standing.Sound)
    (hpairs : ∀ user' channel', standing.members.contains user' channel' = true ↔
      (user' = id ∧ channel' = channel) ∨ s'.standing.members.contains user' channel' = true) :
    s.Follows { s' with standing := standing } := by
  rw [← h.channels] at hchannel
  have hgrounded : Grounded { s' with standing := standing } := by
    apply h.grounded.withStanding hsound
    intro user' channel' hpair
    rcases (hpairs user' channel').mp hpair with ⟨rfl, rfl⟩ | hbefore
    · exact ⟨h.known, hchannel⟩
    · exact h.grounded.member_known hbefore
  refine ⟨⟨hgrounded, ?_⟩, Or.inl h.self⟩
  intro id' hid'
  rcases h.but id' hid' with hreason | hstray
  · exact hreason.mono (fun channel' hpair => (hpairs id' channel').mpr (Or.inr hpair))
      (fun hcontact => hcontact) (fun hself => hself)
  · rw [List.mem_singleton.mp hstray]
    exact Or.inl ⟨channel, (hpairs id channel).mpr (Or.inl ⟨rfl, rfl⟩)⟩

theorem addMember (h : s.Admits s' id)
    (hchannel : s.channels.contains channel = true) : s.Follows (s'.addMember id channel) :=
  h.enrol hchannel (h.grounded.standing.join id channel) fun user' channel' =>
    Standing.contains_join id user' channel channel'

theorem grant (h : s.Admits s' id) (level : PrivilegeLevel)
    (hchannel : s.channels.contains channel = true) : s.Follows (s'.grant level id channel) :=
  h.enrol hchannel (h.grounded.standing.grant level id channel) fun user' channel' =>
    Standing.contains_grant level id user' channel channel'

theorem addContact (h : s.Admits s' id) : s.Follows (s'.addContact id) := by
  unfold Store.addContact
  split
  · rename_i hcontact
    exact h.follows (Or.inr (Or.inl (List.contains_iff_mem.mp hcontact)))
  · refine ⟨⟨{ h.grounded with contact_known := ?_ }, ?_⟩, Or.inl h.self⟩
    · intro id' hid'
      rcases List.mem_append.mp hid' with hbefore | hnew
      · exact h.grounded.contact_known id' hbefore
      · rw [List.mem_singleton.mp hnew]
        exact h.known
    · intro id' hid'
      rcases h.but id' hid' with hreason | hstray
      · exact hreason.mono (fun _ hpair => hpair) (fun hcontact => List.mem_append_left _ hcontact)
          (fun hself => hself)
      · exact Or.inr (Or.inl (List.mem_append_right _ hstray))

/-- The user turns out to be the client, who was not known to itself before. -/
theorem withSelf (h : s.Admits s' id) (hself : s.selfId = none) : (s'.withSelf id).Coherent := by
  refine ⟨{ h.grounded with self_known := ?_ }, ?_⟩
  · rintro id' hid'
    cases hid'
    exact h.known
  · intro id' hid'
    rcases h.but id' hid' with hreason | hstray
    · refine hreason.mono (fun _ hpair => hpair) (fun hcontact => hcontact) fun hother => ?_
      rw [h.self, hself] at hother
      cases hother
    · rw [List.mem_singleton.mp hstray]
      exact Or.inr (Or.inr rfl)

/-- The user is forgotten again. -/
theorem removeUser (h : s.Admits s' id) :
    ∃ s'', s'.removeUser id = .ok s'' ∧ s.Follows s'' := by
  obtain ⟨standing, hok, hsound, hsheds⟩ := removeUser_spec h.grounded.standing id
  have hfollows := h.grounded.follows_withoutUser h.but hsound hsheds
  refine ⟨_, hok, hfollows.coherent, ?_⟩
  rw [← h.self]
  exact hfollows.self

end Admits

theorem Coherent.grantAll (h : s.Coherent) (levels : List PrivilegeLevel) {id : UserId}
    (hid : s.users.contains id = true) (hchannel : s.channels.contains channel = true) :
    s.FollowsWith (s.grantAll levels id channel) channel := by
  induction levels generalizing s with
  | nil => exact h.followsWith hchannel
  | cons level levels ih =>
    have hfirst := (h.admits hid).grant level hchannel
    have hrest := ih hfirst.coherent hid hchannel
    exact ⟨hfirst.trans hrest.follows, hrest.known⟩

/-- A list of members puts a user on a channel with some privileges. -/
theorem Admits.enlist {id : UserId} (h : s.Admits s' id) (levels : List PrivilegeLevel)
    (hchannel : s.channels.contains channel = true) :
    s.FollowsWith ((s'.addMember id channel).grantAll levels id channel) channel := by
  have hmember := h.addMember hchannel
  rw [← h.channels] at hchannel
  have hgranted := hmember.coherent.grantAll levels h.known hchannel
  exact ⟨hmember.trans hgranted.follows, hgranted.known⟩

/-! ## Operations that may fail -/

theorem Coherent.removeUser (h : s.Coherent) (id : UserId) :
    ∃ s', s.removeUser id = .ok s' ∧ s.Follows s' := by
  obtain ⟨standing, hok, hsound, hsheds⟩ := removeUser_spec h.standing id
  exact ⟨_, hok, h.toGrounded.follows_withoutUser (h.neededBut [id]) hsound hsheds⟩

/-- A user is taken off a channel, and forgotten if that was its last one. -/
theorem Coherent.follows_collect (h : s.Coherent) {standing : Standing} {user : UserId}
    {channel : ChannelId} (hsound : standing.Sound)
    (hsheds : s.standing.Sheds standing fun user' channel' => user' = user ∧ channel' = channel) :
    s.Follows (Store.collect { s with standing := standing } user) := by
  have hbut : NeededBut { s with standing := standing } [user] := by
    refine (h.neededBut []).shed hsheds ?_
    rintro user' channel' - ⟨rfl, -⟩
    exact List.mem_singleton_self _
  have hgrounded := (h.toGrounded.shed hsound hsheds).collect user
  exact ⟨(NeededBut.collect hsound hbut).coherent hgrounded, Or.inl (selfId_collect user)⟩

theorem Coherent.removeMember (h : s.Coherent) (user : UserId) (channel : ChannelId) :
    ∃ s', s.removeMember user channel = .ok s' ∧ s.Follows s' := by
  obtain ⟨standing, hok, hsound, hsheds⟩ := removeMember_spec h.standing user channel
  exact ⟨_, hok, h.follows_collect hsound hsheds⟩

/-- A channel is forgotten, and with it everybody who was on no other. -/
theorem Coherent.follows_forgetChannel (h : s.Coherent) {standing : Standing} {id : ChannelId}
    (hsound : standing.Sound) (hsheds : s.standing.Sheds standing fun _ channel => channel = id) :
    s.Follows ((s.standing.members.usersOf id).foldl Store.collect
      (Store.forgetChannel { s with standing := standing } id)) := by
  have hbut : NeededBut { s with standing := standing } (s.standing.members.usersOf id ++ []) := by
    refine (h.neededBut []).shed hsheds ?_
    rintro user channel hpair rfl
    rw [List.append_nil]
    exact (h.standing.members.mem_usersOf).mpr hpair
  have hempty : ∀ user, standing.members.contains user id ≠ true := by
    intro user hpair
    exact ((hsheds.members user id).mp hpair).2 rfl
  have hgrounded := (h.toGrounded.shed hsound hsheds).forgetChannel hempty
  refine ⟨?_, Or.inl (by simp)⟩
  apply NeededBut.coherent _ (hgrounded.foldl_collect _)
  apply NeededBut.foldl_collect
  · simpa using hsound
  · exact hbut.forgetChannel id

theorem Coherent.removeChannel (h : s.Coherent) (id : ChannelId) :
    ∃ s', s.removeChannel id = .ok s' ∧ s.Follows s' := by
  obtain ⟨standing, hok, hsound, hsheds⟩ := removeChannel_spec h.standing id
  exact ⟨_, hok, h.follows_forgetChannel hsound hsheds⟩

/-- Privileges are taken away, but nobody leaves a channel. -/
theorem Coherent.follows_withStanding (h : s.Coherent) {standing : Standing}
    (hsound : standing.Sound) (hmembers : standing.members = s.standing.members) :
    s.Follows { s with standing := standing } := by
  refine ⟨⟨h.toGrounded.withStanding hsound ?_, ?_⟩, Or.inl rfl⟩
  · intro user channel hpair
    rw [hmembers] at hpair
    exact h.member_known hpair
  · intro id hid
    refine (h.needed id hid).mono (fun channel hpair => ?_) (fun hcontact => hcontact)
      (fun hself => hself)
    rw [hmembers]
    exact hpair

theorem Coherent.evictOther (h : s.Coherent) (id : UserId) (nick : String) :
    ∃ s', s.evictOther id nick = .ok s' ∧ s.Follows s' ∧ s'.users.get? id = s.users.get? id := by
  rcases evictOther_spec h.standing id nick with
    ⟨hok, -⟩ | ⟨holder, standing, -, hne, hok, hsound, hsheds⟩
  · exact ⟨s, hok, h.follows, rfl⟩
  · refine ⟨_, hok, h.toGrounded.follows_withoutUser (h.neededBut [holder]) hsound hsheds, ?_⟩
    rw [Store.withoutUser, get?_users_forgetUser, if_neg hne]

theorem Coherent.renameUser (h : s.Coherent) (id : UserId) (nick : String) :
    ∃ s', s.renameUser id nick = .ok s' ∧ s.Follows s' := by
  cases hget : s.users.get? id with
  | none => exact ⟨s, renameUser_of_unknown hget nick, h.follows⟩
  | some user =>
    obtain ⟨cleared, hcleared, hfollows, hkept⟩ := h.evictOther id nick
    have huser : cleared.users.get? id = some user := by rw [hkept, hget]
    have hrenamed : cleared.Follows (cleared.renamed user id nick) := by
      refine ⟨⟨hfollows.coherent.toGrounded.renamed huser nick, ?_⟩, Or.inl rfl⟩
      intro id' hid'
      apply hfollows.coherent.needed id'
      simpa [Store.renamed] using hid'
    exact ⟨_, renameUser_of_known hget hcleared, hfollows.trans hrenamed⟩

end IrcClient.Store
