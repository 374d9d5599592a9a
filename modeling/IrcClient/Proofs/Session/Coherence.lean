import IrcClient.Proofs.Mode.Apply
import IrcClient.Proofs.Registration.Welcome
import IrcClient.Proofs.Session.Run

/-!
# Sessions keep their store coherent

Every handler finds the store in order and leaves it coherent. The client's own user becomes known
with the welcome, and there is only one, so no earlier own user is left behind as a stray.
-/

namespace IrcClient

theorem Store.Coherent.observe {s : Store} (h : s.Coherent) (source : Hostmask) :
    s.Follows (s.observe source) := by
  unfold Store.observe
  split
  · exact h.modifyUser _ (fun user => ⟨user.nick_absorb source, user.id_absorb source⟩)
  · exact h.follows

namespace Session

variable {s s' : Session}

/-- A line was handled without finding a fault, by changes of a coherent store. -/
structure Keeps (s : Session) (h : Handling) : Prop where
  fault : h.fault = none
  store : s.store.Follows h.session.store
  registration : h.session.registration = s.registration

/-- The invariant of a session: before its welcome it does not know its own user. -/
structure Sound (s : Session) : Prop where
  coherent : s.store.Coherent
  self : s.registration.phase = .waiting → s.store.selfId = none

theorem Sound.of_keeps {h : Handling} (hs : s.Sound) (hkeeps : s.Keeps h) : h.session.Sound := by
  refine ⟨hkeeps.store.coherent, ?_⟩
  intro hphase
  rw [hkeeps.registration] at hphase
  rcases hkeeps.store.self with hself | hself
  · rw [hself]
    exact hs.self hphase
  · exact hself

/-- A line that leaves the store and the registration alone. -/
theorem keeps_of_eq (h : s.store.Coherent) {outcome : Session × List Action}
    (hstore : outcome.1.store = s.store) (hregistration : outcome.1.registration = s.registration) :
    s.Keeps (.sound outcome) := by
  refine ⟨rfl, ?_, hregistration⟩
  change s.store.Follows outcome.1.store
  rw [hstore]
  exact h.follows

theorem keeps_unchanged (h : s.store.Coherent) (actions : List Action) :
    s.Keeps (.sound (s, actions)) :=
  keeps_of_eq h rfl rfl

theorem keeps_attempt {α : Type} {result : Except ConsistencyFault α} {a : α}
    {k : α → Session × List Action} (hok : result = .ok a) (hk : s.Keeps (.sound (k a))) :
    s.Keeps (s'.attempt result k) := by
  rw [hok]
  exact hk

theorem Keeps.trans {h : Handling} (s' : Session) (hstore : s.store.Follows s'.store)
    (hregistration : s'.registration = s.registration) (hkeeps : s'.Keeps h) : s.Keeps h :=
  ⟨hkeeps.fault, hstore.trans hkeeps.store, hkeeps.registration.trans hregistration⟩

theorem Keeps.after {h : Handling} (hkeeps : s.Keeps h) (first : List Action) :
    s.Keeps (h.after first) :=
  ⟨hkeeps.fault, hkeeps.store, hkeeps.registration⟩

/-! ## Coming and going -/

theorem enterChannel_spec (h : s.store.Coherent) {nick name : String} {channel : ChannelId}
    {asked : List Action} (hentered : s.enterChannel nick name = some (s', channel, asked)) :
    s.store.Follows s'.store ∧ s'.registration = s.registration ∧
      s'.store.channels.contains channel = true := by
  unfold enterChannel at hentered
  split at hentered
  · cases hentered
    exact ⟨h.trackChannel name, rfl, h.trackChannel_known name⟩
  · obtain ⟨id, hid, heq⟩ := Option.map_eq_some_iff.mp hentered
    cases heq
    exact ⟨h.follows, rfl, h.toGrounded.channelId?_known hid⟩

theorem joinDetails_spec (line : Line) (user : User) :
    (joinDetails line user).nick = user.nick ∧ (joinDetails line user).id = user.id := by
  unfold joinDetails
  split <;> exact ⟨rfl, rfl⟩

theorem keeps_onJoin (h : s.store.Coherent) (source : Hostmask) (line : Line) :
    s.Keeps (.sound (s.onJoin source line)) := by
  unfold onJoin
  split
  · exact keeps_unchanged h _
  · rename_i s' channel asked hentered
    obtain ⟨name, -, hentered⟩ := Option.bind_eq_some_iff.mp hentered
    obtain ⟨hfollows, hregistration, hchannel⟩ := enterChannel_spec h hentered
    have hadmits := hfollows.coherent.trackUser source
    have hdetailed := hadmits.modifyUser (s'.store.trackUser source).2 (joinDetails_spec line)
    exact ⟨rfl, hfollows.trans (hdetailed.addMember hchannel), hregistration⟩

theorem takeOff_spec {store : Store} (h : store.Coherent) (user : UserId) (channel : ChannelId) :
    ∃ store', takeOff store user channel = .ok store' ∧ store.Follows store' := by
  unfold takeOff
  split
  · exact h.removeChannel channel
  · exact h.removeMember user channel

theorem keeps_onPart (h : s.store.Coherent) (source : Hostmask) (line : Line) :
    s.Keeps (s.onPart source line) := by
  unfold onPart
  split
  · rename_i channel user _ _
    dsimp only
    split
    · obtain ⟨store, hok, hfollows⟩ := takeOff_spec h user channel
      exact keeps_attempt hok ⟨rfl, hfollows, rfl⟩
    · exact keeps_unchanged h _
  · exact keeps_unchanged h _

theorem dismiss_spec {store : Store} (h : store.Coherent) (user : Option UserId) :
    ∃ store', dismiss store user = .ok store' ∧ store.Follows store' := by
  unfold dismiss
  split
  · rename_i id
    split
    · exact ⟨store, rfl, h.follows⟩
    · exact h.removeUser id
  · exact ⟨store, rfl, h.follows⟩

theorem keeps_onQuit (h : s.store.Coherent) (source : Hostmask) (line : Line) :
    s.Keeps (s.onQuit source line) := by
  obtain ⟨store, hok, hfollows⟩ := dismiss_spec h (s.store.userId? source.nick)
  exact keeps_attempt hok ⟨rfl, hfollows, rfl⟩

theorem keeps_onKick (h : s.store.Coherent) (source : Hostmask) (line : Line) :
    s.Keeps (s.onKick source line) := by
  unfold onKick
  split
  · rename_i channel nick _ _
    have hobserved := h.observe source
    refine Keeps.trans (s.onStore fun store => store.observe source) hobserved rfl ?_
    dsimp only
    split
    · exact keeps_unchanged hobserved.coherent _
    · split
      · rename_i id _
        obtain ⟨store, hok, hfollows⟩ := takeOff_spec hobserved.coherent id channel
        exact keeps_attempt hok ⟨rfl, hfollows, rfl⟩
      · exact keeps_attempt rfl ⟨rfl, hobserved.coherent.follows, rfl⟩
  · exact keeps_unchanged h _

theorem keeps_onNick (h : s.store.Coherent) (source : Hostmask) (line : Line) :
    s.Keeps (s.onNick source line) := by
  unfold onNick
  split
  · exact keeps_unchanged h _
  · rename_i nick _
    dsimp only
    split
    · rename_i id _
      obtain ⟨store, hok, hfollows⟩ := h.renameUser id nick
      exact keeps_attempt hok ⟨rfl, hfollows, rfl⟩
    · exact keeps_attempt rfl ⟨rfl, h.follows, rfl⟩

theorem needed_of_shares {store : Store} {id : UserId}
    (hshares : (!store.isSelf id && (store.channelsOf id).isEmpty) = false) : store.Needed id := by
  rw [Bool.and_eq_false_iff, Bool.not_eq_false'] at hshares
  rcases hshares with hself | hchannels
  · exact Or.inr (Or.inr (by simpa [Store.isSelf] using hself))
  · rw [List.isEmpty_eq_false_iff_exists_mem] at hchannels
    obtain ⟨channel, hchannel⟩ := hchannels
    obtain ⟨id', hid', -⟩ := List.mem_filterMap.mp hchannel
    exact Or.inl ⟨id', Relation.Sound.mem_channelsOf.mp hid'⟩

/-- An inviter is on a channel, is the client itself, or is forgotten again. -/
theorem keeps_onInvite (h : s.store.Coherent) (source : Hostmask) (line : Line) :
    s.Keeps (s.onInvite source line) := by
  unfold onInvite
  split
  · exact keeps_unchanged h _
  · have hadmits := h.trackUser source
    dsimp only
    split
    · obtain ⟨store, hok, hfollows⟩ := hadmits.removeUser
      simp only [attempt, hok]
      exact ⟨rfl, hfollows, rfl⟩
    · -- The inviter was kept for what the handler has just looked at.
      rename_i hkept
      refine ⟨rfl, hadmits.follows (needed_of_shares ?_), rfl⟩
      rwa [Bool.not_eq_true] at hkept

theorem keeps_onAway (h : s.store.Coherent) (source : Hostmask) (line : Line) :
    s.Keeps (.sound (s.onAway source line, [])) := by
  have hobserved := h.observe source
  refine ⟨rfl, hobserved.trans ?_, rfl⟩
  simp only [Handling.sound, onAway, onStore]
  split
  · exact hobserved.coherent.modifyUser _ fun _ => ⟨rfl, rfl⟩
  · exact hobserved.coherent.follows

/-! ## Modes, topics and messages -/

theorem keeps_onMode (h : s.store.Coherent) (source : Hostmask) (line : Line) :
    s.Keeps (s.onMode source line) := by
  unfold onMode
  split
  · rename_i target modes args _
    have hobserved := h.observe source
    refine Keeps.trans (s.onStore fun store => store.observe source) hobserved rfl ?_
    dsimp only
    split
    · exact keeps_unchanged hobserved.coherent _
    · split
      · exact keeps_unchanged hobserved.coherent _
      · rename_i channel hchannel
        have hknown := hobserved.coherent.toGrounded.channelId?_known hchannel
        obtain ⟨store, events, hok, hfollows⟩ := hobserved.coherent.applyModes hknown
          ((s.onStore fun store => store.observe source).store.sourceSnapshot source) modes args
        exact keeps_attempt hok ⟨rfl, hfollows, rfl⟩
  · exact keeps_unchanged h _

theorem keeps_onTopic (h : s.store.Coherent) (clock : Clock) (source : Hostmask) (line : Line) :
    s.Keeps (.sound (s.onTopic clock source line)) := by
  unfold onTopic
  split
  · exact ⟨rfl, h.modifyChannel _ fun _ => ⟨rfl, rfl⟩, rfl⟩
  · exact keeps_unchanged h _

theorem noteSpeaker_spec (h : s.store.Coherent) (channel : Option ChannelId) (source : Hostmask) :
    s.store.Follows (s.noteSpeaker channel source).1.store ∧
      (s.noteSpeaker channel source).1.registration = s.registration := by
  unfold noteSpeaker
  split
  · exact ⟨h.observe source, rfl⟩
  · unfold meet
    split
    · exact ⟨h.follows, rfl⟩
    · exact ⟨(h.trackUser source).addContact, rfl⟩

theorem keeps_onMessage (h : s.store.Coherent) (clock : Clock) (isNotice : Bool)
    (source : Hostmask) (line : Line) :
    s.Keeps (.sound (s.onMessage clock isNotice source line)) := by
  unfold onMessage
  split
  · rename_i target text _ _
    obtain ⟨hfollows, hregistration⟩ := noteSpeaker_spec h (s.channelOf? target) source
    dsimp only
    split
    · split
      · exact ⟨rfl, hfollows, hregistration⟩
      · exact ⟨rfl, hfollows, hregistration⟩
    · exact ⟨rfl, hfollows, hregistration⟩
  · exact keeps_unchanged h _

/-! ## Numerics -/

theorem tracked?_known (h : s.store.Coherent) {line : Line} {index : Nat} {channel : ChannelId}
    (hchannel : s.tracked? line index = some channel) :
    s.store.channels.contains channel = true := by
  obtain ⟨name, -, hname⟩ := Option.bind_eq_some_iff.mp hchannel
  exact h.toGrounded.channelId?_known hname

theorem keeps_updateChannel (h : s.store.Coherent) (channel : ChannelId) {f : Channel → Channel}
    (hf : ∀ c, (f c).name = c.name ∧ (f c).id = c.id) (event : ChannelSnapshot → Event) :
    s.Keeps (.sound (s.updateChannel channel f event)) :=
  ⟨rfl, h.modifyChannel channel hf, rfl⟩

theorem keeps_onFeatures (h : s.store.Coherent) (line : Line) :
    s.Keeps (.sound (s.onFeatures line)) := by
  unfold onFeatures
  split
  · exact keeps_unchanged h _
  · rename_i features _
    have hmapping : s.store.Follows (if features.caseMapping?.isSome then
        s.store.withCaseMapping (s.info.withFeatures features).caseMapping else s.store) := by
      split
      · exact h.withCaseMapping _
      · exact h.follows
    refine ⟨rfl, ?_, rfl⟩
    dsimp only [Handling.sound]
    cases features.channelTypes? with
    | none =>
      split
      · exact hmapping.trans (hmapping.coherent.withStatusSymbols _)
      · exact hmapping
    | some prefixes =>
      have hprefixes := hmapping.trans (hmapping.coherent.withChannelPrefixes prefixes)
      split
      · exact hprefixes.trans (hprefixes.coherent.withStatusSymbols _)
      · exact hprefixes

theorem record_spec (entry : WhoEntry) (user : User) :
    (entry.record user).nick = user.nick ∧ (entry.record user).id = user.id := by
  unfold WhoEntry.record
  split
  exact ⟨rfl, rfl⟩

theorem keeps_onWho (h : s.store.Coherent) (line : Line) :
    s.Keeps (.sound (s.onWho line, [])) := by
  unfold onWho
  split
  · exact keeps_unchanged h _
  · rename_i entry _
    have hrecord := record_spec entry
    dsimp only
    cases hchannel : s.tracked? line 1 with
    | none =>
      cases s.store.userId? entry.nick with
      | none => exact keeps_unchanged h _
      | some id => exact ⟨rfl, h.modifyUser id hrecord, rfl⟩
    | some channel =>
      have hknown := tracked?_known h hchannel
      cases hid : s.store.userId? entry.nick with
      | none =>
        have hadmits := h.trackUser (.ofParts entry.nick (some entry.login) (some entry.host))
        exact ⟨rfl, ((hadmits.modifyUser _ hrecord).enlist _ hknown).follows, rfl⟩
      | some id =>
        have hadmits := h.admits (h.toGrounded.userId?_known hid)
        exact ⟨rfl, ((hadmits.modifyUser id hrecord).enlist _ hknown).follows, rfl⟩

theorem addName_spec {store : Store} (h : store.Coherent) (info : ServerInfo) {channel : ChannelId}
    (hchannel : store.channels.contains channel = true) (entry : List Char) :
    store.FollowsWith (addName info channel store entry) channel := by
  unfold addName
  dsimp only
  split
  · exact h.followsWith hchannel
  · exact (h.trackUser _).enlist _ hchannel

theorem foldl_addName_spec {store : Store} (h : store.Coherent) (info : ServerInfo)
    {channel : ChannelId} (hchannel : store.channels.contains channel = true)
    (entries : List (List Char)) :
    store.FollowsWith (entries.foldl (addName info channel) store) channel := by
  induction entries generalizing store with
  | nil => exact h.followsWith hchannel
  | cons entry entries ih =>
    have hfirst := addName_spec h info hchannel entry
    exact hfirst.trans (ih hfirst.follows.coherent hfirst.known)

theorem keeps_onNames (h : s.store.Coherent) (line : Line) :
    s.Keeps (.sound (s.onNames line, [])) := by
  unfold onNames
  split
  · rename_i channel names hchannel _
    have hknown := tracked?_known h hchannel
    exact ⟨rfl, (foldl_addName_spec h s.info hknown _).follows, rfl⟩
  · exact keeps_unchanged h _

theorem keeps_onListEnd (h : s.store.Coherent) (line : Line) (complete : Bool) :
    s.Keeps (.sound (s.onListEnd line complete)) := by
  unfold onListEnd
  split <;> exact keeps_unchanged h _

theorem keeps_onChannelMode (h : s.store.Coherent) (line : Line) :
    s.Keeps (.sound (s.onChannelMode line)) := by
  unfold onChannelMode
  split
  · apply keeps_updateChannel h
    exact fun _ => ⟨rfl, rfl⟩
  · exact keeps_unchanged h _

theorem keeps_onCreationTime (h : s.store.Coherent) (line : Line) :
    s.Keeps (.sound (s.onCreationTime line)) := by
  unfold onCreationTime
  split
  · apply keeps_updateChannel h
    exact fun _ => ⟨rfl, rfl⟩
  · exact keeps_unchanged h _

theorem keeps_onTopicText (h : s.store.Coherent) (line : Line) :
    s.Keeps (.sound (s.onTopicText line, [])) := by
  unfold onTopicText
  split
  · exact ⟨rfl, h.modifyChannel _ fun _ => ⟨rfl, rfl⟩, rfl⟩
  · exact keeps_unchanged h _

theorem keeps_onTopicSetter (h : s.store.Coherent) (line : Line) :
    s.Keeps (.sound (s.onTopicSetter line)) := by
  unfold onTopicSetter
  split
  · apply keeps_updateChannel h
    exact fun _ => ⟨rfl, rfl⟩
  · exact keeps_unchanged h _

theorem extendUser_spec (code : Nat) (line : Line) (user : User) :
    (extendUser code line user).nick = user.nick ∧ (extendUser code line user).id = user.id := by
  unfold extendUser
  split
  · cases line.param 2 <;> cases line.param 3 <;> exact ⟨rfl, rfl⟩
  · exact ⟨rfl, rfl⟩
  · exact ⟨rfl, rfl⟩
  · exact ⟨rfl, rfl⟩
  · exact ⟨rfl, rfl⟩

theorem keeps_onWhois (h : s.store.Coherent) (code : Nat) (line : Line) :
    s.Keeps (.sound (s.onWhois code line)) := by
  unfold onWhois
  split
  · exact keeps_unchanged h _
  · dsimp only
    split
    · exact keeps_of_eq h rfl rfl
    · exact keeps_of_eq h rfl rfl
    · refine ⟨rfl, ?_, rfl⟩
      dsimp only [Handling.sound]
      split
      · exact h.modifyUser _ (extendUser_spec code line)
      · exact h.follows

theorem keeps_numericEffect (h : s.store.Coherent) (code : Nat) (line : Line) :
    s.Keeps (.sound (s.numericEffect code line)) := by
  unfold numericEffect
  split
  · exact keeps_of_eq h rfl rfl
  · exact keeps_onFeatures h line
  · exact keeps_of_eq h rfl rfl
  · exact keeps_of_eq h rfl rfl
  · exact keeps_of_eq h rfl rfl
  · exact keeps_onChannelMode h line
  · exact keeps_onCreationTime h line
  · exact keeps_onTopicText h line
  · exact keeps_onTopicSetter h line
  · exact keeps_onWho h line
  · exact keeps_onListEnd h line true
  · exact keeps_onNames h line
  · exact keeps_onListEnd h line false
  · exact keeps_of_eq h rfl rfl
  · exact keeps_of_eq h rfl rfl
  · exact keeps_of_eq h rfl rfl
  · exact keeps_onWhois h _ line
  · exact keeps_onWhois h _ line
  · exact keeps_onWhois h _ line
  · exact keeps_onWhois h _ line
  · exact keeps_onWhois h _ line
  · exact keeps_onWhois h _ line
  · exact keeps_onWhois h _ line
  · exact keeps_onWhois h _ line
  · exact keeps_unchanged h _

theorem keeps_onNumeric (h : s.store.Coherent) (code : Nat) (line : Line) :
    s.Keeps (.sound (s.onNumeric code line)) := by
  obtain ⟨-, hstore, hregistration⟩ := keeps_numericEffect h code line
  exact ⟨rfl, hstore, hregistration⟩

/-! ## Lines -/

theorem keeps_dispatch (h : s.store.Coherent) (clock : Clock) (line : Line) :
    s.Keeps (s.dispatch clock line) := by
  unfold dispatch
  split
  · exact keeps_onNumeric h _ line
  · exact keeps_unchanged h _
  · exact keeps_unchanged h _
  · exact keeps_unchanged h _
  · exact keeps_unchanged h _
  · split
    · exact keeps_unchanged h _
    · rename_i source _
      split
      · exact keeps_onMessage h clock false source line
      · exact keeps_onMessage h clock true source line
      · exact keeps_onJoin h source line
      · exact keeps_onPart h source line
      · exact keeps_onQuit h source line
      · exact keeps_onKick h source line
      · exact keeps_onNick h source line
      · exact keeps_onMode h source line
      · exact keeps_onTopic h clock source line
      · exact keeps_onInvite h source line
      · exact keeps_onAway h source line
      · exact keeps_unchanged h _

theorem Sound.connect (hs : s.Sound) {registration : Registration Handler} {nick : String}
    (hself : s.store.selfId = none) (hphase : registration.phase = .welcomed) :
    (Session.connect { s with registration := registration } nick).1.Sound := by
  refine ⟨(hs.coherent.trackUser (.ofNick nick)).withSelf hself, ?_⟩
  intro hwaiting
  change registration.phase = .waiting at hwaiting
  rw [hphase] at hwaiting
  cases hwaiting

theorem completedAs?_eq_some {request : RegistrationAction} {nick : String}
    (h : completedAs? request = some nick) : request = .complete nick := by
  unfold completedAs? at h
  split at h
  · cases h
    rfl
  · cases h

theorem Sound.register (hs : s.Sound) (line : Line) : (s.register line).1.Sound := by
  unfold Session.register
  split
  · rename_i hwaiting
    -- Nobody is the client yet, so whoever it turns out to be, no earlier own user is left over.
    have hself := hs.self hwaiting
    dsimp only
    split
    · exact ⟨hs.coherent, fun _ => hself⟩
    · split
      · rename_i nick hnick
        obtain ⟨request, hmem, hrequest⟩ := List.exists_of_findSome?_eq_some hnick
        rw [completedAs?_eq_some hrequest] at hmem
        exact hs.connect hself (Registration.phase_of_complete_mem_feed hmem)
      · exact ⟨hs.coherent, fun _ => hself⟩
  · exact hs

/-- Every line is handled without finding a fault. -/
theorem Sound.handle (hs : s.Sound) (clock : Clock) (line : Line) :
    (s.handle clock line).fault = none ∧ (s.handle clock line).session.Sound := by
  unfold Session.handle
  split
  · exact ⟨rfl, hs⟩
  · have hregistered := hs.register line
    dsimp only
    split
    · exact ⟨rfl, hregistered⟩
    · have hkeeps := keeps_dispatch hregistered.coherent clock line
      exact ⟨hkeeps.fault, hregistered.of_keeps (hkeeps.after _)⟩

theorem Sound.receive (hs : s.Sound) (input : Input) : (s.receive input).Sound := by
  cases input with
  | line clock raw =>
    simp only [Session.receive, handleLine]
    split
    · rename_i line _
      obtain ⟨hfault, hsound⟩ := hs.handle clock line
      simpa only [Handling.report, hfault] using hsound
    · exact hs
    · exact hs
  | disconnect error =>
    simp only [Session.receive, Session.disconnect]
    split
    · exact hs
    · exact ⟨(Store.Coherent.clear s.store).coherent, fun _ => rfl⟩

theorem sound_opened (config : ClientConfig) : (opened config).Sound :=
  ⟨(Store.Coherent.initial.withChannelPrefixes config.channelPrefixes).coherent, fun _ => rfl⟩

end Session

end IrcClient
