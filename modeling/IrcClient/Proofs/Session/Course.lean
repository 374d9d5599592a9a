import IrcClient.Proofs.Session.Departure
import IrcClient.Proofs.Store.Renaming

/-!
# What a line can do to the store

Whatever a line is about, it does one of a few things to the users and channels that the session
knows. What a session keeps to over all lines is shown for each of these, and not for each handler.
-/

namespace IrcClient.Session

variable {s t : Session} {line : Line}

/-- The session after something was learnt about users and channels, while nobody was gone. -/
structure Learns (s t : Session) : Prop where
  nick : t.nick = s.nick
  grows : s.store.Grows t.store

/-- The session after a line was handled by what it is about. -/
inductive Course (s : Session) (line : Line) (t : Session) : Prop where
  | learnt (hlearns : s.Learns t)
  /-- The client joined a channel. -/
  | joined {source : Hostmask} {name : String} {user : UserId} (hverb : line.verb = .join)
      (hsource : line.source = some source) (hname : line.param 0 = some name)
      (hown : s.isOwnNick source.nick = true) (hnick : t.nick = s.nick)
      (hgrows : (s.store.trackChannel name).1.Grows t.store)
      (huser : t.store.userId? source.nick = some user)
      (hmember : t.store.standing.members.contains user (s.store.trackChannel name).2 = true)
  /-- Somebody left, but not the client, unless it left a channel. -/
  | departed {base : Store} {d : Departure} (hnick : t.nick = s.nick)
      (hgrows : s.store.Grows base) (hloses : base.Loses t.store d)
      (hspares : ∀ me, s.store.selfId = some me → d ≠ .quit me ∧ ∀ channel, d ≠ .leave me channel)
      (hcloses : ∀ channel, d = .close channel → s.Expels line channel)
  /-- A known user took another nick. -/
  | renamed {source : Hostmask} {nick : String} {id : UserId} (hverb : line.verb = .nick)
      (hsource : line.source = some source) (hparam : line.param 0 = some nick)
      (hid : s.store.userId? source.nick = some id) (hrenames : s.store.Renames t.store id nick)
      (hnick : t.nick = if s.store.directory.caseMapping.same source.nick s.nick then nick else s.nick)
  /-- Somebody unknown took another nick, which matters to the session if it takes it for its own. -/
  | overheard {source : Hostmask} {nick : String} (hverb : line.verb = .nick)
      (hid : s.store.userId? source.nick = none) (hstore : t.store = s.store)
      (hnick : t.nick = if s.store.directory.caseMapping.same source.nick s.nick then nick else s.nick)
  /-- The case mapping was announced. -/
  | remapped {mapping : CaseMapping} (hnick : t.nick = s.nick)
      (hgrows : (s.store.withCaseMapping mapping).Grows t.store)

theorem learns_of_eq (h : s.store.Coherent) (hstore : t.store = s.store) (hnick : t.nick = s.nick) :
    s.Learns t := by
  refine ⟨hnick, ?_⟩
  rw [hstore]
  exact .refl h.toGrounded

theorem learns_refl (h : s.store.Coherent) : s.Learns s := learns_of_eq h rfl rfl

/-! ## Coming and going -/

theorem course_of_departs {h : Handling} {base : Store} {d : Departure}
    (hverb : line.verb ∈ [.part, .quit, .kick]) (hdeparts : s.Departs line h base d) :
    s.Course line h.session := by
  refine .departed hdeparts.nick hdeparts.grows hdeparts.loses ?_ ?_
  · intro me hself
    rcases hdeparts.departure with rfl | rfl
    · simp
    · exact departureOf_spares hself
  · intro channel hclose
    rcases hdeparts.departure with rfl | rfl
    · cases hclose
    · exact expels_of_close hverb hclose

/-- Somebody is put on a channel that is known. -/
theorem grows_onJoin {store : Store} (h : store.Grounded) {channel : ChannelId}
    (hchannel : store.channels.contains channel = true) (source : Hostmask) (line : Line) :
    store.Grows (((store.trackUser source).1.modifyUser (store.trackUser source).2
      (joinDetails line)).addMember (store.trackUser source).2 channel) := by
  have htracked := h.grows_trackUser source
  have hdetailed := htracked.grounded.grows_modifyUser (store.trackUser source).2
    (joinDetails_spec line)
  have hknown := htracked.grounded.userId?_known (store.userId?_trackUser source)
  have hgrows := htracked.trans hdetailed
  rw [← hgrows.channel_known] at hchannel
  exact hgrows.trans (hgrows.grounded.grows_addMember (hdetailed.user_known hknown) hchannel)

theorem course_onJoin (h : s.store.Coherent) {source : Hostmask} (hverb : line.verb = .join)
    (hsource : line.source = some source) : s.Course line (s.onJoin source line).1 := by
  unfold onJoin
  split
  · exact .learnt (learns_refl h)
  · rename_i t channel asked hentered
    obtain ⟨name, hname, hentered⟩ := Option.bind_eq_some_iff.mp hentered
    unfold enterChannel at hentered
    split at hentered
    · rename_i hown
      cases hentered
      have htracked := h.trackChannel name
      refine .joined hverb hsource hname hown rfl
        (grows_onJoin htracked.coherent.toGrounded (h.trackChannel_known name) source line)
        (Store.userId?_trackUser source) ?_
      exact (Standing.contains_join ..).mpr (Or.inl ⟨rfl, rfl⟩)
    · obtain ⟨id, hid, heq⟩ := Option.map_eq_some_iff.mp hentered
      cases heq
      exact .learnt ⟨rfl, grows_onJoin h.toGrounded (h.toGrounded.channelId?_known hid) source line⟩

theorem course_onNick (h : s.store.Coherent) {source : Hostmask} (hverb : line.verb = .nick)
    (hsource : line.source = some source) : s.Course line (s.onNick source line).session := by
  unfold onNick
  split
  · exact .learnt (learns_refl h)
  · rename_i nick hparam
    dsimp only
    split
    · rename_i id hid
      obtain ⟨user, huser⟩ := (Table.contains_iff _ _).mp (h.toGrounded.userId?_known hid)
      obtain ⟨store, hok, hrenames⟩ := h.renames_renameUser huser nick
      rw [hok]
      have hmapping := hrenames.caseMapping
      refine .renamed hverb hsource hparam hid hrenames ?_
      simp only [attempt, Handling.sound, hmapping]
    · rename_i hid
      exact .overheard hverb hid rfl rfl

/-- An inviter is forgotten again only if it is not the client. -/
theorem course_onInvite (h : s.store.Coherent) (source : Hostmask) (line : Line) :
    s.Course line (s.onInvite source line).session := by
  have htracked := h.toGrounded.grows_trackUser source
  unfold onInvite
  split
  · exact .learnt (learns_refl h)
  · dsimp only
    split
    · rename_i hstray
      simp only [Bool.and_eq_true, Bool.not_eq_true'] at hstray
      obtain ⟨store, hok, hloses⟩ := htracked.grounded.loses_removeUser (s.store.trackUser source).2
      simp only [attempt, hok]
      refine .departed rfl htracked hloses ?_ (by simp)
      intro me hself
      refine ⟨?_, by simp⟩
      rintro heq
      cases heq
      simp [Store.isSelf, hself] at hstray
    · exact .learnt ⟨rfl, htracked⟩

theorem learns_onAway (h : s.store.Coherent) (source : Hostmask) (line : Line) :
    s.Learns (s.onAway source line) := by
  have hobserved := h.toGrounded.grows_observe source
  refine ⟨rfl, hobserved.trans ?_⟩
  simp only [onAway, onStore]
  split
  · exact hobserved.grounded.grows_modifyUser _ fun _ => ⟨rfl, rfl⟩
  · exact .refl hobserved.grounded

/-! ## Modes, topics and messages -/

theorem learns_onMode (h : s.store.Coherent) (source : Hostmask) (line : Line) :
    s.Learns (s.onMode source line).session := by
  have hobserved := h.toGrounded.grows_observe source
  unfold onMode
  split
  · rename_i target modes args _
    dsimp only
    split
    · exact ⟨rfl, hobserved⟩
    · split
      · exact ⟨rfl, hobserved⟩
      · rename_i channel hchannel
        have hknown := hobserved.grounded.channelId?_known hchannel
        obtain ⟨store, events, hok, hgrows⟩ := hobserved.grounded.grows_applyModes hknown
          ((s.onStore fun store => store.observe source).store.sourceSnapshot source) modes args
        simp only [attempt, onStore] at hok ⊢
        rw [hok]
        exact ⟨rfl, hobserved.trans hgrows⟩
  · exact learns_refl h

theorem learns_onTopic (h : s.store.Coherent) (clock : Clock) (source : Hostmask) (line : Line) :
    s.Learns (s.onTopic clock source line).1 := by
  unfold onTopic
  split
  · exact ⟨rfl, h.toGrounded.grows_modifyChannel _ fun _ => ⟨rfl, rfl⟩⟩
  · exact learns_refl h

theorem learns_noteSpeaker (h : s.store.Coherent) (channel : Option ChannelId)
    (source : Hostmask) : s.Learns (s.noteSpeaker channel source).1 := by
  unfold noteSpeaker
  split
  · exact ⟨rfl, h.toGrounded.grows_observe source⟩
  · unfold meet
    split
    · exact learns_refl h
    · have htracked := h.toGrounded.grows_trackUser source
      have hknown := htracked.grounded.userId?_known (s.store.userId?_trackUser source)
      exact ⟨rfl, htracked.trans (htracked.grounded.grows_addContact hknown)⟩

theorem learns_onMessage (h : s.store.Coherent) (clock : Clock) (isNotice : Bool)
    (source : Hostmask) (line : Line) :
    s.Learns (s.onMessage clock isNotice source line).1 := by
  unfold onMessage
  split
  · rename_i target text _ _
    have hnoted := learns_noteSpeaker h (s.channelOf? target) source
    dsimp only
    split
    · split <;> exact hnoted
    · exact hnoted
  · exact learns_refl h

/-! ## Numerics -/

theorem learns_updateChannel (h : s.store.Coherent) (channel : ChannelId) {f : Channel → Channel}
    (hf : ∀ c, (f c).name = c.name ∧ (f c).id = c.id) (event : ChannelSnapshot → Event) :
    s.Learns (s.updateChannel channel f event).1 :=
  ⟨rfl, h.toGrounded.grows_modifyChannel channel hf⟩

theorem learns_onChannelMode (h : s.store.Coherent) (line : Line) :
    s.Learns (s.onChannelMode line).1 := by
  unfold onChannelMode
  split
  · apply learns_updateChannel h
    exact fun _ => ⟨rfl, rfl⟩
  · exact learns_refl h

theorem learns_onCreationTime (h : s.store.Coherent) (line : Line) :
    s.Learns (s.onCreationTime line).1 := by
  unfold onCreationTime
  split
  · apply learns_updateChannel h
    exact fun _ => ⟨rfl, rfl⟩
  · exact learns_refl h

theorem learns_onTopicText (h : s.store.Coherent) (line : Line) :
    s.Learns (s.onTopicText line) := by
  unfold onTopicText
  split
  · exact ⟨rfl, h.toGrounded.grows_modifyChannel _ fun _ => ⟨rfl, rfl⟩⟩
  · exact learns_refl h

theorem learns_onTopicSetter (h : s.store.Coherent) (line : Line) :
    s.Learns (s.onTopicSetter line).1 := by
  unfold onTopicSetter
  split
  · apply learns_updateChannel h
    exact fun _ => ⟨rfl, rfl⟩
  · exact learns_refl h

theorem learns_onListEnd (h : s.store.Coherent) (line : Line) (complete : Bool) :
    s.Learns (s.onListEnd line complete).1 := by
  unfold onListEnd
  split <;> exact learns_refl h

theorem course_onFeatures (h : s.store.Coherent) (line : Line) :
    s.Course line (s.onFeatures line).1 := by
  unfold onFeatures
  split
  · exact .learnt (learns_refl h)
  · rename_i features _
    have hsymbols {store store' : Store} (hgrows : store.Grows store') :
        store.Grows (if features.status?.isSome || features.statusMessage?.isSome then
          store'.withStatusSymbols (s.info.withFeatures features).targetSymbols else store') := by
      split
      · exact hgrows.trans (hgrows.grounded.grows_withStatusSymbols _)
      · exact hgrows
    dsimp only
    cases features.caseMapping?.isSome with
    | true =>
      have hgrounded := (h.withCaseMapping (s.info.withFeatures features).caseMapping).coherent.toGrounded
      cases features.channelTypes? with
      | none => exact .remapped rfl (hsymbols (.refl hgrounded))
      | some prefixes => exact .remapped rfl (hsymbols (hgrounded.grows_withChannelPrefixes prefixes))
    | false =>
      cases features.channelTypes? with
      | none => exact .learnt ⟨rfl, hsymbols (.refl h.toGrounded)⟩
      | some prefixes =>
        exact .learnt ⟨rfl, hsymbols (h.toGrounded.grows_withChannelPrefixes prefixes)⟩

theorem learns_onWho (h : s.store.Coherent) (line : Line) : s.Learns (s.onWho line) := by
  unfold onWho
  split
  · exact learns_refl h
  · rename_i entry _
    have hrecord := record_spec entry
    dsimp only
    cases hchannel : s.tracked? line 1 with
    | none =>
      cases s.store.userId? entry.nick with
      | none => exact learns_refl h
      | some id => exact ⟨rfl, h.toGrounded.grows_modifyUser id hrecord⟩
    | some channel =>
      have hchannel := tracked?_known h hchannel
      -- The entry is recorded for its user, who is then put on the channel.
      have henlisted {store : Store} (hgrows : s.store.Grows store) {id : UserId}
          (hid : store.users.contains id = true) (levels : List PrivilegeLevel) :
          s.store.Grows (((store.modifyUser id entry.record).addMember id channel).grantAll levels
            id channel) := by
        have hrecorded := hgrows.grounded.grows_modifyUser id hrecord
        have hboth := hgrows.trans hrecorded
        have hknown := hchannel
        rw [← hboth.channel_known] at hknown
        exact hboth.trans (hboth.grounded.grows_enlist levels (hrecorded.user_known hid) hknown)
      cases hid : s.store.userId? entry.nick with
      | none =>
        have htracked := h.toGrounded.grows_trackUser
          (.ofParts entry.nick (some entry.login) (some entry.host))
        have hknown := htracked.grounded.userId?_known (s.store.userId?_trackUser _)
        exact ⟨rfl, henlisted htracked hknown _⟩
      | some id =>
        exact ⟨rfl, henlisted (.refl h.toGrounded) (h.toGrounded.userId?_known hid) _⟩

theorem grows_addName {store : Store} (h : store.Grounded) (info : ServerInfo) {channel : ChannelId}
    (hchannel : store.channels.contains channel = true) (entry : List Char) :
    store.Grows (addName info channel store entry) := by
  unfold addName
  dsimp only
  split
  · exact .refl h
  · have htracked := h.grows_trackUser (namedMask (String.ofList (info.splitStatus entry).2))
    have hknown := htracked.grounded.userId?_known (store.userId?_trackUser _)
    rw [← htracked.channel_known] at hchannel
    exact htracked.trans (htracked.grounded.grows_enlist _ hknown hchannel)

theorem grows_foldl_addName {store : Store} (h : store.Grounded) (info : ServerInfo)
    {channel : ChannelId} (hchannel : store.channels.contains channel = true)
    (entries : List (List Char)) :
    store.Grows (entries.foldl (addName info channel) store) := by
  induction entries generalizing store with
  | nil => exact .refl h
  | cons entry entries ih =>
    have hfirst := grows_addName h info hchannel entry
    rw [← hfirst.channel_known] at hchannel
    exact hfirst.trans (ih hfirst.grounded hchannel)

theorem learns_onNames (h : s.store.Coherent) (line : Line) : s.Learns (s.onNames line) := by
  unfold onNames
  split
  · rename_i channel names hchannel _
    exact ⟨rfl, grows_foldl_addName h.toGrounded s.info (tracked?_known h hchannel) _⟩
  · exact learns_refl h

theorem learns_onWhois (h : s.store.Coherent) (code : Nat) (line : Line) :
    s.Learns (s.onWhois code line).1 := by
  unfold onWhois
  split
  · exact learns_refl h
  · dsimp only
    split
    · exact learns_of_eq h rfl rfl
    · exact learns_of_eq h rfl rfl
    · refine ⟨rfl, ?_⟩
      dsimp only
      split
      · exact h.toGrounded.grows_modifyUser _ (extendUser_spec code line)
      · exact .refl h.toGrounded

theorem course_numericEffect (h : s.store.Coherent) (code : Nat) (line : Line) :
    s.Course line (s.numericEffect code line).1 := by
  unfold numericEffect
  split
  · exact .learnt (learns_of_eq h rfl rfl)
  · exact course_onFeatures h line
  · exact .learnt (learns_of_eq h rfl rfl)
  · exact .learnt (learns_of_eq h rfl rfl)
  · exact .learnt (learns_of_eq h rfl rfl)
  · exact .learnt (learns_onChannelMode h line)
  · exact .learnt (learns_onCreationTime h line)
  · exact .learnt (learns_onTopicText h line)
  · exact .learnt (learns_onTopicSetter h line)
  · exact .learnt (learns_onWho h line)
  · exact .learnt (learns_onListEnd h line true)
  · exact .learnt (learns_onNames h line)
  · exact .learnt (learns_onListEnd h line false)
  · exact .learnt (learns_of_eq h rfl rfl)
  · exact .learnt (learns_of_eq h rfl rfl)
  · exact .learnt (learns_of_eq h rfl rfl)
  · exact .learnt (learns_onWhois h _ line)
  · exact .learnt (learns_onWhois h _ line)
  · exact .learnt (learns_onWhois h _ line)
  · exact .learnt (learns_onWhois h _ line)
  · exact .learnt (learns_onWhois h _ line)
  · exact .learnt (learns_onWhois h _ line)
  · exact .learnt (learns_onWhois h _ line)
  · exact .learnt (learns_onWhois h _ line)
  · exact .learnt (learns_refl h)

/-! ## Lines -/

theorem course_dispatch (h : s.store.Coherent) (clock : Clock) (line : Line) :
    s.Course line (s.dispatch clock line).session := by
  have hunchanged : s.Course line s := .learnt (learns_refl h)
  by_cases hdeparture : line.verb ∈ [.part, .quit, .kick]
  · obtain ⟨base, d, hdeparts⟩ := departs_dispatch h clock hdeparture
    exact course_of_departs hdeparture hdeparts
  · unfold dispatch
    cases hsource : line.source with
    | none =>
      cases line.verb with
      | numeric code => exact course_numericEffect h code line
      | _ => exact hunchanged
    | some source =>
      cases hverb : line.verb with
      | numeric code => exact course_numericEffect h code line
      | privmsg => exact .learnt (learns_onMessage h clock false source line)
      | notice => exact .learnt (learns_onMessage h clock true source line)
      | join => exact course_onJoin h hverb hsource
      | part => simp [hverb] at hdeparture
      | quit => simp [hverb] at hdeparture
      | kick => simp [hverb] at hdeparture
      | nick => exact course_onNick h hverb hsource
      | mode => exact .learnt (learns_onMode h source line)
      | topic => exact .learnt (learns_onTopic h clock source line)
      | invite => exact course_onInvite h source line
      | away => exact .learnt (learns_onAway h source line)
      | _ => exact hunchanged

/-- A line leaves a session as it is, or is shown to the registration and then handled. -/
theorem Sound.line_cases (hs : s.Sound) (clock : Clock) (raw : String) :
    (s.handleLine clock raw).1 = s ∨
      ∃ line, Line.parse raw = .ok line ∧
        (s.register line).1.Course line (s.handleLine clock raw).1 ∧
        (s.handleLine clock raw).1.isRegistered = (s.register line).1.isRegistered := by
  cases hparse : Line.parse raw with
  | error error =>
    left
    cases error <;> simp only [Session.handleLine, hparse]
  | ok line =>
    rw [hs.handleLine_eq clock hparse]
    unfold Session.handle
    split
    · exact Or.inl rfl
    · right
      have hregistered := (hs.register line).coherent
      refine ⟨line, rfl, ?_⟩
      dsimp only
      split
      · exact ⟨.learnt (learns_refl hregistered), rfl⟩
      · refine ⟨course_dispatch hregistered clock line, ?_⟩
        have hkept := (keeps_dispatch hregistered clock line).registration
        simp only [Handling.after, isRegistered, hkept]

end IrcClient.Session
