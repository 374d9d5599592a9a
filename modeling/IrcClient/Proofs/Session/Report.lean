import IrcClient.Proofs.Command.Framing
import IrcClient.Proofs.Mode.Apply
import IrcClient.Session.Handle

/-!
# What a line is answered with

A line is answered with what it asks for, which is little, and with events that tell of it. No line
tells of the beginning or the end of a connection by what it is about, and none touches the
registration or what the session greets the server with. Only the numerics of a list that comes one
entry to a line touch the lists that are being received, and only they tell of them.
-/

namespace IrcClient

/-- The lines by which a client that is connected identifies itself, if it can, and joins some
channels, in order. -/
def LineFormatter.greeting (f : LineFormatter) (password : Option String)
    (channels : List (String × Option String)) : List String :=
  (password.toList.flatMap fun secret => f.format (.privmsg "NickServ" ("IDENTIFY " ++ secret))) ++
    channels.flatMap fun channel => f.format (.join channel.1 channel.2)

/-- Whether an event tells of the beginning or the end of a connection. -/
def Event.isBoundary : Event → Bool
  | .connected | .disconnected _ => true
  | _ => false

/-- Whether an event tells of a list whose entries have come one by one. -/
def Event.isListing : Event → Bool
  | .motd _ | .channelList _ => true
  | _ => false

/-- Whether an event tells of a numeric as such. -/
def Event.isResponse : Event → Bool
  | .serverResponse .. => true
  | _ => false

/-- Whether an event is about none of these. -/
def Event.isPlain (event : Event) : Bool :=
  !event.isBoundary && !event.isListing && !event.isResponse

theorem Event.isPlain_iff {event : Event} : event.isPlain = true ↔
    event.isBoundary = false ∧ event.isListing = false ∧ event.isResponse = false := by
  simp [isPlain, and_assoc]

theorem Event.isBoundary_of_isPlain {event : Event} (h : event.isPlain = true) :
    event.isBoundary = false := (isPlain_iff.mp h).1

theorem Event.isListing_of_isPlain {event : Event} (h : event.isPlain = true) :
    event.isListing = false := (isPlain_iff.mp h).2.1

theorem Event.isPlain_of_isLetter {event : Event} (h : event.isLetter = true) :
    event.isPlain = true := by
  cases event <;> first | rfl | cases h

namespace Session

variable {s t : Session} {clock : Clock} {line : Line}

/-- What a session puts into the queue when it is connected. -/
def greeting (s : Session) : List String := s.formatter.greeting s.nickservPassword s.autoJoin

/-- What no line changes: the greeting, and whether the session is over. -/
def lasting (s : Session) : List String × Bool := (s.greeting, s.ended)

/-- The lists that are being received. -/
def lists (s : Session) : List String × List ListedChannel := (s.motd, s.channelList)

/-- What only the registration, and the numerics of a list, change. -/
def settled (s : Session) :
    Registration Handler × (List String × Bool) × List String × List ListedChannel :=
  (s.registration, s.lasting, s.lists)

/-- The verb and the arguments in the answer to a request of another client, if it is answered. -/
def replyTo? (s : Session) (clock : Clock) : Ctcp → Option (String × Option String)
  | .version _ => some ("VERSION", some s.version)
  | .ping value => some ("PING", if value = "" then none else some value)
  | .time _ => some ("TIME", some clock.date)
  | .finger _ => some ("FINGER", some s.finger)
  | _ => none

/-- What a line asks a client to say. A ping is answered at once. The client's own join of a channel
is followed by questions for its members and its mode, and a request of another client by a notice.
Nothing else is answered. -/
def answers (s : Session) (clock : Clock) (line : Line) : List Action :=
  match line.verb, line.source, line.params with
  | .ping, _, _ => [.sendNow (s.formatter.formatWhole (.pong (line.lastParam.getD "")))]
  | .join, some source, name :: _ =>
    if s.isOwnNick source.nick then
      [.send (s.formatter.formatWhole (.who name)), .send (s.formatter.formatWhole (.mode name none))]
    else []
  | .privmsg, some source, _ :: text :: _ =>
    match (Ctcp.parse? text).bind (s.replyTo? clock) with
    | some (verb, args) => [.send (s.formatter.formatWhole (.ctcpReply source.nick verb args))]
    | none => []
  | _, _, _ => []

/-- What is told in the end may include that the line is not understood. -/
theorem Handling.report_eq (h : Handling) (line : Line) :
    ∃ told : List Event, h.report line = (h.session, h.actions ++ told.map .emit) ∧
      ∀ event ∈ told, event.isPlain = true := by
  unfold Handling.report
  split
  · exact ⟨[], by simp, List.forall_mem_nil _⟩
  · exact ⟨[.unknown line.raw], rfl, List.forall_mem_singleton.mpr rfl⟩

theorem Handling.report_after (h : Handling) (first : List Action) (line : Line) :
    (h.after first).report line = ((h.report line).1, first ++ (h.report line).2) := by
  unfold Handling.report Handling.after
  cases h.fault with
  | none => rfl
  | some fault => simp

/-- A line is handled by saying something and then telling of events. -/
structure Reports (s : Session) (said : List Action) (h : Handling) : Prop where
  actions : ∃ events : List Event, h.actions = said ++ events.map .emit ∧
    ∀ event ∈ events, event.isBoundary = false
  registration : h.session.registration = s.registration
  lasting : h.session.lasting = s.lasting

/-- The same about a line that tells of plain events only and leaves the lists alone. -/
structure Relays (s : Session) (said : List Action) (h : Handling) : Prop where
  actions : ∃ events : List Event, h.actions = said ++ events.map .emit ∧
    ∀ event ∈ events, event.isPlain = true
  settled : h.session.settled = s.settled

theorem Relays.reports {said : List Action} {h : Handling} (hrelays : s.Relays said h) :
    s.Reports said h := by
  obtain ⟨⟨events, hevents, hplain⟩, hsettled⟩ := hrelays
  refine ⟨⟨events, hevents, fun event hmem => Event.isBoundary_of_isPlain (hplain event hmem)⟩, ?_, ?_⟩
  · exact congrArg Prod.fst hsettled
  · exact congrArg (fun settled => settled.2.1) hsettled

theorem Relays.lists {said : List Action} {h : Handling} (hrelays : s.Relays said h) :
    h.session.lists = s.lists :=
  congrArg (fun settled => settled.2.2) hrelays.settled

theorem relays_silent (hsettled : t.settled = s.settled) : s.Relays [] (.sound (t, [])) :=
  ⟨⟨[], rfl, List.forall_mem_nil _⟩, hsettled⟩

theorem relays_event {event : Event} (hsettled : t.settled = s.settled)
    (hevent : event.isPlain = true) : s.Relays [] (.sound (t, [.emit event])) :=
  ⟨⟨[event], rfl, List.forall_mem_singleton.mpr hevent⟩, hsettled⟩

theorem relays_unknown (line : Line) : s.Relays [] (.sound (s, unknown line)) :=
  relays_event rfl rfl

/-- A line that finds a fault says nothing and tells nothing by itself. -/
theorem relays_attempt {α : Type} {result : Except ConsistencyFault α}
    {k : α → Session × List Action} (hsettled : t.settled = s.settled)
    (hk : ∀ a, result = .ok a → s.Relays [] (.sound (k a))) : s.Relays [] (t.attempt result k) := by
  cases hresult : result with
  | error fault => exact ⟨⟨[], rfl, List.forall_mem_nil _⟩, hsettled⟩
  | ok a => exact hk a hresult

theorem Reports.mem_actions {said : List Action} {h : Handling} (hreports : s.Reports said h)
    {action : Action} (hmem : action ∈ h.actions) :
    action ∈ said ∨ ∃ event, event.isBoundary = false ∧ action = .emit event := by
  obtain ⟨events, hevents, hinner⟩ := hreports.actions
  rw [hevents] at hmem
  refine (List.mem_append.mp hmem).imp_right fun htold => ?_
  obtain ⟨event, hevent, rfl⟩ := List.mem_map.mp htold
  exact ⟨event, hinner event hevent, rfl⟩

theorem Reports.report {said : List Action} {h : Handling} (hreports : s.Reports said h)
    (line : Line) : ∃ events : List Event,
      h.report line = (h.session, said ++ events.map .emit) ∧
        ∀ event ∈ events, event.isBoundary = false := by
  obtain ⟨events, hevents, hinner⟩ := hreports.actions
  obtain ⟨told, htold, hother⟩ := h.report_eq line
  refine ⟨events ++ told, ?_, List.forall_mem_append.mpr ⟨hinner, ?_⟩⟩
  · rw [htold, hevents, List.map_append, List.append_assoc]
  · exact fun event hmem => Event.isBoundary_of_isPlain (hother event hmem)

theorem Relays.after_event {h : Handling} {event : Event} (hrelays : s.Relays [] h)
    (hevent : event.isPlain = true) : s.Relays [] (h.after [.emit event]) := by
  obtain ⟨⟨events, hevents, hplain⟩, hsettled⟩ := hrelays
  refine ⟨⟨event :: events, ?_, ?_⟩, hsettled⟩
  · rw [Handling.after, hevents]
    rfl
  · exact List.forall_mem_cons.mpr ⟨hevent, hplain⟩

/-! ## Commands -/

theorem send_of_splitHead? {command : Command} (h : s.formatter.splitHead? command = none) :
    s.send command = [.send (s.formatter.formatWhole command)] := by
  rw [send, format, LineFormatter.format_of_splitHead?_none h]
  rfl

theorem sendNow_of_splitHead? {command : Command} (h : s.formatter.splitHead? command = none) :
    s.sendNow command = [.sendNow (s.formatter.formatWhole command)] := by
  rw [sendNow, format, LineFormatter.format_of_splitHead?_none h]
  rfl

theorem noteSpeaker_eq (s : Session) (channel : Option ChannelId) (source : Hostmask) :
    ∃ store user, s.noteSpeaker channel source = ({ s with store := store }, user) := by
  unfold noteSpeaker
  split
  · exact ⟨_, _, rfl⟩
  · unfold meet
    split
    · exact ⟨s.store, _, rfl⟩
    · exact ⟨_, _, rfl⟩

theorem ctcpAnswer_eq (s : Session) (clock : Clock) (nick : String) (payload : Ctcp) :
    s.ctcpAnswer clock nick payload = match s.replyTo? clock payload with
      | some (verb, args) => [.send (s.formatter.formatWhole (.ctcpReply nick verb args))]
      | none => [] := by
  have hreply (verb : String) (args : Option String) :
      s.send (.ctcpReply nick verb args) =
        [.send (s.formatter.formatWhole (.ctcpReply nick verb args))] :=
    send_of_splitHead? rfl
  cases payload <;> simp only [ctcpAnswer, replyTo?, hreply]

theorem isPlain_ctcpEvent (channel : Option ChannelSnapshot) (user : UserSnapshot)
    (payload : Ctcp) : (ctcpEvent channel user payload).isPlain = true := by
  cases payload <;> rfl

theorem isPlain_textEvent (isNotice : Bool) (channel : Option ChannelSnapshot)
    (user : UserSnapshot) (text : String) :
    (textEvent isNotice channel user text).isPlain = true := by
  unfold textEvent
  split
  · rfl
  · split <;> rfl

/-- A message is answered only if it is a request and no notice, and it is told by one event. -/
theorem onMessage_eq (s : Session) (clock : Clock) (isNotice : Bool) (source : Hostmask)
    {target text : String} (htarget : line.param 0 = some target) (htext : line.param 1 = some text) :
    ∃ store event, event.isPlain = true ∧ s.onMessage clock isNotice source line =
      ({ s with store := store },
        (if isNotice then [] else (Ctcp.parse? text).elim [] (s.ctcpAnswer clock source.nick)) ++
          [.emit event]) := by
  obtain ⟨store, user, hnoted⟩ := s.noteSpeaker_eq (s.channelOf? target) source
  rw [onMessage, htarget, htext]
  dsimp only
  rw [hnoted]
  cases Ctcp.parse? text with
  | none => exact ⟨store, _, isPlain_textEvent isNotice _ user text, by cases isNotice <;> rfl⟩
  | some payload =>
    cases isNotice with
    | true => exact ⟨store, .ctcpReply user payload.verb payload.args, rfl, rfl⟩
    | false => exact ⟨store, _, isPlain_ctcpEvent _ user payload, rfl⟩

theorem relays_onMessage {isNotice : Bool} {source : Hostmask}
    (hverb : line.verb = if isNotice then .notice else .privmsg) (hsource : line.source = some source) :
    s.Relays (s.answers clock line) (.sound (s.onMessage clock isNotice source line)) := by
  match hparams : line.params with
  | target :: text :: rest =>
    have htarget : line.param 0 = some target := by simp [Line.param, hparams]
    have htext : line.param 1 = some text := by simp [Line.param, hparams]
    obtain ⟨store, event, hevent, hmessage⟩ := s.onMessage_eq clock isNotice source htarget htext
    have hanswers : s.answers clock line =
        if isNotice then [] else (Ctcp.parse? text).elim [] (s.ctcpAnswer clock source.nick) := by
      cases isNotice with
      | true => simp [answers, hverb]
      | false => cases hpayload : Ctcp.parse? text <;>
          simp [answers, hverb, hsource, hparams, hpayload, ctcpAnswer_eq]
    rw [hmessage, ← hanswers]
    exact ⟨⟨[event], rfl, List.forall_mem_singleton.mpr hevent⟩, rfl⟩
  | [] | [_] =>
    have hnone : s.answers clock line = [] := by
      cases isNotice <;> simp [answers, hverb, hsource, hparams]
    have hunknown : s.onMessage clock isNotice source line = (s, unknown line) := by
      simp [onMessage, Line.param, hparams]
    rw [hnone, hunknown]
    exact relays_unknown line

theorem enterChannel_eq {nick name : String} {channel : ChannelId} {asked : List Action}
    (h : s.enterChannel nick name = some (t, channel, asked)) :
    (∃ store, t = { s with store := store }) ∧
      asked = if s.isOwnNick nick then
        [.send (s.formatter.formatWhole (.who name)), .send (s.formatter.formatWhole (.mode name none))]
      else [] := by
  unfold enterChannel at h
  split at h
  · rename_i hown
    cases h
    rw [if_pos hown, send_of_splitHead? rfl, send_of_splitHead? rfl]
    exact ⟨⟨_, rfl⟩, rfl⟩
  · rename_i hother
    obtain ⟨id, -, heq⟩ := Option.map_eq_some_iff.mp h
    cases heq
    rw [if_neg hother]
    exact ⟨⟨s.store, rfl⟩, rfl⟩

theorem relays_onJoin {source : Hostmask} (hverb : line.verb = .join)
    (hsource : line.source = some source) :
    s.Relays (s.answers clock line) (.sound (s.onJoin source line)) := by
  unfold onJoin
  split
  · rename_i hnone
    have hsilent : s.answers clock line = [] := by
      cases hparams : line.params with
      | nil => simp [answers, hverb, hsource, hparams]
      | cons name rest =>
        have hother : s.isOwnNick source.nick = false := by
          rw [← Bool.not_eq_true]
          intro hown
          simp [Line.param, hparams, enterChannel, hown] at hnone
        simp [answers, hverb, hsource, hparams, hother]
    rw [hsilent]
    exact relays_unknown line
  · rename_i t channel asked hentered
    obtain ⟨name, hname, hentered⟩ := Option.bind_eq_some_iff.mp hentered
    obtain ⟨⟨store, rfl⟩, hasked⟩ := enterChannel_eq hentered
    rw [Line.param, ← List.head?_eq_getElem?] at hname
    obtain ⟨rest, hparams⟩ := List.head?_eq_some_iff.mp hname
    have hanswers : s.answers clock line = asked := by
      rw [hasked]
      simp [answers, hverb, hsource, hparams]
    rw [hanswers]
    dsimp only
    split
    · exact ⟨⟨[.joined _ _], rfl, List.forall_mem_singleton.mpr rfl⟩, rfl⟩
    · exact ⟨⟨[], rfl, List.forall_mem_nil _⟩, rfl⟩

theorem relays_onPart (source : Hostmask) (line : Line) :
    s.Relays [] (s.onPart source line) := by
  unfold onPart
  split
  · dsimp only
    split
    · exact relays_attempt rfl fun store _ => relays_event rfl rfl
    · exact relays_unknown line
  · exact relays_unknown line

theorem relays_onQuit (source : Hostmask) (line : Line) : s.Relays [] (s.onQuit source line) :=
  relays_attempt rfl fun _ _ => relays_event rfl rfl

theorem relays_onKick (source : Hostmask) (line : Line) :
    s.Relays [] (s.onKick source line) := by
  unfold onKick
  split
  · dsimp only
    split
    · exact relays_event rfl rfl
    · exact relays_attempt rfl fun store _ => relays_event rfl rfl
  · exact relays_unknown line

theorem relays_onNick (source : Hostmask) (line : Line) :
    s.Relays [] (s.onNick source line) := by
  unfold onNick
  split
  · exact relays_unknown line
  · exact relays_attempt rfl fun store _ => relays_event rfl rfl

theorem relays_onInvite (source : Hostmask) (line : Line) :
    s.Relays [] (s.onInvite source line) := by
  unfold onInvite
  split
  · exact relays_unknown line
  · dsimp only
    split
    · refine Relays.after_event ?_ rfl
      exact relays_attempt rfl fun store _ => relays_silent rfl
    · exact relays_event rfl rfl

theorem relays_onMode (source : Hostmask) (line : Line) :
    s.Relays [] (s.onMode source line) := by
  unfold onMode
  split
  · dsimp only
    split
    · exact relays_event rfl rfl
    · split
      · exact relays_event rfl rfl
      · refine relays_attempt rfl ?_
        rintro ⟨store, events⟩ happlied
        refine ⟨⟨_, rfl, ?_⟩, rfl⟩
        refine List.forall_mem_append.mpr ⟨fun event hevent => ?_, ?_⟩
        · exact Event.isPlain_of_isLetter (Store.isLetter_applyModes happlied event hevent)
        · simp [Event.isPlain_iff, Event.isBoundary, Event.isListing, Event.isResponse]
  · exact relays_unknown line

theorem relays_onTopic (source : Hostmask) (line : Line) :
    s.Relays [] (.sound (s.onTopic clock source line)) := by
  unfold onTopic
  split
  · refine ⟨⟨_, rfl, ?_⟩, rfl⟩
    simp [Event.isPlain_iff, Event.isBoundary, Event.isListing, Event.isResponse]
  · exact relays_unknown line

/-! ## Numerics -/

theorem relays_updateChannel (channel : ChannelId) (f : Channel → Channel)
    {event : ChannelSnapshot → Event} (hevent : ∀ c, (event c).isPlain = true) :
    s.Relays [] (.sound (s.updateChannel channel f event)) := by
  unfold updateChannel
  dsimp only
  cases (s.onStore fun store => store.modifyChannel channel f).store.channelSnapshot? channel with
  | none => exact relays_silent rfl
  | some c => exact relays_event rfl (hevent c)

theorem relays_onFeatures (line : Line) : s.Relays [] (.sound (s.onFeatures line)) := by
  unfold onFeatures
  split
  · exact relays_silent rfl
  · exact relays_event rfl rfl

theorem relays_onWho (line : Line) : s.Relays [] (.sound (s.onWho line, [])) := by
  unfold onWho
  split
  · exact relays_silent rfl
  · dsimp only
    split
    · exact relays_silent rfl
    · exact relays_silent rfl

theorem relays_onNames (line : Line) : s.Relays [] (.sound (s.onNames line, [])) := by
  unfold onNames
  split <;> exact relays_silent rfl

theorem relays_onListEnd (line : Line) (complete : Bool) :
    s.Relays [] (.sound (s.onListEnd line complete)) := by
  unfold onListEnd
  split
  · exact relays_event rfl rfl
  · exact relays_silent rfl

theorem relays_onChannelMode (line : Line) : s.Relays [] (.sound (s.onChannelMode line)) := by
  unfold onChannelMode
  split
  · exact relays_updateChannel _ _ fun _ => rfl
  · exact relays_silent rfl

theorem relays_onCreationTime (line : Line) : s.Relays [] (.sound (s.onCreationTime line)) := by
  unfold onCreationTime
  split
  · exact relays_updateChannel _ _ fun _ => rfl
  · exact relays_silent rfl

theorem relays_onTopicText (line : Line) : s.Relays [] (.sound (s.onTopicText line, [])) := by
  unfold onTopicText
  split <;> exact relays_silent rfl

theorem relays_onTopicSetter (line : Line) : s.Relays [] (.sound (s.onTopicSetter line)) := by
  unfold onTopicSetter
  split
  · exact relays_updateChannel _ _ fun _ => rfl
  · exact relays_silent rfl

theorem relays_onWhois (code : Nat) (line : Line) :
    s.Relays [] (.sound (s.onWhois code line)) := by
  unfold onWhois
  split
  · exact relays_silent rfl
  · dsimp only
    split
    · exact relays_event rfl rfl
    · exact relays_silent rfl
    · exact relays_silent rfl

/-- The numerics of lists that come one entry to a line: the list of all channels and the message of the
day. -/
def listingCodes : List Nat := [321, 322, 323, 372, 375, 376]

theorem mem_listingCodes_iff {code : Nat} : code ∈ listingCodes ↔
    code = 321 ∨ code = 322 ∨ code = 323 ∨ code = 372 ∨ code = 375 ∨ code = 376 := by
  simp [listingCodes]

theorem relays_numericEffect {code : Nat} (hcode : code ∉ listingCodes) (line : Line) :
    s.Relays [] (.sound (s.numericEffect code line)) := by
  unfold numericEffect
  split
  · exact relays_event rfl rfl
  · exact relays_onFeatures line
  · exact absurd (by decide) hcode
  · exact absurd (by decide) hcode
  · exact absurd (by decide) hcode
  · exact relays_onChannelMode line
  · exact relays_onCreationTime line
  · exact relays_onTopicText line
  · exact relays_onTopicSetter line
  · exact relays_onWho line
  · exact relays_onListEnd line true
  · exact relays_onNames line
  · exact relays_onListEnd line false
  · exact absurd (by decide) hcode
  · exact absurd (by decide) hcode
  · exact absurd (by decide) hcode
  · exact relays_onWhois _ line
  · exact relays_onWhois _ line
  · exact relays_onWhois _ line
  · exact relays_onWhois _ line
  · exact relays_onWhois _ line
  · exact relays_onWhois _ line
  · exact relays_onWhois _ line
  · exact relays_onWhois _ line
  · exact relays_silent rfl

theorem snd_numericEffect {code : Nat} (hcode : code ∉ listingCodes) (s : Session) (line : Line) :
    ∃ events : List Event, (s.numericEffect code line).2 = events.map .emit ∧
      ∀ event ∈ events, event.isPlain = true :=
  (s.relays_numericEffect hcode line).actions

theorem snd_onNumeric (s : Session) (code : Nat) (line : Line) :
    (s.onNumeric code line).2 =
      (s.numericEffect code line).2 ++ [.emit (.serverResponse code line.params line.raw)] := rfl

theorem reports_onNumeric (code : Nat) (line : Line) :
    s.Reports [] (.sound (s.onNumeric code line)) := by
  by_cases hcode : code ∈ listingCodes
  · have htold (event : Event) (hevent : event.isBoundary = false) :
        ∀ told ∈ [event, .serverResponse code line.params line.raw], told.isBoundary = false :=
      List.forall_mem_cons.mpr ⟨hevent, List.forall_mem_singleton.mpr rfl⟩
    have hresponse : ∀ told ∈ [Event.serverResponse code line.params line.raw],
        told.isBoundary = false := List.forall_mem_singleton.mpr rfl
    rcases mem_listingCodes_iff.mp hcode with rfl | rfl | rfl | rfl | rfl | rfl
    · exact ⟨⟨_, rfl, hresponse⟩, rfl, rfl⟩
    · exact ⟨⟨_, rfl, hresponse⟩, rfl, rfl⟩
    · exact ⟨⟨_, rfl, htold (.channelList s.channelList) rfl⟩, rfl, rfl⟩
    · exact ⟨⟨_, rfl, hresponse⟩, rfl, rfl⟩
    · exact ⟨⟨_, rfl, hresponse⟩, rfl, rfl⟩
    · exact ⟨⟨_, rfl, htold (.motd (String.intercalate "\n" s.motd)) rfl⟩, rfl, rfl⟩
  · have hreports := (s.relays_numericEffect hcode line).reports
    obtain ⟨events, hevents, hplain⟩ := s.snd_numericEffect hcode line
    refine ⟨⟨events ++ [.serverResponse code line.params line.raw], ?_, ?_⟩,
      hreports.registration, hreports.lasting⟩
    · rw [Handling.sound, snd_onNumeric, hevents, List.map_append]
      rfl
    · refine List.forall_mem_append.mpr ⟨fun event hmem => ?_, List.forall_mem_singleton.mpr rfl⟩
      exact Event.isBoundary_of_isPlain (hplain event hmem)

/-! ## Lines -/

theorem answers_eq_nil (hping : line.verb ≠ .ping)
    (hother : line.source = none ∨ line.verb ≠ .join ∧ line.verb ≠ .privmsg) :
    s.answers clock line = [] := by
  unfold answers
  split
  · rename_i hverb
    exact absurd hverb hping
  · rename_i hverb hsource _
    simp [hverb, hsource] at hother
  · rename_i hverb hsource _
    simp [hverb, hsource] at hother
  · rfl

/-- A line is answered with what it asks for, and nothing else is said by what it is about. If it is no
numeric, it does not touch the lists. -/
theorem relays_dispatch (s : Session) (clock : Clock) (hping : line.verb ≠ .ping)
    (hcommand : ∀ code, line.verb ≠ .numeric code) :
    s.Relays (s.answers clock line) (s.dispatch clock line) := by
  cases hsource : line.source with
  | none =>
    rw [answers_eq_nil hping (Or.inl hsource), dispatch, hsource]
    cases hverb : line.verb with
    | numeric code => exact absurd hverb (hcommand code)
    | error => exact relays_event rfl rfl
    | pong => exact relays_silent rfl
    | cap => exact relays_silent rfl
    | authenticate => exact relays_silent rfl
    | _ => exact relays_unknown line
  | some source =>
    -- Joins and messages may be answered; the rest shares one empty answer.
    by_cases hjoin : line.verb = .join
    · simp only [dispatch, hjoin, hsource]
      exact relays_onJoin hjoin hsource
    by_cases hprivmsg : line.verb = .privmsg
    · simp only [dispatch, hprivmsg, hsource]
      exact relays_onMessage hprivmsg hsource
    have hnone : s.answers clock line = [] := answers_eq_nil hping (Or.inr ⟨hjoin, hprivmsg⟩)
    rw [hnone, dispatch, hsource]
    cases hverb : line.verb with
    | numeric code => exact absurd hverb (hcommand code)
    | ping => exact absurd hverb hping
    | pong => exact relays_silent rfl
    | error => exact relays_event rfl rfl
    | cap => exact relays_silent rfl
    | authenticate => exact relays_silent rfl
    | privmsg => exact absurd hverb hprivmsg
    | notice => exact hnone ▸ relays_onMessage hverb hsource
    | join => exact absurd hverb hjoin
    | part => exact relays_onPart source line
    | quit => exact relays_onQuit source line
    | kick => exact relays_onKick source line
    | nick => exact relays_onNick source line
    | mode => exact relays_onMode source line
    | topic => exact relays_onTopic source line
    | invite => exact relays_onInvite source line
    | away => exact relays_silent rfl
    | other => exact relays_unknown line

theorem dispatch_of_numeric (s : Session) (clock : Clock) {code : Nat}
    (hverb : line.verb = .numeric code) : s.dispatch clock line = .sound (s.onNumeric code line) := by
  rw [dispatch, hverb]

theorem reports_dispatch (s : Session) (clock : Clock) (hping : line.verb ≠ .ping) :
    s.Reports (s.answers clock line) (s.dispatch clock line) := by
  by_cases hnumeric : ∃ code, line.verb = .numeric code
  · obtain ⟨code, hverb⟩ := hnumeric
    rw [answers_eq_nil hping (Or.inr (by simp [hverb])), s.dispatch_of_numeric clock hverb]
    exact reports_onNumeric code line
  · exact (relays_dispatch s clock hping (not_exists.mp hnumeric)).reports

end Session

end IrcClient
