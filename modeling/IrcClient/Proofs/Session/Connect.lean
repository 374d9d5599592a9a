import IrcClient.Proofs.Session.Answer

/-!
# One connection

A session is connected by the first line that welcomes it, and by no other. What it then puts into the
queue comes before the event, and the events of the line itself come after. A line on which the
registration fails does nothing else.
-/

namespace IrcClient.Session

/-- Whether an input is a line that welcomes the client. -/
def Input.Welcomes : Input → Prop
  | .line _ raw => ∃ line, Line.parse raw = .ok line ∧ line.Welcomes
  | .disconnect _ => False

/-! ## One line -/

section Line

variable {s t : Session} {clock : Clock} {line : Line}

/-- A session whose registration was shown a line, and that has not done anything about it yet. -/
def shown (s : Session) (line : Line) : Session :=
  { s with registration := (s.registration.feed line).1 }

/-- What the registration wants to be done on a line. -/
def requested (s : Session) (line : Line) : List Action :=
  (s.registration.feed line).2.flatMap s.perform

theorem connect_snd (s : Session) (nick : String) :
    (s.connect nick).2 = s.greeting.map .send ++ [.emit .connected] := by
  simp [connect, greeting, LineFormatter.greeting, send, format, List.map_flatMap]

/-- The ways of a line through a session. -/
inductive Way (s : Session) (clock : Clock) (line : Line) : Handling → Prop where
  /-- The line is no matter of the registration. -/
  | passed {h : Handling} (hother : line.verb = .ping ∨ s.registration.phase ≠ .waiting)
      (hreports : s.Reports (s.answers clock line) h) : Way s clock line h
  /-- The session is connected, and then the line is handled. -/
  | connected {t : Session} (hphase : s.registration.phase = .waiting) (hwelcomes : line.Welcomes)
      (hwelcomed : t.registration.phase = .welcomed) (hlasting : t.lasting = s.lasting)
      (hregister : s.register line = (t, s.greeting.map .send ++ [.emit .connected], false)) :
      Way s clock line ((t.dispatch clock line).after (s.greeting.map .send ++ [.emit .connected]))
  /-- The registration fails. -/
  | failed (hphase : s.registration.phase = .waiting) (hwelcomes : ¬ line.Welcomes) :
      Way s clock line (.sound (s.shown line, s.requested line))
  /-- The registration goes on, and then the line is handled. -/
  | negotiated (hphase : s.registration.phase = .waiting) (hwelcomes : ¬ line.Welcomes)
      (hverb : line.verb ≠ .ping)
      (hunfailed : ∀ request ∈ (s.registration.feed line).2, request.isFail = false)
      (hregister : s.register line = (s.shown line, s.requested line, false)) :
      Way s clock line (((s.shown line).dispatch clock line).after (s.requested line))

theorem ne_ping_of_welcomes (h : line.Welcomes) : line.verb ≠ .ping := by
  obtain ⟨code, hverb, -⟩ := h
  simp [hverb]

theorem register_of_welcomes (hphase : s.registration.phase = .waiting) (h : line.Welcomes) :
    ∃ t, t.registration.phase = .welcomed ∧ t.lasting = s.lasting ∧ t.lists = s.lists ∧
      s.register line = (t, s.greeting.map .send ++ [.emit .connected], false) := by
  have hfeed := Registration.feed_of_welcomes hphase h
  refine ⟨((s.shown line).connect ((line.param 0).getD s.registration.nick)).1, ?_, rfl, rfl, ?_⟩
  · change (s.registration.feed line).1.phase = .welcomed
    rw [hfeed]
    rfl
  · have hgreeting : (s.shown line).greeting = s.greeting := rfl
    rw [← hgreeting, ← connect_snd, register, if_pos hphase, shown, hfeed]
    rfl

theorem register_of_not_welcomes (hphase : s.registration.phase = .waiting) (h : ¬ line.Welcomes) :
    s.register line = (s.shown line, s.requested line,
      (s.registration.feed line).2.any RegistrationAction.isFail) := by
  have hincomplete : (s.registration.feed line).2.findSome? completedAs? = none := by
    rw [List.findSome?_eq_none_iff]
    intro request hmem
    cases request with
    | complete nick =>
      exact absurd (Registration.welcomes_of_welcomed hphase
        (Registration.phase_of_complete_mem_feed hmem)) h
    | _ => rfl
  rw [register, if_pos hphase]
  dsimp only
  rw [hincomplete]
  cases (s.registration.feed line).2.any RegistrationAction.isFail with
  | true => rfl
  | false => rfl

/-- There is no other way. -/
theorem way_handle (s : Session) (clock : Clock) (line : Line) :
    s.Way clock line (s.handle clock line) := by
  by_cases hping : line.verb = .ping
  · exact .passed (Or.inl hping) (reports_handle_ping hping)
  rw [handle, if_neg hping]
  by_cases hphase : s.registration.phase = .waiting
  · by_cases hwelcomes : line.Welcomes
    · obtain ⟨t, hwelcomed, hlasting, -, hregister⟩ := register_of_welcomes hphase hwelcomes
      have hway : s.Way clock line _ := .connected hphase hwelcomes hwelcomed hlasting hregister
      rw [hregister]
      exact hway
    · have hregister := register_of_not_welcomes hphase hwelcomes
      cases hfail : (s.registration.feed line).2.any RegistrationAction.isFail with
      | true =>
        rw [hregister, hfail]
        exact .failed hphase hwelcomes
      | false =>
        rw [hfail] at hregister
        have hunfailed (request : RegistrationAction)
            (hmem : request ∈ (s.registration.feed line).2) : request.isFail = false := by
          simpa using List.any_eq_false.mp hfail request hmem
        have hway : s.Way clock line _ := .negotiated hphase hwelcomes hping hunfailed hregister
        rw [hregister]
        exact hway
  · rw [register, if_neg hphase]
    exact .passed (Or.inr hphase) (reports_dispatch s clock hping)

/-- The registration puts nothing into the queue and tells of no connection. -/
theorem mem_requested {action : Action} (h : action ∈ s.requested line) :
    (∃ text, action = .sendNow text) ∨ action = .startTls ∨
      (∃ used next, action = .emit (.nickTaken used next)) ∨
      ∃ error, .fail error ∈ (s.registration.feed line).2 ∧ action = .fail (.registration error) := by
  obtain ⟨request, hmem, hrequest⟩ := List.mem_flatMap.mp h
  cases request with
  | send command =>
    obtain ⟨text, -, rfl⟩ := List.mem_map.mp hrequest
    exact Or.inl ⟨text, rfl⟩
  | upgradeTls => exact Or.inr (Or.inl (List.mem_singleton.mp hrequest))
  | nickTaken used next =>
    exact Or.inr (Or.inr (Or.inl ⟨used, next, List.mem_singleton.mp hrequest⟩))
  | complete nick => cases hrequest
  | fail error => exact Or.inr (Or.inr (Or.inr ⟨error, hmem, List.mem_singleton.mp hrequest⟩))

theorem boundary_not_mem_requested {event : Event} (hevent : event.isBoundary = true) (s : Session)
    (line : Line) : .emit event ∉ s.requested line := by
  intro hmem
  rcases mem_requested hmem with ⟨text, heq⟩ | heq | ⟨used, next, heq⟩ | ⟨error, -, heq⟩ <;> cases heq
  cases hevent

theorem Reports.boundary_not_mem {h : Handling} (hreports : s.Reports (t.answers clock line) h)
    {event : Event} (hevent : event.isBoundary = true) : .emit event ∉ h.actions := by
  intro hmem
  obtain hsaid | ⟨other, hinner, heq⟩ := hreports.mem_actions hmem
  · obtain ⟨command, heq | heq⟩ := line_of_mem_answers hsaid <;> cases heq
  · cases heq
    rw [hevent] at hinner
    cases hinner

theorem Reports.fail_not_mem {h : Handling} (hreports : s.Reports (t.answers clock line) h)
    (error : ClientError) : .fail error ∉ h.actions := by
  intro hmem
  obtain hsaid | ⟨event, -, heq⟩ := hreports.mem_actions hmem
  · obtain ⟨command, heq | heq⟩ := line_of_mem_answers hsaid <;> cases heq
  · cases heq

theorem Reports.answer_of_send_mem {h : Handling} (hreports : s.Reports (t.answers clock line) h)
    {text : String} (hmem : .send text ∈ h.actions) : .send text ∈ t.answers clock line := by
  obtain hsaid | ⟨event, -, heq⟩ := hreports.mem_actions hmem
  · exact hsaid
  · cases heq

namespace Way

variable {result : Handling}

theorem lasting (h : s.Way clock line result) : result.session.lasting = s.lasting := by
  cases h with
  | passed hother hreports => exact hreports.lasting
  | @connected t hphase hwelcomes hwelcomed hlasting =>
    exact (reports_dispatch t clock (ne_ping_of_welcomes hwelcomes)).lasting.trans hlasting
  | failed => rfl
  | negotiated hphase hwelcomes hverb => exact (reports_dispatch (s.shown line) clock hverb).lasting

/-- A line that welcomes a client that waits for it moves it on, which is told once. Any other line
leaves the client where it is, and no connection is told. -/
theorem connects (h : s.Way clock line result) :
    s.registration.phase = .waiting ∧ line.Welcomes ∧
        result.session.registration.phase = .welcomed ∧
        result.actions.count (.emit .connected) = 1 ∨
      ¬ (s.registration.phase = .waiting ∧ line.Welcomes) ∧
        result.session.registration.phase = s.registration.phase ∧
        result.actions.count (.emit .connected) = 0 := by
  cases h with
  | passed hother hreports =>
    refine Or.inr ⟨?_, by rw [hreports.registration],
      List.count_eq_zero.mpr (hreports.boundary_not_mem rfl)⟩
    rintro ⟨hphase, hwelcomes⟩
    rcases hother with hping | hother
    · exact ne_ping_of_welcomes hwelcomes hping
    · exact hother hphase
  | @connected t hphase hwelcomes hwelcomed =>
    have hreports := reports_dispatch t clock (ne_ping_of_welcomes hwelcomes)
    have hqueued : .emit .connected ∉ s.greeting.map Action.send := by simp
    refine Or.inl ⟨hphase, hwelcomes, ?_, ?_⟩
    · rw [← hwelcomed]
      exact congrArg Registration.phase hreports.registration
    · rw [Handling.after, List.count_append, List.count_append, List.count_eq_zero.mpr hqueued,
        List.count_eq_zero.mpr (hreports.boundary_not_mem rfl)]
      rfl
  | failed hphase hwelcomes =>
    refine Or.inr ⟨fun h => hwelcomes h.2, ?_, ?_⟩
    · exact (Registration.phase_feed_of_not_welcomes hphase hwelcomes).trans hphase.symm
    · exact List.count_eq_zero.mpr (boundary_not_mem_requested rfl s line)
  | negotiated hphase hwelcomes hverb =>
    have hreports := reports_dispatch (s.shown line) clock hverb
    have hkept := congrArg Registration.phase hreports.registration
    refine Or.inr ⟨fun h => hwelcomes h.2, ?_, ?_⟩
    · rw [hphase, ← Registration.phase_feed_of_not_welcomes hphase hwelcomes]
      exact hkept
    · rw [Handling.after, List.count_append,
        List.count_eq_zero.mpr (boundary_not_mem_requested rfl s line),
        List.count_eq_zero.mpr (hreports.boundary_not_mem rfl)]

/-- No line tells that the connection is gone. -/
theorem disconnected_not_mem (h : s.Way clock line result) (error : Option String) :
    .emit (.disconnected error) ∉ result.actions := by
  cases h with
  | passed hother hreports => exact hreports.boundary_not_mem rfl
  | @connected t hphase hwelcomes =>
    have hreports := reports_dispatch t clock (ne_ping_of_welcomes hwelcomes)
    refine List.not_mem_append ?_ (hreports.boundary_not_mem rfl)
    simp
  | failed => exact boundary_not_mem_requested rfl s line
  | negotiated hphase hwelcomes hverb =>
    exact List.not_mem_append (boundary_not_mem_requested rfl s line)
      ((reports_dispatch (s.shown line) clock hverb).boundary_not_mem rfl)

/-- A registration fails before its welcome, and the line does nothing else then. -/
theorem failed_of_mem {error : ClientError} (h : s.Way clock line result)
    (hfail : .fail error ∈ result.actions) :
    s.registration.phase = .waiting ∧ ¬ line.Welcomes ∧
      result = .sound (s.shown line, s.requested line) := by
  cases h with
  | passed hother hreports => exact absurd hfail (hreports.fail_not_mem error)
  | @connected t hphase hwelcomes =>
    have hreports := reports_dispatch t clock (ne_ping_of_welcomes hwelcomes)
    rcases List.mem_append.mp hfail with hfirst | hlater
    · simp at hfirst
    · exact absurd hlater (hreports.fail_not_mem error)
  | failed hphase hwelcomes => exact ⟨hphase, hwelcomes, rfl⟩
  | negotiated hphase hwelcomes hverb hunfailed =>
    rcases List.mem_append.mp hfail with hfirst | hlater
    · rcases mem_requested hfirst with ⟨text, heq⟩ | heq | ⟨used, next, heq⟩ | ⟨cause, hmem, -⟩
      · cases heq
      · cases heq
      · cases heq
      · cases hunfailed _ hmem
    · exact absurd hlater ((reports_dispatch (s.shown line) clock hverb).fail_not_mem error)

/-- On a line that does not connect the session, nothing is put into the queue but answers. -/
theorem answer_of_send_mem {text : String} (h : s.Way clock line result)
    (hunconnected : ¬ (s.registration.phase = .waiting ∧ line.Welcomes))
    (hsent : .send text ∈ result.actions) :
    .send text ∈ (s.register line).1.answers clock line := by
  have hrequested : .send text ∉ s.requested line := by
    intro hmem
    rcases mem_requested hmem with ⟨text, heq⟩ | heq | ⟨used, next, heq⟩ | ⟨error, -, heq⟩ <;> cases heq
  cases h with
  | passed hother hreports =>
    have hmem := hreports.answer_of_send_mem hsent
    rcases hother with hping | hother
    · simp [answers, hping] at hmem
    · rw [register, if_neg hother]
      exact hmem
  | connected hphase hwelcomes => exact absurd ⟨hphase, hwelcomes⟩ hunconnected
  | failed => exact absurd hsent hrequested
  | negotiated hphase hwelcomes hverb hunfailed hregister =>
    rw [hregister]
    rcases List.mem_append.mp hsent with hfirst | hlater
    · exact absurd hfirst hrequested
    · exact (reports_dispatch (s.shown line) clock hverb).answer_of_send_mem hlater

end Way

end Line

/-! ## One input -/

section Receive

variable {s : Session} {clock : Clock} {raw : String}

theorem handleLine_of_parse {line : Line} (hparse : Line.parse raw = .ok line) :
    s.handleLine clock raw = (s.handle clock line).report line := by
  rw [handleLine, hparse]

theorem lasting_handleLine (s : Session) (clock : Clock) (raw : String) :
    (s.handleLine clock raw).1.lasting = s.lasting := by
  unfold handleLine
  split
  · rename_i line _
    obtain ⟨told, htold, -⟩ := (s.handle clock line).report_eq line
    rw [htold]
    exact (way_handle s clock line).lasting
  · rfl
  · rfl

theorem greeting_receive (s : Session) (input : Input) : (s.receive input).greeting = s.greeting := by
  cases input with
  | line clock raw => exact congrArg Prod.fst (s.lasting_handleLine clock raw)
  | disconnect error =>
    rw [receive, disconnect]
    split <;> rfl

theorem connected_not_mem_of_inner {events : List Event}
    (h : ∀ event ∈ events, event.isBoundary = false) : .connected ∉ events :=
  fun hmem => nomatch h _ hmem

theorem count_connected_emit {events : List Event}
    (h : ∀ event ∈ events, event.isBoundary = false) :
    (events.map Action.emit).count (.emit .connected) = 0 := by
  simpa [List.count_eq_zero] using connected_not_mem_of_inner h

/-- An input that welcomes a client that waits for it moves it on, which is told once. Any other input
leaves the client where it is, and no connection is told. -/
theorem connects_receive (s : Session) (input : Input) :
    s.registration.phase = .waiting ∧ input.Welcomes ∧
        (s.receive input).registration.phase = .welcomed ∧
        (s.outputs input).count (.emit .connected) = 1 ∨
      ¬ (s.registration.phase = .waiting ∧ input.Welcomes) ∧
        (s.receive input).registration.phase = s.registration.phase ∧
        (s.outputs input).count (.emit .connected) = 0 := by
  cases input with
  | line clock raw =>
    rw [receive, outputs]
    cases hparse : Line.parse raw with
    | ok line =>
      have hwelcomes : (Input.line clock raw).Welcomes ↔ line.Welcomes := by
        simp [Input.Welcomes, hparse]
      obtain ⟨told, htold, hother⟩ := (s.handle clock line).report_eq line
      have hinner (event : Event) (hmem : event ∈ told) : event.isBoundary = false :=
        Event.isBoundary_of_isPlain (hother event hmem)
      rw [hwelcomes, handleLine_of_parse hparse, htold, List.count_append,
        count_connected_emit hinner, Nat.add_zero]
      exact (way_handle s clock line).connects
    | error error =>
      have hunread : ¬ (Input.line clock raw).Welcomes := by
        simp [Input.Welcomes, hparse]
      refine Or.inr ⟨fun h => hunread h.2, ?_⟩
      rw [handleLine, hparse]
      cases error with
      | empty => exact ⟨rfl, rfl⟩
      | noCommand => exact ⟨rfl, rfl⟩
  | disconnect error =>
    refine Or.inr ⟨fun h => h.2, ?_⟩
    rw [receive, outputs, disconnect]
    split
    · exact ⟨rfl, rfl⟩
    · exact ⟨rfl, rfl⟩

/-- The line that connects a session puts its greeting into the queue, then the connection is told,
and then what the line itself is about. -/
theorem handleLine_of_connected (h : .emit .connected ∈ (s.handleLine clock raw).2) :
    ∃ line, ∃ events : List Event, Line.parse raw = .ok line ∧
      (s.handleLine clock raw).2 = s.greeting.map .send ++ .emit .connected :: events.map .emit ∧
      .connected ∉ events ∧
      (((s.register line).1.dispatch clock line).report line).2 = events.map .emit := by
  -- A connection is told only where the client is moved on, and then the registration says no more.
  have hmoves := s.connects_receive (.line clock raw)
  rw [outputs] at hmoves
  obtain ⟨hphase, ⟨line, hparse, hwelcomes⟩, -⟩ | ⟨-, -, hnone⟩ := hmoves
  · have hping := ne_ping_of_welcomes hwelcomes
    obtain ⟨t, -, -, -, hregister⟩ := register_of_welcomes hphase hwelcomes
    obtain ⟨code, hverb, -⟩ := hwelcomes
    have hreports := reports_dispatch t clock hping
    rw [answers_eq_nil hping (Or.inr (by simp [hverb]))] at hreports
    obtain ⟨events, hevents, hinner⟩ := hreports.report line
    refine ⟨line, events, hparse, ?_, connected_not_mem_of_inner hinner, ?_⟩
    · rw [handleLine_of_parse hparse, handle, if_neg hping, hregister]
      dsimp only
      rw [if_neg Bool.false_ne_true, Handling.report_after, hevents]
      simp
    · rw [hregister, hevents]
      rfl
  · exact absurd h (List.count_eq_zero.mp hnone)

theorem disconnected_not_mem_handleLine (s : Session) (clock : Clock) (raw : String)
    (error : Option String) : .emit (.disconnected error) ∉ (s.handleLine clock raw).2 := by
  cases hparse : Line.parse raw with
  | ok line =>
    obtain ⟨told, htold, hinner⟩ := (s.handle clock line).report_eq line
    rw [handleLine_of_parse hparse, htold]
    refine List.not_mem_append ((way_handle s clock line).disconnected_not_mem error) fun hmem => ?_
    obtain ⟨event, hevent, heq⟩ := List.mem_map.mp hmem
    cases heq
    exact nomatch hinner _ hevent
  | error error =>
    rw [handleLine, hparse]
    cases error <;> simp

/-- A line on which the registration fails does nothing else. -/
theorem handleLine_of_fail {error : ClientError} (h : .fail error ∈ (s.handleLine clock raw).2) :
    ∃ line, Line.parse raw = .ok line ∧ s.handleLine clock raw = (s.shown line, s.requested line) ∧
      .emit .connected ∉ (s.handleLine clock raw).2 := by
  cases hparse : Line.parse raw with
  | ok line =>
    rw [handleLine_of_parse hparse] at h ⊢
    obtain ⟨told, htold, -⟩ := (s.handle clock line).report_eq line
    rw [htold] at h
    have hfail : .fail error ∈ (s.handle clock line).actions := by simpa using h
    obtain ⟨-, -, hresult⟩ := (way_handle s clock line).failed_of_mem hfail
    rw [hresult]
    exact ⟨line, rfl, rfl, boundary_not_mem_requested rfl s line⟩
  | error error =>
    rw [handleLine, hparse] at h
    cases error <;> simp at h

/-- On a line that does not connect the session, nothing is put into the queue but answers. -/
theorem handleLine_of_send {text : String} (hother : .emit .connected ∉ (s.handleLine clock raw).2)
    (h : .send text ∈ (s.handleLine clock raw).2) :
    ∃ line, Line.parse raw = .ok line ∧ .send text ∈ (s.register line).1.answers clock line := by
  cases hparse : Line.parse raw with
  | ok line =>
    rw [handleLine_of_parse hparse] at h hother
    obtain ⟨told, htold, -⟩ := (s.handle clock line).report_eq line
    rw [htold] at h hother
    have hsent : .send text ∈ (s.handle clock line).actions := by simpa using h
    refine ⟨line, rfl, (way_handle s clock line).answer_of_send_mem ?_ hsent⟩
    obtain ⟨-, -, -, hcount⟩ | ⟨hunmoved, -⟩ := (way_handle s clock line).connects
    · have hmem := List.count_pos_iff.mp (hcount.symm ▸ Nat.one_pos)
      exact absurd (List.mem_append_left _ hmem) hother
    · exact hunmoved
  | error error =>
    rw [handleLine, hparse] at h
    cases error <;> simp at h

end Receive

/-! ## Runs -/

section Run

variable {s : Session}

theorem greeting_run (s : Session) (inputs : List Input) : (s.run inputs).greeting = s.greeting := by
  apply run_of_receive (P := fun t => t.greeting = s.greeting) _ rfl
  intro t input h
  rw [greeting_receive, h]

/-- A session is connected by the first line that welcomes it. -/
theorem connects_run (hphase : s.registration.phase = .waiting) (inputs : List Input) :
    (∃ input ∈ inputs, input.Welcomes) ∧ (s.run inputs).registration.phase = .welcomed ∧
        (s.actions inputs).count (.emit .connected) = 1 ∨
      (∀ input ∈ inputs, ¬ input.Welcomes) ∧ (s.run inputs).registration.phase = .waiting ∧
        (s.actions inputs).count (.emit .connected) = 0 := by
  induction inputs using List.reverseRecOn with
  | nil => exact Or.inr ⟨by simp, hphase, rfl⟩
  | append_singleton inputs input ih =>
    rw [run_concat, actions_concat, List.count_append]
    have hstep := (s.run inputs).connects_receive input
    obtain ⟨⟨first, hfirst, hwelcomes⟩, hrun, hcount⟩ | ⟨hnone, hrun, hcount⟩ := ih
    · obtain ⟨hwaiting, -⟩ | ⟨-, hkept, hquiet⟩ := hstep
      · rw [hrun] at hwaiting
        cases hwaiting
      · refine Or.inl ⟨⟨first, List.mem_append_left _ hfirst, hwelcomes⟩, ?_, ?_⟩
        · rw [hkept, hrun]
        · rw [hcount, hquiet]
    · obtain ⟨-, hwelcomes, hmoved, htold⟩ | ⟨hother, hkept, hquiet⟩ := hstep
      · refine Or.inl ⟨⟨input, by simp, hwelcomes⟩, hmoved, ?_⟩
        rw [hcount, htold]
      · refine Or.inr ⟨?_, ?_, ?_⟩
        · intro earlier hearlier hwelcomes
          rcases List.mem_append.mp hearlier with hold | hnew
          · exact hnone earlier hold hwelcomes
          · rw [List.mem_singleton.mp hnew] at hwelcomes
            exact hother ⟨hrun, hwelcomes⟩
        · rw [hkept, hrun]
        · rw [hcount, hquiet]

variable (config : ClientConfig) (store : Store)

/-- How a session of a configuration is connected. -/
structure ConnectsOnce : Prop where
  /-- The start neither connects the session nor puts anything into the queue. -/
  started : .emit .connected ∉ (new config store).start.2 ∧
    ∀ text, .send text ∉ (new config store).start.2
  /-- The first line that welcomes the session connects it, and no other does. -/
  first : ∀ inputs input, let s := (new config store).start.1.run inputs
    .emit .connected ∈ s.outputs input ↔
      input.Welcomes ∧ ∀ earlier ∈ inputs, ¬ earlier.Welcomes
  once : ∀ inputs, ((new config store).start.1.actions inputs).count (.emit .connected) ≤ 1
  /-- What the configuration asks for is put into the queue in front of the connection, and behind it
  the line is told by what it is about. -/
  ordered : ∀ inputs clock raw, let s := (new config store).start.1.run inputs
    .emit .connected ∈ (s.handleLine clock raw).2 →
      ∃ line, ∃ events : List Event, Line.parse raw = .ok line ∧
        (s.handleLine clock raw).2 =
          (config.formatter.greeting config.nickservPassword config.autoJoin).map .send ++
            .emit .connected :: events.map .emit ∧
        .connected ∉ events ∧
        (((s.register line).1.dispatch clock line).report line).2 = events.map .emit
  /-- Whatever else is put into the queue is the answer to a line. -/
  queued : ∀ inputs clock raw text, let s := (new config store).start.1.run inputs
    .emit .connected ∉ (s.handleLine clock raw).2 → .send text ∈ (s.handleLine clock raw).2 →
      ∃ line, Line.parse raw = .ok line ∧ .send text ∈ (s.register line).1.answers clock line
  /-- A line on which the registration fails is shown to it and does nothing else. -/
  failed : ∀ inputs clock raw error, let s := (new config store).start.1.run inputs
    .fail error ∈ (s.handleLine clock raw).2 →
      ∃ line, Line.parse raw = .ok line ∧
        s.handleLine clock raw = (s.shown line, s.requested line) ∧
        .emit .connected ∉ (s.handleLine clock raw).2 ∧
        (s.handleLine clock raw).1.store = s.store

/-- A session is connected once, by the first line that welcomes it. -/
theorem connects_once : ConnectsOnce config store := by
  have hruns (inputs : List Input) := connects_run (s := (new config store).start.1) rfl inputs
  constructor
  case started => simp [start, Registration.start, perform, sendNow]
  case first =>
    intro inputs input s
    obtain ⟨⟨earlier, hearlier, hwelcomes⟩, hrun, -⟩ | ⟨hnone, hrun, -⟩ := hruns inputs
    · refine iff_of_false ?_ fun h => h.2 earlier hearlier hwelcomes
      obtain ⟨hwaiting, -⟩ | ⟨-, -, hquiet⟩ := s.connects_receive input
      · rw [hrun] at hwaiting
        cases hwaiting
      · exact List.count_eq_zero.mp hquiet
    · obtain ⟨-, hwelcomes, -, htold⟩ | ⟨hother, -, hquiet⟩ := s.connects_receive input
      · exact iff_of_true (List.count_pos_iff.mp (htold.symm ▸ Nat.one_pos)) ⟨hwelcomes, hnone⟩
      · exact iff_of_false (List.count_eq_zero.mp hquiet) fun h => hother ⟨hrun, h.1⟩
  case once =>
    intro inputs
    obtain ⟨-, -, hcount⟩ | ⟨-, -, hcount⟩ := hruns inputs <;> omega
  case ordered =>
    intro inputs clock raw s hconnected
    have hgreeting : s.greeting =
        config.formatter.greeting config.nickservPassword config.autoJoin :=
      greeting_run (new config store).start.1 inputs
    rw [← hgreeting]
    exact handleLine_of_connected hconnected
  case queued => exact fun inputs clock raw text hother hsent => handleLine_of_send hother hsent
  case failed =>
    intro inputs clock raw error s hfail
    obtain ⟨line, hparse, hresult, hconnected⟩ := handleLine_of_fail hfail
    refine ⟨line, hparse, hresult, hconnected, ?_⟩
    rw [hresult]
    rfl

/-- The welcome of a client that has a password and two channels to join. -/
example :
    let config := { ClientConfig.standard "irc.example.net" "bot" with
      nickservPassword := some "pw", autoJoin := [("#a", none), ("#b", some "key")] }
    (opened config).actions [.line ⟨⟨0, 0⟩, ""⟩ ":irc 001 bot :Welcome"] =
      [.send "PRIVMSG NickServ :IDENTIFY pw", .send "JOIN #a", .send "JOIN #b key",
        .emit .connected, .emit (.serverResponse 1 ["bot", "Welcome"] ":irc 001 bot :Welcome")] := by
  decide +kernel

end Run

end IrcClient.Session
