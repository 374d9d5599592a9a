import IrcClient.Proofs.Session.Handle
import IrcClient.Proofs.Session.Report

/-!
# A client that speaks when it is spoken to

After the welcome, each line is answered with exactly what it asks for. Since neither notices nor
replies of the server ask for anything, two clients never answer each other's answers. An answer
repeats text that the server chose, but no line break in it.
-/

namespace IrcClient

/-- Whether an action puts something on the wire. -/
def Action.isOutbound : Action → Bool
  | .send _ | .sendNow _ => true
  | _ => false

theorem Action.filter_isOutbound_emit (events : List Event) :
    (events.map Action.emit).filter Action.isOutbound = [] := by
  rw [List.filter_eq_nil_iff]
  intro action hmem
  obtain ⟨event, -, rfl⟩ := List.mem_map.mp hmem
  exact Bool.false_ne_true

namespace Session

variable {s : Session} {clock : Clock} {line : Line} {raw : String}

/-- Every answer is a single line. -/
theorem line_of_mem_answers {action : Action} (h : action ∈ s.answers clock line) :
    ∃ command, action = .send (s.formatter.formatWhole command) ∨
      action = .sendNow (s.formatter.formatWhole command) := by
  unfold answers at h
  split at h
  · exact ⟨_, Or.inr (List.mem_singleton.mp h)⟩
  · split at h
    · rcases List.mem_cons.mp h with hwho | hmode
      · exact ⟨_, Or.inl hwho⟩
      · exact ⟨_, Or.inl (List.mem_singleton.mp hmode)⟩
    · cases h
  · split at h
    · exact ⟨_, Or.inl (List.mem_singleton.mp h)⟩
    · cases h
  · cases h

theorem filter_isOutbound_answers (s : Session) (clock : Clock) (line : Line) :
    (s.answers clock line).filter Action.isOutbound = s.answers clock line := by
  rw [List.filter_eq_self]
  intro action hmem
  obtain ⟨command, rfl | rfl⟩ := line_of_mem_answers hmem <;> rfl

theorem reports_handle_ping (hping : line.verb = .ping) :
    s.Reports (s.answers clock line) (s.handle clock line) := by
  have hanswers : s.answers clock line = s.sendNow (.pong (line.lastParam.getD "")) := by
    rw [sendNow_of_splitHead? rfl]
    simp only [answers, hping]
  rw [handle, if_pos hping, hanswers]
  exact ⟨⟨[.serverPing (line.lastParam.getD "")], rfl, List.forall_mem_singleton.mpr rfl⟩, rfl, rfl⟩

theorem reports_handle (hregistered : s.isRegistered = true) (clock : Clock) (line : Line) :
    s.Reports (s.answers clock line) (s.handle clock line) := by
  by_cases hping : line.verb = .ping
  · exact reports_handle_ping hping
  · rw [handle, if_neg hping, register_of_isRegistered hregistered]
    exact reports_dispatch s clock hping

/-- A registered session only answers, and tells of the rest. -/
theorem handleLine_of_isRegistered (hregistered : s.isRegistered = true) (clock : Clock)
    (raw : String) :
    ∃ events : List Event,
      (s.handleLine clock raw).2 =
        (match Line.parse raw with
          | .ok line => s.answers clock line
          | .error _ => []) ++ events.map .emit ∧
      (s.handleLine clock raw).1.registration = s.registration := by
  unfold handleLine
  split
  · rename_i line hparse
    have hreports := reports_handle hregistered clock line
    obtain ⟨events, hevents, -⟩ := hreports.report line
    rw [hparse, hevents]
    exact ⟨events, rfl, hreports.registration⟩
  · rename_i hparse
    rw [hparse]
    exact ⟨[], rfl, rfl⟩
  · rename_i hparse
    rw [hparse]
    exact ⟨[.unknown raw], rfl, rfl⟩

theorem mem_handleLine_of_isRegistered (hregistered : s.isRegistered = true) {action : Action}
    (hmem : action ∈ (s.handleLine clock raw).2) :
    (∃ command, action = .send (s.formatter.formatWhole command) ∨
      action = .sendNow (s.formatter.formatWhole command)) ∨ ∃ event, action = .emit event := by
  obtain ⟨events, hevents, -⟩ := handleLine_of_isRegistered hregistered clock raw
  rw [hevents] at hmem
  rcases List.mem_append.mp hmem with hsaid | htold
  · split at hsaid
    · exact Or.inl (line_of_mem_answers hsaid)
    · cases hsaid
  · obtain ⟨event, -, rfl⟩ := List.mem_map.mp htold
    exact Or.inr ⟨event, rfl⟩

theorem isRegistered_receive (hregistered : s.isRegistered = true) (input : Input) :
    (s.receive input).isRegistered = true := by
  cases input with
  | line clock raw =>
    obtain ⟨events, -, hkept⟩ := handleLine_of_isRegistered hregistered clock raw
    rw [receive, isRegistered, hkept]
    exact hregistered
  | disconnect error =>
    rw [receive, disconnect]
    split <;> exact hregistered

/-- How a session deals with lines when it speaks only when it is spoken to. -/
structure SpeaksWhenSpokenTo (s : Session) : Prop where
  /-- A line is answered with what it asks for, in order, and with nothing else. -/
  answered : ∀ clock raw line, Line.parse raw = .ok line →
    (s.handleLine clock raw).2.filter Action.isOutbound = s.answers clock line
  /-- What cannot be read is not answered. -/
  unread : ∀ clock raw error, Line.parse raw = .error error →
    (s.handleLine clock raw).2.filter Action.isOutbound = []
  /-- Neither the notices of others nor the replies of the server are answered. -/
  conclusive : ∀ clock raw line, Line.parse raw = .ok line →
    line.verb = .notice ∨ (∃ code, line.verb = .numeric code) →
      (s.handleLine clock raw).2.filter Action.isOutbound = []
  /-- No line that goes out is more than one line. -/
  unbroken : ∀ clock raw text,
    .send text ∈ (s.handleLine clock raw).2 ∨ .sendNow text ∈ (s.handleLine clock raw).2 →
      LineFormatter.Unbroken text.toList
  /-- The connection is neither given up nor encrypted any more. -/
  steady : ∀ clock raw, .startTls ∉ (s.handleLine clock raw).2 ∧
    ∀ error, .fail error ∉ (s.handleLine clock raw).2

theorem speaksWhenSpokenTo_of_isRegistered (hregistered : s.isRegistered = true) :
    s.SpeaksWhenSpokenTo := by
  have hanswered (clock : Clock) (raw : String) (line : Line) (hparse : Line.parse raw = .ok line) :
      (s.handleLine clock raw).2.filter Action.isOutbound = s.answers clock line := by
    obtain ⟨events, hevents, -⟩ := handleLine_of_isRegistered hregistered clock raw
    rw [hevents, hparse, List.filter_append, Action.filter_isOutbound_emit, List.append_nil,
      filter_isOutbound_answers]
  constructor
  case answered => exact hanswered
  case unread =>
    intro clock raw error hparse
    obtain ⟨events, hevents, -⟩ := handleLine_of_isRegistered hregistered clock raw
    rw [hevents, hparse, List.nil_append, Action.filter_isOutbound_emit]
  case conclusive =>
    intro clock raw line hparse hverb
    rw [hanswered clock raw line hparse]
    rcases hverb with hverb | ⟨code, hverb⟩ <;>
      exact answers_eq_nil (by simp [hverb]) (Or.inr (by simp [hverb]))
  case unbroken =>
    intro clock raw text hsent
    have hline (command : Command) (heq : text = s.formatter.formatWhole command) :
        LineFormatter.Unbroken text.toList := by
      rw [heq]
      exact s.formatter.unbroken_formatWhole command
    rcases hsent with hsent | hsent
    · obtain ⟨command, heq | heq⟩ | ⟨event, heq⟩ := mem_handleLine_of_isRegistered hregistered hsent
      · exact hline command (Action.send.inj heq)
      · cases heq
      · cases heq
    · obtain ⟨command, heq | heq⟩ | ⟨event, heq⟩ := mem_handleLine_of_isRegistered hregistered hsent
      · cases heq
      · exact hline command (Action.sendNow.inj heq)
      · cases heq
  case steady =>
    intro clock raw
    constructor
    · intro hmem
      obtain ⟨command, heq | heq⟩ | ⟨event, heq⟩ := mem_handleLine_of_isRegistered hregistered hmem <;>
        cases heq
    · intro error hmem
      obtain ⟨command, heq | heq⟩ | ⟨event, heq⟩ := mem_handleLine_of_isRegistered hregistered hmem <;>
        cases heq

/-- Once it is welcomed, a client speaks only when it is spoken to, whatever it is told later. -/
theorem speaks_when_spoken_to (hregistered : s.isRegistered = true) (inputs : List Input) :
    (s.run inputs).SpeaksWhenSpokenTo := by
  have hstays : (s.run inputs).isRegistered = true :=
    run_of_receive (P := fun s => s.isRegistered = true)
      (fun _ input h => isRegistered_receive h input) hregistered inputs
  exact speaksWhenSpokenTo_of_isRegistered hstays

/-- A request comes with a carriage return in it, and is answered in one line. -/
theorem speaks_when_spoken_to_request :
    let clock : Clock := ⟨⟨0, 0⟩, ""⟩
    let config := { ClientConfig.standard "irc.example.net" "bot" with capEnabled := false }
    let s := (opened config).run [.line clock ":irc 001 bot :Welcome"]
    let raw := ":eve!e@h PRIVMSG bot :\x01PING 1\rQUIT\x01"
    s.isRegistered = true ∧ (s.run []).SpeaksWhenSpokenTo ∧
      (s.handleLine clock raw).2.filter Action.isOutbound =
        [.send "NOTICE eve :\x01PING 1 QUIT\x01"] := by
  intro clock config s raw
  exact ⟨by decide +kernel, speaks_when_spoken_to (by decide +kernel) [], by decide +kernel⟩

end Session

end IrcClient
