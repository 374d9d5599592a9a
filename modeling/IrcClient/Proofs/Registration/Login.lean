import IrcClient.Proofs.Registration.Handler
import IrcClient.Proofs.Registration.Record
import IrcClient.Proofs.Sasl.Plain

/-!
# Logging in

An account is logged in to by a handler that has a record of its consultations. It gives the
password away only on an empty challenge, and only when the server has offered the capability and
has accepted the request for it since the last time. What the record says of this follows from the
moves of the handler alone; a run of a registration adds that each line leads to one move at most.
-/

namespace IrcClient

/-! ## What is in a record -/

namespace Consultation

/-- Whether the complete list of what is offered has `sasl`, and it is asked for. -/
def isRequest (c : Consultation) : Bool :=
  match c.prompt with
  | .offered caps => hasCap caps "sasl" && c.answer == [.capRequest ["sasl"]]
  | _ => false

/-- Whether `sasl` is among what is accepted, and the mechanism is named. -/
def isConsent (c : Consultation) : Bool :=
  match c.prompt with
  | .accepted caps => hasCap caps "sasl" && c.answer == [.authenticate "PLAIN"]
  | _ => false

/-- Whether any part of the credentials is given away. -/
def reveals (account password : String) (c : Consultation) : Bool :=
  c.answer.any fun command => command ∈ credentials account password

theorem isRequest_iff {c : Consultation} : c.isRequest = true ↔
    ∃ caps, c.prompt = .offered caps ∧ hasCap caps "sasl" = true ∧
      c.answer = [.capRequest ["sasl"]] := by
  obtain ⟨prompt, answer, report⟩ := c
  cases prompt <;> simp [isRequest]

theorem isConsent_iff {c : Consultation} : c.isConsent = true ↔
    ∃ caps, c.prompt = .accepted caps ∧ hasCap caps "sasl" = true ∧
      c.answer = [.authenticate "PLAIN"] := by
  obtain ⟨prompt, answer, report⟩ := c
  cases prompt <;> simp [isConsent]

end Consultation

section Past

variable {account password : String} {past : List Consultation} {c : Consultation}

theorem reveals_iff : c.reveals account password = true ↔
    ∃ command ∈ c.answer, command ∈ credentials account password := by
  simp [Consultation.reveals]

theorem reveals_singleton {command : Command} (h : command ∉ credentials account password)
    (prompt : Prompt) (report : Except RegistrationError Bool) :
    Consultation.reveals account password ⟨prompt, [command], report⟩ = false := by
  rw [← Bool.not_eq_true, reveals_iff]
  rintro ⟨other, hanswer, hsecret⟩
  rw [List.mem_singleton.mp hanswer] at hsecret
  exact h hsecret

theorem not_mem_credentials {command : Command} (h : ∀ payload, command ≠ .authenticate payload) :
    command ∉ credentials account password := by
  intro hmem
  obtain ⟨chunk, -, hchunk⟩ := List.mem_map.mp hmem
  exact h chunk hchunk.symm

theorem plain_not_mem_credentials : .authenticate "PLAIN" ∉ credentials account password := by
  intro h
  obtain ⟨chunk, hmem, hchunk⟩ := List.mem_map.mp h
  cases hchunk
  exact Sasl.plain_not_mem_chunks account password hmem

/-- The capability is asked for, and nothing is given away since then. -/
def Requested (account password : String) (past : List Consultation) : Prop :=
  ∃ earlier request waiting, past = earlier ++ request :: waiting ∧ request.isRequest = true ∧
    ∀ c ∈ request :: waiting, c.reveals account password = false

/-- The capability is asked for, later the mechanism is named on the server's consent, and nothing is
given away since the request. -/
def Consented (account password : String) (past : List Consultation) : Prop :=
  ∃ earlier request between consent waiting,
    past = earlier ++ request :: between ++ consent :: waiting ∧
    request.isRequest = true ∧ consent.isConsent = true ∧
    ∀ c ∈ request :: between ++ consent :: waiting, c.reveals account password = false

theorem requested_concat (hrequest : c.isRequest = true)
    (hsilent : c.reveals account password = false) : Requested account password (past ++ [c]) := by
  refine ⟨past, c, [], rfl, hrequest, ?_⟩
  rw [List.forall_mem_singleton]
  exact hsilent

theorem Requested.concat (h : Requested account password past)
    (hsilent : c.reveals account password = false) : Requested account password (past ++ [c]) := by
  obtain ⟨earlier, request, waiting, rfl, hrequest, hquiet⟩ := h
  refine ⟨earlier, request, waiting ++ [c], by simp, hrequest, ?_⟩
  rw [← List.cons_append, List.forall_mem_append, List.forall_mem_singleton]
  exact ⟨hquiet, hsilent⟩

theorem Requested.consented (h : Requested account password past) (hconsent : c.isConsent = true)
    (hsilent : c.reveals account password = false) : Consented account password (past ++ [c]) := by
  obtain ⟨earlier, request, waiting, rfl, hrequest, hquiet⟩ := h
  refine ⟨earlier, request, waiting, c, [], by simp, hrequest, hconsent, ?_⟩
  rw [List.forall_mem_append, List.forall_mem_singleton]
  exact ⟨hquiet, hsilent⟩

theorem Consented.concat (h : Consented account password past)
    (hsilent : c.reveals account password = false) : Consented account password (past ++ [c]) := by
  obtain ⟨earlier, request, between, consent, waiting, rfl, hrequest, hconsent, hquiet⟩ := h
  refine ⟨earlier, request, between, consent, waiting ++ [c], by simp, hrequest, hconsent, ?_⟩
  rw [← List.cons_append, ← List.append_assoc, List.forall_mem_append, List.forall_mem_singleton]
  exact ⟨hquiet, hsilent⟩

end Past

/-! ## The moves of a login -/

/-- The states of a login with their records. -/
inductive Progress (account password : String) : SaslState → List Consultation → Prop where
  | fresh : Progress account password .initial []
  | move {state next : SaslState} {past : List Consultation} {prompt : Prompt}
      {answer : List Command} (h : Progress account password state past)
      (hmove : SaslMove account password state prompt next answer)
      (report : Except RegistrationError Bool) :
      Progress account password next (past ++ [⟨prompt, answer, report⟩])

/-- What a record tells when a login waits for the server in a certain state. -/
def Awaits (account password : String) : SaslState → List Consultation → Prop
  | .requested, past => Requested account password past
  | .mechanismSent, past => Consented account password past
  | _, _ => True

section Moves

variable {account password : String} {state next : SaslState} {past : List Consultation}

theorem Awaits.concat (h : Awaits account password state past) {c : Consultation}
    (hsilent : c.reveals account password = false) : Awaits account password state (past ++ [c]) := by
  cases state with
  | requested => exact Requested.concat h hsilent
  | mechanismSent => exact Consented.concat h hsilent
  | initial => trivial
  | credentialsSent => trivial
  | success => trivial
  | failed reason => trivial

theorem awaits_of_isComplete (h : state.isComplete = true) : Awaits account password state past := by
  cases state with
  | requested => cases h
  | mechanismSent => cases h
  | initial => trivial
  | credentialsSent => trivial
  | success => trivial
  | failed reason => trivial

/-- The credentials are the answer to an empty challenge after the mechanism is named. -/
theorem SaslMove.challenged {prompt : Prompt} {answer : List Command}
    (h : SaslMove account password state prompt next answer) {command : Command}
    (hanswer : command ∈ answer) (hsecret : command ∈ credentials account password) :
    state = .mechanismSent ∧ answer = credentials account password ∧
      ∃ line, prompt = .other line ∧ line.command = "AUTHENTICATE" ∧ line.param 0 = some "+" := by
  cases h with
  | request =>
    rw [List.mem_singleton.mp hanswer] at hsecret
    exact absurd hsecret (not_mem_credentials (by simp))
  | consent =>
    rw [List.mem_singleton.mp hanswer] at hsecret
    exact absurd hsecret plain_not_mem_credentials
  | challenge h =>
    obtain ⟨hcommand, hempty, hstate⟩ := h
    exact ⟨hstate, rfl, _, rfl, hcommand, hempty⟩
  | idle => cases hanswer
  | settled => cases hanswer

/-- A login answers where it has an answer. -/
theorem SaslMove.answered {prompt : Prompt} {answer : List Command}
    (h : SaslMove account password state prompt next answer) (hready : state.Answers prompt) :
    answer = match prompt with
      | .offered _ => [.capRequest ["sasl"]]
      | .accepted _ => [.authenticate "PLAIN"]
      | .refused _ => []
      | .other _ => credentials account password := by
  cases h with
  | request => rfl
  | consent => rfl
  | challenge => rfl
  | idle hnone => exact absurd hready hnone
  | settled hnone => exact absurd hready hnone

theorem Progress.awaits (h : Progress account password state past) :
    Awaits account password state past := by
  induction h with
  | fresh => trivial
  | move h hmove report ih =>
    cases hmove with
    | @request caps hnamed =>
      exact requested_concat (Consultation.isRequest_iff.mpr ⟨caps, rfl, hnamed, rfl⟩)
        (reveals_singleton (not_mem_credentials (by simp)) _ _)
    | @consent caps hready =>
      obtain ⟨hnamed, rfl⟩ := hready
      exact Requested.consented ih (Consultation.isConsent_iff.mpr ⟨caps, rfl, hnamed, rfl⟩)
        (reveals_singleton plain_not_mem_credentials _ _)
    | challenge => trivial
    | idle => exact ih.concat rfl
    | settled _ hcomplete => exact awaits_of_isComplete hcomplete

/-- The credentials are given away at most once for each consent, and not yet for the last one while
the challenge is waited for. -/
theorem Progress.countP_reveals (h : Progress account password state past) :
    past.countP (·.reveals account password) + (decide (state = .mechanismSent)).toNat ≤
      past.countP Consultation.isConsent := by
  induction h with
  | fresh => exact Nat.le_refl 0
  | @move state next past prompt answer h hmove report ih =>
    rw [List.countP_append, List.countP_append, List.countP_singleton, List.countP_singleton]
    cases hmove with
    | request =>
      rw [reveals_singleton (not_mem_credentials (by simp))]
      exact Nat.le_trans (Nat.le_add_right _ _) ih
    | @consent caps hready =>
      obtain ⟨hnamed, rfl⟩ := hready
      have hconsent : Consultation.isConsent ⟨.accepted caps, [.authenticate "PLAIN"], report⟩ = true :=
        Consultation.isConsent_iff.mpr ⟨caps, rfl, hnamed, rfl⟩
      rw [reveals_singleton plain_not_mem_credentials, hconsent]
      exact Nat.succ_le_succ ih
    | challenge hready =>
      obtain ⟨-, -, rfl⟩ := hready
      generalize Consultation.reveals account password _ = revealed
      cases revealed with
      | true => exact ih
      | false => exact Nat.le_of_add_right_le ih
    | idle => exact Nat.le_trans ih (Nat.le_add_right _ _)
    | settled _ hcomplete =>
      have hstate : next ≠ .mechanismSent := by
        rintro rfl
        cases hcomplete
      rw [decide_eq_false hstate]
      exact Nat.le_trans (Nat.le_of_add_right_le ih) (Nat.le_add_right _ _)

theorem Progress.state_of_isRequest (h : Progress account password state past) {c : Consultation}
    (hlast : past.getLast? = some c) (hrequest : c.isRequest = true) : state = .requested := by
  cases h with
  | fresh => cases hlast
  | move h hmove report =>
    rw [List.getLast?_concat] at hlast
    cases hlast
    obtain ⟨caps, rfl, hnamed, hanswer⟩ := Consultation.isRequest_iff.mp hrequest
    cases hmove with
    | request => rfl
    | idle => cases hanswer
    | settled => cases hanswer

theorem Progress.state_of_isConsent (h : Progress account password state past) {c : Consultation}
    (hlast : past.getLast? = some c) (hconsent : c.isConsent = true) : state = .mechanismSent := by
  cases h with
  | fresh => cases hlast
  | move h hmove report =>
    rw [List.getLast?_concat] at hlast
    cases hlast
    obtain ⟨caps, rfl, hnamed, hanswer⟩ := Consultation.isConsent_iff.mp hconsent
    cases hmove with
    | consent => rfl
    | idle => cases hanswer
    | settled => cases hanswer

end Moves

/-! ## Runs -/

/-- A handler logs in to an account, and its record tells how it came to its state. -/
def Seat.LogsIn {K : Type} (account password : String) (tolerant : Bool)
    (seat : Seat (Recorded (Handler ⊕ K))) : Prop :=
  ∃ state, seat.handler.handler = .inl (.sasl account password tolerant state) ∧
    Progress account password state seat.handler.past

section Runs

variable {K : Type} [CapHandler K] {account password : String} {tolerant : Bool}
  {seat : Seat (Recorded (Handler ⊕ K))}

/-- A built-in handler that keeps a record takes its turn. -/
theorem Seat.shown_inl {handler : Handler} (h : seat.handler.handler = .inl handler)
    (enabled : List String) (prompt : Prompt) :
    (seat.shown enabled prompt).handler.handler = .inl (handler.step prompt).handler ∧
      seat.answer enabled prompt = (handler.step prompt).outgoing ∧
      (CapHandler.step seat.handler enabled prompt).outcome = (handler.step prompt).outcome := by
  have hstep : CapHandler.step seat.handler.handler enabled prompt =
      (handler.step prompt).map .inl := by
    rw [h]
    rfl
  refine ⟨?_, ?_, ?_⟩
  · change (CapHandler.step seat.handler.handler enabled prompt).handler = _
    rw [hstep]
    rfl
  · change (CapHandler.step seat.handler.handler enabled prompt).outgoing = _
    rw [hstep]
    rfl
  · change (CapHandler.step seat.handler.handler enabled prompt).outcome = _
    rw [hstep]
    rfl

/-- A login takes its turn by one of its moves. -/
theorem Seat.shown_sasl {state : SaslState}
    (hhandler : seat.handler.handler = .inl (.sasl account password tolerant state))
    (hprogress : Progress account password state seat.handler.past) (enabled : List String)
    (prompt : Prompt) :
    ∃ next, (seat.shown enabled prompt).handler.handler =
        .inl (.sasl account password tolerant next) ∧
      Progress account password next (seat.shown enabled prompt).handler.past ∧
      SaslMove account password state prompt next (seat.answer enabled prompt) := by
  obtain ⟨next, hnext, hmove⟩ := Handler.stepSasl_spec account password tolerant state prompt
  obtain ⟨hshown, hanswer, -⟩ := Seat.shown_inl hhandler enabled prompt
  obtain ⟨report, hpast, -⟩ := seat.past_shown enabled prompt
  rw [Handler.step, hnext] at hshown
  rw [Handler.step] at hanswer
  rw [← hanswer] at hmove
  refine ⟨next, hshown, ?_, hmove⟩
  rw [hpast]
  exact hprogress.move hmove report

theorem Seat.LogsIn.shown (h : seat.LogsIn account password tolerant) (enabled : List String)
    (prompt : Prompt) :
    (seat.shown enabled prompt).LogsIn account password tolerant ∧
      ∃ state next, Progress account password state seat.handler.past ∧
        SaslMove account password state prompt next (seat.answer enabled prompt) := by
  obtain ⟨state, hhandler, hprogress⟩ := h
  obtain ⟨next, hshown, hgrown, hmove⟩ := Seat.shown_sasl hhandler hprogress enabled prompt
  exact ⟨⟨next, hshown, hgrown⟩, state, next, hprogress, hmove⟩

namespace Registration

variable {r : Registration (Recorded (Handler ⊕ K))} {i : Nat} {line : Line}

theorem logsIn_feed (h : ∃ seat, r.seats[i]? = some seat ∧ seat.LogsIn account password tolerant)
    (line : Line) :
    ∃ seat, (r.feed line).1.seats[i]? = some seat ∧ seat.LogsIn account password tolerant := by
  obtain ⟨seat, hseat, hlogin⟩ := h
  obtain hleft | ⟨-, enabled, prompt, -, hshown, -⟩ := getElem?_seats_feed hseat line
  · exact ⟨seat, hleft, hlogin⟩
  · exact ⟨seat.shown enabled prompt, hshown, (hlogin.shown enabled prompt).1⟩

/-- What a line adds to the record of a login is one of its moves. -/
theorem move_feed (h : ∃ seat, r.seats[i]? = some seat ∧ seat.LogsIn account password tolerant)
    {c : Consultation} (hpast : (r.feed line).1.past i = r.past i ++ [c]) :
    r.Tells line c.prompt ∧ ∃ state next, Progress account password state (r.past i) ∧
      SaslMove account password state c.prompt next c.answer := by
  obtain ⟨seat, hseat, hlogin⟩ := h
  obtain ⟨enabled, htold, hanswer, -⟩ := turn_of_past_feed hseat hpast
  rw [past_eq hseat, hanswer]
  exact ⟨htold, (hlogin.shown enabled c.prompt).2⟩

variable (config : RegistrationConfig) (handlers : List (Handler ⊕ K)) (i : Nat)
  (account password : String)

/-- How the handler in a place keeps the credentials of an account in a run, told by the records of
the handlers. -/
structure KeepsCredentials : Prop where
  /-- Nothing is different without the records. -/
  unobserved : ∀ lines,
    (opened config handlers).run lines = ((watched config handlers).run lines).map Recorded.handler ∧
      (opened config handlers).actions lines = (watched config handlers).actions lines
  /-- A line adds to a record what it tells, and what is said to that is sent. -/
  recorded : ∀ lines line j, let r := (watched config handlers).run lines
    (r.feed line).1.past j = r.past j ∨
      ∃ c, (r.feed line).1.past j = r.past j ++ [c] ∧ r.Tells line c.prompt ∧
        ∀ command ∈ c.answer, .send command ∈ (r.feed line).2
  /-- Nothing is authenticated with but what a handler says to what a line tells. -/
  attributed : ∀ lines line payload, let r := (watched config handlers).run lines
    .send (.authenticate payload) ∈ (r.feed line).2 →
      ∃ j c, (r.feed line).1.past j = r.past j ++ [c] ∧ .authenticate payload ∈ c.answer
  /-- The handler in the place gives the credentials away on an empty challenge only, and only if a
  request and the server's consent to it have come since the last time. -/
  challenged : ∀ lines line c, let r := (watched config handlers).run lines
    (r.feed line).1.past i = r.past i ++ [c] → c.reveals account password = true →
      line.command = "AUTHENTICATE" ∧ line.param 0 = some "+" ∧ c.prompt = .other line ∧
        c.answer = credentials account password ∧ Consented account password (r.past i)
  /-- An offer of the capability is taken up. -/
  requested : ∀ lines line c caps, let r := (watched config handlers).run lines
    (r.feed line).1.past i = r.past i ++ [c] → c.prompt = .offered caps →
      hasCap caps "sasl" = true → c.isRequest = true
  /-- The mechanism is named when the request is accepted. -/
  named : ∀ lines line c request caps, let r := (watched config handlers).run lines
    (r.feed line).1.past i = r.past i ++ [c] → (r.past i).getLast? = some request →
      request.isRequest = true → c.prompt = .accepted caps → hasCap caps "sasl" = true →
      c.isConsent = true
  /-- The credentials are the answer to the empty challenge that follows. -/
  answered : ∀ lines line c consent, let r := (watched config handlers).run lines
    (r.feed line).1.past i = r.past i ++ [c] → (r.past i).getLast? = some consent →
      consent.isConsent = true → c.prompt = .other line → line.command = "AUTHENTICATE" →
      line.param 0 = some "+" → c.answer = credentials account password
  /-- The credentials are given away at most once for each consent. -/
  spent : ∀ lines, let r := (watched config handlers).run lines
    (r.past i).countP (·.reveals account password) ≤ (r.past i).countP Consultation.isConsent
  /-- The handler is not asked again once it has said that it is done. -/
  dismissed : ∀ lines line, let r := (watched config handlers).run lines
    (∃ c ∈ r.past i, c.report = .ok true) → (r.feed line).1.past i = r.past i

variable {config handlers i account password}

/-- A login that is there from the start keeps the credentials. -/
theorem keeps_credentials
    (hlogin : handlers[i]? = some (.inl (.sasl account password tolerant .initial))) :
    KeepsCredentials config handlers i account password := by
  have hlogsIn (lines : List Line) : ∃ seat, ((watched config handlers).run lines).seats[i]? = some seat ∧
      seat.LogsIn account password tolerant := by
    apply run_of_feed (P := fun r => ∃ seat, r.seats[i]? = some seat ∧
      seat.LogsIn account password tolerant) (fun r line h => logsIn_feed h line)
    refine ⟨⟨.fresh (.inl (.sasl account password tolerant .initial)), false⟩, ?_, .initial, rfl, .fresh⟩
    rw [watched, seats_opened, List.getElem?_map, List.getElem?_map, hlogin]
    rfl
  constructor
  case unobserved =>
    intro lines
    rw [run_watched, actions_watched]
    exact ⟨rfl, rfl⟩
  case recorded => exact fun lines line j => past_feed _ line j
  case attributed =>
    intro lines line payload r hsent
    rcases past_of_send_mem_feed hsent with ⟨nick, hnick⟩ | hend | hanswered
    · cases hnick
    · cases hend
    · exact hanswered
  case challenged =>
    intro lines line c r hpast hreveals
    obtain ⟨htold, state, next, hprogress, hmove⟩ := move_feed (hlogsIn lines) hpast
    obtain ⟨command, hanswer, hsecret⟩ := reveals_iff.mp hreveals
    obtain ⟨rfl, hall, other, hprompt, hcommand, hempty⟩ := hmove.challenged hanswer hsecret
    rw [hprompt] at htold
    cases htold
    exact ⟨hcommand, hempty, hprompt, hall, hprogress.awaits⟩
  case requested =>
    intro lines line c caps r hpast hprompt hnamed
    obtain ⟨-, state, next, -, hmove⟩ := move_feed (hlogsIn lines) hpast
    rw [hprompt] at hmove
    exact Consultation.isRequest_iff.mpr ⟨caps, hprompt, hnamed, hmove.answered hnamed⟩
  case named =>
    intro lines line c request caps r hpast hlast hrequest hprompt hnamed
    obtain ⟨-, state, next, hprogress, hmove⟩ := move_feed (hlogsIn lines) hpast
    have hstate : state = .requested := hprogress.state_of_isRequest hlast hrequest
    rw [hprompt] at hmove
    exact Consultation.isConsent_iff.mpr ⟨caps, hprompt, hnamed, hmove.answered ⟨hnamed, hstate⟩⟩
  case answered =>
    intro lines line c consent r hpast hlast hconsent hprompt hcommand hempty
    obtain ⟨-, state, next, hprogress, hmove⟩ := move_feed (hlogsIn lines) hpast
    have hstate : state = .mechanismSent := hprogress.state_of_isConsent hlast hconsent
    rw [hprompt] at hmove
    exact hmove.answered ⟨hcommand, hempty, hstate⟩
  case spent =>
    intro lines r
    obtain ⟨seat, hseat, state, -, hprogress⟩ := hlogsIn lines
    have hcount : (r.past i).countP (·.reveals account password) + (decide (state = .mechanismSent)).toNat ≤
        (r.past i).countP Consultation.isConsent := by
      rw [past_eq hseat]
      exact hprogress.countP_reveals
    exact Nat.le_of_add_right_le hcount
  case dismissed =>
    rintro lines line r ⟨c, hmem, hdone⟩
    exact past_feed_of_isDone (faithful_watched config handlers lines) hmem hdone line

/-- An account is logged in to, and the second empty challenge gets no answer. -/
theorem keeps_credentials_repeated :
    let config := (ClientConfig.standard "irc.example.net" "bot").toRegistrationConfig
    let handlers : List (Handler ⊕ Handler) :=
      [.inr (.enable "away-notify" true), .inl (.sasl "bot" "pw" false .initial)]
    let offer : Line := ⟨"", [], none, "CAP", ["*", "LS", "sasl=PLAIN"]⟩
    let consent : Line := ⟨"", [], none, "CAP", ["*", "ACK", "sasl"]⟩
    let challenge : Line := ⟨"", [], none, "AUTHENTICATE", ["+"]⟩
    handlers[1]? = some (.inl (.sasl "bot" "pw" false .initial)) ∧
      KeepsCredentials config handlers 1 "bot" "pw" ∧
      (opened config handlers).actions [challenge, offer, consent, challenge, challenge] =
        [.send (.capRequest ["sasl"]), .send (.authenticate "PLAIN"),
          .send (.authenticate "Ym90AGJvdABwdw==")] :=
  ⟨rfl, keeps_credentials rfl, by decide⟩

end Registration

end Runs

end IrcClient
