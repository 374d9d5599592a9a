import IrcClient.Proofs.Registration.Login

/-!
# Upgrading beside a login

An upgrade and a login are negotiated side by side, each on its own prompts, and the login does not
wait for the upgrade. Yet it is shown nothing that an upgrade in front of it is not shown first, and
so encryption is asked for before the login begins. From then on the order is the server's: as long
as the upgrade is not settled, the credentials are given away only if the server has accepted the
login in the meantime and then challenges it, and if it does, they are.
-/

namespace IrcClient

/-! ## What is in a record -/

namespace Consultation

/-- Whether encryption is asked for, on an offer that has it. -/
def AsksUpgrade (c : Consultation) : Prop :=
  c.answer = [.startTls] ∧ ∃ caps, c.prompt = .offered caps ∧ hasCap caps "tls" = true

/-- Whether encryption is asked for, on an offer that has the login too. -/
def IsJointOffer (c : Consultation) : Prop :=
  c.answer = [.startTls] ∧
    ∃ caps, c.prompt = .offered caps ∧ hasCap caps "tls" = true ∧ hasCap caps "sasl" = true

/-- Whether the login is among what is accepted. -/
def AcceptsLogin (c : Consultation) : Prop :=
  ∃ caps, c.prompt = .accepted caps ∧ hasCap caps "sasl" = true

/-- Whether an upgrade that has a certain record is settled by one more consultation: the server
consents to what it was asked for, or failure is tolerated and the server refuses or does not offer
encryption at all. -/
def Settles (tolerant : Bool) (past : List Consultation) (c : Consultation) : Prop :=
  (∃ line, c.prompt = .other line ∧ (∃ asked ∈ past, asked.AsksUpgrade) ∧
      (line.numeric = some 670 ∨ tolerant = true ∧ line.numeric = some 691)) ∨
    tolerant = true ∧ ∃ caps, c.prompt = .offered caps ∧ hasCap caps "tls" = false

end Consultation

/-- The login is accepted after an offer on which encryption was asked for. -/
def Overtaken (past : List Consultation) : Prop :=
  ∃ earlier consent waiting, past = earlier ++ consent :: waiting ∧ consent.AcceptsLogin ∧
    ∃ offer ∈ earlier, offer.IsJointOffer

/-- What the record of an upgrade that is not settled tells when the login behind it waits for the
server in a certain state. -/
def Trails : SaslState → List Consultation → Prop
  | .requested, past => ∃ offer ∈ past, offer.IsJointOffer
  | .mechanismSent, past => Overtaken past
  | _, _ => True

theorem Overtaken.concat {past : List Consultation} (h : Overtaken past) (c : Consultation) :
    Overtaken (past ++ [c]) := by
  obtain ⟨earlier, consent, waiting, rfl, hconsent, hoffer⟩ := h
  exact ⟨earlier, consent, waiting ++ [c], by simp, hconsent, hoffer⟩

theorem Trails.concat {state : SaslState} {past : List Consultation} (h : Trails state past)
    (c : Consultation) : Trails state (past ++ [c]) := by
  cases state with
  | requested =>
    obtain ⟨offer, hmem, hoffer⟩ := h
    exact ⟨offer, List.mem_append_left _ hmem, hoffer⟩
  | mechanismSent => exact Overtaken.concat h c
  | initial => trivial
  | credentialsSent => trivial
  | success => trivial
  | failed reason => trivial

theorem trails_of_isComplete {state : SaslState} (h : state.isComplete = true)
    (past : List Consultation) : Trails state past := by
  cases state with
  | requested => cases h
  | mechanismSent => cases h
  | initial => trivial
  | credentialsSent => trivial
  | success => trivial
  | failed reason => trivial

/-! ## The moves of an upgrade -/

/-- The states of an upgrade with their records. -/
inductive Upgrading (tolerant : Bool) : Bool → List Consultation → Prop where
  | fresh : Upgrading tolerant false []
  | move {requested next : Bool} {past : List Consultation} {prompt : Prompt}
      {answer : List Command} {report : Except RegistrationError Bool}
      (h : Upgrading tolerant requested past)
      (hmove : TlsMove tolerant requested prompt next answer report) :
      Upgrading tolerant next (past ++ [⟨prompt, answer, report⟩])

section Moves

variable {tolerant requested next : Bool} {past : List Consultation} {prompt : Prompt}
  {answer : List Command} {report : Except RegistrationError Bool}

/-- Encryption counts as asked for only where it was. -/
theorem Upgrading.asked (h : Upgrading tolerant requested past) (hrequested : requested = true) :
    ∃ c ∈ past, c.AsksUpgrade := by
  have earlier {past : List Consultation} (h : ∃ c ∈ past, c.AsksUpgrade) (last : Consultation) :
      ∃ c ∈ past ++ [last], c.AsksUpgrade := by
    obtain ⟨c, hmem, hasks⟩ := h
    exact ⟨c, List.mem_append_left _ hmem, hasks⟩
  induction h with
  | fresh => cases hrequested
  | move h hmove ih =>
    cases hmove with
    | @ask caps hnamed =>
      exact ⟨_, List.mem_append_right _ (List.mem_singleton_self _), rfl, caps, rfl, hnamed⟩
    | settle => exact earlier (ih hrequested) _
    | giveUp => exact earlier (ih hrequested) _
    | idle => exact earlier (ih hrequested) _

theorem Upgrading.settles (h : Upgrading tolerant requested past)
    (hmove : TlsMove tolerant requested prompt next answer report) (hdone : report = .ok true) :
    Consultation.Settles tolerant past ⟨prompt, answer, report⟩ := by
  cases hmove with
  | ask => cases hdone
  | settle hsettles =>
    cases prompt with
    | offered caps =>
      obtain ⟨htolerant, hunnamed⟩ := hsettles
      exact Or.inr ⟨htolerant, caps, rfl, hunnamed⟩
    | accepted caps => exact absurd hsettles not_false
    | refused caps => exact absurd hsettles not_false
    | other line =>
      obtain ⟨hrequested, hcode⟩ := hsettles
      exact Or.inl ⟨line, rfl, h.asked hrequested, hcode⟩
  | giveUp => cases hdone
  | idle => cases hdone

/-- An upgrade that is still open after a prompt keeps track of what a login does on the same. -/
theorem Trails.move {account password : String} {state state' : SaslState} {outgoing : List Command}
    (h : Trails state past) (hupgrade : TlsMove tolerant requested prompt next answer (.ok false))
    (hlogin : SaslMove account password state prompt state' outgoing) :
    Trails state' (past ++ [⟨prompt, answer, .ok false⟩]) := by
  cases hlogin with
  | @request caps hnamed =>
    cases hupgrade with
    | ask hoffered =>
      exact ⟨_, List.mem_append_right _ (List.mem_singleton_self _), rfl, caps, rfl, hoffered, hnamed⟩
    | idle _ hother => exact absurd rfl (hother caps)
  | @consent caps hready =>
    obtain ⟨hnamed, rfl⟩ := hready
    exact ⟨past, _, [], rfl, ⟨caps, rfl, hnamed⟩, h⟩
  | challenge => trivial
  | idle => exact h.concat _
  | settled _ hcomplete => exact trails_of_isComplete hcomplete _

end Moves

/-! ## Runs -/

section Runs

variable {K : Type} [CapHandler K] {tolerant lenient : Bool} {account password : String}

/-- An upgrade takes its turn by one of its moves. -/
theorem Seat.shown_tls {seat : Seat (Recorded (Handler ⊕ K))} {requested : Bool}
    (hhandler : seat.handler.handler = .inl (.tls tolerant requested))
    (hupgrading : Upgrading tolerant requested seat.handler.past) (enabled : List String)
    (prompt : Prompt) :
    ∃ next, (seat.shown enabled prompt).handler.handler = .inl (.tls tolerant next) ∧
      Upgrading tolerant next (seat.shown enabled prompt).handler.past ∧
      TlsMove tolerant requested prompt next (seat.answer enabled prompt)
        (CapHandler.step seat.handler enabled prompt).outcome := by
  obtain ⟨next, hnext, hmove⟩ := Handler.stepTls_spec tolerant requested prompt
  obtain ⟨hshown, hanswer, houtcome⟩ := Seat.shown_inl hhandler enabled prompt
  rw [Handler.step, hnext] at hshown
  rw [Handler.step] at hanswer houtcome
  rw [← hanswer, ← houtcome] at hmove
  refine ⟨next, hshown, ?_, hmove⟩
  rw [seat.past_shown_eq]
  exact hupgrading.move hmove

/-- An upgrade and a login, and what the record of the upgrade tells of the login as long as it is
not settled. -/
def SideBySide (tolerant lenient : Bool) (account password : String)
    (upgrade login : Seat (Recorded (Handler ⊕ K))) : Prop :=
  ∃ requested state,
    upgrade.handler.handler = .inl (.tls tolerant requested) ∧
      Upgrading tolerant requested upgrade.handler.past ∧
      login.handler.handler = .inl (.sasl account password lenient state) ∧
      Progress account password state login.handler.past ∧
      (upgrade.finished = false → Trails state upgrade.handler.past)

namespace SideBySide

variable {upgrade login : Seat (Recorded (Handler ⊕ K))} {enabled : List String} {prompt : Prompt}

/-- The upgrade alone takes its turn. -/
theorem shown_upgrade (h : SideBySide tolerant lenient account password upgrade login)
    (hopen : upgrade.finished = false) :
    SideBySide tolerant lenient account password (upgrade.shown enabled prompt) login := by
  obtain ⟨requested, state, htls, hupgrading, hsasl, hprogress, htrails⟩ := h
  obtain ⟨requested', htls', hupgrading', -⟩ := Seat.shown_tls htls hupgrading enabled prompt
  refine ⟨requested', state, htls', hupgrading', hsasl, hprogress, fun _ => ?_⟩
  rw [upgrade.past_shown_eq]
  exact (htrails hopen).concat _

/-- The login takes its turn when the upgrade is settled and has nothing more to tell. -/
theorem shown_login (h : SideBySide tolerant lenient account password upgrade login)
    (hdone : upgrade.finished = true) :
    SideBySide tolerant lenient account password upgrade (login.shown enabled prompt) := by
  obtain ⟨requested, state, htls, hupgrading, hsasl, hprogress, -⟩ := h
  obtain ⟨state', hsasl', hprogress', -⟩ := Seat.shown_sasl hsasl hprogress enabled prompt
  refine ⟨requested, state', htls, hupgrading, hsasl', hprogress', fun hopen => ?_⟩
  rw [hdone] at hopen
  cases hopen

/-- Both take their turns on the same prompt, and the upgrade does not give up. -/
theorem shown_both (h : SideBySide tolerant lenient account password upgrade login)
    (hopen : upgrade.finished = false) {done : Bool}
    (houtcome : (CapHandler.step upgrade.handler enabled prompt).outcome = .ok done) :
    SideBySide tolerant lenient account password (upgrade.shown enabled prompt)
      (login.shown enabled prompt) := by
  obtain ⟨requested, state, htls, hupgrading, hsasl, hprogress, htrails⟩ := h
  obtain ⟨requested', htls', hupgrading', hupgrade⟩ := Seat.shown_tls htls hupgrading enabled prompt
  obtain ⟨state', hsasl', hprogress', hlogin⟩ := Seat.shown_sasl hsasl hprogress enabled prompt
  refine ⟨requested', state', htls', hupgrading', hsasl', hprogress', fun hstill => ?_⟩
  have hwaits : (CapHandler.step upgrade.handler enabled prompt).outcome = .ok false := by
    cases done with
    | true =>
      rw [(upgrade.finished_shown enabled prompt).mpr houtcome] at hstill
      cases hstill
    | false => exact houtcome
  rw [upgrade.past_shown_eq, hwaits]
  rw [hwaits] at hupgrade
  exact (htrails hopen).move hupgrade hlogin

end SideBySide

namespace Registration

variable {r : Registration (Recorded (Handler ⊕ K))} {i j : Nat}

/-- Whether there are an upgrade and a login in two places of a registration. -/
def SeatsBoth (tolerant lenient : Bool) (account password : String) (i j : Nat)
    (r : Registration (Recorded (Handler ⊕ K))) : Prop :=
  ∃ upgrade login, r.seats[i]? = some upgrade ∧ r.seats[j]? = some login ∧
    SideBySide tolerant lenient account password upgrade login

theorem seatsBoth_feed (hij : i < j) (h : SeatsBoth tolerant lenient account password i j r)
    (line : Line) : SeatsBoth tolerant lenient account password i j (r.feed line).1 := by
  obtain ⟨upgrade, login, hupgrade, hlogin, hpair⟩ := h
  obtain hsame | ⟨enabled, prompt, -, hround, -⟩ := r.seats_feed line
  · rw [SeatsBoth, hsame]
    exact ⟨upgrade, login, hupgrade, hlogin, hpair⟩
  · rw [SeatsBoth, hround]
    have hfirst := getElem?_consult enabled prompt hupgrade
    have hsecond := getElem?_consult enabled prompt hlogin
    obtain hleft | hdone | ⟨hopen, hshown, done, houtcome⟩ :=
      turn_before enabled prompt hij hupgrade hlogin
    · obtain hstill | ⟨hopen, hshown, -⟩ := hfirst
      · exact ⟨upgrade, login, hstill, hleft, hpair⟩
      · exact ⟨_, login, hshown, hleft, hpair.shown_upgrade hopen⟩
    · obtain hstill | ⟨hopen, -⟩ := hfirst
      · obtain hleft | ⟨-, hturn, -⟩ := hsecond
        · exact ⟨upgrade, login, hstill, hleft, hpair⟩
        · exact ⟨upgrade, _, hstill, hturn, hpair.shown_login hdone⟩
      · rw [hdone] at hopen
        cases hopen
    · obtain hleft | ⟨-, hturn, -⟩ := hsecond
      · exact ⟨_, login, hshown, hleft, hpair.shown_upgrade hopen⟩
      · exact ⟨_, _, hshown, hturn, hpair.shown_both hopen houtcome⟩

/-- What a line adds to the record of the upgrade is one of its moves. -/
theorem tls_move_feed (h : SeatsBoth tolerant lenient account password i j r) {line : Line}
    {c : Consultation} (hpast : (r.feed line).1.past i = r.past i ++ [c]) :
    ∃ requested next, Upgrading tolerant requested (r.past i) ∧
      TlsMove tolerant requested c.prompt next c.answer c.report := by
  obtain ⟨upgrade, login, hupgrade, -, requested, state, htls, hupgrading, -⟩ := h
  obtain ⟨enabled, -, hanswer, hreport⟩ := turn_of_past_feed hupgrade hpast
  obtain ⟨next, -, -, hmove⟩ := Seat.shown_tls htls hupgrading enabled c.prompt
  rw [past_eq hupgrade, hanswer, hreport]
  exact ⟨requested, next, hupgrading, hmove⟩

/-- Where the credentials are given away, the upgrade is settled or the login has overtaken it. -/
theorem overtaken_of_reveals (h : SeatsBoth tolerant lenient account password i j r)
    (hfaithful : ∀ seat ∈ r.seats, seat.Faithful) {line : Line} {c : Consultation}
    (hpast : (r.feed line).1.past j = r.past j ++ [c]) (hreveals : c.reveals account password = true) :
    line.command = "AUTHENTICATE" ∧ line.param 0 = some "+" ∧
      ((∃ u ∈ r.past i, u.report = .ok true) ∨ Overtaken (r.past i)) := by
  obtain ⟨upgrade, login, hupgrade, hlogin, requested, state, -, -, hsasl, hprogress, htrails⟩ := h
  obtain ⟨enabled, htold, hanswer, -⟩ := turn_of_past_feed hlogin hpast
  obtain ⟨next, -, -, hmove⟩ := Seat.shown_sasl hsasl hprogress enabled c.prompt
  obtain ⟨command, hmem, hsecret⟩ := reveals_iff.mp hreveals
  rw [hanswer] at hmem
  obtain ⟨rfl, -, other, hprompt, hcommand, hempty⟩ := hmove.challenged hmem hsecret
  rw [hprompt] at htold
  cases htold
  refine ⟨hcommand, hempty, ?_⟩
  rw [past_eq hupgrade]
  cases hdone : upgrade.finished with
  | true => exact Or.inl ((hfaithful upgrade (List.mem_of_getElem? hupgrade)).mp hdone)
  | false => exact Or.inr (htrails hdone)

variable (config : RegistrationConfig) (handlers : List (Handler ⊕ K)) (i j : Nat)
  (tolerant : Bool) (account password : String)

/-- How an upgrade and a login behind it go on side by side in a run, told by the records of the
handlers. -/
structure LoginBesideUpgrade : Prop where
  /-- Nothing is different without the records. -/
  unobserved : ∀ lines,
    (opened config handlers).run lines = ((watched config handlers).run lines).map Recorded.handler ∧
      (opened config handlers).actions lines = (watched config handlers).actions lines
  /-- A line adds to a record what it tells, and what is said to that is sent. -/
  recorded : ∀ lines line k, let r := (watched config handlers).run lines
    (r.feed line).1.past k = r.past k ∨
      ∃ c, (r.feed line).1.past k = r.past k ++ [c] ∧ r.Tells line c.prompt ∧
        ∀ command ∈ c.answer, .send command ∈ (r.feed line).2
  /-- Nothing is authenticated with but what a handler says to what a line tells. -/
  attributed : ∀ lines line payload, let r := (watched config handlers).run lines
    .send (.authenticate payload) ∈ (r.feed line).2 →
      ∃ k c, (r.feed line).1.past k = r.past k ++ [c] ∧ .authenticate payload ∈ c.answer
  /-- The upgrade is done when the server settles it, and not before. -/
  settled : ∀ lines line c, let r := (watched config handlers).run lines
    (r.feed line).1.past i = r.past i ++ [c] → c.report = .ok true → c.Settles tolerant (r.past i)
  /-- The login gives the credentials away on an empty challenge only, and only if the upgrade is
  done or the server has accepted the login since encryption was asked for. -/
  challenged : ∀ lines line c, let r := (watched config handlers).run lines
    (r.feed line).1.past j = r.past j ++ [c] → c.reveals account password = true →
      line.command = "AUTHENTICATE" ∧ line.param 0 = some "+" ∧
        ((∃ u ∈ r.past i, u.report = .ok true) ∨ Overtaken (r.past i))
  /-- The login waits for nothing but that challenge, whether the upgrade is done or not. -/
  answered : ∀ lines line c consent, let r := (watched config handlers).run lines
    (r.feed line).1.past j = r.past j ++ [c] → (r.past j).getLast? = some consent →
      consent.isConsent = true → c.prompt = .other line → line.command = "AUTHENTICATE" →
      line.param 0 = some "+" → c.answer = credentials account password

variable {config handlers i j tolerant account password}

/-- The order of an upgrade and of a login behind it is left to the server. -/
theorem login_beside_upgrade (hij : i < j) (hupgrade : handlers[i]? = some (.inl (.tls tolerant false)))
    (hlogin : handlers[j]? = some (.inl (.sasl account password lenient .initial))) :
    LoginBesideUpgrade config handlers i j tolerant account password := by
  have hpair (lines : List Line) :
      SeatsBoth tolerant lenient account password i j ((watched config handlers).run lines) := by
    apply run_of_feed (P := SeatsBoth tolerant lenient account password i j)
      (fun r line h => seatsBoth_feed hij h line)
    exact ⟨_, _, getElem?_seats_watched config hupgrade, getElem?_seats_watched config hlogin,
      false, .initial, rfl, .fresh, rfl, .fresh, fun _ => trivial⟩
  have hlogsIn (lines : List Line) : ∃ seat, ((watched config handlers).run lines).seats[j]? = some seat ∧
      seat.LogsIn account password lenient := by
    obtain ⟨upgrade, login, -, hlogin, requested, state, -, -, hsasl, hprogress, -⟩ := hpair lines
    exact ⟨login, hlogin, state, hsasl, hprogress⟩
  constructor
  case unobserved =>
    intro lines
    rw [run_watched, actions_watched]
    exact ⟨rfl, rfl⟩
  case recorded => exact fun lines line k => past_feed _ line k
  case attributed =>
    intro lines line payload r hsent
    rcases past_of_send_mem_feed hsent with ⟨nick, hnick⟩ | hend | hanswered
    · cases hnick
    · cases hend
    · exact hanswered
  case settled =>
    intro lines line c r hpast hdone
    obtain ⟨requested, next, hupgrading, hmove⟩ := tls_move_feed (hpair lines) hpast
    exact hupgrading.settles hmove hdone
  case challenged =>
    intro lines line c r hpast hreveals
    exact overtaken_of_reveals (hpair lines) (faithful_watched config handlers lines) hpast hreveals
  case answered =>
    intro lines line c consent r hpast hlast hconsent hprompt hcommand hempty
    obtain ⟨-, state, next, hprogress, hmove⟩ := move_feed (hlogsIn lines) hpast
    have hstate : state = .mechanismSent := hprogress.state_of_isConsent hlast hconsent
    rw [hprompt] at hmove
    exact hmove.answered ⟨hcommand, hempty, hstate⟩

/-- Encryption and a login are offered together, and the server consents to the upgrade first. -/
theorem login_beside_upgrade_settled :
    let config := (ClientConfig.standard "irc.example.net" "bot").toRegistrationConfig
    let handlers : List (Handler ⊕ Handler) :=
      [.inl (.tls true false), .inr (.enable "away-notify" true), .inl (.sasl "bot" "pw" false .initial)]
    let offer : Line := ⟨"", [], none, "CAP", ["*", "LS", "tls sasl"]⟩
    let ready : Line := ⟨"", [], none, "670", ["bot"]⟩
    let consent : Line := ⟨"", [], none, "CAP", ["*", "ACK", "sasl"]⟩
    let challenge : Line := ⟨"", [], none, "AUTHENTICATE", ["+"]⟩
    0 < 2 ∧ handlers[0]? = some (.inl (.tls true false)) ∧
      handlers[2]? = some (.inl (.sasl "bot" "pw" false .initial)) ∧
      LoginBesideUpgrade config handlers 0 2 true "bot" "pw" ∧
      (opened config handlers).actions [offer, ready, consent, challenge] =
        [.send .startTls, .send (.capRequest ["sasl"]), .upgradeTls, .send (.authenticate "PLAIN"),
          .send (.authenticate "Ym90AGJvdABwdw==")] :=
  ⟨by decide, rfl, rfl, login_beside_upgrade (by decide) rfl rfl, by decide⟩

/-- A login goes ahead of an upgrade in front of it: the password goes out after encryption is asked
for, and no line has settled the upgrade. -/
theorem login_overtakes_upgrade :
    let config := (ClientConfig.standard "irc.example.net" "bot").toRegistrationConfig
    let handlers : List Handler := [.tls true false, .sasl "bot" "pw" false .initial]
    let offer : Line := ⟨"", [], none, "CAP", ["*", "LS", "tls sasl"]⟩
    let consent : Line := ⟨"", [], none, "CAP", ["*", "ACK", "sasl"]⟩
    let challenge : Line := ⟨"", [], none, "AUTHENTICATE", ["+"]⟩
    let lines := [offer, consent, challenge]
    credentials "bot" "pw" = [.authenticate "Ym90AGJvdABwdw=="] ∧
      (opened config handlers).actions lines =
        [.send .startTls, .send (.capRequest ["sasl"]), .send (.authenticate "PLAIN"),
          .send (.authenticate "Ym90AGJvdABwdw==")] ∧
      ∀ line ∈ lines, line.numeric ≠ some 670 ∧ line.numeric ≠ some 691 := by
  decide

end Registration

end Runs

end IrcClient
