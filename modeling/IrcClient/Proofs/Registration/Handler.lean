import IrcClient.Registration.Handler

/-!
# What the built-in handlers do

A built-in handler asks for a capability, asks for encryption or logs in, and sends nothing else.
`SaslMove` lists all that a login can do on a prompt, and `TlsMove` all that an upgrade can do.
-/

namespace IrcClient

namespace Turn

variable {H : Type} (handler : H)

@[simp] theorem outgoing_wait (outgoing : List Command) : (wait handler outgoing).outgoing = outgoing :=
  rfl

@[simp] theorem outgoing_done : (done handler).outgoing = [] := rfl

@[simp] theorem outgoing_fail (tolerant : Bool) (name reason : String) :
    (fail handler tolerant name reason).outgoing = [] := rfl

end Turn

/-- The commands that give account and password away, in order. -/
def credentials (account password : String) : List Command :=
  (Sasl.chunks (Sasl.encodePlain account password)).map .authenticate

/-- Whether a login has an answer to a prompt: the capability is offered, the request for it is
accepted, or the empty challenge comes. -/
def SaslState.Answers (state : SaslState) : Prompt → Prop
  | .offered caps => hasCap caps "sasl" = true
  | .accepted caps => hasCap caps "sasl" = true ∧ state = .requested
  | .refused _ => False
  | .other line =>
    line.command = "AUTHENTICATE" ∧ line.param 0 = some "+" ∧ state = .mechanismSent

/-- What a login does on a prompt: the state it is in then, and what it sends. -/
inductive SaslMove (account password : String) (state : SaslState) :
    Prompt → SaslState → List Command → Prop where
  | request {caps : List String} (h : state.Answers (.offered caps)) :
      SaslMove account password state (.offered caps) .requested [.capRequest ["sasl"]]
  | consent {caps : List String} (h : state.Answers (.accepted caps)) :
      SaslMove account password state (.accepted caps) .mechanismSent [.authenticate "PLAIN"]
  | challenge {line : Line} (h : state.Answers (.other line)) :
      SaslMove account password state (.other line) .credentialsSent (credentials account password)
  | idle {prompt : Prompt} (h : ¬ state.Answers prompt) :
      SaslMove account password state prompt state []
  | settled {prompt : Prompt} (h : ¬ state.Answers prompt) {next : SaslState}
      (hcomplete : next.isComplete = true) : SaslMove account password state prompt next []

/-- Whether a prompt settles an upgrade: the server consents to what it was asked for, or failure is
tolerated and the server refuses or does not offer encryption at all. -/
def SettlesUpgrade (tolerant requested : Bool) : Prompt → Prop
  | .offered caps => tolerant = true ∧ hasCap caps "tls" = false
  | .accepted _ | .refused _ => False
  | .other line =>
    requested = true ∧ (line.numeric = some 670 ∨ tolerant = true ∧ line.numeric = some 691)

/-- What an upgrade does on a prompt: whether encryption is asked for by then, what is sent and what
is reported. -/
inductive TlsMove (tolerant requested : Bool) :
    Prompt → Bool → List Command → Except RegistrationError Bool → Prop where
  | ask {caps : List String} (h : hasCap caps "tls" = true) :
      TlsMove tolerant requested (.offered caps) true [.startTls] (.ok false)
  | settle {prompt : Prompt} (h : SettlesUpgrade tolerant requested prompt) :
      TlsMove tolerant requested prompt requested [] (.ok true)
  | giveUp {prompt : Prompt} (hstrict : tolerant = false) (error : RegistrationError) :
      TlsMove tolerant requested prompt requested [] (.error error)
  | idle {prompt : Prompt} (h : ¬ SettlesUpgrade tolerant requested prompt)
      (hother : ∀ caps, prompt ≠ .offered caps) :
      TlsMove tolerant requested prompt requested [] (.ok false)

namespace Handler

theorem stepSasl_spec (account password : String) (tolerant : Bool) (state : SaslState)
    (prompt : Prompt) :
    ∃ next, (stepSasl account password tolerant state prompt).handler =
        .sasl account password tolerant next ∧
      SaslMove account password state prompt next
        (stepSasl account password tolerant state prompt).outgoing := by
  cases prompt with
  | offered caps =>
    rw [stepSasl]
    dsimp only
    split
    · rename_i hnamed
      exact ⟨.requested, rfl, .request hnamed⟩
    · rename_i hunnamed
      have hnone : ¬ state.Answers (.offered caps) := hunnamed
      exact ⟨.failed _, rfl, .settled hnone rfl⟩
  | accepted caps =>
    rw [stepSasl]
    dsimp only
    split
    · rename_i hready
      obtain ⟨hnamed, hstate⟩ := Bool.and_eq_true_iff.mp hready
      exact ⟨.mechanismSent, rfl, .consent ⟨hnamed, eq_of_beq hstate⟩⟩
    · rename_i hunready
      refine ⟨state, rfl, .idle ?_⟩
      rintro ⟨hnamed, hstate⟩
      exact hunready (Bool.and_eq_true_iff.mpr ⟨hnamed, beq_iff_eq.mpr hstate⟩)
  | refused caps =>
    have hnone : ¬ state.Answers (.refused caps) := not_false
    rw [stepSasl]
    dsimp only
    split
    · exact ⟨.failed _, rfl, .settled hnone rfl⟩
    · exact ⟨state, rfl, .idle hnone⟩
  | other line =>
    rw [stepSasl]
    dsimp only
    split
    · rename_i hcommand
      split
      · rename_i hready
        obtain ⟨hstate, hempty⟩ := Bool.and_eq_true_iff.mp hready
        refine ⟨.credentialsSent, rfl, ?_⟩
        rw [Turn.outgoing_wait, ← credentials]
        exact .challenge ⟨hcommand, eq_of_beq hempty, eq_of_beq hstate⟩
      · rename_i hunready
        refine ⟨state, rfl, .idle ?_⟩
        rintro ⟨-, hempty, hstate⟩
        exact hunready (Bool.and_eq_true_iff.mpr ⟨beq_iff_eq.mpr hstate, beq_iff_eq.mpr hempty⟩)
    · rename_i hcommand
      have hnone : ¬ state.Answers (.other line) := fun h => hcommand h.1
      split
      · exact ⟨.success, rfl, .settled hnone rfl⟩
      · split
        · exact ⟨.failed _, rfl, .settled hnone rfl⟩
        · exact ⟨state, rfl, .idle hnone⟩
      · exact ⟨state, rfl, .idle hnone⟩

theorem stepTls_spec (tolerant requested : Bool) (prompt : Prompt) :
    ∃ next, (stepTls tolerant requested prompt).handler = .tls tolerant next ∧
      TlsMove tolerant requested prompt next (stepTls tolerant requested prompt).outgoing
        (stepTls tolerant requested prompt).outcome := by
  -- A failure settles the upgrade or ends the registration.
  have hfail {prompt : Prompt} (reason : String)
      (h : tolerant = true → SettlesUpgrade tolerant requested prompt) :
      TlsMove tolerant requested prompt requested []
        (Turn.fail (tls tolerant requested) tolerant "tls" reason).outcome := by
    cases tolerant with
    | true => exact .settle (h rfl)
    | false => exact .giveUp rfl _
  cases prompt with
  | offered caps =>
    rw [stepTls]
    split
    · rename_i hnamed
      exact ⟨true, rfl, .ask hnamed⟩
    · rename_i hunnamed
      exact ⟨requested, rfl, hfail _ fun htolerant => ⟨htolerant, Bool.not_eq_true _ ▸ hunnamed⟩⟩
  | accepted caps => exact ⟨requested, rfl, .idle not_false (by simp)⟩
  | refused caps => exact ⟨requested, rfl, .idle not_false (by simp)⟩
  | other line =>
    rw [stepTls]
    split
    · rename_i hunasked
      refine ⟨requested, rfl, .idle ?_ (by simp)⟩
      rintro ⟨hasked, -⟩
      simp [hasked] at hunasked
    · rename_i hasked
      rw [Bool.not_eq_true, Bool.not_eq_false'] at hasked
      split
      · rename_i hcode
        exact ⟨requested, rfl, .settle ⟨hasked, Or.inl hcode⟩⟩
      · rename_i hcode
        exact ⟨requested, rfl, hfail _ fun htolerant => ⟨hasked, Or.inr ⟨htolerant, hcode⟩⟩⟩
      · rename_i hready hrefused
        refine ⟨requested, rfl, .idle ?_ (by simp)⟩
        rintro ⟨-, hcode | ⟨-, hcode⟩⟩
        · exact hready hcode
        · exact hrefused hcode

theorem handler_stepEnable (cap : String) (tolerant : Bool) (prompt : Prompt) :
    (stepEnable cap tolerant prompt).handler = .enable cap tolerant := by
  unfold stepEnable
  dsimp only
  split <;> (try split) <;> rfl

/-- A request that has to succeed is done when a list of what is accepted names the capability. -/
theorem outcome_stepEnable_strict {cap : String} {prompt : Prompt}
    (h : (stepEnable cap false prompt).outcome = .ok true) :
    ∃ caps, prompt = .accepted caps ∧ hasCap caps cap = true := by
  cases prompt with
  | offered caps =>
    rw [stepEnable] at h
    split at h <;> cases h
  | accepted caps =>
    rw [stepEnable] at h
    split at h
    · rename_i hnamed
      exact ⟨caps, rfl, hnamed⟩
    · cases h
  | refused caps =>
    rw [stepEnable] at h
    split at h <;> cases h
  | other line => cases h

theorem outgoing_stepEnable (cap : String) (tolerant : Bool) (prompt : Prompt) :
    (stepEnable cap tolerant prompt).outgoing ⊆ [.capRequest [cap]] := by
  unfold stepEnable
  dsimp only
  split <;> (try split) <;> simp

theorem outgoing_stepTls (tolerant requested : Bool) (prompt : Prompt) :
    (stepTls tolerant requested prompt).outgoing ⊆ [.startTls] := by
  obtain ⟨next, -, hmove⟩ := stepTls_spec tolerant requested prompt
  generalize (stepTls tolerant requested prompt).outgoing = outgoing,
    (stepTls tolerant requested prompt).outcome = outcome at hmove ⊢
  cases hmove with
  | ask => exact List.Subset.refl _
  | settle => exact List.nil_subset _
  | giveUp => exact List.nil_subset _
  | idle => exact List.nil_subset _

/-- A built-in handler sends nothing but this. -/
theorem mem_outgoing_step {handler : Handler} {prompt : Prompt} {command : Command}
    (h : command ∈ (handler.step prompt).outgoing) :
    (∃ caps, command = .capRequest caps) ∨ command = .startTls ∨
      ∃ payload, command = .authenticate payload := by
  cases handler with
  | enable cap tolerant =>
    have hmem := outgoing_stepEnable cap tolerant prompt h
    exact Or.inl ⟨[cap], List.mem_singleton.mp hmem⟩
  | tls tolerant requested =>
    have hmem := outgoing_stepTls tolerant requested prompt h
    exact Or.inr (Or.inl (List.mem_singleton.mp hmem))
  | sasl account password tolerant state =>
    obtain ⟨next, -, hmove⟩ := stepSasl_spec account password tolerant state prompt
    rw [step] at h
    generalize (stepSasl account password tolerant state prompt).outgoing = outgoing at h hmove
    cases hmove with
    | request => exact Or.inl ⟨["sasl"], List.mem_singleton.mp h⟩
    | consent => exact Or.inr (Or.inr ⟨"PLAIN", List.mem_singleton.mp h⟩)
    | challenge =>
      obtain ⟨payload, -, hpayload⟩ := List.mem_map.mp h
      exact Or.inr (Or.inr ⟨payload, hpayload.symm⟩)
    | idle => cases h
    | settled => cases h

end Handler

end IrcClient
