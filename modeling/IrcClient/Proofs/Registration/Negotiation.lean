import IrcClient.Proofs.Registration.Handler
import IrcClient.Proofs.Registration.Record
import IrcClient.Proofs.Registration.Welcome

/-!
# The end of the negotiation

The negotiation of capabilities ends once, on the line that leaves the last handler with nothing to
do. No handler is asked again after it has said that it is done, whatever the server sends, and no
capability is enabled after the end. The welcome is taken once, and it is the last line that counts.
-/

namespace IrcClient

/-! ## Handlers that keep quiet -/

section Quiet

variable {H K : Type} [CapHandler H] [CapHandler K]

/-- A handler after it was shown some prompts, each with the capabilities enabled by then. -/
def afterTalk (handler : H) (talk : List (List String × Prompt)) : H :=
  talk.foldl (fun handler shown => (CapHandler.step handler shown.1 shown.2).handler) handler

/-- Whatever a handler is shown, there is a command that it does not send. -/
def NeverSends (command : Command) (handler : H) : Prop :=
  ∀ talk enabled prompt, command ∉ (CapHandler.step (afterTalk handler talk) enabled prompt).outgoing

theorem NeverSends.step {command : Command} {handler : H} (h : NeverSends command handler)
    (enabled : List String) (prompt : Prompt) :
    NeverSends command (CapHandler.step handler enabled prompt).handler :=
  fun talk => h ((enabled, prompt) :: talk)

theorem NeverSends.not_mem {command : Command} {handler : H} (h : NeverSends command handler)
    (enabled : List String) (prompt : Prompt) :
    command ∉ (CapHandler.step handler enabled prompt).outgoing :=
  h [] enabled prompt

theorem afterTalk_mimics {f : H → K} (hf : Registration.Mimics f) (handler : H)
    (talk : List (List String × Prompt)) : f (afterTalk handler talk) = afterTalk (f handler) talk := by
  induction talk generalizing handler with
  | nil => rfl
  | cons shown talk ih =>
    change f (afterTalk (CapHandler.step handler shown.1 shown.2).handler talk) =
      afterTalk (CapHandler.step (f handler) shown.1 shown.2).handler talk
    rw [ih, hf]
    rfl

theorem NeverSends.of_mimics {f : H → K} (hf : Registration.Mimics f) {command : Command}
    {handler : H} (h : NeverSends command (f handler)) : NeverSends command handler := by
  intro talk enabled prompt
  have hquiet := h talk enabled prompt
  rw [← afterTalk_mimics hf, hf] at hquiet
  exact hquiet

end Quiet

namespace Registration

variable {H : Type}

theorem capEnd_endNegotiation (r : Registration H) {actions : List RegistrationAction}
    (h : .send .capEnd ∉ actions) :
    (endNegotiation (r, actions)).2.count (.send .capEnd) + r.capEndSent.toNat =
      (endNegotiation (r, actions)).1.capEndSent.toNat := by
  have hnone : actions.count (.send .capEnd) = 0 := List.count_eq_zero.mpr h
  obtain ⟨hcloses, hend⟩ | ⟨-, hend⟩ := r.endNegotiation_cases actions
  · rw [hend, List.count_append, hnone, hcloses.unsent]
    rfl
  · rw [hend, hnone, Nat.zero_add]

/-- The negotiation ends when it may and every handler is done, after everything else that is to be
done and unless something went wrong. -/
theorem ended_endNegotiation {r : Registration H} {actions : List RegistrationAction}
    (hafter : (endNegotiation (r, actions)).1.capEndSent = true) (hbefore : r.capEndSent = false) :
    r.config.capEnabled = true ∧
      (∀ seat ∈ (endNegotiation (r, actions)).1.seats, seat.finished = true) ∧
      (∀ action ∈ (endNegotiation (r, actions)).2, action.isFail = false) ∧
      (endNegotiation (r, actions)).2.getLast? = some (.send .capEnd) := by
  obtain ⟨hcloses, hend⟩ | ⟨-, hend⟩ := r.endNegotiation_cases actions
  · rw [hend]
    refine ⟨hcloses.enabled, hcloses.finished, ?_, List.getLast?_concat⟩
    intro action hmem
    rcases List.mem_append.mp hmem with hold | hnew
    · exact hcloses.unfailed action hold
    · rw [List.mem_singleton.mp hnew]
      rfl
  · rw [hend, hbefore] at hafter
    cases hafter

variable [CapHandler H] {r : Registration H} {line : Line}

theorem config_feed (r : Registration H) (line : Line) : (r.feed line).1.config = r.config := by
  have hfed := r.feed_spec line
  generalize r.feed line = result at hfed ⊢
  cases hfed with
  | ignored => rfl
  | welcomed => rfl
  | refused => rfl
  | noted => rw [config_endNegotiation]
  | shown => rw [config_endNegotiation]

theorem capEnd_not_mem_consult {seats : List (Seat H)}
    (hquiet : ∀ seat ∈ seats, NeverSends .capEnd seat.handler) (enabled : List String)
    (prompt : Prompt) : .send .capEnd ∉ (consult enabled prompt seats).2 := by
  intro hmem
  rcases mem_consult hmem with ⟨error, herror⟩ | ⟨i, seat, hseat, -, -, command, hcommand, heq⟩
  · cases herror
  · cases heq
    exact (hquiet seat (List.mem_of_getElem? hseat)).not_mem enabled prompt hcommand

/-- A line leads to the end of the negotiation exactly if the end is noted. -/
theorem count_capEnd_feed (hquiet : ∀ seat ∈ r.seats, NeverSends .capEnd seat.handler) (line : Line) :
    (r.feed line).2.count (.send .capEnd) + r.capEndSent.toNat =
      (r.feed line).1.capEndSent.toNat := by
  have hfed := r.feed_spec line
  generalize r.feed line = result at hfed ⊢
  cases hfed with
  | ignored => exact Nat.zero_add _
  | welcomed => exact Nat.zero_add _
  | @refused _ _ _ actions hsent =>
    have hnone : actions.count (.send .capEnd) = 0 := by
      rw [List.count_eq_zero]
      intro hmem
      rcases hsent _ hmem with ⟨nick, hnick⟩ | ⟨used, next, hnick⟩ | ⟨error, herror⟩
      · cases hnick
      · cases hnick
      · cases herror
    rw [hnone, Nat.zero_add]
  | noted => exact capEnd_endNegotiation _ List.not_mem_nil
  | shown _ _ _ hbefore =>
    apply capEnd_endNegotiation
    rw [List.mem_append, not_or]
    refine ⟨?_, capEnd_not_mem_consult hquiet _ _⟩
    rcases hbefore with rfl | rfl <;> simp

theorem ended_feed (hbefore : r.capEndSent = false) (hafter : (r.feed line).1.capEndSent = true) :
    r.config.capEnabled = true ∧ (∀ seat ∈ (r.feed line).1.seats, seat.finished = true) ∧
      (∀ action ∈ (r.feed line).2, action.isFail = false) ∧
      (r.feed line).2.getLast? = some (.send .capEnd) := by
  have hfed := r.feed_spec line
  generalize r.feed line = result at hfed hafter ⊢
  have hunended {P : Prop} (h : r.capEndSent = true) : P := by
    rw [hbefore] at h
    cases h
  cases hfed with
  | ignored => exact hunended hafter
  | welcomed => exact hunended hafter
  | refused => exact hunended hafter
  | noted => exact ended_endNegotiation hafter hbefore
  | shown => exact ended_endNegotiation hafter hbefore

/-- The line that leaves no handler with anything to do ends the negotiation. -/
theorem capEndSent_feed (hopen : ∃ seat ∈ r.seats, seat.finished = false)
    (hdone : ∀ seat ∈ (r.feed line).1.seats, seat.finished = true)
    (hfail : ∀ action ∈ (r.feed line).2, action.isFail = false)
    (henabled : r.config.capEnabled = true) : (r.feed line).1.capEndSent = true := by
  have hfed := r.feed_spec line
  generalize r.feed line = result at hfed hdone hfail ⊢
  obtain ⟨seat, hseat, hunfinished⟩ := hopen
  have hstuck (h : ∀ seat ∈ r.seats, seat.finished = true) : False := by
    rw [h seat hseat] at hunfinished
    cases hunfinished
  cases hfed with
  | ignored => exact (hstuck hdone).elim
  | welcomed => exact (hstuck hdone).elim
  | refused => exact (hstuck hdone).elim
  | noted =>
    rw [seats_endNegotiation] at hdone
    exact (hstuck hdone).elim
  | @shown _ prompt _ enabled offered _ before _ =>
    obtain ⟨-, hend⟩ | ⟨hcloses, hend⟩ := endNegotiation_cases
      { r with
          seats := (consult enabled prompt r.seats).1
          enabledCaps := enabled
          offered := offered }
      (before ++ (consult enabled prompt r.seats).2)
    · rw [hend]
    · rw [hend] at hdone hfail ⊢
      cases hsent : r.capEndSent with
      | true => rfl
      | false => exact absurd ⟨hfail, hsent, henabled, hdone⟩ hcloses

/-- After the end, no handler is asked and nothing is enabled. -/
theorem feed_frozen (hsent : r.capEndSent = true) (hdone : ∀ seat ∈ r.seats, seat.finished = true)
    (line : Line) :
    (r.feed line).1.seats = r.seats ∧ (r.feed line).1.enabledCaps = r.enabledCaps := by
  have hfed := r.feed_spec line
  generalize r.feed line = result at hfed ⊢
  cases hfed with
  | ignored => exact ⟨rfl, rfl⟩
  | welcomed => exact ⟨rfl, rfl⟩
  | refused => exact ⟨rfl, rfl⟩
  | noted => exact ⟨seats_endNegotiation _ _, enabledCaps_endNegotiation _ _⟩
  | shown _ _ hfrozen =>
    rw [seats_endNegotiation, enabledCaps_endNegotiation, consult_of_finished hdone]
    exact ⟨rfl, hfrozen hsent⟩

/-! ## Runs -/

theorem quiet_run (hquiet : ∀ seat ∈ r.seats, NeverSends .capEnd seat.handler) (lines : List Line) :
    ∀ seat ∈ (r.run lines).seats, NeverSends .capEnd seat.handler := by
  apply run_of_feed (P := fun r => ∀ seat ∈ r.seats, NeverSends .capEnd seat.handler) _ hquiet
  intro r line h
  exact forall_seats_feed (fun seat enabled prompt hseat _ => hseat.step enabled prompt) h line

theorem config_run (r : Registration H) (lines : List Line) : (r.run lines).config = r.config := by
  apply run_of_feed (P := fun s => s.config = r.config) _ rfl
  intro s line h
  rw [config_feed, h]

theorem count_capEnd_actions (hquiet : ∀ seat ∈ r.seats, NeverSends .capEnd seat.handler)
    (lines : List Line) :
    (r.actions lines).count (.send .capEnd) + r.capEndSent.toNat =
      (r.run lines).capEndSent.toNat := by
  induction lines using List.reverseRecOn with
  | nil => exact Nat.zero_add _
  | append_singleton lines line ih =>
    have hline := count_capEnd_feed (quiet_run hquiet lines) line
    rw [actions_concat, run_concat, List.count_append]
    omega

/-- The negotiation has not ended as long as a handler has something to do. -/
theorem finished_run (hbefore : r.capEndSent = false) (lines : List Line)
    (hafter : (r.run lines).capEndSent = true) :
    ∀ seat ∈ (r.run lines).seats, seat.finished = true := by
  apply run_of_feed (P := fun r => r.capEndSent = true → ∀ seat ∈ r.seats, seat.finished = true)
    _ _ lines hafter
  · intro s line h hended
    cases hsent : s.capEndSent with
    | true =>
      rw [(feed_frozen hsent (h hsent) line).1]
      exact h hsent
    | false => exact (ended_feed hsent hended).2.1
  · intro hsent
    rw [hbefore] at hsent
    cases hsent

theorem capEndSent_run (hquiet : ∀ seat ∈ r.seats, NeverSends .capEnd seat.handler) {lines : List Line}
    (hsent : .send .capEnd ∈ r.actions lines) : (r.run lines).capEndSent = true := by
  have hcount := count_capEnd_actions hquiet lines
  have hpositive := List.count_pos_iff.mpr hsent
  cases hended : (r.run lines).capEndSent with
  | true => rfl
  | false =>
    rw [hended, Bool.toNat_false] at hcount
    omega

theorem quiet_opened (config : RegistrationConfig) {handlers : List H}
    (hquiet : ∀ handler ∈ handlers, NeverSends .capEnd handler) :
    ∀ seat ∈ (opened config handlers).seats, NeverSends .capEnd seat.handler := by
  intro seat hseat
  rw [seats_opened] at hseat
  obtain ⟨handler, hhandler, rfl⟩ := List.mem_map.mp hseat
  exact hquiet handler hhandler

theorem quiet_watched (config : RegistrationConfig) {handlers : List H}
    (hquiet : ∀ handler ∈ handlers, NeverSends .capEnd handler) :
    ∀ seat ∈ (watched config handlers).seats, NeverSends .capEnd seat.handler := by
  apply quiet_opened
  intro recorded hrecorded
  obtain ⟨handler, hhandler, rfl⟩ := List.mem_map.mp hrecorded
  exact NeverSends.of_mimics Recorded.mimics (hquiet handler hhandler)

omit [CapHandler H] in
theorem capEnd_not_mem_start (config : RegistrationConfig) (handlers : List H) :
    .send .capEnd ∉ (new config handlers).start.2 := by
  simp only [start, List.mem_map, RegistrationAction.send.injEq, exists_eq_right, opening, new]
  by_cases h : config.capEnabled = true <;> simp [h]

variable (config : RegistrationConfig) (handlers : List H)

/-- How the negotiation ends in a run, told by the records of the handlers. -/
structure EndsOnce : Prop where
  /-- Nothing is different without the records. -/
  unobserved : ∀ lines,
    (opened config handlers).run lines = ((watched config handlers).run lines).map Recorded.handler ∧
      (opened config handlers).actions lines = (watched config handlers).actions lines
  /-- Every handler keeps its place. -/
  seated : ∀ lines, ((watched config handlers).run lines).seats.length = handlers.length
  /-- The negotiation does not end before the first line, and it ends at most once. -/
  once : .send .capEnd ∉ (new config handlers).start.2 ∧
    ∀ lines, ((opened config handlers).actions lines).count (.send .capEnd) ≤ 1
  /-- It ends if it was begun and every handler has said that it is done, and not on a failure. -/
  reason : ∀ lines line, let r := (watched config handlers).run lines
    .send .capEnd ∈ (r.feed line).2 → config.capEnabled = true ∧
      (∀ seat ∈ (r.feed line).1.seats, seat.handler.IsDone) ∧
      ∀ action ∈ (r.feed line).2, action.isFail = false
  /-- It ends on the line after which no handler has anything to do. -/
  prompt : ∀ lines line, let r := (watched config handlers).run lines
    (∃ seat ∈ r.seats, ¬ seat.handler.IsDone) →
      (∀ seat ∈ (r.feed line).1.seats, seat.handler.IsDone) →
      (∀ action ∈ (r.feed line).2, action.isFail = false) → config.capEnabled = true →
      (r.feed line).2.getLast? = some (.send .capEnd)
  /-- After the end no handler is asked and nothing is enabled. -/
  frozen : ∀ lines line, let r := (watched config handlers).run lines
    .send .capEnd ∈ (watched config handlers).actions lines →
      (r.feed line).1.seats = r.seats ∧ (r.feed line).1.enabledCaps = r.enabledCaps
  /-- A handler is not asked again once it has said that it is done. -/
  dismissed : ∀ lines line, let r := (watched config handlers).run lines
    ∀ (i : Nat) (seat : Seat (Recorded H)), r.seats[i]? = some seat → seat.handler.IsDone →
      (r.feed line).1.seats[i]? = some seat
  /-- The registration is complete once, and then nothing else is done. -/
  complete : ∀ lines line, let r := (opened config handlers).run lines
    ((opened config handlers).actions lines).countP RegistrationAction.isComplete ≤ 1 ∧
      ∀ nick, .complete nick ∈ (opened config handlers).actions lines → (r.feed line).2 = []

variable {config handlers}

/-- The negotiation ends once, if no handler ends it by itself. -/
theorem ends_once (hquiet : ∀ handler ∈ handlers, NeverSends .capEnd handler) :
    EndsOnce config handlers := by
  have hsilent (lines : List Line) := quiet_run (quiet_watched config hquiet) lines
  have hfaithful (lines : List Line) := faithful_watched config handlers lines
  have hnext (lines : List Line) (line : Line) :
      ∀ seat ∈ (((watched config handlers).run lines).feed line).1.seats, seat.Faithful := by
    rw [← run_concat]
    exact hfaithful (lines ++ [line])
  have hfinished (lines : List Line) := finished_run (r := watched config handlers) rfl lines
  constructor
  case unobserved =>
    intro lines
    rw [run_watched, actions_watched]
    exact ⟨rfl, rfl⟩
  case seated =>
    intro lines
    apply run_of_feed (P := fun r => r.seats.length = handlers.length)
    · intro r line h
      rw [length_seats_feed, h]
    · rw [watched, seats_opened, List.length_map, List.length_map]
  case once =>
    refine ⟨capEnd_not_mem_start config handlers, ?_⟩
    intro lines
    have hcount := count_capEnd_actions (quiet_opened config hquiet) lines
    have hle := ((opened config handlers).run lines).capEndSent.toNat_le
    omega
  case reason =>
    intro lines line r hsent
    have hcount : (r.feed line).2.count (.send .capEnd) + r.capEndSent.toNat =
        (r.feed line).1.capEndSent.toNat := count_capEnd_feed (hsilent lines) line
    have hpositive := List.count_pos_iff.mpr hsent
    have hbefore : r.capEndSent = false := by
      have hle := (r.feed line).1.capEndSent.toNat_le
      exact Bool.toNat_eq_zero.mp (by omega)
    have hafter : (r.feed line).1.capEndSent = true := by
      have hle := (r.feed line).1.capEndSent.toNat_le
      exact Bool.toNat_eq_one.mp (by omega)
    obtain ⟨henabled, hdone, hfail, -⟩ := ended_feed hbefore hafter
    rw [config_run] at henabled
    exact ⟨henabled, fun seat hseat => (hnext lines line seat hseat).mp (hdone seat hseat),
      hfail⟩
  case prompt =>
    rintro lines line r ⟨open_, hopen, hasked⟩ hdone hfail henabled
    have hunfinished : open_.finished = false := by
      rw [← Bool.not_eq_true]
      exact fun hfinished => hasked ((hfaithful lines open_ hopen).mp hfinished)
    have hbefore : r.capEndSent = false := by
      rw [← Bool.not_eq_true]
      intro hsent
      rw [hfinished lines hsent open_ hopen] at hunfinished
      cases hunfinished
    have hafter : (r.feed line).1.capEndSent = true := by
      refine capEndSent_feed ⟨open_, hopen, hunfinished⟩ ?_ hfail ?_
      · exact fun seat hseat => (hnext lines line seat hseat).mpr (hdone seat hseat)
      · rw [config_run]
        exact henabled
    exact (ended_feed hbefore hafter).2.2.2
  case frozen =>
    intro lines line r hsent
    have hended := capEndSent_run (quiet_watched config hquiet) hsent
    exact feed_frozen hended (hfinished lines hended) line
  case dismissed =>
    intro lines line r i seat hseat hdone
    obtain hleft | ⟨hopen, -⟩ := getElem?_seats_feed hseat line
    · exact hleft
    · rw [(hfaithful lines seat (List.mem_of_getElem? hseat)).mpr hdone] at hopen
      cases hopen
  case complete =>
    intro lines line r
    have hcount := count_complete_actions (opened config handlers) lines
    have hle := (decide (((opened config handlers).run lines).phase = .welcomed)).toNat_le
    refine ⟨by omega, ?_⟩
    intro nick hcomplete
    have hphase : r.phase ≠ .waiting := by
      rw [welcomed_run hcomplete]
      decide
    rw [feed_of_welcomed hphase]

end Registration

/-- No built-in handler ends the negotiation by itself. -/
theorem Handler.neverSends_capEnd (handler : Handler) : NeverSends .capEnd handler := by
  intro talk enabled prompt hsent
  rcases mem_outgoing_step hsent with ⟨caps, hcommand⟩ | hcommand | ⟨payload, hcommand⟩
  · cases hcommand
  · cases hcommand
  · cases hcommand

/-- A single capability is accepted, which ends the negotiation. -/
theorem Registration.ends_once_accepted :
    let config := (ClientConfig.standard "irc.example.net" "bot").toRegistrationConfig
    let handlers := [Handler.enable "away-notify" true]
    let accepted : Line := ⟨"", [], none, "CAP", ["*", "ACK", "away-notify"]⟩
    (∀ handler ∈ handlers, NeverSends .capEnd handler) ∧ EndsOnce config handlers ∧
      ((opened config handlers).feed accepted).2 = [.send .capEnd] :=
  ⟨fun handler _ => handler.neverSends_capEnd,
    Registration.ends_once fun handler _ => handler.neverSends_capEnd, by decide⟩

end IrcClient
