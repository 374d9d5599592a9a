import IrcClient.Proofs.Registration.Run

/-!
# Handlers that keep a record

A handler may be given a record of its consultations: what it was shown, what it said and what it
reported. It says and reports the same with a record as without, so nothing else in a registration
depends on it. What the handlers have done in a run can be read off their records.
-/

namespace IrcClient

/-! ## Handlers in the place of others -/

section Map

variable {H K : Type} (f : H → K)

def Turn.map (turn : Turn H) : Turn K := ⟨f turn.handler, turn.outgoing, turn.outcome⟩

def Seat.map (seat : Seat H) : Seat K := ⟨f seat.handler, seat.finished⟩

/-- A registration with other handlers in the places of its own. -/
def Registration.map (r : Registration H) : Registration K where
  config := r.config
  phase := r.phase
  nick := r.nick
  nickSuffix := r.nickSuffix
  seats := r.seats.map (Seat.map f)
  enabledCaps := r.enabledCaps
  offered := r.offered
  capEndSent := r.capEndSent

end Map

/-- Handlers of either of two kinds. -/
instance {H K : Type} [CapHandler H] [CapHandler K] : CapHandler (H ⊕ K) where
  step handler enabled prompt :=
    match handler with
    | .inl handler => (CapHandler.step handler enabled prompt).map .inl
    | .inr handler => (CapHandler.step handler enabled prompt).map .inr

namespace Registration

variable {H K : Type} (f : H → K)

theorem opened_map (config : RegistrationConfig) (handlers : List H) :
    opened config (handlers.map f) = (opened config handlers).map f := by
  simp [opened, start, new, map, Seat.map]

theorem retryNick_map (r : Registration H) (line : Line) :
    (r.map f).retryNick line = ((r.retryNick line).1.map f, (r.retryNick line).2) := by
  have hconfig : (r.map f).config = r.config := rfl
  rw [retryNick, retryNick, hconfig]
  by_cases h : r.config.autoNickChange = true
  · rw [if_pos h, if_pos h]
    rfl
  · rw [if_neg h, if_neg h]
    rfl

theorem closes_map {r : Registration H} {actions : List RegistrationAction} :
    (r.map f).Closes actions ↔ r.Closes actions := by
  have hseats : (∀ seat ∈ (r.map f).seats, seat.finished = true) ↔
      ∀ seat ∈ r.seats, seat.finished = true := List.forall_mem_map
  constructor
  · exact fun h => ⟨h.unfailed, h.unsent, h.enabled, hseats.mp h.finished⟩
  · exact fun h => ⟨h.unfailed, h.unsent, h.enabled, hseats.mpr h.finished⟩

theorem endNegotiation_map (r : Registration H) (actions : List RegistrationAction) :
    endNegotiation (r.map f, actions) =
      ((endNegotiation (r, actions)).1.map f, (endNegotiation (r, actions)).2) := by
  rcases r.endNegotiation_cases actions with ⟨hcloses, hend⟩ | ⟨hopen, hend⟩
  · obtain ⟨-, hend'⟩ | ⟨hopen, -⟩ := (r.map f).endNegotiation_cases actions
    · rw [hend, hend']
      rfl
    · exact absurd ((closes_map f).mpr hcloses) hopen
  · obtain ⟨hcloses, -⟩ | ⟨-, hend'⟩ := (r.map f).endNegotiation_cases actions
    · exact absurd ((closes_map f).mp hcloses) hopen
    · rw [hend, hend']

variable [CapHandler H] [CapHandler K]

/-- Handlers that do as others do, turn by turn. -/
def Mimics : Prop :=
  ∀ handler enabled prompt,
    CapHandler.step (f handler) enabled prompt = (CapHandler.step handler enabled prompt).map f

variable {f}

theorem consult_map (hf : Mimics f) (enabled : List String) (prompt : Prompt) (seats : List (Seat H)) :
    consult enabled prompt (seats.map (Seat.map f)) =
      ((consult enabled prompt seats).1.map (Seat.map f), (consult enabled prompt seats).2) := by
  induction seats with
  | nil => rfl
  | cons seat seats ih =>
    cases hdone : seat.finished with
    | true =>
      have hdone' : (seat.map f).finished = true := hdone
      rw [List.map_cons, consult_finished hdone', consult_finished hdone, ih]
      rfl
    | false =>
      have hopen : ¬ seat.finished = true := by
        rw [hdone]
        exact Bool.false_ne_true
      have hopen' : ¬ (seat.map f).finished = true := hopen
      rw [List.map_cons, consult, consult, if_neg hopen, if_neg hopen', ih]
      dsimp only [Seat.map]
      rw [hf]
      dsimp only [Turn.map]
      cases (CapHandler.step seat.handler enabled prompt).outcome with
      | error error => rfl
      | ok done => rfl

theorem offer_map (hf : Mimics f) (r : Registration H) (prompt : Prompt) :
    (r.map f).offer prompt = ((r.offer prompt).1.map f, (r.offer prompt).2) := by
  unfold offer
  dsimp only [map]
  rw [consult_map hf]

theorem negotiate_map (hf : Mimics f) (r : Registration H) (line : Line) :
    (r.map f).negotiate line = ((r.negotiate line).1.map f, (r.negotiate line).2) := by
  rw [negotiate, negotiate]
  dsimp only
  split
  · split
    · rfl
    · exact offer_map hf { r with offered := [] } _
  · split
    · exact offer_map hf { r with enabledCaps := _ } _
    · split
      · exact offer_map hf r _
      · exact offer_map hf r _

/-- Handlers that do as others do lead to the same actions. -/
theorem feed_map (hf : Mimics f) (r : Registration H) (line : Line) :
    (r.map f).feed line = ((r.feed line).1.map f, (r.feed line).2) := by
  unfold feed
  by_cases hphase : r.phase ≠ .waiting
  · have hphase' : (r.map f).phase ≠ .waiting := hphase
    rw [if_pos hphase, if_pos hphase']
  · have hphase' : ¬ (r.map f).phase ≠ .waiting := hphase
    rw [if_neg hphase, if_neg hphase']
    have hcue : Cue.ofLine (r.map f).config line = Cue.ofLine r.config line := rfl
    rw [hcue]
    cases Cue.ofLine r.config line with
    | welcome => rfl
    | nickTaken => exact retryNick_map f r line
    | rejected code => rfl
    | harmless => exact endNegotiation_map f r []
    | tlsReady =>
      dsimp only
      rw [offer_map hf]
      exact endNegotiation_map f (r.offer (.other line)).1 (.upgradeTls :: (r.offer (.other line)).2)
    | cap =>
      dsimp only
      rw [negotiate_map hf]
      generalize r.negotiate line = result
      exact endNegotiation_map f result.1 result.2
    | other =>
      dsimp only
      rw [offer_map hf]
      exact endNegotiation_map f (r.offer (.other line)).1 (r.offer (.other line)).2

theorem run_map (hf : Mimics f) (r : Registration H) (lines : List Line) :
    (r.map f).run lines = (r.run lines).map f := by
  induction lines generalizing r with
  | nil => rfl
  | cons line lines ih =>
    change ((r.map f).feed line).1.run lines = ((r.feed line).1.run lines).map f
    rw [feed_map hf, ih]

theorem actions_map (hf : Mimics f) (r : Registration H) (lines : List Line) :
    (r.map f).actions lines = r.actions lines := by
  induction lines generalizing r with
  | nil => rfl
  | cons line lines ih => rw [actions, actions, feed_map hf, ih]

end Registration

/-! ## Records -/

/-- One consultation of a handler. -/
structure Consultation where
  prompt : Prompt
  answer : List Command
  /-- Whether the handler had nothing left to do, or why it gave up. -/
  report : Except RegistrationError Bool

/-- A handler with a record of its consultations, in order. -/
structure Recorded (H : Type) where
  handler : H
  past : List Consultation

namespace Recorded

variable {H : Type}

def fresh (handler : H) : Recorded H := ⟨handler, []⟩

/-- Whether the handler has reported that it has nothing left to do. -/
def IsDone (recorded : Recorded H) : Prop := ∃ c ∈ recorded.past, c.report = .ok true

instance [CapHandler H] : CapHandler (Recorded H) where
  step recorded enabled prompt :=
    let turn := CapHandler.step recorded.handler enabled prompt
    let consultation : Consultation := ⟨prompt, turn.outgoing, turn.outcome⟩
    ⟨⟨turn.handler, recorded.past ++ [consultation]⟩, turn.outgoing, turn.outcome⟩

theorem mimics [CapHandler H] : Registration.Mimics (handler : Recorded H → H) :=
  fun _ _ _ => rfl

end Recorded

namespace Registration

variable {H : Type}

/-- A registration that has just been opened with handlers that keep a record. -/
def watched (config : RegistrationConfig) (handlers : List H) : Registration (Recorded H) :=
  opened config (handlers.map .fresh)

theorem map_watched (config : RegistrationConfig) (handlers : List H) :
    (watched config handlers).map Recorded.handler = opened config handlers := by
  have hfresh : Recorded.handler ∘ (.fresh : H → Recorded H) = id := rfl
  rw [watched, ← opened_map, List.map_map, hfresh, List.map_id]

theorem getElem?_seats_watched (config : RegistrationConfig) {handlers : List H} {i : Nat}
    {handler : H} (h : handlers[i]? = some handler) :
    (watched config handlers).seats[i]? = some ⟨.fresh handler, false⟩ := by
  apply getElem?_seats_opened
  rw [List.getElem?_map, h]
  rfl

/-- The record of the handler in a place. -/
def past (r : Registration (Recorded H)) (i : Nat) : List Consultation :=
  match r.seats[i]? with
  | some seat => seat.handler.past
  | none => []

theorem past_eq {r : Registration (Recorded H)} {i : Nat} {seat : Seat (Recorded H)}
    (h : r.seats[i]? = some seat) : r.past i = seat.handler.past := by
  rw [past, h]

variable [CapHandler H]

/-- The records do not matter for what becomes of a registration. -/
theorem run_watched (config : RegistrationConfig) (handlers : List H) (lines : List Line) :
    ((watched config handlers).run lines).map Recorded.handler = (opened config handlers).run lines := by
  rw [← map_watched, run_map Recorded.mimics]

/-- The records do not matter for what is done. -/
theorem actions_watched (config : RegistrationConfig) (handlers : List H) (lines : List Line) :
    (watched config handlers).actions lines = (opened config handlers).actions lines := by
  rw [← map_watched, actions_map Recorded.mimics]

end Registration

/-! ## What the records tell -/

namespace Seat

variable {H : Type} [CapHandler H]

theorem past_shown_eq (seat : Seat (Recorded H)) (enabled : List String) (prompt : Prompt) :
    (seat.shown enabled prompt).handler.past = seat.handler.past ++
      [⟨prompt, seat.answer enabled prompt,
        (CapHandler.step seat.handler enabled prompt).outcome⟩] := rfl

theorem past_shown (seat : Seat (Recorded H)) (enabled : List String) (prompt : Prompt) :
    ∃ report, (seat.shown enabled prompt).handler.past =
        seat.handler.past ++ [⟨prompt, seat.answer enabled prompt, report⟩] ∧
      ((seat.shown enabled prompt).finished = true ↔ report = .ok true) :=
  ⟨_, seat.past_shown_eq enabled prompt, seat.finished_shown enabled prompt⟩

omit [CapHandler H] in
/-- A handler counts as done exactly if it has said so. -/
def Faithful (seat : Seat (Recorded H)) : Prop :=
  seat.finished = true ↔ seat.handler.IsDone

omit [CapHandler H] in
theorem faithful_fresh (handler : H) : Faithful ⟨.fresh handler, false⟩ :=
  iff_of_false Bool.false_ne_true fun ⟨_, hmem, _⟩ => List.not_mem_nil hmem

theorem Faithful.shown {seat : Seat (Recorded H)} (h : seat.Faithful) (hopen : seat.finished = false)
    (enabled : List String) (prompt : Prompt) : (seat.shown enabled prompt).Faithful := by
  obtain ⟨report, hpast, hfinished⟩ := seat.past_shown enabled prompt
  rw [Faithful, hfinished, Recorded.IsDone, hpast]
  constructor
  · exact fun hdone => ⟨_, List.mem_append_right _ (List.mem_singleton_self _), hdone⟩
  · rintro ⟨c, hc, hdone⟩
    rcases List.mem_append.mp hc with hold | hnew
    · rw [h.mpr ⟨c, hold, hdone⟩] at hopen
      cases hopen
    · rw [List.mem_singleton.mp hnew] at hdone
      exact hdone

end Seat

namespace Registration

variable {H : Type} [CapHandler H]

theorem faithful_watched (config : RegistrationConfig) (handlers : List H) (lines : List Line) :
    ∀ seat ∈ ((watched config handlers).run lines).seats, seat.Faithful := by
  apply run_of_feed (P := fun r => ∀ seat ∈ r.seats, seat.Faithful)
  · intro r line h
    exact forall_seats_feed (fun seat enabled prompt hseat hopen => hseat.shown hopen enabled prompt) h line
  · intro seat hseat
    rw [watched, seats_opened, List.map_map] at hseat
    obtain ⟨handler, -, rfl⟩ := List.mem_map.mp hseat
    exact Seat.faithful_fresh handler

variable {r : Registration (Recorded H)} {line : Line}

/-- A line leaves the record of a handler as it is or adds one consultation to it, and then what the
handler says is sent. -/
theorem past_feed (r : Registration (Recorded H)) (line : Line) (i : Nat) :
    (r.feed line).1.past i = r.past i ∨
      ∃ c, (r.feed line).1.past i = r.past i ++ [c] ∧ r.Tells line c.prompt ∧
        ∀ command ∈ c.answer, .send command ∈ (r.feed line).2 := by
  cases hseat : r.seats[i]? with
  | none =>
    have hnone : (r.feed line).1.seats[i]? = none := by
      rw [List.getElem?_eq_none_iff, length_seats_feed]
      exact List.getElem?_eq_none_iff.mp hseat
    rw [past, past, hseat, hnone]
    exact Or.inl rfl
  | some seat =>
    rw [past_eq hseat]
    obtain hleft | ⟨-, enabled, prompt, htold, hshown, hsent⟩ := getElem?_seats_feed hseat line
    · exact Or.inl (past_eq hleft)
    · obtain ⟨report, hpast, -⟩ := seat.past_shown enabled prompt
      refine Or.inr ⟨⟨prompt, seat.answer enabled prompt, report⟩, ?_, htold, hsent⟩
      rw [past_eq hshown, hpast]

/-- What a line adds to a record comes of a turn of the handler. -/
theorem turn_of_past_feed {i : Nat} {seat : Seat (Recorded H)} {c : Consultation}
    (hseat : r.seats[i]? = some seat) (hpast : (r.feed line).1.past i = r.past i ++ [c]) :
    ∃ enabled, r.Tells line c.prompt ∧ c.answer = seat.answer enabled c.prompt ∧
      c.report = (CapHandler.step seat.handler enabled c.prompt).outcome := by
  obtain hleft | ⟨-, enabled, prompt, htold, hshown, -⟩ := getElem?_seats_feed hseat line
  · rw [past_eq hleft, past_eq hseat] at hpast
    exact absurd hpast.symm (by simp)
  · rw [past_eq hshown, past_eq hseat, seat.past_shown_eq] at hpast
    cases List.append_cancel_left hpast
    exact ⟨enabled, htold, rfl, rfl⟩

/-- Apart from new nicks and the end of the negotiation, what is sent is in the records. -/
theorem past_of_send_mem_feed {command : Command} (h : .send command ∈ (r.feed line).2) :
    (∃ nick, command = .nick nick) ∨ command = .capEnd ∨
      ∃ i c, (r.feed line).1.past i = r.past i ++ [c] ∧ command ∈ c.answer := by
  obtain hnick | hend | ⟨i, seat, enabled, prompt, hseat, hshown, hanswer⟩ := send_mem_feed h
  · exact Or.inl hnick
  · exact Or.inr (Or.inl hend)
  · obtain ⟨report, hpast, -⟩ := seat.past_shown enabled prompt
    refine Or.inr (Or.inr ⟨i, ⟨prompt, seat.answer enabled prompt, report⟩, ?_, hanswer⟩)
    rw [past_eq hshown, past_eq hseat, hpast]

/-- A handler that has said that it is done is not asked again. -/
theorem past_feed_of_isDone (hfaithful : ∀ seat ∈ r.seats, seat.Faithful) {i : Nat} {c : Consultation}
    (hmem : c ∈ r.past i) (hdone : c.report = .ok true) (line : Line) :
    (r.feed line).1.past i = r.past i := by
  cases hseat : r.seats[i]? with
  | none =>
    rw [past, hseat] at hmem
    cases hmem
  | some seat =>
    rw [past_eq hseat] at hmem ⊢
    have hfinished : seat.finished = true :=
      (hfaithful seat (List.mem_of_getElem? hseat)).mpr ⟨c, hmem, hdone⟩
    obtain hleft | ⟨hopen, -⟩ := getElem?_seats_feed hseat line
    · exact past_eq hleft
    · rw [hfinished] at hopen
      cases hopen

end Registration

end IrcClient
