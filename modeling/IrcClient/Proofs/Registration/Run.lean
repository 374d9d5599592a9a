import IrcClient.Registration.Machine

/-!
# Runs of a registration

A registration is opened once and is then fed lines. `Fed` lists what a line can lead to, and all
that is shown of a run here and elsewhere comes from it. A handler is left as it is by a line, or it
is shown what the line says and takes its turn.
-/

namespace IrcClient

/-- Whether a handler reports that it has nothing left to do. -/
def Turn.isDone {H : Type} (turn : Turn H) : Bool :=
  match turn.outcome with
  | .ok done => done
  | .error _ => false

namespace Registration

variable {H : Type}

/-- A registration that has just been opened. -/
def opened (config : RegistrationConfig) (handlers : List H) : Registration H :=
  (new config handlers).start.1

theorem seats_opened (config : RegistrationConfig) (handlers : List H) :
    (opened config handlers).seats = handlers.map fun handler => ⟨handler, false⟩ := rfl

theorem getElem?_seats_opened (config : RegistrationConfig) {handlers : List H} {i : Nat}
    {handler : H} (h : handlers[i]? = some handler) :
    (opened config handlers).seats[i]? = some ⟨handler, false⟩ := by
  rw [seats_opened, List.getElem?_map, h]
  rfl

variable [CapHandler H]

/-- The registration after some lines, in order. -/
def run (r : Registration H) (lines : List Line) : Registration H :=
  lines.foldl (fun r line => (r.feed line).1) r

/-- All that is to be done on some lines, in order. -/
def actions (r : Registration H) : List Line → List RegistrationAction
  | [] => []
  | line :: lines => (r.feed line).2 ++ (r.feed line).1.actions lines

theorem run_concat (r : Registration H) (lines : List Line) (line : Line) :
    r.run (lines ++ [line]) = ((r.run lines).feed line).1 := by
  rw [run, List.foldl_append]
  rfl

theorem actions_concat (r : Registration H) (lines : List Line) (line : Line) :
    r.actions (lines ++ [line]) = r.actions lines ++ ((r.run lines).feed line).2 := by
  induction lines generalizing r with
  | nil => simp [actions, run]
  | cons first lines ih =>
    rw [List.cons_append, actions, actions, ih, List.append_assoc]
    rfl

/-- What every line preserves holds throughout a run. -/
theorem run_of_feed {P : Registration H → Prop} (hstep : ∀ r line, P r → P (r.feed line).1)
    {r : Registration H} (h : P r) (lines : List Line) : P (r.run lines) := by
  induction lines generalizing r with
  | nil => exact h
  | cons line lines ih => exact ih (hstep r line h)

end Registration

/-! ## Consultations -/

/-- A handler after its turn, and whether it is done then. -/
def Seat.shown {H : Type} [CapHandler H] (seat : Seat H) (enabled : List String) (prompt : Prompt) :
    Seat H :=
  let turn := CapHandler.step seat.handler enabled prompt
  ⟨turn.handler, turn.isDone⟩

/-- What a handler says in its turn. -/
def Seat.answer {H : Type} [CapHandler H] (seat : Seat H) (enabled : List String) (prompt : Prompt) :
    List Command :=
  (CapHandler.step seat.handler enabled prompt).outgoing

theorem Seat.finished_shown {H : Type} [CapHandler H] (seat : Seat H) (enabled : List String)
    (prompt : Prompt) :
    (seat.shown enabled prompt).finished = true ↔
      (CapHandler.step seat.handler enabled prompt).outcome = .ok true := by
  change Turn.isDone _ = true ↔ _
  rw [Turn.isDone]
  cases (CapHandler.step seat.handler enabled prompt).outcome with
  | ok done => rw [Except.ok.injEq]
  | error error =>
    refine iff_of_false Bool.false_ne_true ?_
    intro hreport
    cases hreport

namespace Registration

section Consult

variable {H : Type} [CapHandler H] {enabled : List String} {prompt : Prompt}

theorem consult_finished {seat : Seat H} (h : seat.finished = true) (seats : List (Seat H)) :
    consult enabled prompt (seat :: seats) =
      (seat :: (consult enabled prompt seats).1, (consult enabled prompt seats).2) := by
  rw [consult, if_pos h]

/-- A handler that gives up ends the round. Any other is followed by the rest of it. -/
theorem consult_unfinished (enabled : List String) (prompt : Prompt) {seat : Seat H}
    (h : seat.finished = false) (seats : List (Seat H)) :
    ∃ later, (later = consult enabled prompt seats ∨ ∃ error, later = (seats, [.fail error])) ∧
      consult enabled prompt (seat :: seats) = (seat.shown enabled prompt :: later.1,
        (seat.answer enabled prompt).map .send ++ later.2) := by
  rw [consult, if_neg (by rw [h]; exact Bool.false_ne_true)]
  dsimp only
  cases houtcome : (CapHandler.step seat.handler enabled prompt).outcome with
  | error error =>
    refine ⟨(seats, [.fail error]), Or.inr ⟨error, rfl⟩, ?_⟩
    simp [Seat.shown, Seat.answer, Turn.isDone, houtcome]
  | ok done =>
    refine ⟨consult enabled prompt seats, Or.inl rfl, ?_⟩
    simp [Seat.shown, Seat.answer, Turn.isDone, houtcome]

theorem consult_of_finished {seats : List (Seat H)} (h : ∀ seat ∈ seats, seat.finished = true) :
    consult enabled prompt seats = (seats, []) := by
  induction seats with
  | nil => rfl
  | cons seat seats ih =>
    rw [consult_finished (h seat List.mem_cons_self),
      ih fun other hother => h other (List.mem_cons_of_mem seat hother)]

theorem length_consult (seats : List (Seat H)) :
    (consult enabled prompt seats).1.length = seats.length := by
  induction seats with
  | nil => rfl
  | cons seat seats ih =>
    cases hdone : seat.finished with
    | true => rw [consult_finished hdone, List.length_cons, ih, List.length_cons]
    | false =>
      obtain ⟨later, hlater, hconsult⟩ := consult_unfinished enabled prompt hdone seats
      rw [hconsult, List.length_cons, List.length_cons]
      rcases hlater with rfl | ⟨error, rfl⟩
      · rw [ih]
      · rfl

/-- A round leaves a handler alone or gives it its turn, and then what it says is sent. -/
theorem getElem?_consult (enabled : List String) (prompt : Prompt) {seats : List (Seat H)}
    {i : Nat} {seat : Seat H} (h : seats[i]? = some seat) :
    (consult enabled prompt seats).1[i]? = some seat ∨
      seat.finished = false ∧
        (consult enabled prompt seats).1[i]? = some (seat.shown enabled prompt) ∧
        ∀ command ∈ seat.answer enabled prompt, .send command ∈ (consult enabled prompt seats).2 := by
  induction seats generalizing i with
  | nil => cases h
  | cons first seats ih =>
    cases hdone : first.finished with
    | true =>
      rw [consult_finished hdone]
      cases i with
      | zero => exact Or.inl h
      | succ i => exact ih h
    | false =>
      obtain ⟨later, hlater, hconsult⟩ := consult_unfinished enabled prompt hdone seats
      rw [hconsult]
      cases i with
      | zero =>
        cases h
        exact Or.inr ⟨hdone, rfl, fun command hcommand =>
          List.mem_append_left _ (List.mem_map_of_mem hcommand)⟩
      | succ i =>
        rcases hlater with rfl | ⟨error, rfl⟩
        · refine (ih h).imp_right ?_
          rintro ⟨hopen, hshown, hsent⟩
          exact ⟨hopen, hshown, fun command hcommand =>
            List.mem_append_right _ (hsent command hcommand)⟩
        · exact Or.inl h

/-- A handler gets its turn only if those before it are done or do not give up in theirs. -/
theorem turn_before (enabled : List String) (prompt : Prompt) {seats : List (Seat H)} {i j : Nat}
    (hij : i < j) {first later : Seat H} (hfirst : seats[i]? = some first)
    (hlater : seats[j]? = some later) :
    (consult enabled prompt seats).1[j]? = some later ∨ first.finished = true ∨
      first.finished = false ∧
        (consult enabled prompt seats).1[i]? = some (first.shown enabled prompt) ∧
        ∃ done, (CapHandler.step first.handler enabled prompt).outcome = .ok done := by
  induction seats generalizing i j with
  | nil => cases hfirst
  | cons seat seats ih =>
    obtain ⟨j, rfl⟩ : ∃ k, j = k + 1 := ⟨j - 1, by omega⟩
    cases hdone : seat.finished with
    | true =>
      rw [consult_finished hdone]
      cases i with
      | zero =>
        cases hfirst
        exact Or.inr (Or.inl hdone)
      | succ i => exact ih (Nat.lt_of_succ_lt_succ hij) hfirst hlater
    | false =>
      rw [consult, if_neg (by rw [hdone]; exact Bool.false_ne_true)]
      dsimp only
      cases houtcome : (CapHandler.step seat.handler enabled prompt).outcome with
      | error error => exact Or.inl hlater
      | ok done =>
        cases i with
        | zero =>
          cases hfirst
          refine Or.inr (Or.inr ⟨hdone, ?_, done, houtcome⟩)
          simp [Seat.shown, Turn.isDone, houtcome]
        | succ i => exact ih (Nat.lt_of_succ_lt_succ hij) hfirst hlater

/-- A round leads to what handlers say in their turns, and to a failure at most. -/
theorem mem_consult {seats : List (Seat H)} {action : RegistrationAction}
    (h : action ∈ (consult enabled prompt seats).2) :
    (∃ error, action = .fail error) ∨
      ∃ (i : Nat) (seat : Seat H), seats[i]? = some seat ∧ seat.finished = false ∧
        (consult enabled prompt seats).1[i]? = some (seat.shown enabled prompt) ∧
        ∃ command ∈ seat.answer enabled prompt, action = .send command := by
  induction seats with
  | nil => cases h
  | cons first seats ih =>
    -- What is found further on is found one place later.
    have next {first' : Seat H} (hmem : action ∈ (consult enabled prompt seats).2) :
        (∃ error, action = .fail error) ∨
          ∃ (i : Nat) (seat : Seat H), (first :: seats)[i]? = some seat ∧ seat.finished = false ∧
            (first' :: (consult enabled prompt seats).1)[i]? = some (seat.shown enabled prompt) ∧
            ∃ command ∈ seat.answer enabled prompt, action = .send command := by
      refine (ih hmem).imp_right ?_
      rintro ⟨i, seat, hseat⟩
      exact ⟨i + 1, seat, hseat⟩
    cases hdone : first.finished with
    | true =>
      rw [consult_finished hdone] at h ⊢
      exact next h
    | false =>
      obtain ⟨later, hlater, hconsult⟩ := consult_unfinished enabled prompt hdone seats
      rw [hconsult] at h ⊢
      rcases List.mem_append.mp h with hsent | hrest
      · obtain ⟨command, hcommand, rfl⟩ := List.mem_map.mp hsent
        exact Or.inr ⟨0, first, rfl, hdone, rfl, command, hcommand, rfl⟩
      · rcases hlater with rfl | ⟨error, rfl⟩
        · exact next hrest
        · exact Or.inl ⟨error, List.mem_singleton.mp hrest⟩

end Consult

/-! ## One line -/

section Feed

variable {H : Type}

/-- Whether a line belongs to the negotiation, with a certain word for its matter. -/
def IsCap (word : String) (line : Line) : Prop :=
  line.verb = .cap ∧ Text.upper ((line.param 1).getD "") = word

instance (word : String) (line : Line) : Decidable (IsCap word line) :=
  inferInstanceAs (Decidable (_ ∧ _))

/-- What a line tells the handlers. -/
inductive Tells (r : Registration H) (line : Line) : Prompt → Prop where
  /-- The end of a list of what is offered, which other lines may have begun. -/
  | offered (hword : IsCap "LS" line) (hlast : (capList line).2 = false) :
      Tells r line (.offered (r.offered ++ (capList line).1))
  | accepted (hword : IsCap "ACK" line) : Tells r line (.accepted (capList line).1)
  | refused (hword : IsCap "NAK" line) : Tells r line (.refused (capList line).1)
  | other : Tells r line (.other line)

/-- Whether nothing keeps the negotiation open when some actions are due. -/
structure Closes (r : Registration H) (actions : List RegistrationAction) : Prop where
  unfailed : ∀ action ∈ actions, action.isFail = false
  unsent : r.capEndSent = false
  enabled : r.config.capEnabled = true
  finished : ∀ seat ∈ r.seats, seat.finished = true

theorem endNegotiation_cases (r : Registration H) (actions : List RegistrationAction) :
    r.Closes actions ∧ endNegotiation (r, actions) =
        ({ r with capEndSent := true }, actions ++ [.send .capEnd]) ∨
      ¬ r.Closes actions ∧ endNegotiation (r, actions) = (r, actions) := by
  unfold endNegotiation
  dsimp only
  split
  · rename_i hopen
    refine Or.inr ⟨fun hcloses => ?_, rfl⟩
    have hfail : actions.any RegistrationAction.isFail = false :=
      List.any_eq_false.mpr fun action haction => by simp [hcloses.unfailed action haction]
    have hfinished : (r.seats.any fun seat => !seat.finished) = false :=
      List.any_eq_false.mpr fun seat hseat => by simp [hcloses.finished seat hseat]
    rw [hfail, hcloses.unsent, hcloses.enabled, hfinished] at hopen
    exact Bool.false_ne_true hopen
  · rename_i hclosed
    simp only [Bool.or_eq_true, not_or, Bool.not_eq_true, List.any_eq_false, Bool.not_eq_false'] at hclosed
    obtain ⟨⟨⟨hfail, hsent⟩, henabled⟩, hfinished⟩ := hclosed
    refine Or.inl ⟨⟨?_, hsent, henabled, ?_⟩, rfl⟩
    · exact fun action haction => hfail action haction
    · exact fun seat hseat => by simpa using hfinished seat hseat

theorem config_endNegotiation (r : Registration H) (actions : List RegistrationAction) :
    (endNegotiation (r, actions)).1.config = r.config := by
  obtain ⟨-, hend⟩ | ⟨-, hend⟩ := r.endNegotiation_cases actions <;> rw [hend]

theorem phase_endNegotiation (r : Registration H) (actions : List RegistrationAction) :
    (endNegotiation (r, actions)).1.phase = r.phase := by
  obtain ⟨-, hend⟩ | ⟨-, hend⟩ := r.endNegotiation_cases actions <;> rw [hend]

theorem seats_endNegotiation (r : Registration H) (actions : List RegistrationAction) :
    (endNegotiation (r, actions)).1.seats = r.seats := by
  obtain ⟨-, hend⟩ | ⟨-, hend⟩ := r.endNegotiation_cases actions <;> rw [hend]

theorem enabledCaps_endNegotiation (r : Registration H) (actions : List RegistrationAction) :
    (endNegotiation (r, actions)).1.enabledCaps = r.enabledCaps := by
  obtain ⟨-, hend⟩ | ⟨-, hend⟩ := r.endNegotiation_cases actions <;> rw [hend]

theorem mem_endNegotiation_of_mem {r : Registration H} {actions : List RegistrationAction}
    {action : RegistrationAction} (h : action ∈ actions) :
    action ∈ (endNegotiation (r, actions)).2 := by
  obtain ⟨-, hend⟩ | ⟨-, hend⟩ := r.endNegotiation_cases actions
  · rw [hend]
    exact List.mem_append_left _ h
  · rw [hend]
    exact h

theorem mem_of_mem_endNegotiation {r : Registration H} {actions : List RegistrationAction}
    {action : RegistrationAction} (h : action ∈ (endNegotiation (r, actions)).2) :
    action ∈ actions ∨ action = .send .capEnd := by
  obtain ⟨-, hend⟩ | ⟨-, hend⟩ := r.endNegotiation_cases actions
  · rw [hend] at h
    exact (List.mem_append.mp h).imp_right List.mem_singleton.mp
  · rw [hend] at h
    exact Or.inl h

variable [CapHandler H]

/-- What a line can lead to. -/
inductive Fed (r : Registration H) (line : Line) : Registration H × List RegistrationAction → Prop where
  | ignored (hphase : r.phase ≠ .waiting) : Fed r line (r, [])
  | welcomed (hphase : r.phase = .waiting) (nick : String) :
      Fed r line ({ r with nick := nick, phase := .welcomed }, [.complete nick])
  /-- Another nick is tried, or nothing is left to try. -/
  | refused (hphase : r.phase = .waiting) (nick : String) (suffix : Nat)
      {actions : List RegistrationAction}
      (hsent : ∀ action ∈ actions, (∃ nick, action = .send (.nick nick)) ∨
        (∃ used next, action = .nickTaken used next) ∨ ∃ error, action = .fail error) :
      Fed r line ({ r with nick := nick, nickSuffix := suffix }, actions)
  /-- The line needs no answer. -/
  | noted (hphase : r.phase = .waiting) (offered : List String) :
      Fed r line (endNegotiation ({ r with offered := offered }, []))
  /-- The handlers are shown what the line tells. -/
  | shown (hphase : r.phase = .waiting) {prompt : Prompt} (htold : r.Tells line prompt)
      {enabled offered : List String} (hfrozen : r.capEndSent = true → enabled = r.enabledCaps)
      {before : List RegistrationAction} (hbefore : before = [] ∨ before = [.upgradeTls]) :
      Fed r line (endNegotiation
        ({ r with
            seats := (consult enabled prompt r.seats).1
            enabledCaps := enabled
            offered := offered },
          before ++ (consult enabled prompt r.seats).2))

theorem fed_offer {r : Registration H} {line : Line} (hphase : r.phase = .waiting) {prompt : Prompt}
    (htold : r.Tells line prompt) : r.Fed line (endNegotiation (r.offer prompt)) :=
  .shown hphase htold (fun _ => rfl) (Or.inl rfl)

theorem fed_negotiate {r : Registration H} {line : Line} (hphase : r.phase = .waiting)
    (hverb : line.verb = .cap) : r.Fed line (endNegotiation (r.negotiate line)) := by
  unfold negotiate
  dsimp only
  split
  · rename_i hword
    split
    · exact .noted hphase _
    · rename_i hlast
      rw [Bool.not_eq_true] at hlast
      exact .shown hphase (.offered ⟨hverb, hword⟩ hlast) (fun _ => rfl) (Or.inl rfl)
  · split
    · rename_i hword
      refine .shown hphase (.accepted ⟨hverb, hword⟩) ?_ (Or.inl rfl)
      intro hsent
      rw [if_pos hsent, List.append_nil]
    · split
      · rename_i hword
        exact fed_offer hphase (.refused ⟨hverb, hword⟩)
      · exact fed_offer hphase .other

theorem fed_retryNick {r : Registration H} {line : Line} (hphase : r.phase = .waiting) :
    r.Fed line (r.retryNick line) := by
  unfold retryNick
  dsimp only
  split
  · exact .refused hphase _ _ (by simp)
  · exact .refused hphase r.nick r.nickSuffix (by simp)

theorem verb_of_cue_cap {config : RegistrationConfig} {line : Line}
    (h : Cue.ofLine config line = .cap) : line.verb = .cap := by
  unfold Cue.ofLine at h
  split at h
  · repeat' split at h
    all_goals cases h
  · assumption
  · cases h

omit [CapHandler H] in
theorem cue_of_verb_cap (config : RegistrationConfig) {line : Line} (h : line.verb = .cap) :
    Cue.ofLine config line = .cap := by
  rw [Cue.ofLine, h]

/-- Nothing else can come of a line. -/
theorem feed_spec (r : Registration H) (line : Line) : r.Fed line (r.feed line) := by
  unfold feed
  split
  · rename_i hphase
    exact .ignored hphase
  · rename_i hphase
    rw [ne_eq, Decidable.not_not] at hphase
    cases hcue : Cue.ofLine r.config line with
    | welcome => exact .welcomed hphase _
    | nickTaken => exact fed_retryNick hphase
    | rejected code => exact .refused hphase r.nick r.nickSuffix (by simp)
    | harmless => exact .noted hphase r.offered
    | tlsReady => exact .shown hphase .other (fun _ => rfl) (Or.inr rfl)
    | cap => exact fed_negotiate hphase (verb_of_cue_cap hcue)
    | other => exact fed_offer hphase .other

theorem length_seats_feed (r : Registration H) (line : Line) :
    (r.feed line).1.seats.length = r.seats.length := by
  have hfed := r.feed_spec line
  generalize r.feed line = result at hfed ⊢
  cases hfed with
  | ignored => rfl
  | welcomed => rfl
  | refused => rfl
  | noted => rw [seats_endNegotiation]
  | shown =>
    rw [seats_endNegotiation]
    exact length_consult r.seats

/-- A line leaves the handlers as they are, or all of them are shown one prompt in a round. -/
theorem seats_feed (r : Registration H) (line : Line) :
    (r.feed line).1.seats = r.seats ∨
      ∃ enabled prompt, r.Tells line prompt ∧
        (r.feed line).1.seats = (consult enabled prompt r.seats).1 ∧
        (consult enabled prompt r.seats).2 ⊆ (r.feed line).2 := by
  have hfed := r.feed_spec line
  generalize r.feed line = result at hfed ⊢
  cases hfed with
  | ignored => exact Or.inl rfl
  | welcomed => exact Or.inl rfl
  | refused => exact Or.inl rfl
  | noted => exact Or.inl (seats_endNegotiation _ _)
  | shown hphase htold =>
    refine Or.inr ⟨_, _, htold, seats_endNegotiation _ _, ?_⟩
    exact fun action haction => mem_endNegotiation_of_mem (List.mem_append_right _ haction)

/-- A line leaves a handler as it is, or the handler is not done and takes its turn. -/
theorem getElem?_seats_feed {r : Registration H} {i : Nat} {seat : Seat H}
    (h : r.seats[i]? = some seat) (line : Line) :
    (r.feed line).1.seats[i]? = some seat ∨
      seat.finished = false ∧ ∃ enabled prompt, r.Tells line prompt ∧
        (r.feed line).1.seats[i]? = some (seat.shown enabled prompt) ∧
        ∀ command ∈ seat.answer enabled prompt, .send command ∈ (r.feed line).2 := by
  obtain hsame | ⟨enabled, prompt, htold, hround, hactions⟩ := r.seats_feed line
  · rw [hsame]
    exact Or.inl h
  · rw [hround]
    refine (getElem?_consult enabled prompt h).imp_right ?_
    rintro ⟨hopen, hshown, hsent⟩
    exact ⟨hopen, enabled, prompt, htold, hshown, fun command hcommand =>
      hactions (hsent command hcommand)⟩

/-- What every turn preserves in a handler holds after a line. -/
theorem forall_seats_feed {P : Seat H → Prop}
    (hturn : ∀ seat enabled prompt, P seat → seat.finished = false → P (seat.shown enabled prompt))
    {r : Registration H} (h : ∀ seat ∈ r.seats, P seat) (line : Line) :
    ∀ seat ∈ (r.feed line).1.seats, P seat := by
  intro seat' hmem
  obtain ⟨i, hi⟩ := List.mem_iff_getElem?.mp hmem
  have hlt : i < r.seats.length := by
    rw [← r.length_seats_feed line]
    exact (List.getElem?_eq_some_iff.mp hi).1
  have hseat : r.seats[i]? = some r.seats[i] := List.getElem?_eq_getElem hlt
  have hP : P r.seats[i] := h _ (List.getElem_mem hlt)
  obtain hleft | ⟨hopen, enabled, prompt, -, hshown, -⟩ := getElem?_seats_feed hseat line
  · rw [hi] at hleft
    cases hleft
    exact hP
  · rw [hi] at hshown
    cases hshown
    exact hturn _ enabled prompt hP hopen

/-- Apart from new nicks and the end of the negotiation, only what handlers say in their turns is
sent. -/
theorem send_mem_feed {r : Registration H} {line : Line} {command : Command}
    (h : .send command ∈ (r.feed line).2) :
    (∃ nick, command = .nick nick) ∨ command = .capEnd ∨
      ∃ (i : Nat) (seat : Seat H) (enabled : List String) (prompt : Prompt),
        r.seats[i]? = some seat ∧ (r.feed line).1.seats[i]? = some (seat.shown enabled prompt) ∧
        command ∈ seat.answer enabled prompt := by
  have hfed := r.feed_spec line
  generalize r.feed line = result at hfed h ⊢
  cases hfed with
  | ignored => cases h
  | welcomed => simp at h
  | refused hphase nick suffix hsent =>
    rcases hsent _ h with ⟨nick, hnick⟩ | ⟨used, next, hnick⟩ | ⟨error, herror⟩
    · cases hnick
      exact Or.inl ⟨nick, rfl⟩
    · cases hnick
    · cases herror
  | noted =>
    rcases mem_of_mem_endNegotiation h with hmem | hend
    · cases hmem
    · cases hend
      exact Or.inr (Or.inl rfl)
  | shown _ _ _ hbefore =>
    rcases mem_of_mem_endNegotiation h with hmem | hend
    · rcases List.mem_append.mp hmem with hmem | hmem
      · rcases hbefore with rfl | rfl <;> simp at hmem
      · rcases mem_consult hmem with ⟨error, herror⟩ | ⟨i, seat, hseat, -, hshown, other, hother, heq⟩
        · cases herror
        · cases heq
          rw [seats_endNegotiation]
          exact Or.inr (Or.inr ⟨i, seat, _, _, hseat, hshown, hother⟩)
    · cases hend
      exact Or.inr (Or.inl rfl)

end Feed

end Registration

end IrcClient
