import IrcClient.Proofs.Registration.Negotiation

/-!
# What is enabled in the end

Two accounts are kept of what the server accepts. The registration enables what an acknowledgement
lists, unless it is marked as removed. A handler is done as soon as an acknowledgement names its
capability, marked or not. When the negotiation ends, all that the server has granted is enabled, in
order; and a capability that had to be enabled is not exactly if it was removed wherever the server
named it.
-/

namespace IrcClient

/-! ## Entries of a list -/

/-- Whether an entry of a capability list is marked as removed. -/
def IsRemoval (entry : String) : Prop := entry.toList.head? = some '-'

instance (entry : String) : Decidable (IsRemoval entry) :=
  inferInstanceAs (Decidable (_ = _))

/-- Whether an entry of a capability list names a capability, marked or not. -/
def Names (entry cap : String) : Prop :=
  Text.sameIgnoringCase (capName (capUnmarked entry)) cap = true

/-- Whether a capability is among some that are enabled. -/
def Enables (enabled : List String) (cap : String) : Prop :=
  ∃ entry ∈ enabled, Text.sameIgnoringCase (capName entry) cap = true

theorem hasCap_iff {caps : List String} {cap : String} :
    hasCap caps cap = true ↔ ∃ entry ∈ caps, Names entry cap :=
  List.any_eq_true

theorem capUnmarked_of_not_isRemoval {entry : String} (h : ¬ IsRemoval entry) :
    capUnmarked entry = entry := by
  have hkept : entry.toList.dropWhile (· == '-') = entry.toList := by
    rw [IsRemoval] at h
    cases hchars : entry.toList with
    | nil => rfl
    | cons first rest =>
      rw [hchars, List.head?_cons, Option.some_inj] at h
      rw [List.dropWhile_cons_of_neg (by simpa using h)]
  rw [capUnmarked, hkept, String.ofList_toList]

namespace Registration

/-- What a line grants: the capabilities that it accepts, without those that it removes. -/
def granted (line : Line) : List String :=
  if IsCap "ACK" line then (capList line).1.filter fun entry => ¬ IsRemoval entry else []

theorem mem_granted {line : Line} {entry : String} :
    entry ∈ granted line ↔ IsCap "ACK" line ∧ entry ∈ (capList line).1 ∧ ¬ IsRemoval entry := by
  unfold granted
  split
  · rename_i hword
    simp [hword]
  · rename_i hword
    simp [hword]

/-- Lines enable a capability if one of them accepts it and does not remove it. -/
theorem enables_granted_iff {lines : List Line} {cap : String} :
    Enables (lines.flatMap granted) cap ↔
      ∃ line ∈ lines, IsCap "ACK" line ∧ ∃ entry ∈ (capList line).1,
        Names entry cap ∧ ¬ IsRemoval entry := by
  constructor
  · rintro ⟨entry, hmem, hname⟩
    obtain ⟨line, hline, hgranted⟩ := List.mem_flatMap.mp hmem
    obtain ⟨hword, hlisted, hunmarked⟩ := mem_granted.mp hgranted
    refine ⟨line, hline, hword, entry, hlisted, ?_, hunmarked⟩
    rw [Names, capUnmarked_of_not_isRemoval hunmarked]
    exact hname
  · rintro ⟨line, hline, hword, entry, hlisted, hname, hunmarked⟩
    refine ⟨entry, List.mem_flatMap.mpr ⟨line, hline, mem_granted.mpr ⟨hword, hlisted, hunmarked⟩⟩, ?_⟩
    rw [Names, capUnmarked_of_not_isRemoval hunmarked] at hname
    exact hname

/-! ## One line -/

section Feed

variable {H : Type} [CapHandler H] {r : Registration H} {line : Line}

/-- Whether the negotiation ends on a line. -/
def EndsOn (r : Registration H) (line : Line) : Prop :=
  r.capEndSent = false ∧ (r.feed line).1.capEndSent = true

theorem enabledCaps_negotiate (hopen : r.capEndSent = false) (hverb : line.verb = .cap) :
    (r.negotiate line).1.enabledCaps = r.enabledCaps ++ granted line := by
  have hnone {word : String} (hword : Text.upper ((line.param 1).getD "") = word)
      (hother : word ≠ "ACK") : granted line = [] :=
    if_neg fun hack => hother (hword.symm.trans hack.2)
  unfold negotiate
  dsimp only
  split
  · rename_i hword
    rw [hnone hword (by decide), List.append_nil]
    split <;> rfl
  · split
    · rename_i hword
      have hack : IsCap "ACK" line := ⟨hverb, hword⟩
      rw [granted, if_pos hack]
      rw [hopen]
      rfl
    · rename_i hother
      rw [hnone rfl hother, List.append_nil]
      split <;> rfl

/-- Only a line of the negotiation enables anything. -/
theorem enabledCaps_feed_of_verb (hverb : line.verb ≠ .cap) :
    (r.feed line).1.enabledCaps = r.enabledCaps := by
  unfold feed
  split
  · rfl
  · cases hcue : Cue.ofLine r.config line with
    | welcome => rfl
    | nickTaken =>
      dsimp only [retryNick]
      split <;> rfl
    | rejected code => rfl
    | harmless => exact enabledCaps_endNegotiation r []
    | tlsReady => exact enabledCaps_endNegotiation _ _
    | cap => exact absurd (verb_of_cue_cap hcue) hverb
    | other => exact enabledCaps_endNegotiation _ _

/-- As long as the negotiation goes on, a line enables what it grants. -/
theorem enabledCaps_feed (hphase : r.phase = .waiting) (hopen : r.capEndSent = false) (line : Line) :
    (r.feed line).1.enabledCaps = r.enabledCaps ++ granted line := by
  by_cases hverb : line.verb = .cap
  · rw [feed, if_neg (by simp [hphase]), cue_of_verb_cap r.config hverb]
    have hgranted := enabledCaps_negotiate hopen hverb
    dsimp only
    generalize r.negotiate line = result at hgranted ⊢
    obtain ⟨negotiated, actions⟩ := result
    rw [enabledCaps_endNegotiation, hgranted]
  · rw [enabledCaps_feed_of_verb hverb, granted, if_neg fun hword => hverb hword.1, List.append_nil]

/-- The end of the negotiation is not taken back. -/
theorem capEndSent_feed_of_sent (hsent : r.capEndSent = true) (line : Line) :
    (r.feed line).1.capEndSent = true := by
  have hfed := r.feed_spec line
  generalize r.feed line = result at hfed ⊢
  have hkept (s : Registration H) (actions : List RegistrationAction) (h : s.capEndSent = true) :
      (endNegotiation (s, actions)).1.capEndSent = true := by
    obtain ⟨-, hend⟩ | ⟨-, hend⟩ := s.endNegotiation_cases actions <;> rw [hend]
    exact h
  cases hfed with
  | ignored => exact hsent
  | welcomed => exact hsent
  | refused => exact hsent
  | noted => exact hkept _ _ hsent
  | shown => exact hkept _ _ hsent

/-- A registration that waits for the welcome has waited for it before. -/
theorem waiting_of_feed (h : (r.feed line).1.phase = .waiting) : r.phase = .waiting := by
  refine Decidable.byContradiction fun hother => hother ?_
  rwa [feed_of_welcomed hother] at h

theorem EndsOn.phase (h : r.EndsOn line) : r.phase = .waiting := by
  obtain ⟨hbefore, hafter⟩ := h
  refine Decidable.byContradiction fun hother => ?_
  rw [feed_of_welcomed hother, hbefore] at hafter
  cases hafter

theorem endsOn_of_sends_capEnd (hquiet : ∀ seat ∈ r.seats, NeverSends .capEnd seat.handler)
    (hsent : .send .capEnd ∈ (r.feed line).2) : r.EndsOn line := by
  have hcount := count_capEnd_feed hquiet line
  have hpositive := List.count_pos_iff.mpr hsent
  have hle := (r.feed line).1.capEndSent.toNat_le
  exact ⟨Bool.toNat_eq_zero.mp (by omega), Bool.toNat_eq_one.mp (by omega)⟩

end Feed

/-! ## Runs -/

section Runs

variable {H : Type} [CapHandler H] {r : Registration H} {lines : List Line}

/-- As long as the negotiation goes on, all that the lines have granted is enabled. -/
theorem enabledCaps_run (hphase : (r.run lines).phase = .waiting)
    (hopen : (r.run lines).capEndSent = false) :
    (r.run lines).enabledCaps = r.enabledCaps ++ lines.flatMap granted := by
  induction lines using List.reverseRecOn with
  | nil => exact (List.append_nil _).symm
  | append_singleton lines line ih =>
    rw [run_concat] at hphase hopen ⊢
    have hwaiting := waiting_of_feed hphase
    have hunsent : (r.run lines).capEndSent = false := by
      rw [← Bool.not_eq_true]
      intro hsent
      rw [capEndSent_feed_of_sent hsent line] at hopen
      cases hopen
    rw [enabledCaps_feed hwaiting hunsent, ih hwaiting hunsent]
    simp

end Runs

section Required

variable {K : Type} [CapHandler K] {handlers : List (Handler ⊕ K)} {cap : String}

/-- Whether a handler has to have a capability enabled, and is done only if some lines named it. -/
def Requires (cap : String) (lines : List Line) (seat : Seat (Handler ⊕ K)) : Prop :=
  seat.handler = .inl (.enable cap false) ∧
    (seat.finished = true → ∃ line ∈ lines, IsCap "ACK" line ∧ hasCap (capList line).1 cap = true)

omit [CapHandler K] in
theorem Requires.concat {lines : List Line} {seat : Seat (Handler ⊕ K)} (h : Requires cap lines seat)
    (line : Line) : Requires cap (lines ++ [line]) seat := by
  obtain ⟨hhandler, hnamed⟩ := h
  refine ⟨hhandler, fun hdone => ?_⟩
  obtain ⟨earlier, hmem, hword⟩ := hnamed hdone
  exact ⟨earlier, List.mem_append_left _ hmem, hword⟩

theorem Requires.shown {r : Registration (Handler ⊕ K)} {lines : List Line} {line : Line}
    {seat : Seat (Handler ⊕ K)} (h : Requires cap lines seat) {prompt : Prompt}
    (htold : r.Tells line prompt) (enabled : List String) :
    Requires cap (lines ++ [line]) (seat.shown enabled prompt) := by
  have hstep : CapHandler.step seat.handler enabled prompt =
      (Handler.stepEnable cap false prompt).map .inl := by
    rw [h.1]
    rfl
  constructor
  · change (CapHandler.step seat.handler enabled prompt).handler = _
    rw [hstep]
    exact congrArg Sum.inl (Handler.handler_stepEnable cap false prompt)
  · rw [seat.finished_shown, hstep]
    intro hdone
    obtain ⟨caps, rfl, hnamed⟩ := Handler.outcome_stepEnable_strict hdone
    cases htold with
    | accepted hword => exact ⟨line, by simp, hword, hnamed⟩

theorem requires_run (config : RegistrationConfig) {i : Nat}
    (hhandler : handlers[i]? = some (.inl (.enable cap false))) (lines : List Line) :
    ∃ seat, ((opened config handlers).run lines).seats[i]? = some seat ∧ Requires cap lines seat := by
  induction lines using List.reverseRecOn with
  | nil =>
    refine ⟨_, getElem?_seats_opened config hhandler, rfl, fun hdone => ?_⟩
    cases hdone
  | append_singleton lines line ih =>
    obtain ⟨seat, hseat, hrequires⟩ := ih
    rw [run_concat]
    obtain hleft | ⟨-, enabled, prompt, htold, hshown, -⟩ := getElem?_seats_feed hseat line
    · exact ⟨seat, hleft, hrequires.concat line⟩
    · exact ⟨_, hshown, hrequires.shown htold enabled⟩

variable (config : RegistrationConfig) (handlers : List (Handler ⊕ K))

/-- What is enabled when the negotiation ends. -/
structure EnabledAtEnd : Prop where
  /-- The end is the last thing that is said on a line, and it is said before the welcome. -/
  ended : ∀ lines line, let r := (opened config handlers).run lines
    r.EndsOn line → r.phase = .waiting ∧ (r.feed line).2.getLast? = some (.send .capEnd)
  /-- Nothing else ends the negotiation, if no handler does by itself. -/
  sole : (∀ handler ∈ handlers, NeverSends .capEnd handler) →
    ∀ lines line, let r := (opened config handlers).run lines
      .send .capEnd ∈ (r.feed line).2 → r.EndsOn line
  /-- All that the lines have granted is enabled, in order. -/
  enabled : ∀ lines line, let r := (opened config handlers).run lines
    r.EndsOn line → (r.feed line).1.enabledCaps = (lines ++ [line]).flatMap granted
  /-- A line has named each capability that has to be enabled among what it accepts. -/
  named : ∀ lines line cap, let r := (opened config handlers).run lines
    r.EndsOn line → .inl (.enable cap false) ∈ handlers →
      ∃ ack ∈ lines ++ [line], IsCap "ACK" ack ∧ ∃ entry ∈ (capList ack).1, Names entry cap
  /-- A capability is not enabled exactly if it is removed wherever it is named. -/
  missing : ∀ lines line cap, let r := (opened config handlers).run lines
    r.EndsOn line → (¬ Enables (r.feed line).1.enabledCaps cap ↔
      ∀ ack ∈ lines ++ [line], IsCap "ACK" ack → ∀ entry ∈ (capList ack).1,
        Names entry cap → IsRemoval entry)

/-- A capability that has to be enabled is, unless the server has only ever removed it. -/
theorem enabled_at_end : EnabledAtEnd config handlers := by
  have henabled (lines : List Line) (line : Line)
      (hends : ((opened config handlers).run lines).EndsOn line) :
      (((opened config handlers).run lines).feed line).1.enabledCaps =
        (lines ++ [line]).flatMap granted := by
    rw [enabledCaps_feed hends.phase hends.1, enabledCaps_run hends.phase hends.1]
    simp [opened, start, new]
  constructor
  case ended =>
    intro lines line r hends
    exact ⟨hends.phase, (ended_feed hends.1 hends.2).2.2.2⟩
  case sole =>
    intro hquiet lines line r hsent
    exact endsOn_of_sends_capEnd (quiet_run (quiet_opened config hquiet) lines) hsent
  case enabled => exact henabled
  case named =>
    intro lines line cap r hends hmem
    obtain ⟨i, hi⟩ := List.mem_iff_getElem?.mp hmem
    obtain ⟨seat, hseat, -, hnamed⟩ := requires_run config hi (lines ++ [line])
    rw [run_concat] at hseat
    have hdone := (ended_feed hends.1 hends.2).2.1 seat (List.mem_of_getElem? hseat)
    obtain ⟨ack, hack, hword, hlisted⟩ := hnamed hdone
    exact ⟨ack, hack, hword, hasCap_iff.mp hlisted⟩
  case missing =>
    intro lines line cap r hends
    rw [henabled lines line hends, enables_granted_iff]
    push Not
    rfl

/-- A capability that has to be enabled is removed instead, and the negotiation ends without it. -/
theorem ended_without_required :
    let config := (ClientConfig.standard "irc.example.net" "bot").toRegistrationConfig
    let handlers : List Handler := [.enable "away-notify" false]
    let offer : Line := ⟨"", [], none, "CAP", ["*", "LS", "away-notify"]⟩
    let removal : Line := ⟨"", [], none, "CAP", ["*", "ACK", "-away-notify"]⟩
    (opened config handlers).actions [offer, removal] =
        [.send (.capRequest ["away-notify"]), .send .capEnd] ∧
      ((opened config handlers).run [offer, removal]).enabledCaps = [] := by
  decide

end Required

end Registration

end IrcClient
