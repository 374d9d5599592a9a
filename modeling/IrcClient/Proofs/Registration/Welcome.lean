import IrcClient.Proofs.Registration.Run
import Mathlib.Data.List.Induction

/-!
# The welcome

Only the welcome completes a registration, and it is over then: no request of a handler and nothing
else that a line can mean completes it, and what comes after the welcome means nothing.
-/

namespace IrcClient

/-- Whether an action is the end of a registration. -/
def RegistrationAction.isComplete : RegistrationAction → Bool
  | .complete _ => true
  | _ => false

/-- Whether a line is one of the numerics that a server sends to clients that it has accepted. -/
def Line.Welcomes (line : Line) : Prop :=
  ∃ code, line.verb = .numeric code ∧ code ∈ [1, 2, 3, 4, 5, 251, 252, 253, 254, 255, 375, 376]

theorem Cue.isWelcome_iff (code : Nat) :
    isWelcome code = true ↔ code ∈ [1, 2, 3, 4, 5, 251, 252, 253, 254, 255, 375, 376] := by
  simp only [isWelcome, Bool.or_eq_true, Bool.and_eq_true, decide_eq_true_eq, beq_iff_eq,
    List.mem_cons, List.not_mem_nil, or_false]
  omega

theorem Cue.ofLine_eq_welcome_iff {config : RegistrationConfig} {line : Line} :
    ofLine config line = .welcome ↔ line.Welcomes := by
  unfold ofLine Line.Welcomes
  cases line.verb with
  | numeric code =>
    simp only [Verb.numeric.injEq, exists_eq_left', ← isWelcome_iff]
    by_cases h : isWelcome code = true
    · simp [h]
    · simp only [h, if_false, iff_false, Bool.false_eq_true]
      repeat' split
      all_goals exact nofun
  | _ => simp

namespace Registration

variable {H : Type} {r : Registration H} {line : Line}

theorem countP_complete_endNegotiation (r : Registration H) (actions : List RegistrationAction) :
    (endNegotiation (r, actions)).2.countP RegistrationAction.isComplete =
      actions.countP RegistrationAction.isComplete := by
  obtain ⟨-, hend⟩ | ⟨-, hend⟩ := r.endNegotiation_cases actions
  · rw [hend, List.countP_append]
    rfl
  · rw [hend]

theorem phase_retryNick (r : Registration H) (line : Line) :
    (r.retryNick line).1.phase = r.phase := by
  unfold retryNick
  dsimp only
  split <;> rfl

variable [CapHandler H]

theorem feed_of_welcomed (h : r.phase ≠ .waiting) (line : Line) : r.feed line = (r, []) := by
  rw [feed, if_pos h]

/-- Only the welcome completes a registration. -/
theorem count_complete_feed (r : Registration H) (line : Line) :
    (r.feed line).2.countP RegistrationAction.isComplete + (decide (r.phase = .welcomed)).toNat =
      (decide ((r.feed line).1.phase = .welcomed)).toNat := by
  have hfed := r.feed_spec line
  generalize r.feed line = result at hfed ⊢
  cases hfed with
  | ignored => exact Nat.zero_add _
  | welcomed hphase =>
    rw [hphase]
    rfl
  | @refused _ _ _ actions hsent =>
    have hnone : actions.countP RegistrationAction.isComplete = 0 := by
      rw [List.countP_eq_zero]
      intro action hmem
      rcases hsent _ hmem with ⟨nick, rfl⟩ | ⟨used, next, rfl⟩ | ⟨error, rfl⟩ <;>
        exact Bool.false_ne_true
    rw [hnone, Nat.zero_add]
  | noted =>
    rw [countP_complete_endNegotiation, phase_endNegotiation]
    exact Nat.zero_add _
  | @shown _ prompt _ enabled _ _ before hbefore =>
    have hnone : (before ++ (consult enabled prompt r.seats).2).countP
        RegistrationAction.isComplete = 0 := by
      rw [List.countP_eq_zero]
      intro action hmem
      rcases List.mem_append.mp hmem with hupgrade | hshown
      · rcases hbefore with rfl | rfl
        · cases hupgrade
        · rw [List.mem_singleton.mp hupgrade]
          exact Bool.false_ne_true
      · rcases mem_consult hshown with ⟨error, rfl⟩ | ⟨i, seat, -, -, -, command, -, rfl⟩ <;>
          exact Bool.false_ne_true
    rw [countP_complete_endNegotiation, phase_endNegotiation, hnone]
    exact Nat.zero_add _

theorem count_complete_actions (r : Registration H) (lines : List Line) :
    (r.actions lines).countP RegistrationAction.isComplete + (decide (r.phase = .welcomed)).toNat =
      (decide ((r.run lines).phase = .welcomed)).toNat := by
  induction lines using List.reverseRecOn with
  | nil => exact Nat.zero_add _
  | append_singleton lines line ih =>
    have hline := count_complete_feed (r.run lines) line
    rw [actions_concat, run_concat, List.countP_append]
    omega

theorem welcomed_run {lines : List Line} {nick : String} (h : .complete nick ∈ r.actions lines) :
    (r.run lines).phase = .welcomed := by
  have hcount := r.count_complete_actions lines
  have hpositive : 0 < (r.actions lines).countP RegistrationAction.isComplete :=
    List.countP_pos_iff.mpr ⟨_, h, rfl⟩
  refine Decidable.byContradiction fun hphase => ?_
  rw [decide_eq_false hphase, Bool.toNat_false] at hcount
  omega

/-- A line that completes the registration is its last. -/
theorem phase_of_complete_mem_feed {nick : String} (h : .complete nick ∈ (r.feed line).2) :
    (r.feed line).1.phase = .welcomed := by
  have hmem : .complete nick ∈ r.actions [line] := List.mem_append_left _ h
  exact welcomed_run hmem

theorem phase_negotiate (r : Registration H) (line : Line) :
    (r.negotiate line).1.phase = r.phase := by
  unfold negotiate
  dsimp only
  split
  · split <;> rfl
  · split
    · rfl
    · split <;> rfl

/-- Only a line that welcomes the client moves it on. -/
theorem welcomes_of_welcomed (hphase : r.phase = .waiting)
    (hwelcomed : (r.feed line).1.phase = .welcomed) : line.Welcomes := by
  have hother : r.phase ≠ .welcomed := by simp [hphase]
  unfold feed at hwelcomed
  rw [if_neg (by simp [hphase])] at hwelcomed
  cases hcue : Cue.ofLine r.config line with
  | welcome => exact Cue.ofLine_eq_welcome_iff.mp hcue
  | nickTaken =>
    rw [hcue] at hwelcomed
    exact absurd ((phase_retryNick r line).symm.trans hwelcomed) hother
  | rejected code =>
    rw [hcue] at hwelcomed
    exact absurd hwelcomed hother
  | harmless =>
    rw [hcue, phase_endNegotiation] at hwelcomed
    exact absurd hwelcomed hother
  | tlsReady =>
    simp only [hcue, phase_endNegotiation] at hwelcomed
    exact absurd hwelcomed hother
  | cap =>
    have hkept := phase_negotiate r line
    rw [hcue] at hwelcomed
    dsimp only at hwelcomed
    generalize r.negotiate line = result at hkept hwelcomed
    obtain ⟨negotiated, actions⟩ := result
    rw [phase_endNegotiation] at hwelcomed
    exact absurd (hkept.symm.trans hwelcomed) hother
  | other =>
    rw [hcue, phase_endNegotiation] at hwelcomed
    exact absurd hwelcomed hother

theorem feed_of_welcomes (hphase : r.phase = .waiting) (h : line.Welcomes) :
    r.feed line = r.welcome line := by
  rw [feed, if_neg (by simp [hphase]), Cue.ofLine_eq_welcome_iff.mpr h]

/-- The welcome says nothing else, and it is a numeric. -/
theorem feed_of_welcome (hphase : r.phase = .waiting)
    (hwelcomed : (r.feed line).1.phase = .welcomed) :
    (∃ code, line.verb = .numeric code) ∧ ∃ nick, (r.feed line).2 = [.complete nick] := by
  have hwelcomes := welcomes_of_welcomed hphase hwelcomed
  rw [feed_of_welcomes hphase hwelcomes]
  obtain ⟨code, hverb, -⟩ := hwelcomes
  exact ⟨⟨code, hverb⟩, _, rfl⟩

/-- Until the welcome, a registration waits for it. -/
theorem phase_feed_of_not_welcomes (hphase : r.phase = .waiting) (h : ¬ line.Welcomes) :
    (r.feed line).1.phase = .waiting := by
  have hother : (r.feed line).1.phase ≠ .welcomed := fun hw => h (welcomes_of_welcomed hphase hw)
  have hfed := r.feed_spec line
  generalize r.feed line = result at hfed hother ⊢
  cases hfed with
  | ignored => exact hphase
  | welcomed => exact absurd rfl hother
  | refused => exact hphase
  | noted => rw [phase_endNegotiation, hphase]
  | shown => rw [phase_endNegotiation, hphase]

end Registration

end IrcClient
