import IrcClient.Connection.Load

/-!
# The writer

The writer takes a line off the queue, writes it and pauses. To take a line, to ask for the right to
write, to write and to see a pause end are the steps that count.
-/

namespace IrcClient.Connection

/-- The longest pause in milliseconds: thirty years. -/
def longestPause : Nat := 30 * 365 * 86400 * 1000

def pause (c : Connection) : Connection :=
  let (c, timer) := c.startTimer (min c.messageDelay longestPause)
  { c with writer := .pausing timer }

def writerStep (c : Connection) (left : Nat) : Step :=
  match c.writer with
  | .idle =>
    if c.stopping then .again left { c with writer := .leaving }
    else
      match left, c.pending with
      | 0, _ => .stop true c
      | _, [] => .stop false c
      | left + 1, line :: _ => .again left { c with writer := .locking line, taken := c.taken + 1 }
  | .locking line => c.withLock .writer left fun c => { c with writer := .writing line }
  | .writing line =>
    match left with
    | 0 => .stop true c
    | left + 1 =>
      match c.write (.paced line) with
      | .ok d => .again left d.pause.unlock
      | .error error => .again left { c with writer := .failing error.message }.unlock
  | .pausing timer =>
    if c.stopping then .again left { c with writer := .leaving }
    else
      match left with
      | 0 => .stop true c
      | left + 1 =>
        if timer.due ≤ c.now then .again left { c with writer := .idle } else .stop false c
  -- The first error is kept.
  | .failing error =>
    .again left { c with writer := .halting, failure := c.failure <|> some error }
  | .halting => .again left { c with writer := .leaving, stopping := true }
  | .leaving => .again left { c with writer := .stopped }
  | .stopped => .stop false c

/-! ## Turns of the writer -/

/-- A step of the writer is progress. -/
theorem progress_writerStep {c d : Connection} {left left₁ : Nat}
    (h : c.writerStep left = .again left₁ d) : d.Progress c := by
  unfold writerStep at h
  split at h
  · rename_i hwriter
    split at h
    · cases h
      refine progress_of_writerLoad rfl rfl ?_
      simp only [writerLoad, pending, hwriter]
      omega
    · split at h
      · cases h
      · cases h
      · rename_i line lines hpending
        cases h
        refine progress_of_writerLoad rfl rfl ?_
        have hlength : (c.queue.drop (c.taken + 1)).length + 1 = c.pending.length := by
          have := congrArg List.length hpending
          simp only [pending, List.length_drop, List.length_cons] at this ⊢
          omega
        simp only [writerLoad, hwriter]
        unfold pending at hlength ⊢
        dsimp only
        omega
  · rename_i line hwriter
    obtain ⟨lock, rfl⟩ := again_of_withLock h
    refine progress_of_writerLoad rfl rfl ?_
    simp only [writerLoad, pending, hwriter]
    omega
  · rename_i line hwriter
    split at h
    · cases h
    · split at h
      · rename_i e hwrite
        cases h
        unfold write at hwrite
        split at hwrite
        · cases hwrite
        · split at hwrite
          · cases hwrite
          · cases hwrite
            refine progress_of_writerLoad rfl rfl ?_
            simp only [writerLoad, pending, pause, unlock, startTimer, hwriter]
            omega
      · cases h
        refine progress_of_writerLoad rfl rfl ?_
        simp only [writerLoad, pending, unlock, hwriter]
        omega
  · rename_i timer hwriter
    split at h
    · cases h
      refine progress_of_writerLoad rfl rfl ?_
      simp only [writerLoad, pending, hwriter]
      omega
    · split at h
      · cases h
      · split at h
        · cases h
          refine progress_of_writerLoad rfl rfl ?_
          simp only [writerLoad, pending, hwriter]
          omega
        · cases h
  · rename_i error hwriter
    cases h
    refine progress_of_writerLoad rfl rfl ?_
    simp only [writerLoad, pending, hwriter]
    omega
  · rename_i hwriter
    cases h
    refine progress_of_writerLoad rfl rfl ?_
    simp only [writerLoad, pending, hwriter]
    omega
  · rename_i hwriter
    cases h
    refine progress_of_writerLoad rfl rfl ?_
    simp only [writerLoad, pending, hwriter]
    omega
  · cases h

/-- The writer leaves as much to do when it stops. -/
theorem load_writerStep {c d : Connection} {left : Nat} {spent : Bool}
    (h : c.writerStep left = .stop spent d) : d.load = c.load := by
  unfold writerStep at h
  split at h
  · split at h
    · cases h
    · split at h
      · cases h
        rfl
      · cases h
        rfl
      · cases h
  · exact load_of_withLock h
  · split at h
    · cases h
      rfl
    · split at h <;> cases h
  · split at h
    · cases h
    · split at h
      · cases h
        rfl
      · split at h
        · cases h
        · cases h
          rfl
  · cases h
  · cases h
  · cases h
  · cases h
    rfl

/-- Lets the writer go on for a turn, and tells whether the turn was over before it had to wait. -/
def writerTurn (c : Connection) (left : Nat) : Bool × Connection :=
  match _h : c.writerStep left with
  | .stop spent d => (spent, d)
  | .again left d => writerTurn d left
  termination_by c.load
  decreasing_by exact progress_writerStep _h

theorem keepsUp_writerTurn (c : Connection) (left : Nat) : (c.writerTurn left).2.KeepsUp c := by
  fun_induction writerTurn c left with
  | case1 c left spent d h => exact .inl (load_writerStep h)
  | case2 c left left₁ d h ih => exact ih.of_progress (progress_writerStep h)

end IrcClient.Connection
