import IrcClient.Connection.Reader
import IrcClient.Connection.Writer

/-!
# The run of a connection

Whenever something has happened, everybody goes on as far as possible: bytes or the end of the
stream have come in, the application has asked for something, or a timer has ended. The workers take
turns. After a turn of the reader, those who wait for a mode may look.
-/

namespace IrcClient.Connection

/-- Answers those who have waited long enough for a mode. The others have looked, and wait again. -/
def answerCalls (c : Connection) : List ModeCall → Connection
  | [] => c
  | call :: calls =>
    match call.waiter.answer? with
    | none => answerCalls { c with calls := c.calls ++ [{ call with woken := false }] } calls
    | some (some mode) => answerCalls (c.answer call.asked (.ok mode)) calls
    | some none =>
      answerCalls (c.answer call.asked (.error (.modeWaitInterrupted call.asked))) calls

theorem load_answerCalls (c : Connection) (calls : List ModeCall) :
    (c.answerCalls calls).load = c.load := by
  induction calls generalizing c with
  | nil => rfl
  | cons call calls ih =>
    unfold answerCalls
    split
    · rw [ih]
      rfl
    · rw [ih]
      rfl
    · rw [ih]
      rfl

/-- A turn of a worker, and whether it was over before the worker had to wait. -/
def turn (c : Connection) : Worker → Bool × Connection
  | .reader =>
    let (spent, c) := c.readerTurn turnLength
    (spent, answerCalls { c with calls := [] } c.calls)
  | .writer => c.writerTurn turnLength

theorem keepsUp_turn (c : Connection) (worker : Worker) : (c.turn worker).2.KeepsUp c := by
  cases worker with
  | reader =>
    unfold turn KeepsUp Progress
    dsimp only
    rw [load_answerCalls]
    exact c.keepsUp_readerTurn turnLength
  | writer => exact c.keepsUp_writerTurn turnLength

/-- Whether a worker that waits has got what it waits for, be it a line of the queue, the right to
write, or the request to stop. -/
def canGoOn (c : Connection) : Worker → Bool
  | .reader =>
    match c.reader with
    | .reading _ => c.stopping
    | .stopped => false
    | _ => c.lock.owner = some .reader
  | .writer =>
    match c.writer with
    | .idle => c.stopping || !c.pending.isEmpty
    | .pausing _ => c.stopping
    | .stopped => false
    | _ => c.lock.owner = some .writer

/-- Lets the workers take turns as long as one of them can go on. A turn without progress changes
nothing for the other one. -/
def run (c : Connection) (schedule : Schedule) : Connection :=
  match _hnext : schedule.next? with
  | none => c
  | some (worker, others) =>
    let done := c.turn worker
    if _h : done.2.Progress c then
      let others := if done.1 then others.defer worker else others
      run done.2 (if done.2.canGoOn worker.other then others.wake worker.other else others)
    else run done.2 others
  termination_by (c.load, schedule.size)
  decreasing_by
    · exact .left _ _ _h
    · rcases c.keepsUp_turn worker with heq | hlt
      · rw [heq]
        exact .right _ (Schedule.size_next?_lt _hnext)
      · exact absurd hlt _h

/-- Lets everybody run as far as possible. -/
def settle (c : Connection) : Connection := c.run ⟨[.reader, .writer], []⟩

/-! ## Time -/

/-- The end of the time for which the server may be silent. -/
def silence? (c : Connection) : Option Timer :=
  match c.reader with
  | .reading silence => silence
  | _ => none

def pause? (c : Connection) : Option Timer :=
  match c.writer with
  | .pausing timer => some timer
  | _ => none

/-- Asks the server for a sign of life if it has been silent for too long. -/
def checkSilence (c : Connection) : Connection :=
  match c.silence? with
  | some timer =>
    if timer.due ≤ c.now then
      { c with reader := .performing [.sendNow (Command.ping c.host).render] }
    else c
  | none => c

/-- Whether the pause of the writer ends before the silence of the server, both being over. -/
def writerFirst (c : Connection) : Bool :=
  match c.silence?, c.pause? with
  | some silence, some pause => pause.rank < silence.rank
  | _, _ => false

def wake (c : Connection) : Connection :=
  c.checkSilence.run ⟨if c.writerFirst then [.writer, .reader] else [.reader, .writer], []⟩

/-- The moments that somebody waits for. -/
def wakeTimes (c : Connection) : List Nat :=
  (c.silence?.toList ++ c.pause?.toList).map Timer.due

/-- Lets time pass, in which everything happens at its own moment. -/
def advance (c : Connection) (ms : Nat) : Connection :=
  match c.wakeTimes.min? with
  | some due =>
    let wait := max 1 (due - c.now)
    if wait ≤ ms then advance { c with now := c.now + wait }.wake (ms - wait)
    else { c with now := c.now + ms }
  | none => { c with now := c.now + ms }
  termination_by ms
  decreasing_by
    have : 1 ≤ wait := Nat.le_max_left _ _
    omega

end IrcClient.Connection
