import IrcClient.Session.Handle

/-!
# Runs of a session

A session is opened once and is then given lines, each with the time of its handling, until it is
told that the connection is gone. Nothing stops the application from giving it lines after that.
-/

namespace IrcClient.Session

/-- What a session is given after its start. -/
inductive Input where
  | line (clock : Clock) (raw : String)
  | disconnect (error : Option String)

/-- The session after one input. -/
def receive (s : Session) : Input → Session
  | .line clock raw => (s.handleLine clock raw).1
  | .disconnect error => (s.disconnect error).1

/-- The session after some inputs, in order. -/
def run (s : Session) (inputs : List Input) : Session := inputs.foldl receive s

/-- What is to be done on one input. -/
def outputs (s : Session) : Input → List Action
  | .line clock raw => (s.handleLine clock raw).2
  | .disconnect error => (s.disconnect error).2.toList.map .emit

/-- All that is to be done on some inputs, in order. -/
def actions (s : Session) : List Input → List Action
  | [] => []
  | input :: inputs => s.outputs input ++ (s.receive input).actions inputs

/-- The session of a configuration that has just been opened and knows nobody. -/
def opened (config : ClientConfig) : Session := (new config .initial).start.1

/-- What every input preserves holds throughout a run. -/
theorem run_of_receive {P : Session → Prop} (hstep : ∀ s input, P s → P (s.receive input))
    {s : Session} (h : P s) (inputs : List Input) : P (s.run inputs) := by
  induction inputs generalizing s with
  | nil => exact h
  | cons input inputs ih => exact ih (hstep s input h)

theorem run_concat (s : Session) (inputs : List Input) (input : Input) :
    s.run (inputs ++ [input]) = (s.run inputs).receive input := by
  rw [run, List.foldl_append]
  rfl

theorem actions_concat (s : Session) (inputs : List Input) (input : Input) :
    s.actions (inputs ++ [input]) = s.actions inputs ++ (s.run inputs).outputs input := by
  induction inputs generalizing s with
  | nil => simp [actions, run]
  | cons first inputs ih =>
    rw [List.cons_append, actions, actions, ih, List.append_assoc]
    rfl

end IrcClient.Session
