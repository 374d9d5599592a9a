/-!
# Workers

A connection has two workers, which take turns. A turn is limited. A worker whose turn is over
before it has to wait is deferred: it goes on when no worker is ready, the one deferred last going
first.
-/

namespace IrcClient

/-- A worker of a connection. -/
inductive Worker where
  /-- It reads what the server sends. -/
  | reader
  /-- It writes the lines of the queue. -/
  | writer
  deriving DecidableEq, Repr

def Worker.other : Worker → Worker
  | reader => writer
  | writer => reader

/-- The workers that are not waiting. -/
structure Schedule where
  /-- Those whose turn comes next, in order. -/
  ready : List Worker
  /-- Those whose turn was over, the last one first. -/
  deferred : List Worker
  deriving DecidableEq, Repr

namespace Schedule

/-- The number of workers that are not waiting. -/
def size (s : Schedule) : Nat := s.ready.length + s.deferred.length

/-- The worker whose turn it is, and the others. -/
def next? (s : Schedule) : Option (Worker × Schedule) :=
  match s.ready, s.deferred with
  | worker :: ready, deferred => some (worker, ⟨ready, deferred⟩)
  | [], worker :: deferred => some (worker, ⟨deferred, []⟩)
  | [], [] => none

def defer (s : Schedule) (worker : Worker) : Schedule :=
  { s with deferred := worker :: s.deferred }

/-- Makes a worker ready that may have been waiting. -/
def wake (s : Schedule) (worker : Worker) : Schedule :=
  if worker ∈ s.ready ∨ worker ∈ s.deferred then s
  else { s with ready := s.ready ++ [worker] }

theorem size_next?_lt {s t : Schedule} {worker : Worker} (h : s.next? = some (worker, t)) :
    t.size < s.size := by
  obtain ⟨ready, deferred⟩ := s
  cases ready with
  | cons first ready =>
    cases h
    simp only [size, List.length_cons]
    omega
  | nil =>
    cases deferred with
    | cons last deferred =>
      cases h
      simp only [size, List.length_cons, List.length_nil]
      omega
    | nil => cases h

end Schedule

end IrcClient
