import IrcClient.Connection.Worker

/-!
# The right to write

Two workers write to the stream of a connection, and a line must not be cut in two by another. So
one of them at a time has the right to write. A worker that asks for it while the other has it
waits, and gets it as soon as the other gives it back.
-/

namespace IrcClient

/-- The right to write. -/
structure WriteLock where
  owner : Option Worker
  /-- The worker that waits for it. -/
  next : Option Worker
  deriving DecidableEq, Repr

namespace WriteLock

/-- Nobody writes. -/
def free : WriteLock := ⟨none, none⟩

/-- Gives the right to a worker, unless the other one has it. -/
def acquire? (lock : WriteLock) (worker : Worker) : Option WriteLock :=
  match lock.owner with
  | none => some { lock with owner := some worker }
  | some owner => if owner = worker then some lock else none

def await (lock : WriteLock) (worker : Worker) : WriteLock := { lock with next := some worker }

/-- Takes the right back, and hands it to the one who waits. -/
def release (lock : WriteLock) : WriteLock := ⟨lock.next, none⟩

end WriteLock

end IrcClient
