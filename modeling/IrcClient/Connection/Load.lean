import IrcClient.Connection.Basic

/-!
# What is left to do

Three numbers tell how much a connection has left to do: the bytes that are not read, what else
keeps the reader busy, and what keeps the writer busy. They are compared in this order, because a
line that is read makes up for all that it brings about, and a request that is carried out for what
it puts into the queue.
-/

namespace IrcClient.Connection

/-- What keeps the reader busy besides the bytes. -/
def readerLoad (c : Connection) : Nat :=
  match c.reader with
  | .stopped => 0
  | .parting _ => 1
  | .ending _ => 2
  | .closing _ => 3
  | .halting _ => 4
  | .leaving _ => 5
  | .reading _ => 6
  | .performing actions => 7 + 2 * actions.length
  | .writing _ actions => 8 + 2 * actions.length

/-- What keeps the writer busy. -/
def writerLoad (c : Connection) : Nat :=
  5 * c.pending.length +
    match c.writer with
    | .stopped => 0
    | .leaving => 1
    | .idle | .halting => 2
    | .pausing _ | .failing _ => 3
    | .writing _ => 4
    | .locking _ => 5

/-- What is left to do. -/
def load (c : Connection) : Nat × Nat × Nat :=
  (c.source.unread, c.readerLoad, c.writerLoad)

/-- There is less left to do than before. -/
def Progress (d c : Connection) : Prop :=
  Prod.Lex (· < ·) (Prod.Lex (· < ·) (· < ·)) d.load c.load

instance (d c : Connection) : Decidable (d.Progress c) :=
  decidable_of_iff
    (d.source.unread < c.source.unread ∨ d.source.unread = c.source.unread ∧
      (d.readerLoad < c.readerLoad ∨ d.readerLoad = c.readerLoad ∧ d.writerLoad < c.writerLoad))
    (by simp [Progress, load, Prod.lex_def])

theorem progress_of_unread {c d : Connection} (h : d.source.unread < c.source.unread) :
    d.Progress c :=
  .left _ _ h

theorem progress_of_readerLoad {c d : Connection} (hunread : d.source.unread = c.source.unread)
    (h : d.readerLoad < c.readerLoad) : d.Progress c := by
  unfold Progress load
  rw [hunread]
  exact .right _ (.left _ _ h)

theorem progress_of_writerLoad {c d : Connection} (hunread : d.source.unread = c.source.unread)
    (hreader : d.readerLoad = c.readerLoad) (h : d.writerLoad < c.writerLoad) : d.Progress c := by
  unfold Progress load
  rw [hunread, hreader]
  exact .right _ (.right _ h)

theorem Progress.trans {b c d : Connection} (h : d.Progress c) (h' : c.Progress b) :
    d.Progress b := by
  unfold Progress at *
  rw [Prod.lex_def, Prod.lex_def] at *
  omega

/-- Nothing came of it, or progress did. -/
def KeepsUp (d c : Connection) : Prop := d.load = c.load ∨ d.Progress c

theorem KeepsUp.of_progress {b c d : Connection} (h : d.KeepsUp c) (h' : c.Progress b) :
    d.KeepsUp b := by
  rcases h with heq | hlt
  · right
    unfold Progress at *
    rw [heq]
    exact h'
  · exact .inr (hlt.trans h')

theorem again_of_withLock {c d : Connection} {worker : Worker} {left left₁ : Nat}
    {go : Connection → Connection} (h : c.withLock worker left go = .again left₁ d) :
    ∃ lock, d = go { c with lock := lock } := by
  unfold withLock at h
  split at h
  · cases h
  · split at h
    · rename_i lock hlock
      cases h
      exact ⟨lock, rfl⟩
    · cases h

theorem load_of_withLock {c d : Connection} {worker : Worker} {left : Nat} {spent : Bool}
    {go : Connection → Connection} (h : c.withLock worker left go = .stop spent d) :
    d.load = c.load := by
  unfold withLock at h
  split at h
  · cases h
    rfl
  · split at h
    · cases h
    · cases h
      rfl

theorem load_startSilence (c : Connection) : c.startSilence.load = c.load := by
  unfold startSilence
  split
  · rename_i hreader
    simp only [load, readerLoad, hreader, startTimer]
    rfl
  · rfl

theorem source_write {c d : Connection} {entry : WireEntry} (h : c.write entry = .ok d) :
    d.source = c.source := by
  unfold write at h
  split at h
  · cases h
  · split at h
    · cases h
    · cases h
      rfl

end IrcClient.Connection
