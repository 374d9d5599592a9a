import IrcClient.Proofs.Connection.Use

/-!
# Workers side by side

A schedule lets one worker go on at a time, and a worker that waits stops as soon as it is told to.
Side by side with others, a worker may find two things at once: that it is told to stop, and what it
waits for. It may take up either. And a command of several lines may be put into the queue line by
line, while the others go on.

Whatever happens comes down to a few acts of the reader, of the writer and of the others. What each of
them can do is said here once.
-/

namespace IrcClient

/-- No more lines can be taken off a source, however many fetches there are. -/
def LineSource.IsDry (source : LineSource) : Prop :=
  ∃ fetches left rest, source.next fetches = (none, left + 1, rest) ∧ rest.last.1 = none

namespace Connection

variable {c d : Connection}

/-! ## Races -/

/-- What may happen next, when everybody goes on side by side. -/
inductive Race (c : Connection) : Connection → Prop where
  /-- Somebody goes on, as a schedule could have it. -/
  | move {d : Connection} (h : Move c d) : Race c d
  /-- The reader looks for a line, whether or not it is told to stop. -/
  | readOn {silence : Option Timer} (hreader : c.reader = .reading silence) (left : Nat) :
      Race c (c.readStep left).connection
  /-- The writer takes a line, whether or not it is told to stop. -/
  | takeOn {line : String} {lines : List String} (hwriter : c.writer = .idle)
      (hpending : c.pending = line :: lines) :
      Race c { c with writer := .locking line, taken := c.taken + 1 }
  /-- A line of a command is put into the queue, which is there as long as the writer is. -/
  | enqueue (hwriter : c.writer ≠ .stopped) (line : String) : Race c (c.enqueue line)

/-- A run side by side from a first moment to a last one, with all moments before the last in order. -/
inductive Interleaving (first : Connection) : List Connection → Connection → Prop where
  | start : Interleaving first [] first
  | race {past : List Connection} {c d : Connection} (h : Interleaving first past c) (hrace : Race c d) :
      Interleaving first (past ++ [c]) d

/-- What a schedule makes happen can happen side by side. -/
theorem Run.interleaving {first : Connection} {past : List Connection} (h : Run first past c) :
    Interleaving first past c := by
  induction h with
  | start => exact .start
  | move _ hmove ih => exact ih.race (.move hmove)

theorem exists_interleaving_used (c : Connection) (uses : List Use) :
    ∃ past, Interleaving c past (c.used uses) := by
  obtain ⟨past, hrun⟩ := exists_run (c.leads_used uses)
  exact ⟨past, hrun.interleaving⟩

/-- A connection that was opened and used has come to be so side by side with its workers. -/
theorem exists_interleaving_opened {config : ClientConfig} {clock : Clock}
    {handshake : Except String Unit} (hopen : openWith config clock handshake = .ok c)
    (uses : List Use) :
    ∃ codec past, Interleaving (opened config clock handshake codec) past (c.used uses) := by
  obtain ⟨codec, past, hrun⟩ := exists_run_used hopen uses
  exact ⟨codec, past, hrun.interleaving⟩

theorem exists_interleaving (h : Relation.ReflTransGen Race c d) : ∃ past, Interleaving c past d := by
  induction h with
  | refl => exact ⟨[], .start⟩
  | tail _ hlast ih =>
    obtain ⟨past, hrun⟩ := ih
    exact ⟨_, hrun.race hlast⟩

theorem Leads.races (h : Leads c d) : Relation.ReflTransGen Race c d :=
  Relation.ReflTransGen.mono (fun _ _ => Race.move) _ _ h

/-! ## Acts -/

/-- An error that ends the connection, once a worker meets it. -/
inductive Fault (c : Connection) : Worker → String → Prop where
  /-- The session gives the connection up. -/
  | refused {error : ClientError} {actions : List Action}
      (hreader : c.reader = .performing (.fail error :: actions)) : Fault c .reader error.message
  /-- There is no queue any more. -/
  | unqueued {line : String} {actions : List Action}
      (hreader : c.reader = .performing (.send line :: actions)) (hwriter : c.writer = .stopped) :
      Fault c .reader ClientError.disconnected.message
  | unwritten {line : String} {actions : List Action} {error : ClientError}
      (hreader : c.reader = .writing line actions) (herror : c.write (.urgent line) = .error error) :
      Fault c .reader error.message
  | unencrypted {actions : List Action} {error : ClientError}
      (hreader : c.reader = .performing (.startTls :: actions))
      (herror : c.startTls = .error error) : Fault c .reader error.message
  /-- The server is gone before the welcome. -/
  | cutOff {silence : Option Timer} (hreader : c.reader = .reading silence)
      (hgone : c.serverOpen = false) (hdry : c.source.IsDry)
      (hearly : c.session.isRegistered = false) :
      Fault c .reader RegistrationError.connectionClosed.message
  | unpaced {line : String} {error : ClientError} (hwriter : c.writer = .writing line)
      (herror : c.write (.paced line) = .error error) : Fault c .writer error.message

/-- What the reader can do. -/
inductive ReaderAct (c : Connection) : Connection → Prop where
  | wait (lock : WriteLock) : ReaderAct c { c with lock := lock }
  | listen {silence : Option Timer} (hreader : c.reader = .reading silence) (source : LineSource)
      (timers : Nat) (silence' : Option Timer) :
      ReaderAct c { c with source := source, timers := timers, reader := .reading silence' }
  | hear {silence : Option Timer} (hreader : c.reader = .reading silence) (source : LineSource)
      (line : String) : ReaderAct c ({ c with source := source }.handleLine line)
  /-- The server is gone, and there are no more lines. -/
  | runDry {silence : Option Timer} (hreader : c.reader = .reading silence)
      (hgone : c.serverOpen = false) (hdry : c.source.IsDry)
      (hwelcomed : c.session.isRegistered = true) (source : LineSource) :
      ReaderAct c { c with source := source, reader := .leaving none }
  /-- It is told to stop. -/
  | obey {silence : Option Timer} (hreader : c.reader = .reading silence)
      (hstopping : c.stopping = true) : ReaderAct c (c.leave none)
  | listenAgain (hreader : c.reader = .performing []) : ReaderAct c { c with reader := .reading none }
  | queue {line : String} {actions : List Action}
      (hreader : c.reader = .performing (.send line :: actions)) :
      ReaderAct c { c.enqueue line with reader := .performing actions }
  | lock {line : String} {actions : List Action}
      (hreader : c.reader = .performing (.sendNow line :: actions)) (lock : WriteLock) :
      ReaderAct c { c with lock := lock, reader := .writing line actions }
  | write {line : String} {actions : List Action} (hreader : c.reader = .writing line actions)
      (lock : WriteLock) :
      ReaderAct c { c with
        wire := c.wire ++ [(c.now, .urgent line)], lock := lock, reader := .performing actions }
  | encrypt {actions : List Action} (hreader : c.reader = .performing (.startTls :: actions))
      (source : LineSource) (lock : WriteLock) :
      ReaderAct c { c with source := source, lock := lock, reader := .performing actions }
  | tell {event : Event} {actions : List Action}
      (hreader : c.reader = .performing (.emit event :: actions)) :
      ReaderAct c { c.tell event with reader := .performing actions }
  | fail {text : String} (hfault : c.Fault .reader text) (source : LineSource) (lock : WriteLock) :
      ReaderAct c { c with source := source, lock := lock, reader := .leaving (some text) }
  /-- It has met an error that leaves it without a stream. -/
  | failShut {text : String} (hfault : c.Fault .reader text) (lock : WriteLock) :
      ReaderAct c { c.shut with lock := lock, reader := .leaving (some text) }
  | look {error : Option String} (hreader : c.reader = .leaving error) :
      ReaderAct c { c with reader := .halting (error <|> c.failure) }
  | halt {error : Option String} (hreader : c.reader = .halting error) :
      ReaderAct c { c with reader := .closing error, stopping := true }
  | close {error : Option String} (hreader : c.reader = .closing error) (lock : WriteLock) :
      ReaderAct c { c.shut with lock := lock, reader := .ending error }
  | endSession {error : Option String} (hreader : c.reader = .ending error) :
      ReaderAct c (c.endSession error)
  | part {event : Option Event} (hreader : c.reader = .parting event) : ReaderAct c (c.part event)

/-- What the writer can do. -/
inductive WriterAct (c : Connection) : Connection → Prop where
  | wait (lock : WriteLock) : WriterAct c { c with lock := lock }
  /-- It is told to stop. -/
  | obey (hwriter : c.writer = .idle ∨ ∃ timer, c.writer = .pausing timer)
      (hstopping : c.stopping = true) : WriterAct c { c with writer := .leaving }
  | take {line : String} {lines : List String} (hwriter : c.writer = .idle)
      (hpending : c.pending = line :: lines) :
      WriterAct c { c with writer := .locking line, taken := c.taken + 1 }
  | lock {line : String} (hwriter : c.writer = .locking line) (lock : WriteLock) :
      WriterAct c { c with lock := lock, writer := .writing line }
  | write {line : String} (hwriter : c.writer = .writing line) (lock : WriteLock) :
      WriterAct c { { c with wire := c.wire ++ [(c.now, WireEntry.paced line)] }.pause with lock := lock }
  | fail {line text : String} (hwriter : c.writer = .writing line) (hfault : c.Fault .writer text)
      (lock : WriteLock) : WriterAct c { c with lock := lock, writer := .failing text }
  | rest {timer : Timer} (hwriter : c.writer = .pausing timer) (hdue : timer.due ≤ c.now) :
      WriterAct c { c with writer := .idle }
  | record {error : String} (hwriter : c.writer = .failing error) :
      WriterAct c { c with writer := .halting, failure := c.failure <|> some error }
  | halt (hwriter : c.writer = .halting) : WriterAct c { c with writer := .leaving, stopping := true }
  | go (hwriter : c.writer = .leaving) : WriterAct c { c with writer := .stopped }

/-- The lines of the queue that were written, each with its time. -/
def paced (c : Connection) : List (Nat × String) :=
  c.wire.filterMap fun entry => entry.2.paced?.map (entry.1, ·)

/-- What changes when neither a worker goes on nor the connection is told to stop: time passes, lines
come into the queue, lines that may not wait are written, and tables are listed anew. -/
structure Aside (c d : Connection) : Prop where
  session : c.session.Relisted d.session
  reader : d.reader = c.reader
  writer : d.writer = c.writer
  stopping : d.stopping = c.stopping
  failure : d.failure = c.failure
  events : d.events = c.events
  delay : d.messageDelay = c.messageDelay
  taken : d.taken = c.taken
  queue : c.queue <+: d.queue
  paced : d.paced = c.paced
  now : c.now ≤ d.now

/-- What can happen. -/
inductive Act (c : Connection) : Connection → Prop where
  | reader {d : Connection} (h : c.ReaderAct d) : Act c d
  | writer {d : Connection} (h : c.WriterAct d) : Act c d
  | shutdown : Act c c.shutdown
  /-- The server has been silent for too long. -/
  | ping {silence : Option Timer} (hreader : c.reader = .reading silence) (line : String) :
      Act c { c with reader := .performing [.sendNow line] }
  | aside {d : Connection} (h : c.Aside d) : Act c d

/-! ## Steps of the workers are acts -/

theorem eq_of_write {entry : WireEntry} (h : c.write entry = .ok d) :
    d = { c with wire := c.wire ++ [(c.now, entry)] } := by
  unfold write at h
  split at h
  · cases h
  · split at h
    · cases h
    · cases h
      rfl

theorem eq_of_startTls (h : c.startTls = .ok d) : d = { c with source := c.source.restart } := by
  unfold startTls at h
  split at h
  · cases h
  · split at h
    · cases h
    · split at h
      · cases h
      · cases h
        rfl

/-- Whether the connection can be encrypted does not depend on who may write. -/
theorem startTls_of_lock {lock : WriteLock} {error : ClientError}
    (h : startTls { c with lock := lock } = .error error) : c.startTls = .error error := by
  unfold startTls at h ⊢
  split at h
  · rename_i hshut
    rw [if_pos hshut]
    exact h
  · rename_i hshut
    rw [if_neg hshut]
    split at h
    · rename_i hname
      rw [if_pos hname]
      exact h
    · rename_i hname
      rw [if_neg hname]
      split at h
      · rename_i reason hhandshake
        replace hhandshake : c.handshake = .error reason := hhandshake
        rw [hhandshake]
        exact h
      · cases h

theorem exists_connection_withLock (c : Connection) (worker : Worker) (left : Nat)
    (go : Connection → Connection) :
    ∃ lock, (c.withLock worker left go).connection = { c with lock := lock } ∨
      (c.withLock worker left go).connection = go { c with lock := lock } := by
  unfold withLock
  split
  · exact ⟨c.lock, .inl rfl⟩
  · split
    · rename_i lock _
      exact ⟨lock, .inr rfl⟩
    · exact ⟨_, .inl rfl⟩

theorem readerAct_withLock {left : Nat} {go : Connection → Connection}
    (h : ∀ lock, c.ReaderAct (go { c with lock := lock })) :
    c.ReaderAct (c.withLock .reader left go).connection := by
  obtain ⟨lock, heq | heq⟩ := c.exists_connection_withLock .reader left go
  · rw [heq]
    exact .wait lock
  · rw [heq]
    exact h lock

theorem exists_startSilence {silence : Option Timer} (hreader : c.reader = .reading silence) :
    ∃ timers silence', c.startSilence = { c with timers := timers, reader := .reading silence' } := by
  unfold startSilence
  split
  · exact ⟨_, _, rfl⟩
  · exact ⟨c.timers, silence, by rw [← hreader]⟩

theorem readerAct_readStep {silence : Option Timer} (hreader : c.reader = .reading silence)
    (left : Nat) : c.ReaderAct (c.readStep left).connection := by
  have hlisten (source : LineSource) :
      c.ReaderAct (startSilence { c with source := source }) := by
    obtain ⟨timers, silence', heq⟩ :=
      exists_startSilence (show Connection.reader { c with source := source } = _ from hreader)
    rw [heq]
    exact .listen hreader source timers silence'
  unfold readStep
  split
  · rename_i line _ source _
    exact .hear hreader source line
  · rename_i left' source hnext
    split
    · exact hlisten source
    · exact hlisten source
    · rename_i fetches hgone
      split
      · rename_i line rest _
        exact .hear hreader rest line
      · rename_i rest hlast
        have hdry : c.source.IsDry := ⟨left, fetches, source, hnext, by rw [hlast]⟩
        cases hwelcomed : c.session.isRegistered with
        | true =>
          have hact := ReaderAct.runDry hreader hgone hdry hwelcomed rest
          simpa [Step.connection, leave, endOfStream, hwelcomed] using hact
        | false =>
          have hact := ReaderAct.fail (.cutOff hreader hgone hdry hwelcomed) rest c.lock
          simpa [Step.connection, leave, endOfStream, hwelcomed] using hact

theorem readerAct_performStep {action : Action} {actions : List Action}
    (hreader : c.reader = .performing (action :: actions)) (left : Nat) :
    c.ReaderAct (c.performStep left action actions).connection := by
  unfold performStep
  split
  · split
    · rename_i hstopped
      exact .fail (.unqueued hreader hstopped) c.source c.lock
    · exact .queue hreader
  · exact readerAct_withLock fun lock => .lock hreader lock
  · refine readerAct_withLock fun lock => ?_
    unfold upgrade
    split
    · rename_i d hstarted
      cases eq_of_startTls hstarted
      exact .encrypt hreader _ _
    · rename_i error herror
      exact .failShut (.unencrypted hreader (startTls_of_lock herror)) _
  · exact .tell hreader
  · exact .fail (.refused hreader) c.source c.lock

theorem readerAct_readerStep (c : Connection) (left : Nat) :
    c.ReaderAct (c.readerStep left).connection := by
  unfold readerStep
  split
  · rename_i silence hreader
    split
    · rename_i hstopping
      exact .obey hreader hstopping
    · split
      · exact .wait c.lock
      · exact readerAct_readStep hreader left
  · rename_i hreader
    exact .listenAgain hreader
  · rename_i action actions hreader
    exact readerAct_performStep hreader left
  · rename_i line actions hreader
    split
    · exact .wait c.lock
    · cases hwrite : c.write (.urgent line) with
      | ok d =>
        cases eq_of_write hwrite
        exact .write hreader _
      | error error => exact .fail (.unwritten hreader hwrite) c.source _
  · rename_i error hreader
    exact .look hreader
  · rename_i error hreader
    exact .halt hreader
  · rename_i error hreader
    exact readerAct_withLock fun lock => .close hreader _
  · rename_i error hreader
    exact .endSession hreader
  · rename_i event hreader
    exact .part hreader
  · exact .wait c.lock

theorem writerAct_writerStep (c : Connection) (left : Nat) :
    c.WriterAct (c.writerStep left).connection := by
  unfold writerStep
  split
  · rename_i hwriter
    split
    · rename_i hstopping
      exact .obey (.inl hwriter) hstopping
    · split
      · exact .wait c.lock
      · exact .wait c.lock
      · rename_i hpending
        exact .take hwriter hpending
  · rename_i line hwriter
    obtain ⟨lock, heq | heq⟩ :=
      c.exists_connection_withLock .writer left fun c => { c with writer := .writing line }
    · rw [heq]
      exact .wait lock
    · rw [heq]
      exact .lock hwriter lock
  · rename_i line hwriter
    split
    · exact .wait c.lock
    · cases hwrite : c.write (.paced line) with
      | ok d =>
        cases eq_of_write hwrite
        exact .write hwriter _
      | error error => exact .fail hwriter (.unpaced hwriter hwrite) _
  · rename_i timer hwriter
    split
    · rename_i hstopping
      exact .obey (.inr ⟨timer, hwriter⟩) hstopping
    · split
      · exact .wait c.lock
      · split
        · rename_i hdue
          exact .rest hwriter hdue
        · exact .wait c.lock
  · rename_i error hwriter
    exact .record hwriter
  · rename_i hwriter
    exact .halt hwriter
  · rename_i hwriter
    exact .go hwriter
  · exact .wait c.lock

/-! ## Whatever happens is an act -/

theorem Aside.refl (c : Connection) : c.Aside c :=
  ⟨.refl _, rfl, rfl, rfl, rfl, rfl, rfl, rfl, List.prefix_rfl, rfl, Nat.le_refl _⟩

theorem aside_enqueued (c : Connection) (lines : List String) :
    c.Aside { c with queue := c.queue ++ lines } :=
  { Aside.refl c with queue := List.prefix_append _ _ }

theorem foldl_enqueue (c : Connection) (lines : List String) :
    lines.foldl enqueue c = { c with queue := c.queue ++ lines } := by
  induction lines generalizing c with
  | nil => simp
  | cons line lines ih => simp [ih, enqueue]

theorem aside_send {command : Command} (h : c.send command = .ok d) : c.Aside d := by
  unfold send at h
  split at h
  · cases h
  · cases h
    rw [foldl_enqueue]
    exact c.aside_enqueued _

theorem aside_writeNow {line : String} (h : c.write (.urgent line) = .ok d) : c.Aside d := by
  cases eq_of_write h
  exact { Aside.refl c with paced := by simp [paced, WireEntry.paced?] }

theorem exists_answerCalls (c : Connection) (calls : List ModeCall) :
    ∃ left modes, c.answerCalls calls = { c with calls := left, modes := modes } := by
  induction calls generalizing c with
  | nil => exact ⟨c.calls, c.modes, rfl⟩
  | cons call calls ih =>
    unfold answerCalls
    split
    · exact ih _
    · exact ih _
    · exact ih _

theorem aside_look (c : Connection) : c.Aside c.look := by
  obtain ⟨left, modes, heq⟩ := exists_answerCalls { c with calls := [] } c.calls
  rw [look, heq]
  exact { Aside.refl c with }

theorem aside_askMode (c : Connection) (name : String) : c.Aside (c.askMode name) := by
  have hanswer (result : Except ClientError String) : c.Aside (c.answer name result) :=
    { Aside.refl c with }
  unfold askMode
  split
  · exact hanswer _
  · exact hanswer _
  · split
    · rename_i d hsent
      exact { aside_send hsent with }
    · exact hanswer _

theorem Move.act (h : Move c d) : c.Act d := by
  cases h with
  | step left worker =>
    cases worker with
    | reader => exact .reader (c.readerAct_readerStep left)
    | writer => exact .writer (c.writerAct_writerStep left)
  | look => exact .aside c.aside_look
  | checkSilence =>
    unfold Connection.checkSilence silence?
    split
    · rename_i timer hsilence
      split at hsilence
      · rename_i silence hreader
        split
        · exact .ping hreader _
        · exact .reader (.wait c.lock)
      · cases hsilence
    · exact .reader (.wait c.lock)
  | pass ms =>
    exact .aside { Aside.refl c with now := Nat.le_add_right _ _ }
  | send h => exact .aside (aside_send h)
  | writeNow h => exact .aside (aside_writeNow h)
  | shutdown => exact .shutdown
  | askMode name => exact .aside (c.aside_askMode name)
  | receive h =>
    cases eq_of_receive h
    exact .aside { Aside.refl c with }
  | tick | hangUp => exact .aside { Aside.refl c with }
  | relist h => exact .aside { Aside.refl c with session := h }

theorem Race.act (h : Race c d) : c.Act d := by
  cases h with
  | move h => exact h.act
  | readOn hreader left => exact .reader (readerAct_readStep hreader left)
  | takeOn hwriter hpending => exact .writer (.take hwriter hpending)
  | enqueue hwriter line => exact .aside (c.aside_enqueued [line])

end Connection

end IrcClient
