import IrcClient.Connection.Load

/-!
# The reader

The reader goes on until it wants a line that has not come in, until it wants to write and the
writer has the right to, or until its turn is over. To fetch bytes, to ask for the right to write
and to write are the steps that count. With none of them left the reader does what it can without
them, but it starts on no further line.

It ends the connection step by step, and the writer may go on between any two of the steps.
-/

namespace IrcClient.Connection

/-- Begins to end the connection. -/
def leave (c : Connection) (error : Option String) : Connection :=
  { c with reader := .leaving error }

/-- Ends the session. -/
def endSession (c : Connection) (error : Option String) : Connection :=
  let (session, event) := c.session.disconnect error
  { c.withSession session with reader := .parting event }

/-- Tells the end of the session, and that there will be no more events. -/
def part (c : Connection) (event : Option Event) : Connection :=
  { c with
    reader := .stopped
    events := c.events ++ event.toList.map (fun e => (c.now, some e)) ++ [(c.now, none)] }

/-- Goes on with the requests that are left, or ends the connection if one has failed. -/
def proceed (c : Connection) (actions : List Action) :
    Except ClientError Connection → Connection
  | .ok d => { d with reader := .performing actions }
  | .error error => c.leave (some error.message)

/-- Encrypts the connection and goes on. Without encryption there is no stream any more. -/
def upgrade (c : Connection) (actions : List Action) : Connection :=
  match c.startTls with
  | .ok d => c.proceed actions (.ok d)
  | .error error => c.shut.proceed actions (.error error)

def handleLine (c : Connection) (line : String) : Connection :=
  let (session, actions) := c.session.handleLine c.clock line
  { c.withSession session with reader := .performing actions }

/-- What the end of the stream means. It is an error before the welcome. -/
def endOfStream (c : Connection) : Option String :=
  if c.session.isRegistered then none
  else some RegistrationError.connectionClosed.message

/-- Looks for a line. At the end of the stream, part of a line is one too. To see that the stream
has ended counts. -/
def readStep (c : Connection) (left : Nat) : Step :=
  match c.source.next left with
  | (some line, left, source) => .again left ({ c with source := source }.handleLine line)
  | (none, left, source) =>
    match left, c.serverOpen with
    | 0, _ => .stop true { c with source := source }.startSilence
    | _, true => .stop false { c with source := source }.startSilence
    | left + 1, false =>
      match source.last with
      | (some line, source) => .again left ({ c with source := source }.handleLine line)
      | (none, source) =>
        let c := { c with source := source }
        .again left (c.leave c.endOfStream)

/-- Carries out one request, with others left for later. -/
def performStep (c : Connection) (left : Nat) (action : Action) (actions : List Action) : Step :=
  match action with
  | .send line =>
    .again left (c.proceed actions
      (if c.writer = .stopped then .error .disconnected else .ok (c.enqueue line)))
  | .sendNow line => c.withLock .reader left fun c => { c with reader := .writing line actions }
  | .startTls => c.withLock .reader left fun c => (c.upgrade actions).unlock
  | .emit event => .again left (c.proceed actions (.ok (c.tell event)))
  | .fail error => .again left (c.proceed actions (.error error))

def readerStep (c : Connection) (left : Nat) : Step :=
  match c.reader with
  | .reading _ =>
    if c.stopping then .again left (c.leave none)
    else if left = 0 then .stop true c
    else c.readStep left
  | .performing [] => .again left { c with reader := .reading none }
  | .performing (action :: actions) => c.performStep left action actions
  | .writing line actions =>
    match left with
    | 0 => .stop true c
    | left + 1 => .again left (c.proceed actions (c.write (.urgent line))).unlock
  -- An error of the writer counts if the reader met none.
  | .leaving error => .again left { c with reader := .halting (error <|> c.failure) }
  | .halting error => .again left { c with reader := .closing error, stopping := true }
  | .closing error =>
    c.withLock .reader left fun c => { c.shut with reader := .ending error }.unlock
  | .ending error => .again left (c.endSession error)
  | .parting event => .again left (c.part event)
  | .stopped => .stop false c

/-! ## Turns of the reader -/

/-- A request that does not fail leaves the bytes alone, and so does the end of the connection. -/
theorem progress_proceed {c : Connection} {actions : List Action}
    {result : Except ClientError Connection}
    (hunread : ∀ d, result = .ok d → d.source.unread = c.source.unread)
    (hload : 7 + 2 * actions.length < c.readerLoad) : (c.proceed actions result).Progress c := by
  cases result with
  | ok d => exact progress_of_readerLoad (hunread d rfl) hload
  | error error => exact progress_of_readerLoad rfl (show 5 < c.readerLoad by omega)

theorem unread_startTls {c d : Connection} (h : c.startTls = .ok d) :
    d.source.unread = c.source.unread := by
  unfold startTls at h
  split at h
  · cases h
  · split at h
    · cases h
    · split at h
      · cases h
      · cases h
        exact c.source.unread_restart

theorem progress_upgrade {c : Connection} {actions : List Action}
    (hload : 7 + 2 * actions.length < c.readerLoad) : (c.upgrade actions).Progress c := by
  unfold upgrade
  split
  · rename_i d hstarted
    exact progress_proceed (fun e he => by cases he; exact unread_startTls hstarted) hload
  · exact progress_proceed (c := c.shut) (fun e he => by cases he) hload

theorem progress_readStep {c d : Connection} {left left₁ : Nat} (hreader : 6 ≤ c.readerLoad)
    (h : c.readStep left = .again left₁ d) : d.Progress c := by
  unfold readStep at h
  split at h
  · rename_i hnext
    cases h
    exact progress_of_unread (LineSource.unread_next_lt hnext)
  · rename_i left₂ source hnext
    have hle := c.source.unread_next_le left
    rw [hnext] at hle
    split at h
    · cases h
    · cases h
    · split at h
      · rename_i hlast
        cases h
        exact progress_of_unread (Nat.lt_of_lt_of_le (LineSource.unread_last_lt hlast) hle)
      · rename_i source₁ hlast
        have hle₁ := source.unread_last_le
        rw [hlast] at hle₁
        cases h
        rcases Nat.lt_or_eq_of_le (Nat.le_trans hle₁ hle) with hlt | heq
        · exact progress_of_unread hlt
        · exact progress_of_readerLoad heq hreader

theorem progress_performStep {c d : Connection} {left left₁ : Nat} {action : Action}
    {actions : List Action} (hreader : c.reader = .performing (action :: actions))
    (h : c.performStep left action actions = .again left₁ d) : d.Progress c := by
  have hload : c.readerLoad = 7 + 2 * (actions.length + 1) := by
    simp only [readerLoad, hreader, List.length_cons]
  cases action with
  | send line =>
    cases h
    refine progress_proceed ?_ (by omega)
    intro e he
    split at he
    · cases he
    · cases he
      rfl
  | sendNow line =>
    unfold performStep at h
    obtain ⟨lock, rfl⟩ := again_of_withLock h
    refine progress_of_readerLoad rfl ?_
    rw [hload]
    simp only [readerLoad]
    omega
  | startTls =>
    unfold performStep at h
    obtain ⟨lock, rfl⟩ := again_of_withLock h
    exact progress_upgrade (c := { c with lock := lock }) (show _ < c.readerLoad by omega)
  | emit event =>
    cases h
    refine progress_proceed ?_ (by omega)
    intro e he
    cases he
    rfl
  | fail error =>
    cases h
    exact progress_proceed (fun e he => by cases he) (by omega)

/-- A step of the reader is progress. -/
theorem progress_readerStep {c d : Connection} {left left₁ : Nat}
    (h : c.readerStep left = .again left₁ d) : d.Progress c := by
  unfold readerStep at h
  split at h
  · rename_i silence hreader
    have hload : c.readerLoad = 6 := by simp only [readerLoad, hreader]
    split at h
    · cases h
      exact progress_of_readerLoad rfl (show 5 < c.readerLoad by omega)
    · split at h
      · cases h
      · exact progress_readStep (by omega) h
  · rename_i hreader
    have hload : c.readerLoad = 7 := by simp only [readerLoad, hreader, List.length_nil]
    cases h
    exact progress_of_readerLoad rfl (show 6 < c.readerLoad by omega)
  · rename_i hreader
    exact progress_performStep hreader h
  · rename_i line actions hreader
    have hload : c.readerLoad = 8 + 2 * actions.length := by simp only [readerLoad, hreader]
    split at h
    · cases h
    · cases h
      exact progress_proceed (fun e he => by rw [source_write he]) (by omega)
  · rename_i error hreader
    have hload : c.readerLoad = 5 := by simp only [readerLoad, hreader]
    cases h
    exact progress_of_readerLoad rfl (show 4 < c.readerLoad by omega)
  · rename_i error hreader
    have hload : c.readerLoad = 4 := by simp only [readerLoad, hreader]
    cases h
    exact progress_of_readerLoad rfl (show 3 < c.readerLoad by omega)
  · rename_i error hreader
    have hload : c.readerLoad = 3 := by simp only [readerLoad, hreader]
    obtain ⟨lock, rfl⟩ := again_of_withLock h
    exact progress_of_readerLoad rfl (show 2 < c.readerLoad by omega)
  · rename_i error hreader
    have hload : c.readerLoad = 2 := by simp only [readerLoad, hreader]
    cases h
    exact progress_of_readerLoad rfl (show 1 < c.readerLoad by omega)
  · rename_i event hreader
    have hload : c.readerLoad = 1 := by simp only [readerLoad, hreader]
    cases h
    exact progress_of_readerLoad rfl (show 0 < c.readerLoad by omega)
  · cases h

theorem keepsUp_readStep {c d : Connection} {left : Nat} {spent : Bool}
    (h : c.readStep left = .stop spent d) : d.KeepsUp c := by
  unfold readStep at h
  split at h
  · cases h
  · rename_i left₁ source hnext
    have hle : source.unread ≤ c.source.unread := by
      have := c.source.unread_next_le left
      rwa [hnext] at this
    have hkeeps : (Connection.startSilence { c with source := source }).KeepsUp c := by
      unfold KeepsUp Progress
      rw [load_startSilence]
      rcases Nat.lt_or_eq_of_le hle with hlt | heq
      · exact .inr (.left _ _ hlt)
      · exact .inl (by simp only [load, heq, readerLoad, writerLoad, pending])
    split at h
    · cases h
      exact hkeeps
    · cases h
      exact hkeeps
    · split at h <;> cases h

/-- The reader leaves no more to do when it stops. -/
theorem keepsUp_readerStep {c d : Connection} {left : Nat} {spent : Bool}
    (h : c.readerStep left = .stop spent d) : d.KeepsUp c := by
  unfold readerStep at h
  split at h
  · split at h
    · cases h
    · split at h
      · cases h
        exact .inl rfl
      · exact keepsUp_readStep h
  · cases h
  · unfold performStep at h
    split at h
    · cases h
    · exact .inl (load_of_withLock h)
    · exact .inl (load_of_withLock h)
    · cases h
    · cases h
  · split at h
    · cases h
      exact .inl rfl
    · cases h
  · cases h
  · cases h
  · exact .inl (load_of_withLock h)
  · cases h
  · cases h
  · cases h
    exact .inl rfl

/-- Lets the reader go on for a turn, and tells whether the turn was over before it had to wait. -/
def readerTurn (c : Connection) (left : Nat) : Bool × Connection :=
  match _h : c.readerStep left with
  | .stop spent d => (spent, d)
  | .again left d => readerTurn d left
  termination_by c.load
  decreasing_by exact progress_readerStep _h

theorem keepsUp_readerTurn (c : Connection) (left : Nat) : (c.readerTurn left).2.KeepsUp c := by
  fun_induction readerTurn c left with
  | case1 c left spent d h => exact keepsUp_readerStep h
  | case2 c left left₁ d h ih => exact ih.of_progress (progress_readerStep h)

end IrcClient.Connection
