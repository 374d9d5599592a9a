import IrcClient.Proofs.Connection.Race
import IrcClient.Proofs.Transport.LineCodec

/-!
# Lines of the queue

Whoever puts lines into the queue, and whoever writes past it, the writer writes the lines of the queue
in their order, none twice and none left out, and pauses between them. What is written past the queue
stands between its lines and not in them.
-/

namespace IrcClient

/-! ## The text on the wire -/

namespace WireEntry

/-- What goes over the stream. -/
def text : WireEntry → List Char
  | paced line | urgent line => line.toList ++ ['\r', '\n']
  | closed => []

theorem cutLines_text_append (entry : WireEntry) (rest : List Char) :
    (LineCodec.cutLines (entry.text ++ rest)).map String.ofList =
      entry.received.filterMap id ++ (LineCodec.cutLines rest).map String.ofList := by
  cases entry with
  | closed => rfl
  | paced line | urgent line =>
    simp [text, received, LineCodec.cutLines_append, List.filterMap_map, Function.comp_def]

/-- What is written makes up lines of its own, whatever is written before it and after it. -/
theorem cutLines_flatMap_text (wire : List (Nat × WireEntry)) :
    (LineCodec.cutLines (wire.flatMap fun entry => entry.2.text)).map String.ofList =
      (wire.flatMap fun entry => entry.2.received).filterMap id ++ [""] := by
  induction wire with
  | nil => rfl
  | cons entry wire ih =>
    rw [List.flatMap_cons, cutLines_text_append, ih, List.flatMap_cons, List.filterMap_append,
      List.append_assoc]

end WireEntry

namespace WriterPhase

/-- The line that is taken off the queue and not written. -/
def held : WriterPhase → List String
  | locking line | writing line => [line]
  | _ => []

/-- Whether the writer may take lines off the queue, now or later. -/
def isActive : WriterPhase → Bool
  | idle | locking _ | writing _ | pausing _ => true
  | _ => false

end WriterPhase

namespace Connection

variable {config : ClientConfig} {c d : Connection}

/-- The time between two lines of the queue, at least. -/
def gap (c : Connection) : Nat := min c.messageDelay longestPause

theorem gap_congr (h : d.messageDelay = c.messageDelay) : d.gap = c.gap := by
  rw [gap, h, gap]

/-- The lines of the queue that the writer is done with or has in hand. -/
def drawn (c : Connection) : List String := c.paced.map Prod.snd ++ c.writer.held

/-- When the writer may write again, at the earliest. -/
def rested (c : Connection) : Nat :=
  match c.writer with
  | .pausing timer => timer.due
  | _ => c.now

/-! ## What leaves the writer alone -/

/-- What the writer has done so far stands, and it goes on as before. -/
structure Spares (c d : Connection) : Prop where
  writer : d.writer = c.writer
  delay : d.messageDelay = c.messageDelay
  taken : d.taken = c.taken
  queue : c.queue <+: d.queue
  paced : d.paced = c.paced
  now : c.now ≤ d.now

theorem Spares.refl (c : Connection) : c.Spares c :=
  ⟨rfl, rfl, rfl, List.prefix_rfl, rfl, Nat.le_refl _⟩

@[simp] theorem paced_shut (c : Connection) : c.shut.paced = c.paced := by
  unfold shut paced
  dsimp only
  split
  · simp [WireEntry.paced?]
  · rfl

theorem ReaderAct.spares (h : c.ReaderAct d) : c.Spares d := by
  cases h with
  | write => exact { Spares.refl c with paced := by simp [Connection.paced, WireEntry.paced?] }
  | queue => exact { Spares.refl c with queue := List.prefix_append _ _ }
  | failShut => exact { Spares.refl c with paced := c.paced_shut }
  | close => exact { Spares.refl c with paced := c.paced_shut }
  | _ => exact { Spares.refl c with }

theorem Act.spares_or_writer (h : c.Act d) : c.Spares d ∨ c.WriterAct d := by
  cases h with
  | reader h => exact .inl h.spares
  | writer h => exact .inr h
  | shutdown | ping => exact .inl { Spares.refl c with }
  | aside h => exact .inl { h with }

/-! ## Order and spacing -/

/-- The writer has kept to the order of the queue and to its pauses. -/
structure Orderly (c : Connection) : Prop where
  spaced : c.paced.Pairwise fun first later => first.1 + c.gap ≤ later.1
  drawn : c.drawn <+: c.queue
  taken : c.writer.isActive = true → c.taken = c.drawn.length
  rested : c.writer.isActive = true → ∀ entry ∈ c.paced, entry.1 + c.gap ≤ c.rested

namespace Orderly

theorem keep (h : c.Orderly) (hpaced : d.paced = c.paced) (hdelay : d.messageDelay = c.messageDelay)
    (hqueue : c.queue <+: d.queue) (htaken : d.taken = c.taken)
    (hheld : d.writer.held = c.writer.held)
    (hactive : d.writer.isActive = true → c.writer.isActive = true) (hrested : c.rested ≤ d.rested) :
    d.Orderly := by
  have hgap : d.gap = c.gap := gap_congr hdelay
  have hdrawn : d.drawn = c.drawn := by rw [Connection.drawn, hpaced, hheld, Connection.drawn]
  refine ⟨?_, ?_, ?_, ?_⟩
  · rw [hpaced, hgap]
    exact h.spaced
  · rw [hdrawn]
    exact h.drawn.trans hqueue
  · rw [htaken, hdrawn]
    exact fun hgoing => h.taken (hactive hgoing)
  · rw [hpaced, hgap]
    exact fun hgoing entry hmem => Nat.le_trans (h.rested (hactive hgoing) entry hmem) hrested

theorem spares (h : c.Orderly) (hspares : c.Spares d) : d.Orderly := by
  refine h.keep hspares.paced hspares.delay hspares.queue hspares.taken ?_ ?_ ?_
  · rw [hspares.writer]
  · rw [hspares.writer]
    exact id
  · unfold Connection.rested
    rw [hspares.writer]
    split
    · exact Nat.le_refl _
    · exact hspares.now

/-- A writer that gives up has written no more than before. -/
theorem give_up (h : c.Orderly) (hpaced : d.paced = c.paced) (hdelay : d.messageDelay = c.messageDelay)
    (hqueue : d.queue = c.queue) (hactive : d.writer.isActive = false) : d.Orderly := by
  have hheld : d.writer.held = [] := by
    cases hwriter : d.writer <;> simp_all [WriterPhase.isActive, WriterPhase.held]
  have hgap : d.gap = c.gap := gap_congr hdelay
  refine ⟨?_, ?_, ?_, ?_⟩
  · rw [hpaced, hgap]
    exact h.spaced
  · rw [Connection.drawn, hheld, List.append_nil, hpaced, hqueue]
    exact (List.prefix_append _ _).trans h.drawn
  · simp [hactive]
  · simp [hactive]

/-- The line that comes next in the queue is taken. -/
theorem take (h : c.Orderly) {line : String} {lines : List String} (hwriter : c.writer = .idle)
    (hpending : c.pending = line :: lines) :
    Orderly { c with writer := .locking line, taken := c.taken + 1 } := by
  obtain ⟨hspaced, ⟨rest, hqueue⟩, htaken, hrested⟩ := h
  simp only [Connection.drawn, Connection.rested, hwriter, WriterPhase.held, WriterPhase.isActive,
    List.append_nil, true_implies] at hqueue htaken hrested
  have hnext : rest = line :: lines := by
    rw [← hpending, pending, ← hqueue, htaken, List.drop_left]
  have htakenNow : c.taken + 1 = (c.paced.map Prod.snd ++ [line]).length := by
    rw [htaken, List.length_append, List.length_singleton]
  have hdrawnNow : c.paced.map Prod.snd ++ [line] <+: c.queue :=
    ⟨lines, by rw [← hqueue, hnext, List.append_assoc, List.singleton_append]⟩
  exact ⟨hspaced, hdrawnNow, fun _ => htakenNow, fun _ => hrested⟩

/-- The line in hand is written, and a pause begins. -/
theorem write (h : c.Orderly) {line : String} (hwriter : c.writer = .writing line)
    (lock : WriteLock) :
    Orderly { { c with wire := c.wire ++ [(c.now, WireEntry.paced line)] }.pause with
      lock := lock } := by
  obtain ⟨hspaced, hdrawn, htaken, hrested⟩ := h
  simp only [Connection.drawn, Connection.rested, hwriter, WriterPhase.held, WriterPhase.isActive,
    true_implies] at hdrawn htaken hrested
  generalize hwritten : Connection.mk .. = d
  have hpaced : d.paced = c.paced ++ [(c.now, line)] := by
    subst hwritten
    simp [Connection.paced, pause, startTimer, WireEntry.paced?]
  have hgap : d.gap = c.gap := by
    subst hwritten
    rfl
  have hdue : d.rested = c.now + c.gap := by
    subst hwritten
    rfl
  have hlines : d.drawn = c.paced.map Prod.snd ++ [line] := by
    rw [Connection.drawn, hpaced]
    subst hwritten
    simp [pause, WriterPhase.held]
  refine ⟨?_, ?_, ?_, ?_⟩
  · rw [hpaced, hgap, List.pairwise_append]
    exact ⟨hspaced, List.pairwise_singleton _ _, by simpa using hrested⟩
  · rw [hlines]
    subst hwritten
    exact hdrawn
  · rw [hlines]
    subst hwritten
    exact fun _ => htaken
  · rw [hpaced, hgap, hdue]
    intro _ entry hmem
    rcases List.mem_append.mp hmem with hbefore | hnew
    · exact Nat.le_trans (hrested entry hbefore) (Nat.le_add_right _ _)
    · cases List.mem_singleton.mp hnew
      exact Nat.le_refl _

theorem writerAct (h : c.Orderly) (hact : c.WriterAct d) : d.Orderly := by
  cases hact with
  | wait lock => exact h.spares { Spares.refl c with }
  | take hwriter hpending => exact h.take hwriter hpending
  | lock hwriter lock =>
    refine h.keep rfl rfl List.prefix_rfl rfl ?_ ?_ ?_
    · rw [hwriter]
      rfl
    · rw [hwriter]
      exact id
    · simp [Connection.rested, hwriter]
  | write hwriter lock => exact h.write hwriter lock
  | rest hwriter hdue =>
    refine h.keep rfl rfl List.prefix_rfl rfl ?_ ?_ ?_
    · rw [hwriter]
      rfl
    · rw [hwriter]
      exact id
    · simpa [Connection.rested, hwriter] using hdue
  | obey | fail | record | halt | go => exact h.give_up rfl rfl rfl rfl

theorem of_interleaving {clock : Clock} {handshake : Except String Unit} {codec : LineCodec}
    {past : List Connection} (h : Interleaving (opened config clock handshake codec) past c) :
    c.Orderly := by
  induction h with
  | start => exact ⟨.nil, List.nil_prefix, fun _ => rfl, fun _ => nofun⟩
  | race _ hrace ih =>
    rcases hrace.act.spares_or_writer with hspares | hact
    · exact ih.spares hspares
    · exact ih.writerAct hact

end Orderly

/-! ## Runs -/

/-- Nothing is taken back: the pause stays as long as it is, and lines are only added, to those of the
queue and to those that were written. -/
structure Grows (c d : Connection) : Prop where
  delay : d.messageDelay = c.messageDelay
  queue : c.queue <+: d.queue
  paced : c.paced <+: d.paced

theorem Grows.trans {e : Connection} (h : c.Grows d) (h' : d.Grows e) : c.Grows e :=
  ⟨h'.delay.trans h.delay, h.queue.trans h'.queue, h.paced.trans h'.paced⟩

theorem WriterAct.grows (h : c.WriterAct d) : c.Grows d := by
  cases h with
  | write =>
    refine ⟨rfl, List.prefix_rfl, ?_⟩
    simp [Connection.paced, pause, startTimer]
  | _ => exact ⟨rfl, List.prefix_rfl, List.prefix_rfl⟩

theorem Act.grows (h : c.Act d) : c.Grows d := by
  rcases h.spares_or_writer with hspares | hact
  · exact ⟨hspares.delay, hspares.queue, hspares.paced ▸ List.prefix_rfl⟩
  · exact hact.grows

theorem Interleaving.grows {first : Connection} {past : List Connection} (h : Interleaving first past c) :
    ∀ moment ∈ first :: past, moment.Grows c := by
  induction h with
  | start => exact List.forall_mem_singleton.mpr ⟨rfl, List.prefix_rfl, List.prefix_rfl⟩
  | @race past c d h hrace ih =>
    have hgrows := hrace.act.grows
    rw [← List.cons_append, List.forall_mem_append, List.forall_mem_singleton]
    exact ⟨fun moment hmem => (ih moment hmem).trans hgrows, hgrows⟩

/-- The lines that the writer has written are the first ones of the queue, each once and in order, and
between any two of them there is the pause that is configured, or thirty years if that is less. The
server cuts each of them off by itself, whatever else is written between them. -/
structure KeepsOrder (config : ClientConfig) (c : Connection) : Prop where
  lines : c.paced.map Prod.snd <+: c.queue
  spaced : c.paced.Pairwise fun first later =>
    first.1 + min config.messageDelay longestPause ≤ later.1
  received : (LineCodec.cutLines (c.wire.flatMap fun entry => entry.2.text)).map String.ofList =
    (c.wire.flatMap fun entry => entry.2.received).filterMap id ++ [""]

theorem Interleaving.keepsOrder {clock : Clock} {handshake : Except String Unit} {codec : LineCodec}
    {past : List Connection} (h : Interleaving (opened config clock handshake codec) past c) :
    c.KeepsOrder config := by
  have horderly := Orderly.of_interleaving h
  have hgap : c.gap = min config.messageDelay longestPause :=
    gap_congr (h.grows _ List.mem_cons_self).delay
  exact ⟨(List.prefix_append _ _).trans horderly.drawn, hgap ▸ horderly.spaced,
    WireEntry.cutLines_flatMap_text c.wire⟩

/-- However everybody goes on side by side, the lines of the queue are written in order and with pauses
between them. Neither the queue nor what was written is changed afterwards but by lines that are added.
So it is with every connection that is opened and used, whatever is done with it. -/
theorem queue_in_order (config : ClientConfig) (clock : Clock) (handshake : Except String Unit) :
    (∀ codec past c, Interleaving (opened config clock handshake codec) past c →
      c.KeepsOrder config ∧
        ∀ moment ∈ past, moment.queue <+: c.queue ∧ moment.paced <+: c.paced) ∧
    ∀ c uses later, openWith config clock handshake = .ok c →
      (c.used uses).KeepsOrder config ∧
        (c.used uses).queue <+: ((c.used uses).used later).queue ∧
        (c.used uses).paced <+: ((c.used uses).used later).paced := by
  refine ⟨fun codec past c hrun => ⟨hrun.keepsOrder, fun moment hmem => ?_⟩,
    fun c uses later hopen => ⟨?_, ?_⟩⟩
  · have hgrows := hrun.grows moment (List.mem_cons_of_mem _ hmem)
    exact ⟨hgrows.queue, hgrows.paced⟩
  · obtain ⟨codec, past, hrun⟩ := exists_interleaving_opened hopen uses
    exact hrun.keepsOrder
  · obtain ⟨past, hrun⟩ := exists_interleaving_used (c.used uses) later
    have hgrows := hrun.grows _ List.mem_cons_self
    exact ⟨hgrows.queue, hgrows.paced⟩

/-- Two lines are put into the queue, and the writer goes on until it pauses, and once more after some
time. -/
def twoLines (config : ClientConfig) (wait : Nat) : Connection :=
  let write (c : Connection) : Connection := (fun c => c.step turnLength .writer)^[4] c
  let c := opened config ⟨⟨0, 0⟩, ""⟩ (.error "") .initial
  let c := write ((c.enqueue "PRIVMSG #c :a").enqueue "PRIVMSG #c :b")
  write { c with now := c.now + wait }

theorem exists_interleaving_twoLines (config : ClientConfig) (wait : Nat) :
    ∃ past, Interleaving (opened config ⟨⟨0, 0⟩, ""⟩ (.error "") .initial) past (twoLines config wait) := by
  have hwrites (c : Connection) : Relation.ReflTransGen Race c
      ((fun c => c.step turnLength .writer)^[4] c) :=
    (leads_steps c turnLength .writer 4).races
  have hqueues {c : Connection} (hwriter : c.writer = .idle) (line : String) :
      Race c (c.enqueue line) :=
    .enqueue (hwriter ▸ nofun) line
  exact exists_interleaving <| .head (hqueues rfl _) <| .head (hqueues rfl _) <|
    (hwrites _).trans <| .head (.move (.pass wait)) (hwrites _)

/-- The second line waits for the end of the pause, and is written then, whoever goes on when. A
connection that is opened writes the first line and pauses. -/
theorem queue_in_order_two_lines :
    let config := { ClientConfig.standard "irc.example.net" "bot" with messageDelay := 1000 }
    let early := twoLines config 999
    let c := twoLines config 1000
    let d := (opened config ⟨⟨0, 0⟩, ""⟩ (.error "") .initial).settle
    early.paced = [(0, "PRIVMSG #c :a")] ∧
      c.paced = [(0, "PRIVMSG #c :a"), (1000, "PRIVMSG #c :b")] ∧
      c.paced.map Prod.snd <+: c.queue ∧
      c.paced.Pairwise (fun first later => first.1 + 1000 ≤ later.1) ∧
      openWith config ⟨⟨0, 0⟩, ""⟩ (.error "") = .ok d ∧
      (d.used [.send (.privmsg "#c" "a"), .send (.privmsg "#c" "b")]).paced = [(0, "PRIVMSG #c :a")] ∧
      ∀ uses, (d.used uses).KeepsOrder config := by
  intro config early c d
  have hopen : openWith config ⟨⟨0, 0⟩, ""⟩ (.error "") = .ok d :=
    openWith_of_ofLabel (by decide +kernel)
  have hpaced : (d.used [.send (.privmsg "#c" "a"), .send (.privmsg "#c" "b")]).paced =
      [(0, "PRIVMSG #c :a")] :=
    settle_used_spec (n := 30) (P := fun c => c.paced = [(0, "PRIVMSG #c :a")]) (by decide +kernel)
  obtain ⟨past, hrun⟩ := exists_interleaving_twoLines config 1000
  obtain ⟨hruns, hused⟩ := queue_in_order config ⟨⟨0, 0⟩, ""⟩ (.error "")
  obtain ⟨⟨hlines, hspaced, -⟩, -⟩ := hruns _ past c hrun
  exact ⟨by decide +kernel, by decide +kernel, hlines, hspaced, hopen, hpaced,
    fun uses => (hused d uses [] hopen).1⟩

/-- A pause that is configured to be longer than thirty years ends early. -/
theorem pause_ends_early :
    ¬ ∀ config clock handshake codec past c, Interleaving (opened config clock handshake codec) past c →
      c.paced.Pairwise fun first later => first.1 + config.messageDelay ≤ later.1 := by
  intro hspaced
  let config := { ClientConfig.standard "irc.example.net" "bot" with messageDelay := 1000000000000 }
  obtain ⟨past, hrun⟩ := exists_interleaving_twoLines config 946080000000
  have hpaced : (twoLines config 946080000000).paced =
      [(0, "PRIVMSG #c :a"), (946080000000, "PRIVMSG #c :b")] := by decide +kernel
  have hpauses := hspaced config _ _ _ past _ hrun
  rw [hpaced, List.pairwise_pair] at hpauses
  exact absurd hpauses (by decide)

end Connection

end IrcClient
