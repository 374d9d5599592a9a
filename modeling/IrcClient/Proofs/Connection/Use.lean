import IrcClient.Proofs.Connection.Reach

/-!
# Connections that are opened and used

The application opens a connection and does one thing after another with it, the server at the other end
does the same, and after each of these everybody goes on as far as possible. Such a connection has come by
moves from the start, one after the other. So whatever holds wherever moves lead, holds of every
connection that is opened, used and left to its schedule.
-/

namespace IrcClient.Connection

variable {config : ClientConfig} {clock : Clock} {handshake : Except String Unit} {c : Connection}

/-- What is done with a connection from outside. -/
inductive Use where
  | send (command : Command)
  | sendNow (command : Command)
  | askMode (name : String)
  | shutdown
  | receive (bytes : List UInt8)
  | hangUp
  | advance (ms : Nat)
  | tick (clock : Clock)

/-- What an attempt leads to. One that is refused changes nothing. -/
def attempted {ε : Type} (c : Connection) : Except ε Connection → Connection
  | .ok d => d
  | .error _ => c

/-- The connection right after a use. -/
def undergo (c : Connection) : Use → Connection
  | .send command => c.attempted (c.send command)
  | .sendNow command => (c.sendNow command).1
  | .askMode name => c.askMode name
  | .shutdown => c.shutdown
  | .receive bytes => c.attempted (c.receive bytes)
  | .hangUp => c.hangUp
  | .advance ms => c.advance ms
  | .tick clock => { c with clock := clock }

/-- The connection after several uses in order, everybody having gone on after each. -/
def used (c : Connection) (uses : List Use) : Connection :=
  uses.foldl (fun c use => (c.undergo use).settle) c

theorem openWith_of_ofLabel {codec : LineCodec} (h : LineCodec.ofLabel config.encoding = .ok codec) :
    openWith config clock handshake = .ok (opened config clock handshake codec).settle := by
  rw [openWith, h]

theorem leads_openWith (h : openWith config clock handshake = .ok c) :
    ∃ codec, LineCodec.ofLabel config.encoding = .ok codec ∧
      Leads (opened config clock handshake codec) c := by
  unfold openWith at h
  split at h
  · cases h
  · rename_i codec hcodec
    cases h
    exact ⟨codec, hcodec, leads_settle _⟩

theorem leads_writeLines (c : Connection) (lines : List String) :
    Leads c (c.writeLines lines).1 := by
  induction lines generalizing c with
  | nil => exact .refl
  | cons line lines ih =>
    unfold writeLines
    split
    · rename_i d hwrite
      exact .head (.writeNow hwrite) (ih d)
    · exact .refl

theorem leads_sendNow (c : Connection) (command : Command) : Leads c (c.sendNow command).1 :=
  c.leads_writeLines _

theorem leads_attempted {ε : Type} {result : Except ε Connection}
    (h : ∀ d, result = .ok d → Move c d) : Leads c (c.attempted result) := by
  cases result with
  | ok d => exact .single (h d rfl)
  | error error => exact .refl

theorem leads_undergo (c : Connection) (use : Use) : Leads c (c.undergo use) := by
  cases use with
  | send command => exact leads_attempted fun d hsent => .send hsent
  | sendNow command => exact c.leads_sendNow command
  | askMode name => exact .single (.askMode name)
  | shutdown => exact .single .shutdown
  | receive bytes => exact leads_attempted fun d hreceived => .receive hreceived
  | hangUp => exact .single .hangUp
  | advance ms => exact c.leads_advance ms
  | tick clock => exact .single (.tick clock)

theorem leads_used (c : Connection) (uses : List Use) : Leads c (c.used uses) := by
  induction uses generalizing c with
  | nil => exact .refl
  | cons use uses ih =>
    rw [used, List.foldl_cons]
    exact (c.leads_undergo use).trans ((leads_settle _).trans (ih _))

/-- A connection that was opened and used has come to be so in a run from the start. -/
theorem exists_run_used (hopen : openWith config clock handshake = .ok c) (uses : List Use) :
    ∃ codec past, Run (opened config clock handshake codec) past (c.used uses) := by
  obtain ⟨codec, -, hleads⟩ := leads_openWith hopen
  exact ⟨codec, exists_run (hleads.trans (c.leads_used uses))⟩

/-! ## Uses that are soon over

What comes of uses can be worked out step by step, if a bound is put on the steps of a turn and on the
turns.
-/

section Within

variable {n : Nat} {d : Connection} {schedule : Schedule} {uses : List Use}

/-- Where a worker stops, if it does within so many steps. -/
def stopWithin (step : Connection → Nat → Step) : Nat → Connection → Nat → Option (Bool × Connection)
  | 0, _, _ => none
  | n + 1, c, left =>
    match step c left with
    | .stop spent d => some (spent, d)
    | .again left d => stopWithin step n d left

/-- A turn, if it is over within so many steps. -/
def turnWithin (n : Nat) (c : Connection) : Worker → Option (Bool × Connection)
  | .reader => (stopWithin readerStep n c turnLength).map fun done => (done.1, done.2.look)
  | .writer => stopWithin writerStep n c turnLength

/-- A run, if it is over within so many turns and each of these within so many steps. -/
def runWithin (n : Nat) : Nat → Connection → Schedule → Option Connection
  | 0, _, _ => none
  | turns + 1, c, schedule =>
    match schedule.next? with
    | none => some c
    | some (worker, others) =>
      (c.turnWithin n worker).bind fun done =>
        if done.2.Progress c then
          let others := if done.1 then others.defer worker else others
          runWithin n turns done.2
            (if done.2.canGoOn worker.other then others.wake worker.other else others)
        else runWithin n turns done.2 others

def settleWithin (n : Nat) (c : Connection) : Option Connection := runWithin n n c ⟨[.reader, .writer], []⟩

def usedWithin (n : Nat) (c : Connection) (uses : List Use) : Option Connection :=
  uses.foldlM (fun c use => (c.undergo use).settleWithin n) c

/-- A turn that goes on with a step until the worker stops is over where the worker stops. -/
theorem eq_of_stopWithin {step : Connection → Nat → Step} {turn : Connection → Nat → Bool × Connection}
    (hturn : ∀ c left, turn c left =
      match step c left with
      | .stop spent d => (spent, d)
      | .again left d => turn d left)
    {left : Nat} {done : Bool × Connection} (h : stopWithin step n c left = some done) :
    turn c left = done := by
  induction n generalizing c left with
  | zero => cases h
  | succ n ih =>
    rw [hturn]
    unfold stopWithin at h
    split at h
    · exact Option.some.inj h
    · exact ih h

theorem turn_of_turnWithin {worker : Worker} {done : Bool × Connection}
    (h : c.turnWithin n worker = some done) : c.turn worker = done := by
  cases worker with
  | reader =>
    obtain ⟨stopped, hstopped, rfl⟩ := Option.map_eq_some_iff.mp h
    have hturn : c.readerTurn turnLength = stopped := by
      refine eq_of_stopWithin (fun c left => ?_) hstopped
      rw [readerTurn]
      split <;> simp_all
    rw [turn, hturn]
    rfl
  | writer =>
    refine eq_of_stopWithin (fun c left => ?_) h
    rw [writerTurn]
    split <;> simp_all

theorem run_of_runWithin {turns : Nat} (h : runWithin n turns c schedule = some d) :
    c.run schedule = d := by
  induction turns generalizing c schedule with
  | zero => cases h
  | succ turns ih =>
    unfold runWithin at h
    unfold run
    split at h
    · rename_i hnext
      cases h
      split
      · rfl
      · rename_i hsome
        cases hnext.symm.trans hsome
    · rename_i worker others hnext
      obtain ⟨done, hdone, h⟩ := Option.bind_eq_some_iff.mp h
      cases turn_of_turnWithin hdone
      split
      · rename_i hnone
        cases hnext.symm.trans hnone
      · rename_i hsome
        cases hnext.symm.trans hsome
        split at h
        · rename_i hprogress
          rw [dif_pos hprogress]
          exact ih h
        · rename_i hprogress
          rw [dif_neg hprogress]
          exact ih h

theorem used_of_usedWithin (h : c.usedWithin n uses = some d) : c.used uses = d := by
  induction uses generalizing c with
  | nil => exact Option.some.inj h
  | cons use uses ih =>
    obtain ⟨settled, hsettled, hused⟩ := Option.bind_eq_some_iff.mp h
    rw [used, List.foldl_cons, settle, run_of_runWithin hsettled]
    exact ih hused

/-- What comes of using a connection that was opened. -/
theorem settle_used_spec {P : Connection → Prop} [DecidablePred P]
    (h : ((c.settleWithin n).bind (usedWithin n · uses)).any (P ·) = true) : P (c.settle.used uses) := by
  obtain ⟨d, hused, hd⟩ := (Option.any_eq_true _ _).mp h
  obtain ⟨settled, hsettled, hused⟩ := Option.bind_eq_some_iff.mp hused
  rw [settle, run_of_runWithin hsettled, used_of_usedWithin hused]
  exact of_decide_eq_true hd

end Within

end IrcClient.Connection
