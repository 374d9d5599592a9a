import Mathlib.Logic.Function.Iterate
import Mathlib.Logic.Relation
import IrcClient.Connection.Client
import IrcClient.Proofs.Store.Relisting

/-!
# What may happen to a connection

The workers of a connection go on step by step, the application and the server act between any two of
their steps, time passes, and the tables of the store come to be listed in other orders. Here nothing is
said about who goes when.
-/

namespace IrcClient

/-- What a step leads to, whether it goes on or stops. -/
def Step.connection : Step → Connection
  | .again _ c | .stop _ c => c

namespace Session

variable {s s' s'' : Session}

/-- The session is the same, but for the order in which its store lists users and channels. -/
structure Relisted (s s' : Session) : Prop where
  store : s.store.Relisted s'.store
  others : s' = { s with store := s'.store }

theorem Relisted.refl (s : Session) : s.Relisted s := ⟨.refl _, rfl⟩

theorem Relisted.trans (h : s.Relisted s') (h' : s'.Relisted s'') : s.Relisted s'' where
  store := h.store.trans h'.store
  others := by
    rw [h'.others, h.others]

end Session

namespace Connection

variable {c d : Connection}

/-- A step of a worker that has some counting steps left in its turn. -/
def step (c : Connection) (left : Nat) : Worker → Connection
  | .reader => (c.readerStep left).connection
  | .writer => (c.writerStep left).connection

/-- Those who wait for a mode look whether there is one. -/
def look (c : Connection) : Connection := answerCalls { c with calls := [] } c.calls

/-- What may happen next. -/
inductive Move (c : Connection) : Connection → Prop where
  | step (left : Nat) (worker : Worker) : Move c (c.step left worker)
  | look : Move c c.look
  | checkSilence : Move c c.checkSilence
  | pass (ms : Nat) : Move c { c with now := c.now + ms }
  | tick (clock : Clock) : Move c { c with clock := clock }
  | send {command : Command} {d : Connection} (h : c.send command = .ok d) : Move c d
  | writeNow {line : String} {d : Connection} (h : c.write (.urgent line) = .ok d) : Move c d
  | shutdown : Move c c.shutdown
  | askMode (name : String) : Move c (c.askMode name)
  | receive {bytes : List UInt8} {d : Connection} (h : c.receive bytes = .ok d) : Move c d
  | hangUp : Move c c.hangUp
  | relist {session : Session} (h : c.session.Relisted session) : Move c { c with session := session }

/-- Where moves lead, one after the other. -/
abbrev Leads : Connection → Connection → Prop := Relation.ReflTransGen Move

/-- A run from a first moment to a last one, with all moments before the last in order. -/
inductive Run (first : Connection) : List Connection → Connection → Prop where
  | start : Run first [] first
  | move {past : List Connection} {c d : Connection} (h : Run first past c) (hmove : Move c d) :
      Run first (past ++ [c]) d

theorem exists_run (h : Leads c d) : ∃ past, Run c past d := by
  induction h with
  | refl => exact ⟨[], .start⟩
  | tail _ hlast ih =>
    obtain ⟨past, hrun⟩ := ih
    exact ⟨_, hrun.move hlast⟩

/-! ## Turns and schedules -/

theorem move_of_readerStep {left : Nat} {result : Step} (h : c.readerStep left = result) :
    Move c result.connection :=
  h ▸ Move.step left .reader

theorem move_of_writerStep {left : Nat} {result : Step} (h : c.writerStep left = result) :
    Move c result.connection :=
  h ▸ Move.step left .writer

theorem leads_readerTurn (c : Connection) (left : Nat) : Leads c (c.readerTurn left).2 := by
  fun_induction readerTurn c left with
  | case1 c left spent d h => exact .single (move_of_readerStep h)
  | case2 c left left₁ d h ih => exact .head (move_of_readerStep h) ih

theorem leads_writerTurn (c : Connection) (left : Nat) : Leads c (c.writerTurn left).2 := by
  fun_induction writerTurn c left with
  | case1 c left spent d h => exact .single (move_of_writerStep h)
  | case2 c left left₁ d h ih => exact .head (move_of_writerStep h) ih

theorem leads_turn (c : Connection) (worker : Worker) : Leads c (c.turn worker).2 := by
  cases worker with
  | reader => exact (c.leads_readerTurn turnLength).tail .look
  | writer => exact c.leads_writerTurn turnLength

theorem leads_run (c : Connection) (schedule : Schedule) : Leads c (c.run schedule) := by
  fun_induction run c schedule with
  | case1 c => exact .refl
  | case2 c schedule worker others hnext done hprogress others' ih =>
    exact (c.leads_turn worker).trans ih
  | case3 c schedule worker others hnext done hprogress ih => exact (c.leads_turn worker).trans ih

theorem leads_settle (c : Connection) : Leads c c.settle := c.leads_run _

theorem leads_wake (c : Connection) : Leads c c.wake :=
  .head .checkSilence (leads_run _ _)

theorem leads_advance (c : Connection) (ms : Nat) : Leads c (c.advance ms) := by
  fun_induction advance c ms with
  | case1 c ms due hdue wait hwait ih =>
    exact .head (.pass wait) ((leads_wake _).trans ih)
  | case2 => exact .single (.pass _)
  | case3 => exact .single (.pass _)

/-! ## The server, and single workers -/

theorem eq_of_receive {bytes : List UInt8} (h : c.receive bytes = .ok d) :
    d = { c with source := c.source.receive bytes } := by
  rcases ite_eq_iff.mp h with ⟨-, h⟩ | ⟨-, h⟩
  · cases h
  · rcases ite_eq_iff.mp h with ⟨-, h⟩ | ⟨-, h⟩
    · cases h
    · cases h
      rfl

theorem move_receive {bytes : List UInt8} (h : (c.receive bytes).isOk = true) :
    Move c { c with source := c.source.receive bytes } := by
  cases hreceived : c.receive bytes with
  | error fault =>
    rw [hreceived] at h
    cases h
  | ok d => exact eq_of_receive hreceived ▸ .receive hreceived

theorem leads_steps (c : Connection) (left : Nat) (worker : Worker) (n : Nat) :
    Leads c ((fun c => c.step left worker)^[n] c) := by
  induction n generalizing c with
  | zero => exact .refl
  | succ n ih => exact .head (.step left worker) (ih (c.step left worker))

end Connection

end IrcClient
