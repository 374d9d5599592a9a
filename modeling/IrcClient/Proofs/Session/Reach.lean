import IrcClient.Proofs.Session.Coherence
import IrcClient.Proofs.Store.Lookup

/-!
# Where inputs lead

A run gives inputs to a session one after another. Here some inputs may be ruled out, by what the
session is before and after them, and between two inputs the tables of users and of channels may be
listed anew in any order, since nothing is promised about it.
-/

namespace IrcClient.Session

variable {allowed : Session → Input → Session → Prop} {s s' s'' : Session}

/-- The sessions that allowed inputs lead to. -/
inductive Reaches (allowed : Session → Input → Session → Prop) (s : Session) : Session → Prop where
  | refl : Reaches allowed s s
  | receive {t : Session} (h : Reaches allowed s t) (input : Input)
      (hallowed : allowed t input (t.receive input)) : Reaches allowed s (t.receive input)
  | relist {t : Session} {store : Store} (h : Reaches allowed s t)
      (hlisted : t.store.Relisted store) : Reaches allowed s { t with store := store }

/-- The sessions that a configuration and any inputs lead to. -/
def Reachable (config : ClientConfig) (s : Session) : Prop :=
  (opened config).Reaches (fun _ _ _ => True) s

/-- What allowed inputs preserve, and does not depend on the order of the tables, holds wherever they
lead. -/
theorem Reaches.preserves {P : Session → Prop} (h : s.Reaches allowed s')
    (hreceive : ∀ t input, allowed t input (t.receive input) → P t → P (t.receive input))
    (hrelist : ∀ (t : Session) store, t.store.Relisted store → P t → P { t with store := store })
    (hs : P s) : P s' := by
  induction h with
  | refl => exact hs
  | receive _ input hallowed ih => exact hreceive _ input hallowed ih
  | relist _ hlisted ih => exact hrelist _ _ hlisted ih

theorem Reaches.trans (hfirst : s.Reaches allowed s') (hsecond : s'.Reaches allowed s'') :
    s.Reaches allowed s'' := by
  induction hsecond with
  | refl => exact hfirst
  | receive _ input hallowed ih => exact ih.receive input hallowed
  | relist _ hlisted ih => exact ih.relist hlisted

/-- Whether each of some inputs is allowed where it comes in a run. -/
def AllAllowed (allowed : Session → Input → Session → Prop) : Session → List Input → Prop
  | _, [] => True
  | s, input :: inputs => allowed s input (s.receive input) ∧ AllAllowed allowed (s.receive input) inputs

instance AllAllowed.decidable [∀ s input t, Decidable (allowed s input t)] :
    ∀ (s : Session) (inputs : List Input), Decidable (AllAllowed allowed s inputs)
  | _, [] => inferInstanceAs (Decidable True)
  | s, input :: inputs =>
    have := AllAllowed.decidable (s.receive input) inputs
    inferInstanceAs (Decidable (_ ∧ _))

theorem reaches_run {inputs : List Input} (h : AllAllowed allowed s inputs) :
    s.Reaches allowed (s.run inputs) := by
  induction inputs generalizing s with
  | nil => exact .refl
  | cons input inputs ih => exact (Reaches.refl.receive input h.1).trans (ih h.2)

theorem reachable_run (config : ClientConfig) (inputs : List Input) :
    Reachable config ((opened config).run inputs) :=
  run_of_receive (P := Reachable config) (fun _ input h => Reaches.receive h input trivial) .refl inputs

theorem Sound.relisted (hs : s.Sound) {store : Store} (hlisted : s.store.Relisted store) :
    Sound { s with store := store } := by
  refine ⟨hlisted.coherent hs.coherent, ?_⟩
  obtain ⟨users, channels, rfl⟩ := hlisted.eq
  exact hs.self

theorem Reaches.sound (h : s.Reaches allowed s') (hs : s.Sound) : s'.Sound :=
  h.preserves (fun _ input _ ht => ht.receive input) (fun _ _ hlisted ht => ht.relisted hlisted) hs

/-- A property of sound sessions that allowed inputs preserve. -/
theorem Reaches.maintains {P : Session → Prop} (h : s.Reaches allowed s') (hs : s.Sound)
    (hreceive : ∀ t input, t.Sound → allowed t input (t.receive input) → P t → P (t.receive input))
    (hrelist : ∀ (t : Session) store, t.store.Relisted store → P t → P { t with store := store })
    (hp : P s) : P s' := by
  have hboth := h.preserves (P := fun t => t.Sound ∧ P t)
    (fun t input hallowed ht => ⟨ht.1.receive input, hreceive t input ht.1 hallowed ht.2⟩)
    (fun t store hlisted ht => ⟨ht.1.relisted hlisted, hrelist t store hlisted ht.2⟩) ⟨hs, hp⟩
  exact hboth.2

theorem Reachable.sound {config : ClientConfig} (h : Reachable config s) : s.Sound :=
  Reaches.sound h (sound_opened config)

/-- Whatever the server sends, whenever the connection is reported gone, and in whatever order the tables
list their entries, the store stays coherent, and the next line finds no fault in it. -/
theorem coherent_of_reachable {config : ClientConfig} (h : Reachable config s) :
    s.store.Coherent ∧ ∀ clock line, (s.handle clock line).fault = none :=
  ⟨h.sound.coherent, fun clock line => (h.sound.handle clock line).1⟩

/-- The client is on a channel with somebody else, and the two come to be listed the other way round. -/
theorem coherent_of_reachable_listed_anew :
    let config := { ClientConfig.standard "irc.example.net" "bot" with capEnabled := false }
    let s := (opened config).run ([":irc 001 bot :Welcome", ":bot!b@h JOIN #c",
      ":alice!a@h JOIN #c"].map (.line ⟨⟨0, 0⟩, ""⟩))
    let users := Table.ofList s.store.users.entries.reverse
    let t := { s with store := s.store.relist users s.store.channels }
    s.store.users.values.map (·.nick) = ["bot", "alice"] ∧
      t.store.users.values.map (·.nick) = ["alice", "bot"] ∧
      t.store.Coherent ∧ ∀ clock line, (t.handle clock line).fault = none := by
  intro config s users t
  have hreachable : Reachable config t :=
    (reachable_run config _).relist (s.store.relisted_relist users s.store.channels)
  exact ⟨by decide +kernel, by decide +kernel, coherent_of_reachable hreachable⟩

end IrcClient.Session
