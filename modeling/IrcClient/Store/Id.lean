/-!
# Ids

Users and channels keep their id while they are known, whatever they are called. Ids of both kinds
come from one counter and are never given out twice.
-/

namespace IrcClient

/-- What an id stands for. -/
inductive EntityKind where
  | user
  | channel
  deriving DecidableEq, Repr

/-- The stable identity of a user or a channel. -/
structure Id (kind : EntityKind) where
  number : Nat
  deriving DecidableEq, Repr

/-- The identity of a user. -/
abbrev UserId := Id .user

/-- The identity of a channel. -/
abbrev ChannelId := Id .channel

namespace Id

def text {kind : EntityKind} (id : Id kind) : String :=
  match kind with
  | .user => s!"user#{id.number}"
  | .channel => s!"channel#{id.number}"

/-- Puts an id into an ascending list that may have it already. -/
def insertSorted {kind : EntityKind} (id : Id kind) : List (Id kind) → List (Id kind)
  | [] => [id]
  | other :: ids =>
    if id.number < other.number then id :: other :: ids
    else if id = other then other :: ids
    else other :: insertSorted id ids

theorem mem_insertSorted {kind : EntityKind} (id other : Id kind) (ids : List (Id kind)) :
    other ∈ insertSorted id ids ↔ other = id ∨ other ∈ ids := by
  induction ids with
  | nil => simp [insertSorted]
  | cons head ids ih =>
    unfold insertSorted
    split
    · simp
    · split
      · rename_i h
        subst h
        simp
      · simp only [List.mem_cons, ih]
        constructor
        · rintro (h | h | h) <;> simp [h]
        · rintro (h | h | h) <;> simp [h]

theorem insertSorted_ne_nil {kind : EntityKind} (id : Id kind) (ids : List (Id kind)) :
    insertSorted id ids ≠ [] :=
  List.ne_nil_of_mem ((mem_insertSorted id id ids).2 (Or.inl rfl))

end Id

end IrcClient
