import IrcClient.Store.Relation
import Mathlib.Tactic.Tauto

/-!
# One direction of a relation

What adding and taking away pairs does to `Links.has`, for links that keep no id without partners and
the partners of an id in strictly ascending order.
-/

namespace IrcClient

namespace Id

theorem sorted_insertSorted {kind : EntityKind} (id : Id kind) {ids : List (Id kind)}
    (hsorted : ids.Pairwise fun x y => x.number < y.number) :
    (insertSorted id ids).Pairwise fun x y => x.number < y.number := by
  induction ids with
  | nil => simp [insertSorted]
  | cons head ids ih =>
    obtain ⟨hhead, htail⟩ := List.pairwise_cons.mp hsorted
    unfold insertSorted
    split
    · rename_i hlt
      refine List.pairwise_cons.mpr ⟨?_, hsorted⟩
      intro x hx
      rcases List.mem_cons.mp hx with rfl | hx
      · exact hlt
      · exact Nat.lt_trans hlt (hhead x hx)
    · rename_i hge
      split
      · exact hsorted
      · rename_i hne
        refine List.pairwise_cons.mpr ⟨?_, ih htail⟩
        intro x hx
        rcases (mem_insertSorted id x ids).mp hx with rfl | hx
        · have hnumber : x.number ≠ head.number := by
            intro h
            obtain ⟨n⟩ := x
            obtain ⟨m⟩ := head
            exact hne (congrArg Id.mk h)
          omega
        · exact hhead x hx

theorem nodup_of_sorted {kind : EntityKind} {ids : List (Id kind)}
    (hsorted : ids.Pairwise fun x y => x.number < y.number) : ids.Nodup := by
  refine hsorted.imp ?_
  rintro x y hlt rfl
  exact Nat.lt_irrefl _ hlt

end Id

namespace Links

variable {a b : EntityKind} {links : Links a b}

/-- No id is kept without partners, and the partners of an id ascend. -/
structure Tidy (links : Links a b) : Prop where
  nonempty : ∀ x ys, links.get? x = some ys → ys ≠ []
  ascending : ∀ x ys, links.get? x = some ys → ys.Pairwise fun y z => y.number < z.number

theorem has_iff {x : Id a} {y : Id b} : links.has x y = true ↔ y ∈ links.of x := by
  simp [has]

theorem of_insert (x x' : Id a) (ys : List (Id b)) :
    of (Table.insert links x ys) x' = if x = x' then ys else of links x' := by
  unfold of
  rw [Table.get?_insert]
  split <;> rfl

theorem of_erase (x x' : Id a) :
    of (Table.erase links x) x' = if x = x' then [] else of links x' := by
  unfold of
  rw [Table.get?_erase]
  split <;> rfl

theorem of_unlink (x x' : Id a) (y : Id b) :
    (links.unlink x y).of x' =
      if x = x' then (links.of x').filter (· ≠ y) else links.of x' := by
  unfold unlink
  split
  · rename_i hnone
    split
    · rename_i heq
      subst heq
      simp [of, hnone]
    · rfl
  · rename_i partners hsome
    have hof : links.of x = partners := by simp [of, hsome]
    dsimp only
    split
    · rename_i hempty
      rw [of_erase]
      split
      · rename_i heq
        subst heq
        rw [hof]
        exact (List.isEmpty_iff.mp hempty).symm
      · rfl
    · rw [of_insert]
      split
      · rename_i heq
        subst heq
        rw [hof]
      · rfl

theorem has_erase (x x' : Id a) (y : Id b) :
    has (Table.erase links x) x' y = true ↔ links.has x' y = true ∧ x' ≠ x := by
  rw [has_iff, has_iff, of_erase]
  by_cases h : x = x'
  · simp [h]
  · simp [h, Ne.symm h]

theorem has_link (x x' : Id a) (y y' : Id b) :
    (links.link x y).has x' y' = true ↔ (x' = x ∧ y' = y) ∨ links.has x' y' = true := by
  rw [has_iff, has_iff, link, of_insert]
  by_cases h : x = x'
  · subst h
    simp [Id.mem_insertSorted]
  · simp [h, Ne.symm h]

theorem has_unlink (x x' : Id a) (y y' : Id b) :
    (links.unlink x y).has x' y' = true ↔ links.has x' y' = true ∧ ¬ (x' = x ∧ y' = y) := by
  rw [has_iff, has_iff, of_unlink]
  by_cases h : x = x'
  · subst h
    simp
  · simp [h, Ne.symm h]

namespace Tidy

theorem empty : Tidy (Table.empty : Links a b) := by
  constructor <;> simp

theorem insert (h : links.Tidy) (x : Id a) {ys : List (Id b)} (hne : ys ≠ [])
    (hsorted : ys.Pairwise fun y z => y.number < z.number) : Tidy (Table.insert links x ys) := by
  constructor
  · intro x' ys' hget
    rw [Table.get?_insert] at hget
    split at hget
    · cases hget
      exact hne
    · exact h.nonempty x' ys' hget
  · intro x' ys' hget
    rw [Table.get?_insert] at hget
    split at hget
    · cases hget
      exact hsorted
    · exact h.ascending x' ys' hget

theorem erase (h : links.Tidy) (x : Id a) : Tidy (Table.erase links x) := by
  constructor
  · intro x' ys hget
    rw [Table.get?_erase] at hget
    split at hget
    · cases hget
    · exact h.nonempty x' ys hget
  · intro x' ys hget
    rw [Table.get?_erase] at hget
    split at hget
    · cases hget
    · exact h.ascending x' ys hget

theorem sorted_of (h : links.Tidy) (x : Id a) :
    (links.of x).Pairwise fun y z => y.number < z.number := by
  unfold Links.of
  cases hget : links.get? x with
  | none => exact List.Pairwise.nil
  | some ys => exact h.ascending x ys hget

theorem nodup_of (h : links.Tidy) (x : Id a) : (links.of x).Nodup :=
  Id.nodup_of_sorted (h.sorted_of x)

theorem link (h : links.Tidy) (x : Id a) (y : Id b) : (links.link x y).Tidy :=
  h.insert x (Id.insertSorted_ne_nil y _) (Id.sorted_insertSorted y (h.sorted_of x))

theorem unlink (h : links.Tidy) (x : Id a) (y : Id b) : (links.unlink x y).Tidy := by
  unfold Links.unlink
  split
  · exact h
  · rename_i partners hget
    dsimp only
    split
    · exact h.erase x
    · rename_i hrest
      refine h.insert x ?_ ((h.ascending x partners hget).filter _)
      simpa using hrest

/-- An id is kept exactly while it has a partner. -/
theorem contains_iff (h : links.Tidy) (x : Id a) :
    Table.contains links x = true ↔ ∃ y, links.has x y = true := by
  simp only [has_iff, Table.contains, Links.of]
  cases hget : links.get? x with
  | none => simp
  | some ys =>
    obtain ⟨y, hy⟩ := List.exists_mem_of_ne_nil ys (h.nonempty x ys hget)
    simpa using ⟨y, hy⟩

end Tidy

/-- Taking `y` away from ids that are all linked to it succeeds, provided none of them comes twice. -/
theorem unlinkAll_spec (y : Id b) {xs : List (Id a)} (hnodup : xs.Nodup) (htidy : links.Tidy)
    (hlinked : ∀ x ∈ xs, links.has x y = true) :
    ∃ rest, links.unlinkAll y xs = .ok rest ∧ rest.Tidy ∧
      ∀ x' y', rest.has x' y' = true ↔ links.has x' y' = true ∧ ¬ (x' ∈ xs ∧ y' = y) := by
  induction xs generalizing links with
  | nil => exact ⟨links, rfl, htidy, by simp⟩
  | cons x xs ih =>
    obtain ⟨hnew, hnodup⟩ := List.nodup_cons.mp hnodup
    have hlater : ∀ x' ∈ xs, (links.unlink x y).has x' y = true := by
      intro x' hx'
      rw [has_unlink]
      refine ⟨hlinked x' (List.mem_cons_of_mem x hx'), ?_⟩
      rintro ⟨rfl, -⟩
      exact hnew hx'
    obtain ⟨rest, hrest, hrestTidy, hhas⟩ := ih hnodup (htidy.unlink x y) hlater
    refine ⟨rest, ?_, hrestTidy, ?_⟩
    · rw [unlinkAll, if_pos (hlinked x List.mem_cons_self)]
      exact hrest
    · intro x' y'
      rw [hhas, has_unlink, List.mem_cons]
      tauto

theorem mem_pairs {x : Id a} {y : Id b} : (x, y) ∈ links.pairs ↔ links.has x y = true := by
  simp only [pairs, List.mem_flatMap, List.mem_map, Prod.mk.injEq, Prod.exists, has_iff, of]
  constructor
  · rintro ⟨x', ys, hentry, y', hy, rfl, rfl⟩
    simpa [(Table.mem_entries_iff links x' ys).mp hentry] using hy
  · intro hy
    cases hget : links.get? x with
    | none => simp [hget] at hy
    | some ys =>
      have hmem : y ∈ ys := by simpa [hget] using hy
      exact ⟨x, ys, (Table.mem_entries_iff links x ys).mpr hget, y, hmem, rfl, rfl⟩

end Links

end IrcClient
