import IrcClient.Store.Directory

/-!
# What a name stands for

A name stands for the channel that is found with the fewest status symbols taken off it.
-/

namespace IrcClient.Directory

variable {d : Directory} {name front rest : List Char} {id : ChannelId}

/-- What is left of a name when some status symbols in front of it are taken off. -/
structure Strips (d : Directory) (name front rest : List Char) : Prop where
  eq : name = front ++ rest
  symbols : ∀ c ∈ front, c ∈ d.statusSymbols.toList

theorem strips_nil (d : Directory) (name : List Char) : d.Strips name [] name :=
  ⟨rfl, fun _ hc => absurd hc List.not_mem_nil⟩

theorem strips_cons_iff {c : Char} {cs : List Char} : d.Strips (c :: cs) front rest ↔
    (front = [] ∧ rest = c :: cs) ∨
      ∃ front', front = c :: front' ∧ c ∈ d.statusSymbols.toList ∧ d.Strips cs front' rest := by
  constructor
  · rintro ⟨heq, hsymbols⟩
    cases front with
    | nil => exact Or.inl ⟨rfl, heq.symm⟩
    | cons first front' =>
      obtain ⟨rfl, hrest⟩ := List.cons.inj heq
      exact Or.inr ⟨front', rfl, hsymbols c List.mem_cons_self, hrest,
        fun e he => hsymbols e (List.mem_cons_of_mem c he)⟩
  · rintro (⟨rfl, rfl⟩ | ⟨front', rfl, hc, rfl, hsymbols⟩)
    · exact d.strips_nil _
    · exact ⟨rfl, List.forall_mem_cons.mpr ⟨hc, hsymbols⟩⟩

theorem resolve?_eq_none_iff : d.resolve? name = none ↔
    ∀ front rest, d.Strips name front rest → d.exactChannel? (String.ofList rest) = none := by
  induction name with
  | nil =>
    constructor
    · rintro hnone front rest ⟨heq, -⟩
      obtain ⟨-, rfl⟩ := List.nil_eq_append_iff.mp heq
      exact hnone
    · exact fun hall => hall [] [] (d.strips_nil [])
  | cons c cs ih =>
    rw [resolve?]
    constructor
    · intro hnone front rest hstrips
      split at hnone
      · cases hnone
      · rename_i hexact
        rcases strips_cons_iff.mp hstrips with ⟨-, rfl⟩ | ⟨front', -, hc, htail⟩
        · exact hexact
        · rw [if_pos (by simpa using hc)] at hnone
          exact ih.mp hnone front' rest htail
    · intro hall
      rw [hall [] (c :: cs) (d.strips_nil _)]
      dsimp only
      split
      · rename_i hc
        refine ih.mpr fun front rest hstrips => hall (c :: front) rest ?_
        exact strips_cons_iff.mpr (Or.inr ⟨front, rfl, by simpa using hc, hstrips⟩)
      · rfl

theorem exists_of_resolve? (h : d.resolve? name = some id) :
    ∃ front rest, d.Strips name front rest ∧ d.exactChannel? (String.ofList rest) = some id ∧
      ∀ front' rest', d.Strips name front' rest' → front'.length < front.length →
        d.exactChannel? (String.ofList rest') = none := by
  induction name with
  | nil => exact ⟨[], [], d.strips_nil [], h, fun _ _ _ hshort => absurd hshort (Nat.not_lt_zero _)⟩
  | cons c cs ih =>
    rw [resolve?] at h
    split at h
    · rename_i found hexact
      refine ⟨[], c :: cs, d.strips_nil _, by rw [hexact, h], ?_⟩
      exact fun _ _ _ hshort => absurd hshort (Nat.not_lt_zero _)
    · rename_i hexact
      split at h
      · rename_i hc
        obtain ⟨front, rest, hstrips, hsome, hfirst⟩ := ih h
        refine ⟨c :: front, rest, ?_, hsome, ?_⟩
        · exact strips_cons_iff.mpr (Or.inr ⟨front, rfl, by simpa using hc, hstrips⟩)
        · intro front' rest' hstrips' hshort
          rcases strips_cons_iff.mp hstrips' with ⟨-, rfl⟩ | ⟨front'', rfl, -, htail⟩
          · exact hexact
          · exact hfirst front'' rest' htail (Nat.lt_of_succ_lt_succ hshort)
      · cases h

/-- The channel that a name stands for is the first one found, with the fewest symbols taken off. -/
theorem resolve?_eq_some_iff : d.resolve? name = some id ↔
    ∃ front rest, d.Strips name front rest ∧ d.exactChannel? (String.ofList rest) = some id ∧
      ∀ front' rest', d.Strips name front' rest' → front'.length < front.length →
        d.exactChannel? (String.ofList rest') = none := by
  refine ⟨exists_of_resolve?, ?_⟩
  rintro ⟨front, rest, hstrips, hsome, hfirst⟩
  cases hfound : d.resolve? name with
  | none =>
    rw [resolve?_eq_none_iff.mp hfound front rest hstrips] at hsome
    cases hsome
  | some id' =>
    obtain ⟨front', rest', hstrips', hsome', hfirst'⟩ := exists_of_resolve? hfound
    have hlength : front'.length = front.length := by
      rcases Nat.lt_trichotomy front'.length front.length with hless | heq | hmore
      · rw [hfirst front' rest' hstrips' hless] at hsome'
        cases hsome'
      · exact heq
      · rw [hfirst' front rest hstrips hmore] at hsome
        cases hsome
    obtain ⟨-, rfl⟩ := List.append_inj (hstrips'.eq.symm.trans hstrips.eq) hlength
    rw [← hsome', hsome]

end IrcClient.Directory
