/-!
# Finite maps in insertion order

A `Table` keeps its entries in the order in which their keys first came in, and holds no key twice.
Everything else is said through `get?`: what `insert`, `erase` and `modify` do to one key and that
they leave all others alone, and that the listed entries are exactly the successful lookups.
-/

namespace IrcClient

namespace Entries

variable {κ α : Type} [DecidableEq κ]

/-- The value of the first entry with a key. -/
def get? (k : κ) : List (κ × α) → Option α
  | [] => none
  | (k', v) :: rest => if k' = k then some v else get? k rest

/-- Gives `k` the value `v`, at its old place if it has one and at the end otherwise. -/
def insert (k : κ) (v : α) : List (κ × α) → List (κ × α)
  | [] => [(k, v)]
  | (k', v') :: rest => if k' = k then (k, v) :: rest else (k', v') :: insert k v rest

/-- The entries with other keys than `k`. -/
def erase (k : κ) : List (κ × α) → List (κ × α)
  | [] => []
  | (k', v) :: rest => if k' = k then erase k rest else (k', v) :: erase k rest

theorem get?_insert (k k' : κ) (v : α) (entries : List (κ × α)) :
    get? k' (insert k v entries) = if k = k' then some v else get? k' entries := by
  induction entries with
  | nil => simp [insert, get?]
  | cons entry rest ih =>
    obtain ⟨key, value⟩ := entry
    by_cases h : key = k
    · subst h
      by_cases hk : key = k' <;> simp [insert, get?, hk]
    · by_cases hk : key = k'
      · subst hk
        simp [insert, get?, h, Ne.symm h]
      · simp [insert, get?, h, hk, ih]

theorem insert_insert (k : κ) (v w : α) (entries : List (κ × α)) :
    insert k w (insert k v entries) = insert k w entries := by
  induction entries with
  | nil => simp [insert]
  | cons entry rest ih =>
    obtain ⟨key, value⟩ := entry
    by_cases h : key = k
    · simp [insert, h]
    · simp [insert, h, ih]

theorem insert_of_get? {k : κ} {v : α} {entries : List (κ × α)} (h : get? k entries = some v) :
    insert k v entries = entries := by
  induction entries with
  | nil => simp [get?] at h
  | cons entry rest ih =>
    obtain ⟨key, value⟩ := entry
    by_cases hk : key = k
    · simp_all [insert, get?]
    · simp_all [insert, get?]

theorem get?_erase (k k' : κ) (entries : List (κ × α)) :
    get? k' (erase k entries) = if k = k' then none else get? k' entries := by
  induction entries with
  | nil => simp [erase, get?]
  | cons entry rest ih =>
    obtain ⟨key, value⟩ := entry
    by_cases h : key = k
    · subst h
      by_cases hk : key = k'
      · simpa [erase, hk] using ih
      · simpa [erase, get?, hk] using ih
    · by_cases hk : key = k'
      · subst hk
        simp [erase, get?, h, Ne.symm h]
      · simp [erase, get?, h, hk, ih]

theorem erase_sublist (k : κ) (entries : List (κ × α)) : (erase k entries).Sublist entries := by
  induction entries with
  | nil => exact List.Sublist.slnil
  | cons entry rest ih =>
    obtain ⟨key, value⟩ := entry
    by_cases h : key = k
    · simpa [erase, h] using ih.cons (k, value)
    · simpa [erase, h] using ih

theorem keys_insert (k : κ) (v : α) (entries : List (κ × α)) :
    (insert k v entries).map Prod.fst =
      if k ∈ entries.map Prod.fst then entries.map Prod.fst else entries.map Prod.fst ++ [k] := by
  induction entries with
  | nil => simp [insert]
  | cons entry rest ih =>
    obtain ⟨key, value⟩ := entry
    by_cases h : key = k
    · simp [insert, h]
    · by_cases hr : k ∈ rest.map Prod.fst
      · rw [if_pos hr] at ih
        simp only [insert, if_neg h, List.map_cons, ih, List.mem_cons, hr, or_true, if_true]
      · rw [if_neg hr] at ih
        have hne : ¬ (k = key ∨ k ∈ rest.map Prod.fst) := by
          rintro (rfl | hmem)
          · exact h rfl
          · exact hr hmem
        simp only [insert, if_neg h, List.map_cons, ih, List.mem_cons, hne, if_false,
          List.cons_append]

theorem nodup_insert (k : κ) (v : α) {entries : List (κ × α)}
    (h : (entries.map Prod.fst).Nodup) : ((insert k v entries).map Prod.fst).Nodup := by
  rw [keys_insert]
  split
  · exact h
  · rename_i hk
    rw [List.nodup_append]
    refine ⟨h, by simp, ?_⟩
    intro a ha b hb
    simp only [List.mem_singleton] at hb
    subst hb
    intro hab
    subst hab
    exact hk ha

theorem nodup_erase (k : κ) {entries : List (κ × α)}
    (h : (entries.map Prod.fst).Nodup) : ((erase k entries).map Prod.fst).Nodup :=
  h.sublist ((erase_sublist k entries).map Prod.fst)

theorem mem_iff_get? {entries : List (κ × α)} (h : (entries.map Prod.fst).Nodup) (k : κ) (v : α) :
    (k, v) ∈ entries ↔ get? k entries = some v := by
  induction entries with
  | nil => simp [get?]
  | cons entry rest ih =>
    obtain ⟨key, value⟩ := entry
    simp only [List.map_cons, List.nodup_cons] at h
    by_cases hk : key = k
    · subst hk
      simp only [get?, if_true, List.mem_cons, Prod.mk.injEq, true_and, Option.some.injEq]
      constructor
      · rintro (rfl | hmem)
        · rfl
        · exact absurd (List.mem_map_of_mem hmem) h.1
      · rintro rfl
        exact Or.inl rfl
    · simp [get?, hk, Ne.symm hk, ih h.2]

end Entries

/-- A finite map, kept as its entries in the order in which their keys first came in. -/
structure Table (κ α : Type) where
  entries : List (κ × α)
  nodup_keys : (entries.map Prod.fst).Nodup
  deriving DecidableEq

namespace Table

variable {κ α β : Type}

def empty : Table κ α := ⟨[], List.nodup_nil⟩

/-- The values, in the order of their keys. -/
def values (t : Table κ α) : List α := t.entries.map Prod.snd

def size (t : Table κ α) : Nat := t.entries.length

/-- The map with every value replaced by its image. -/
def map (f : α → β) (t : Table κ α) : Table κ β where
  entries := t.entries.map fun entry => (entry.1, f entry.2)
  nodup_keys := by simpa [List.map_map, Function.comp_def] using t.nodup_keys

variable [DecidableEq κ]

def get? (t : Table κ α) (k : κ) : Option α := Entries.get? k t.entries

def contains (t : Table κ α) (k : κ) : Bool := (t.get? k).isSome

/-- Gives a key a value, in place of the one it has. -/
def insert (t : Table κ α) (k : κ) (v : α) : Table κ α :=
  ⟨Entries.insert k v t.entries, Entries.nodup_insert k v t.nodup_keys⟩

def erase (t : Table κ α) (k : κ) : Table κ α :=
  ⟨Entries.erase k t.entries, Entries.nodup_erase k t.nodup_keys⟩

/-- Changes the value of a key that has one. -/
def modify (t : Table κ α) (k : κ) (f : α → α) : Table κ α :=
  match t.get? k with
  | some v => t.insert k (f v)
  | none => t

/-- The map of some entries. Of several entries for a key, the last one counts. -/
def ofList (entries : List (κ × α)) : Table κ α :=
  entries.foldl (fun t entry => t.insert entry.1 entry.2) empty

@[simp] theorem get?_empty (k : κ) : (empty : Table κ α).get? k = none := rfl

theorem get?_insert (t : Table κ α) (k k' : κ) (v : α) :
    (t.insert k v).get? k' = if k = k' then some v else t.get? k' :=
  Entries.get?_insert k k' v t.entries

theorem get?_erase (t : Table κ α) (k k' : κ) :
    (t.erase k).get? k' = if k = k' then none else t.get? k' :=
  Entries.get?_erase k k' t.entries

theorem get?_modify (t : Table κ α) (k k' : κ) (f : α → α) :
    (t.modify k f).get? k' = if k = k' then (t.get? k').map f else t.get? k' := by
  unfold modify
  split
  · rename_i v hv
    rw [get?_insert]
    by_cases h : k = k'
    · subst h
      simp [hv]
    · simp [h]
  · rename_i hv
    by_cases h : k = k'
    · subst h
      simp [hv]
    · simp [h]

/-- A change that leaves a value as it is. -/
theorem modify_id (t : Table κ α) (k : κ) : t.modify k id = t := by
  unfold modify
  split
  · rename_i v hv
    simp only [insert, id_eq, Entries.insert_of_get? hv]
  · rfl

/-- Two changes of one value are one change. -/
theorem modify_modify (t : Table κ α) (k : κ) (f g : α → α) :
    (t.modify k f).modify k g = t.modify k (g ∘ f) := by
  have hget := t.get?_modify k k f
  rw [if_pos rfl] at hget
  cases hv : t.get? k with
  | none =>
    rw [hv] at hget
    simp [modify, hv]
  | some v =>
    rw [hv, Option.map_some] at hget
    have hinsert : t.modify k f = t.insert k (f v) := by rw [modify, hv]
    rw [hinsert] at hget ⊢
    rw [modify, hget, modify, hv]
    simp only [insert, Entries.insert_insert, Function.comp_apply]

theorem get?_map (t : Table κ α) (f : α → β) (k : κ) : (t.map f).get? k = (t.get? k).map f := by
  obtain ⟨entries, hnodup⟩ := t
  simp only [map, get?]
  clear hnodup
  induction entries with
  | nil => rfl
  | cons entry rest ih =>
    by_cases h : entry.1 = k
    · simp [Entries.get?, h]
    · simp [Entries.get?, h, ih]

/-- The listed entries are the successful lookups. -/
theorem mem_entries_iff (t : Table κ α) (k : κ) (v : α) :
    (k, v) ∈ t.entries ↔ t.get? k = some v :=
  Entries.mem_iff_get? t.nodup_keys k v

theorem mem_values_iff (t : Table κ α) (v : α) : v ∈ t.values ↔ ∃ k, t.get? k = some v := by
  simp only [values, List.mem_map, Prod.exists, exists_eq_right]
  exact exists_congr fun k => t.mem_entries_iff k v

theorem contains_iff (t : Table κ α) (k : κ) : t.contains k = true ↔ ∃ v, t.get? k = some v :=
  Option.isSome_iff_exists

theorem contains_insert (t : Table κ α) (k k' : κ) (v : α) :
    (t.insert k v).contains k' = true ↔ k' = k ∨ t.contains k' = true := by
  unfold contains
  rw [get?_insert]
  by_cases h : k = k'
  · simp [h]
  · simp [h, Ne.symm h]

theorem contains_erase (t : Table κ α) (k k' : κ) :
    (t.erase k).contains k' = true ↔ t.contains k' = true ∧ k' ≠ k := by
  unfold contains
  rw [get?_erase]
  by_cases h : k = k'
  · simp [h]
  · simp [h, Ne.symm h]

@[simp] theorem contains_modify (t : Table κ α) (k k' : κ) (f : α → α) :
    (t.modify k f).contains k' = t.contains k' := by
  unfold contains
  rw [get?_modify]
  split <;> simp

/-- Whatever a map of entries holds is one of them. -/
theorem mem_of_get?_ofList {entries : List (κ × α)} {k : κ} {v : α}
    (h : (ofList entries).get? k = some v) : (k, v) ∈ entries := by
  have hfold : ∀ (entries : List (κ × α)) (t : Table κ α),
      (entries.foldl (fun t entry => t.insert entry.1 entry.2) t).get? k = some v →
        (k, v) ∈ entries ∨ t.get? k = some v := by
    intro entries
    induction entries with
    | nil => exact fun t ht => Or.inr ht
    | cons entry entries ih =>
      intro t ht
      rcases ih _ ht with hmem | hget
      · exact Or.inl (List.mem_cons_of_mem _ hmem)
      · rw [get?_insert] at hget
        split at hget
        · rename_i hkey
          cases hget
          exact Or.inl (hkey ▸ List.mem_cons_self)
        · exact Or.inr hget
  rcases hfold entries empty h with hmem | hempty
  · exact hmem
  · cases hempty

end Table

end IrcClient
