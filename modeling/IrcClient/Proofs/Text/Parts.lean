import IrcClient.Proofs.Text.Width
import Mathlib.Data.List.Infix

/-!
# The parts of a text

A text is cut off at the last place between two characters that a byte limit allows, and it is cut
into parts by doing so again and again. A search that goes back from the limit byte by byte ends at
the same place.
-/

namespace IrcClient.Text

/-! ## The longest start -/

theorem byteLength_le_of_isPrefix {start cs : List Char} (h : start <+: cs) :
    byteLength start ≤ byteLength cs := by
  obtain ⟨rest, rfl⟩ := h
  rw [byteLength_append]
  exact Nat.le_add_right _ _

theorem takeBytes_isPrefix (room : Nat) (cs : List Char) : takeBytes room cs <+: cs :=
  ⟨_, splitAtBytes_append room cs⟩

/-- What is taken begins with every start of the text that fits. -/
theorem prefix_takeBytes_iff {room : Nat} {start cs : List Char} :
    start <+: takeBytes room cs ↔ start <+: cs ∧ byteLength start ≤ room := by
  constructor
  · intro h
    refine ⟨h.trans (takeBytes_isPrefix room cs), ?_⟩
    exact Nat.le_trans (byteLength_le_of_isPrefix h) (byteLength_takeBytes_le room cs)
  · rintro ⟨⟨rest, rfl⟩, hfits⟩
    induction start generalizing room with
    | nil => exact List.nil_prefix
    | cons c start ih =>
      rw [byteLength] at hfits
      rw [List.cons_append, takeBytes_cons, if_pos (by omega)]
      exact (List.prefix_cons_inj c).mpr (ih (by omega))

/-! ## Going back from a byte offset -/

/-- Whether a byte offset falls between two characters, or at an end of the text. -/
def isBoundary : List Char → Nat → Bool
  | _, 0 => true
  | [], _ + 1 => false
  | c :: cs, offset + 1 => c.utf8Size ≤ offset + 1 && isBoundary cs (offset + 1 - c.utf8Size)

/-- Goes back from an offset to the next boundary. There is none if the search would have to go on
below zero. -/
def boundaryBelow? (cs : List Char) : Nat → Option Nat
  | 0 => if isBoundary cs 0 then some 0 else none
  | offset + 1 => if isBoundary cs (offset + 1) then some (offset + 1) else boundaryBelow? cs offset

/-- The last boundary up to an offset, which may lie behind the end. -/
def floorBoundary? (cs : List Char) (offset : Nat) : Option Nat :=
  if byteLength cs ≤ offset then some (byteLength cs) else boundaryBelow? cs offset

theorem isBoundary_iff {cs : List Char} {offset : Nat} :
    isBoundary cs offset = true ↔ ∃ start, start <+: cs ∧ byteLength start = offset := by
  induction cs generalizing offset with
  | nil =>
    cases offset with
    | zero => simp [isBoundary, byteLength]
    | succ offset => simp [isBoundary, byteLength]
  | cons c cs ih =>
    have hsize := c.utf8Size_pos
    cases offset with
    | zero => exact iff_of_true (by simp [isBoundary]) ⟨[], List.nil_prefix, rfl⟩
    | succ offset =>
      rw [isBoundary, Bool.and_eq_true, decide_eq_true_iff, ih]
      constructor
      · rintro ⟨hle, start, hstart, hlength⟩
        refine ⟨c :: start, (List.prefix_cons_inj c).mpr hstart, ?_⟩
        rw [byteLength, hlength]
        omega
      · rintro ⟨start, hstart, hlength⟩
        cases start with
        | nil => cases hlength
        | cons d start =>
          obtain ⟨rfl, hrest⟩ := List.cons_prefix_cons.mp hstart
          rw [byteLength] at hlength
          exact ⟨by omega, start, hrest, by omega⟩

theorem boundaryBelow?_eq (cs : List Char) (offset : Nat) :
    boundaryBelow? cs offset = some (byteLength (takeBytes offset cs)) := by
  induction offset with
  | zero =>
    have hnone : byteLength (takeBytes 0 cs) = 0 := Nat.le_zero.mp (byteLength_takeBytes_le 0 cs)
    rw [boundaryBelow?, if_pos (by rw [isBoundary]), hnone]
  | succ offset ih =>
    have hle := byteLength_takeBytes_le (offset + 1) cs
    rw [boundaryBelow?]
    split
    · rename_i hboundary
      obtain ⟨start, hstart, hlength⟩ := isBoundary_iff.mp hboundary
      have htaken := prefix_takeBytes_iff.mpr ⟨hstart, Nat.le_of_eq hlength⟩
      have := byteLength_le_of_isPrefix htaken
      rw [Option.some.injEq]
      omega
    · -- What is taken ends before the offset, and so nothing more fits than one byte earlier.
      rename_i hinside
      have hne : byteLength (takeBytes (offset + 1) cs) ≠ offset + 1 := fun heq =>
        hinside (isBoundary_iff.mpr ⟨_, takeBytes_isPrefix _ cs, heq⟩)
      have hforth := prefix_takeBytes_iff.mpr
        ⟨takeBytes_isPrefix (offset + 1) cs, (by omega : _ ≤ offset)⟩
      have hback := prefix_takeBytes_iff.mpr ⟨takeBytes_isPrefix offset cs,
        Nat.le_succ_of_le (byteLength_takeBytes_le offset cs)⟩
      rw [ih, hback.eq_of_length_le hforth.length_le]

/-- The search ends where the cut falls, and never goes below zero. -/
theorem floorBoundary?_eq (cs : List Char) (offset : Nat) :
    floorBoundary? cs offset = some (byteLength (takeBytes offset cs)) := by
  unfold floorBoundary?
  split
  · rename_i hfits
    rw [takeBytes_of_le hfits]
  · exact boundaryBelow?_eq cs offset

/-! ## Consecutive parts -/

/-- A part is as long as possible if the next one begins with a character that it has no room
for. -/
def Full (room : Nat) (part next : List Char) : Prop :=
  ∃ c, next.head? = some c ∧ room < byteLength part + c.utf8Size

/-- A part has its place in the room, or is a single character that is too wide for it. -/
def Placed (room : Nat) (part : List Char) : Prop :=
  byteLength part ≤ room ∨ ∃ c, part = [c] ∧ room < c.utf8Size

theorem byteLength_reverse (cs : List Char) : byteLength cs.reverse = byteLength cs := by
  induction cs with
  | nil => rfl
  | cons c cs ih =>
    rw [List.reverse_cons, byteLength_append, ih]
    simp only [byteLength]
    omega

variable {room left : Nat} {begun cs part : List Char}

theorem ne_nil_of_mem_partsFrom (h : part ∈ partsFrom room left begun cs) : part ≠ [] := by
  induction cs generalizing left begun with
  | nil =>
    rw [partsFrom] at h
    split at h
    · cases h
    · rename_i hbegun
      rw [List.mem_singleton.mp h]
      simpa using hbegun
  | cons c cs ih =>
    rw [partsFrom] at h
    split at h
    · exact ih h
    · rename_i hfull
      rcases List.mem_cons.mp h with rfl | hlater
      · simp only [Bool.or_eq_true, not_or] at hfull
        simpa using hfull.1
      · exact ih hlater

/-- The first part goes on with what is begun. -/
theorem head_partsFrom (hbegun : begun ≠ []) :
    ∃ more parts, partsFrom room left begun cs = (begun.reverse ++ more) :: parts := by
  induction cs generalizing left begun with
  | nil => exact ⟨[], [], by simp [partsFrom, hbegun]⟩
  | cons c cs ih =>
    rw [partsFrom]
    split
    · obtain ⟨more, parts, hparts⟩ := @ih (left - c.utf8Size) _ (List.cons_ne_nil c begun)
      exact ⟨c :: more, parts, by rw [hparts]; simp⟩
    · exact ⟨[], _, by rw [List.append_nil]⟩

theorem isChain_partsFrom (hleft : left = room - byteLength begun) :
    (partsFrom room left begun cs).IsChain (Full room) := by
  induction cs generalizing left begun with
  | nil =>
    rw [partsFrom]
    split
    · exact .nil
    · exact .singleton _
  | cons c cs ih =>
    rw [partsFrom]
    split
    · refine ih ?_
      rw [byteLength]
      omega
    · rename_i hfull
      have hlater := @ih (room - c.utf8Size) [c] (by simp [byteLength])
      obtain ⟨more, parts, hparts⟩ : ∃ more parts,
          partsFrom room (room - c.utf8Size) [c] cs = ([c].reverse ++ more) :: parts :=
        head_partsFrom (List.cons_ne_nil c [])
      rw [hparts] at hlater ⊢
      refine .cons_cons ⟨c, rfl, ?_⟩ hlater
      simp only [Bool.or_eq_true, not_or, decide_eq_true_eq] at hfull
      rw [byteLength_reverse]
      omega

theorem placed_singleton (room : Nat) (c : Char) : Placed room [c] := by
  rcases Nat.lt_or_ge room c.utf8Size with hwide | hfits
  · exact Or.inr ⟨c, rfl, hwide⟩
  · exact Or.inl (by simpa [byteLength] using hfits)

theorem placed_of_mem_partsFrom (hleft : left = room - byteLength begun)
    (hbegun : Placed room begun.reverse) (h : part ∈ partsFrom room left begun cs) :
    Placed room part := by
  induction cs generalizing left begun with
  | nil =>
    rw [partsFrom] at h
    split at h
    · cases h
    · rwa [List.mem_singleton.mp h]
  | cons c cs ih =>
    rw [partsFrom] at h
    split at h
    · rename_i hgoes
      refine ih ?_ ?_ h
      · rw [byteLength]
        omega
      · rcases Bool.or_eq_true_iff.mp hgoes with hempty | hfits
        · rw [List.isEmpty_iff.mp hempty]
          exact placed_singleton room c
        · have hsize := c.utf8Size_pos
          rw [decide_eq_true_iff] at hfits
          left
          rw [byteLength_reverse, byteLength]
          omega
    · rcases List.mem_cons.mp h with rfl | hlater
      · exact hbegun
      · exact @ih _ [c] (by simp [byteLength]) (placed_singleton room c) hlater

theorem ne_nil_of_mem_partsWithin (h : part ∈ partsWithin room cs) : part ≠ [] :=
  ne_nil_of_mem_partsFrom h

/-- Every part but the last is as long as possible. -/
theorem isChain_partsWithin (room : Nat) (cs : List Char) : (partsWithin room cs).IsChain (Full room) :=
  isChain_partsFrom rfl

theorem placed_of_mem_partsWithin (h : part ∈ partsWithin room cs) : Placed room part :=
  have hbegun : Placed room ([] : List Char).reverse := Or.inl (Nat.zero_le room)
  placed_of_mem_partsFrom rfl hbegun h

/-- All parts have their place unless the text has a character that is too wide. -/
theorem partsWithin_fit_iff :
    (∀ part ∈ partsWithin room cs, byteLength part ≤ room) ↔ ∀ c ∈ cs, c.utf8Size ≤ room := by
  constructor
  · intro hparts c hc
    rw [← flatten_partsWithin room cs] at hc
    obtain ⟨part, hpart, hmem⟩ := List.mem_flatten.mp hc
    obtain ⟨before, after, rfl⟩ := List.append_of_mem hmem
    have hfits := hparts _ hpart
    rw [byteLength_append, byteLength] at hfits
    omega
  · intro hnarrow part hpart
    rcases placed_of_mem_partsWithin hpart with hfits | ⟨c, rfl, hwide⟩
    · exact hfits
    · have hmem : c ∈ cs := subset_of_mem_partsWithin hpart (List.mem_singleton.mpr rfl)
      exact absurd (hnarrow c hmem) (Nat.not_le.mpr hwide)

theorem dvd_byteLength_flatten {parts : List (List Char)}
    (h : ∀ part ∈ parts, byteLength part = room) : room ∣ byteLength parts.flatten := by
  induction parts with
  | nil => exact Nat.dvd_zero room
  | cons part parts ih =>
    rw [List.flatten_cons, byteLength_append, h part List.mem_cons_self]
    exact Nat.dvd_add_self_left.mpr (ih fun part hpart => h part (List.mem_cons_of_mem _ hpart))

/-- In a chain every entry but the last has a next one. -/
theorem exists_next_of_mem_dropLast {α : Type} {R : α → α → Prop} {xs : List α} (h : xs.IsChain R)
    {x : α} (hx : x ∈ xs.dropLast) : ∃ y ∈ xs, R x y := by
  induction xs with
  | nil => cases hx
  | cons first xs ih =>
    cases xs with
    | nil => cases hx
    | cons second xs =>
      obtain ⟨hnext, hrest⟩ := List.isChain_cons_cons.mp h
      rcases List.mem_cons.mp hx with rfl | hlater
      · exact ⟨second, List.mem_cons_of_mem _ List.mem_cons_self, hnext⟩
      · obtain ⟨y, hy, hxy⟩ := ih hrest hlater
        exact ⟨y, List.mem_cons_of_mem _ hy, hxy⟩

/-- If every character is one byte, every part but the last takes up the whole room. -/
theorem byteLength_of_mem_dropLast (hroom : 0 < room) (hsize : ∀ c ∈ cs, c.utf8Size = 1)
    (h : part ∈ (partsWithin room cs).dropLast) : byteLength part = room := by
  have hmem := List.mem_of_mem_dropLast h
  obtain ⟨next, hnext, c, hhead, hfull⟩ := exists_next_of_mem_dropLast (isChain_partsWithin room cs) h
  have hc : c ∈ cs := subset_of_mem_partsWithin hnext (List.mem_of_mem_head? hhead)
  have hfits : byteLength part ≤ room :=
    partsWithin_fit_iff.mpr (fun d hd => (hsize d hd).trans_le hroom) part hmem
  rw [hsize c hc] at hfull
  omega

end IrcClient.Text
