import IrcClient.Text.Width

/-!
# Cutting at byte widths

What a cut at a byte width keeps and what it drops.
-/

namespace IrcClient.Text

/-- The library counts the same bytes. -/
theorem utf8ByteSize_ofList (cs : List Char) : (String.ofList cs).utf8ByteSize = byteLength cs := by
  induction cs with
  | nil => rfl
  | cons c cs ih =>
    rw [String.ofList_cons, String.utf8ByteSize_append, String.utf8ByteSize_singleton, ih, byteLength]

/-- So does the length of the encoded text. -/
theorem length_flatMap_utf8EncodeChar (cs : List Char) :
    (cs.flatMap String.utf8EncodeChar).length = byteLength cs := by
  induction cs with
  | nil => rfl
  | cons c cs ih =>
    rw [List.flatMap_cons, List.length_append, String.length_utf8EncodeChar, ih, byteLength]

/-- Characters of one byte each need as many bytes as there are of them. -/
theorem byteLength_eq_length {cs : List Char} (h : ∀ c ∈ cs, c.utf8Size = 1) :
    byteLength cs = cs.length := by
  induction cs with
  | nil => rfl
  | cons c cs ih =>
    rw [byteLength, h c List.mem_cons_self, ih fun d hd => h d (List.mem_cons_of_mem c hd),
      List.length_cons, Nat.add_comm]

theorem takeBytes_cons (room : Nat) (c : Char) (cs : List Char) :
    takeBytes room (c :: cs) =
      if c.utf8Size ≤ room then c :: takeBytes (room - c.utf8Size) cs else [] := by
  unfold takeBytes
  rw [splitAtBytes]
  split <;> rfl

theorem takeBytes_subset (room : Nat) (cs : List Char) : takeBytes room cs ⊆ cs := by
  intro c hc
  rw [← splitAtBytes_append room cs]
  exact List.mem_append_left _ hc

/-- A text that fits is kept whole. -/
theorem takeBytes_of_le {room : Nat} {cs : List Char} (h : byteLength cs ≤ room) :
    takeBytes room cs = cs := by
  induction cs generalizing room with
  | nil => rfl
  | cons c cs ih =>
    simp only [byteLength] at h
    rw [takeBytes_cons, if_pos (by omega), ih (by omega)]

/-- A front that fits is kept, and what follows it has the room that is left. -/
theorem takeBytes_append_of_le {room : Nat} {front : List Char} (h : byteLength front ≤ room)
    (rest : List Char) :
    takeBytes room (front ++ rest) = front ++ takeBytes (room - byteLength front) rest := by
  induction front generalizing room with
  | nil => rfl
  | cons c front ih =>
    simp only [byteLength] at h
    rw [List.cons_append, takeBytes_cons, if_pos (by omega), ih (by omega), byteLength,
      Nat.sub_add_eq, List.cons_append]

/-- What comes after a text does not matter for a character that it does not have. -/
theorem mem_takeBytes_append {c : Char} {ys : List Char} (h : c ∉ ys) (room : Nat) (xs : List Char) :
    c ∈ takeBytes room (xs ++ ys) ↔ c ∈ takeBytes room xs := by
  induction xs generalizing room with
  | nil =>
    constructor
    · exact fun hmem => absurd (takeBytes_subset room ys hmem) h
    · exact fun hmem => absurd (takeBytes_subset room [] hmem) List.not_mem_nil
  | cons x xs ih =>
    rw [List.cons_append, takeBytes_cons, takeBytes_cons]
    split
    · rw [List.mem_cons, List.mem_cons, ih]
    · rfl

theorem flatten_partsFrom (room left : Nat) (part cs : List Char) :
    (partsFrom room left part cs).flatten = part.reverse ++ cs := by
  induction cs generalizing left part with
  | nil =>
    unfold partsFrom
    split
    · rename_i hempty
      rw [List.isEmpty_iff.mp hempty]
      rfl
    · simp
  | cons c cs ih =>
    unfold partsFrom
    split
    · rw [ih]
      simp
    · rw [List.flatten_cons, ih]
      simp

/-- The parts of a text are the text. -/
theorem flatten_partsWithin (room : Nat) (cs : List Char) : (partsWithin room cs).flatten = cs :=
  flatten_partsFrom room room [] cs

theorem subset_of_mem_partsWithin {room : Nat} {cs part : List Char}
    (h : part ∈ partsWithin room cs) : part ⊆ cs := by
  intro c hc
  rw [← flatten_partsWithin room cs]
  exact List.mem_flatten_of_mem h hc

theorem partsWithin_ne_nil {cs : List Char} (h : cs ≠ []) (room : Nat) : partsWithin room cs ≠ [] := by
  intro hnil
  apply h
  rw [← flatten_partsWithin room cs, hnil]
  rfl

/-- A text of whole groups of one-byte characters is cut between groups. -/
theorem dvd_length_of_mem_partsFrom {group room left : Nat} {begun cs part : List Char}
    (hroom : group ∣ room) (hpos : 0 < room) (hleft : begun.length + left = room)
    (hsize : ∀ c ∈ cs, c.utf8Size = 1) (hgroups : group ∣ begun.length + cs.length)
    (h : part ∈ partsFrom room left begun cs) : group ∣ part.length := by
  induction cs generalizing left begun with
  | nil =>
    rw [partsFrom] at h
    split at h
    · cases h
    · rw [List.mem_singleton.mp h, List.length_reverse]
      exact hgroups
  | cons c cs ih =>
    have hc : c.utf8Size = 1 := hsize c List.mem_cons_self
    have hcs : ∀ d ∈ cs, d.utf8Size = 1 := fun d hd => hsize d (List.mem_cons_of_mem c hd)
    rw [List.length_cons] at hgroups
    rw [partsFrom, hc] at h
    split at h
    · rename_i hfits
      have hspare : 1 ≤ left := by
        rcases Bool.or_eq_true_iff.mp hfits with hempty | hone
        · rw [List.isEmpty_iff.mp hempty, List.length_nil] at hleft
          omega
        · exact of_decide_eq_true hone
      refine ih ?_ hcs ?_ h
      · rw [List.length_cons]
        omega
      · rw [List.length_cons, Nat.add_right_comm]
        exact hgroups
    · rename_i hfull
      have hnone : left = 0 := by
        simp only [Bool.or_eq_true, not_or, decide_eq_true_eq] at hfull
        omega
      have hbegun : group ∣ begun.length := by
        rw [hnone, Nat.add_zero] at hleft
        rw [hleft]
        exact hroom
      rcases List.mem_cons.mp h with rfl | hlater
      · rw [List.length_reverse]
        exact hbegun
      · refine ih ?_ hcs ?_ hlater
        · rw [List.length_singleton]
          omega
        · rw [List.length_singleton, Nat.add_comm]
          exact (Nat.dvd_add_right hbegun).mp hgroups

end IrcClient.Text
