import IrcClient.CaseMapping
import IrcClient.Proofs.Text.Width

/-!
# Names that are the same

Two names are the same exactly when they have the same lower form. A mapping changes ASCII characters
only, into one another, so that names of different lengths in bytes never have the same lower form.
Of the three mappings each identifies whatever a narrower one does.
-/

namespace IrcClient.CaseMapping

variable (m : CaseMapping)

theorem utf8Size_brackets (c : Char) : (fold.brackets c).utf8Size = c.utf8Size := by
  unfold fold.brackets
  split
  · rename_i h
    subst h
    rfl
  · split
    · rename_i h
      subst h
      rfl
    · split
      · rename_i h
        subst h
        rfl
      · rfl

theorem utf8Size_toLower {c : Char} (h : c ≤ 'Z') : c.toLower.utf8Size = c.utf8Size := by
  have hbound : c.val.toNat ≤ 90 := h
  have hsmall : c.utf8Size = 1 :=
    Char.utf8Size_eq_one_iff.mpr (UInt32.le_iff_toNat_le.mpr (Nat.le_trans hbound (by decide)))
  unfold Char.toLower
  split
  · rw [hsmall, Char.utf8Size_eq_one_iff, UInt32.le_iff_toNat_le, UInt32.toNat_add]
    have hsum : c.val.toNat + UInt32.toNat 32 ≤ 127 :=
      Nat.le_trans (Nat.add_le_add_right hbound _) (by decide)
    exact Nat.le_trans (Nat.mod_le _ (2 ^ 32)) hsum
  · rfl

theorem utf8Size_fold (c : Char) : (m.fold c).utf8Size = c.utf8Size := by
  unfold fold
  split
  · rename_i h
    exact utf8Size_toLower h.2
  · split
    · rfl
    · exact utf8Size_brackets c
    · split
      · rename_i h
        subst h
        rfl
      · exact utf8Size_brackets c

theorem byteLength_map_fold (cs : List Char) :
    Text.byteLength (cs.map m.fold) = Text.byteLength cs := by
  induction cs with
  | nil => rfl
  | cons c cs ih => simp only [List.map_cons, Text.byteLength, utf8Size_fold, ih]

/-- Letters that agree as far as both texts go make the texts agree, if these are equally long. -/
theorem map_fold_eq_of_zip {as bs : List Char}
    (hlength : Text.byteLength as = Text.byteLength bs)
    (hzip : ∀ pair ∈ as.zip bs, m.fold pair.1 = m.fold pair.2) : as.map m.fold = bs.map m.fold := by
  induction as generalizing bs with
  | nil =>
    cases bs with
    | nil => rfl
    | cons b bs =>
      have hpos := b.utf8Size_pos
      simp only [Text.byteLength] at hlength
      omega
  | cons a as ih =>
    cases bs with
    | nil =>
      have hpos := a.utf8Size_pos
      simp only [Text.byteLength] at hlength
      omega
    | cons b bs =>
      have hhead : m.fold a = m.fold b := hzip (a, b) List.mem_cons_self
      have hsize : a.utf8Size = b.utf8Size := by rw [← m.utf8Size_fold a, hhead, m.utf8Size_fold]
      simp only [Text.byteLength, hsize] at hlength
      have htail := ih (Nat.add_left_cancel hlength) fun pair hpair =>
        hzip pair (List.mem_cons_of_mem _ hpair)
      rw [List.map_cons, List.map_cons, hhead, htail]

theorem fold_eq_of_mem_zip {as bs : List Char} (h : as.map m.fold = bs.map m.fold)
    {pair : Char × Char} (hpair : pair ∈ as.zip bs) : m.fold pair.1 = m.fold pair.2 := by
  induction as generalizing bs with
  | nil => cases hpair
  | cons a as ih =>
    cases bs with
    | nil => cases hpair
    | cons b bs =>
      rw [List.map_cons, List.map_cons, List.cons.injEq] at h
      rcases List.mem_cons.mp hpair with rfl | hrest
      · exact h.1
      · exact ih h.2 hrest

theorem same_iff {a b : String} : m.same a b = true ↔ m.normalize a = m.normalize b := by
  have hlower : m.normalize a = m.normalize b ↔ a.toList.map m.fold = b.toList.map m.fold := by
    simp only [normalize, String.ofList_inj]
  rw [hlower]
  simp only [same, Bool.and_eq_true, beq_iff_eq, List.all_eq_true]
  constructor
  · rintro ⟨hlength, hzip⟩
    exact m.map_fold_eq_of_zip hlength hzip
  · intro heq
    refine ⟨?_, ?_⟩
    · rw [← m.byteLength_map_fold a.toList, heq, m.byteLength_map_fold]
    · exact fun pair hpair => m.fold_eq_of_mem_zip heq hpair

/-- The lower form of a name takes up as many bytes as the name. -/
theorem utf8ByteSize_normalize (name : String) :
    (m.normalize name).utf8ByteSize = name.utf8ByteSize := by
  rw [normalize, Text.utf8ByteSize_ofList, byteLength_map_fold, ← Text.utf8ByteSize_ofList,
    String.ofList_toList]

/-! ## Broader and narrower mappings -/

/-- How much a mapping identifies, as its place among the mappings. -/
def breadth : CaseMapping → Nat
  | ascii => 0
  | strictRfc1459 => 1
  | rfc1459 => 2

/-- No mapping changes a character beyond ASCII. -/
theorem fold_of_wide {c : Char} (h : 128 ≤ c.toNat) : m.fold c = c := by
  have hne {d : Char} (hd : d.toNat < 128) : c ≠ d := by
    rintro rfl
    omega
  have hletter : ¬ ('A' ≤ c ∧ c ≤ 'Z') := by
    rintro ⟨-, hle⟩
    have hbound : c.toNat ≤ 90 := hle
    omega
  have hbrackets : fold.brackets c = c := by
    rw [fold.brackets, if_neg (hne (by decide)), if_neg (hne (by decide)), if_neg (hne (by decide))]
  unfold fold
  rw [if_neg hletter]
  cases m with
  | ascii => rfl
  | strictRfc1459 => exact hbrackets
  | rfc1459 => exact (if_neg (hne (by decide))).trans hbrackets

variable {m} {m' : CaseMapping}

/-- To a mapping that is at least as broad, a character and its lower form are the same. -/
theorem fold_fold (h : m.breadth ≤ m'.breadth) (c : Char) : m'.fold (m.fold c) = m'.fold c := by
  by_cases hascii : c.toNat < 128
  · have htable : ∀ n < 128, m'.fold (m.fold (Char.ofNat n)) = m'.fold (Char.ofNat n) := by
      cases m <;> cases m' <;> revert h <;> decide
    simpa only [Char.ofNat_toNat] using htable c.toNat hascii
  · rw [m.fold_of_wide (Nat.le_of_not_lt hascii)]

theorem normalize_normalize (h : m.breadth ≤ m'.breadth) (name : String) :
    m'.normalize (m.normalize name) = m'.normalize name := by
  rw [normalize, normalize, normalize, String.toList_ofList, List.map_map]
  exact congrArg String.ofList (List.map_congr_left fun c _ => fold_fold h c)

theorem same_of_breadth_le (h : m.breadth ≤ m'.breadth) {a b : String} (hsame : m.same a b = true) :
    m'.same a b = true := by
  rw [same_iff, ← normalize_normalize h a, m.same_iff.mp hsame, normalize_normalize h]

end IrcClient.CaseMapping
