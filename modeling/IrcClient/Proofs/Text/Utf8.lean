import IrcClient.Text.Utf8

/-!
# Reading UTF-8 back

The machine that reads bytes gives back every text from its bytes, one character after another.
-/

namespace IrcClient.Text.Utf8

theorem toNat_ofNat {n : Nat} (h : n < 256) : (UInt8.ofNat n).toNat = n :=
  UInt8.toNat_ofNat_of_lt' h

/-- The first byte of a character, as a number. -/
theorem start_ofNat {n : Nat} (h : n < 256) :
    start (UInt8.ofNat n) =
      if n < 0x80 then ([Char.ofNat n], none)
      else if n < 0xC2 then ([replacement], none)
      else if n < 0xE0 then ([], some ⟨1, 0x80, 0xBF, n % 0x20⟩)
      else if n = 0xE0 then ([], some ⟨2, 0xA0, 0xBF, 0⟩)
      else if n = 0xED then ([], some ⟨2, 0x80, 0x9F, 0xD⟩)
      else if n < 0xF0 then ([], some ⟨2, 0x80, 0xBF, n % 0x10⟩)
      else if n = 0xF0 then ([], some ⟨3, 0x90, 0xBF, 0⟩)
      else if n < 0xF4 then ([], some ⟨3, 0x80, 0xBF, n % 0x08⟩)
      else if n = 0xF4 then ([], some ⟨3, 0x80, 0x8F, 4⟩)
      else ([replacement], none) := by
  simp only [start, UInt8.lt_iff_toNat_lt, ← UInt8.toNat_inj, toNat_ofNat h, UInt8.reduceToNat]

/-- The bounds on the byte after the first one let every byte through that a character can have
there. -/
theorem start_three {n m : Nat} (hlow : 0xE0 ≤ n) (hhigh : n < 0xF0) (hm : 0x80 ≤ m ∧ m ≤ 0xBF)
    (hoverlong : n = 0xE0 → 0xA0 ≤ m) (hsurrogate : n = 0xED → m ≤ 0x9F) :
    ∃ low high, start (UInt8.ofNat n) = ([], some ⟨2, low, high, n % 0x10⟩) ∧
      low.toNat ≤ m ∧ m ≤ high.toNat := by
  rw [start_ofNat (by omega), if_neg (by omega), if_neg (by omega), if_neg (by omega)]
  split
  · rename_i hn
    exact ⟨0xA0, 0xBF, by rw [hn], hoverlong hn, hm.2⟩
  · split
    · rename_i hn
      exact ⟨0x80, 0x9F, by rw [hn], hm.1, hsurrogate hn⟩
    · exact ⟨0x80, 0xBF, rfl, hm⟩

theorem start_four {n m : Nat} (hlow : 0xF0 ≤ n) (hhigh : n ≤ 0xF4) (hm : 0x80 ≤ m ∧ m ≤ 0xBF)
    (hoverlong : n = 0xF0 → 0x90 ≤ m) (hbeyond : n = 0xF4 → m ≤ 0x8F) :
    ∃ low high, start (UInt8.ofNat n) = ([], some ⟨3, low, high, n % 0x08⟩) ∧
      low.toNat ≤ m ∧ m ≤ high.toNat := by
  rw [start_ofNat (by omega), if_neg (by omega), if_neg (by omega), if_neg (by omega),
    if_neg (by omega), if_neg (by omega), if_neg (by omega)]
  split
  · rename_i hn
    exact ⟨0x90, 0xBF, by rw [hn], hoverlong hn, hm.2⟩
  · split
    · exact ⟨0x80, 0xBF, rfl, hm⟩
    · have hn : n = 0xF4 := by omega
      rw [if_pos hn]
      exact ⟨0x80, 0x8F, by rw [hn], hm.1, hbeyond hn⟩

/-- A byte that continues a character, as a number. -/
theorem step_ofNat {p : Partial} {n : Nat} (h : n < 256) (hlow : p.low.toNat ≤ n)
    (hhigh : n ≤ p.high.toNat) :
    step (some p) (UInt8.ofNat n) =
      if p.owed ≤ 1 then ([Char.ofNat (p.value * 0x40 + n % 0x40)], none)
      else ([], some ⟨p.owed - 1, 0x80, 0xBF, p.value * 0x40 + n % 0x40⟩) := by
  simp only [step, UInt8.le_iff_toNat_le, payload, toNat_ofNat h]
  rw [if_pos ⟨hlow, hhigh⟩]

section Characters

variable {low high : UInt8} {value n v : Nat} (bs : List UInt8)

theorem decodeFrom_last (h : n < 256) (hlow : low.toNat ≤ n) (hhigh : n ≤ high.toNat) :
    decodeFrom (some ⟨1, low, high, value⟩) (UInt8.ofNat n :: bs) =
      Char.ofNat (value * 0x40 + n % 0x40) :: decodeFrom none bs := by
  rw [decodeFrom, step_ofNat h hlow hhigh]
  rfl

theorem decodeFrom_more {owed : Nat} (h : n < 256) (hlow : low.toNat ≤ n) (hhigh : n ≤ high.toNat) :
    decodeFrom (some ⟨owed + 2, low, high, value⟩) (UInt8.ofNat n :: bs) =
      decodeFrom (some ⟨owed + 1, 0x80, 0xBF, value * 0x40 + n % 0x40⟩) bs := by
  rw [decodeFrom, step_ofNat h hlow hhigh]
  rfl

theorem decodeFrom_start {p : Partial} {b : UInt8} (h : start b = ([], some p)) :
    decodeFrom none (b :: bs) = decodeFrom (some p) bs := by
  rw [decodeFrom, step, h]
  rfl

theorem decodeFrom_one (hv : v ≤ 0x7F) :
    decodeFrom none (UInt8.ofNat v :: bs) = Char.ofNat v :: decodeFrom none bs := by
  rw [decodeFrom, step, start_ofNat (by omega), if_pos (by omega)]
  rfl

theorem decodeFrom_two (hlow : 0x7F < v) (hhigh : v ≤ 0x7FF) :
    decodeFrom none (UInt8.ofNat (v / 64 % 0x20 + 0xC0) :: UInt8.ofNat (v % 0x40 + 0x80) :: bs) =
      Char.ofNat v :: decodeFrom none bs := by
  have hstart : start (UInt8.ofNat (v / 64 % 0x20 + 0xC0)) =
      ([], some ⟨1, 0x80, 0xBF, (v / 64 % 0x20 + 0xC0) % 0x20⟩) := by
    rw [start_ofNat (by omega), if_neg (by omega), if_neg (by omega), if_pos (by omega)]
  have hvalue : (v / 64 % 0x20 + 0xC0) % 0x20 * 0x40 + (v % 0x40 + 0x80) % 0x40 = v := by omega
  rw [decodeFrom_start _ hstart, decodeFrom_last, hvalue]
  · omega
  · change 0x80 ≤ _
    omega
  · change _ ≤ 0xBF
    omega

theorem decodeFrom_three (hlow : 0x7FF < v) (hhigh : v ≤ 0xFFFF) (hvalid : v.isValidChar) :
    decodeFrom none (UInt8.ofNat (v / 4096 % 0x10 + 0xE0) :: UInt8.ofNat (v / 64 % 0x40 + 0x80) ::
      UInt8.ofNat (v % 0x40 + 0x80) :: bs) = Char.ofNat v :: decodeFrom none bs := by
  have hrange : v < 0xD800 ∨ 0xDFFF < v := hvalid.imp_right And.left
  obtain ⟨low, high, hstart, hlow', hhigh'⟩ :=
    start_three (n := v / 4096 % 0x10 + 0xE0) (m := v / 64 % 0x40 + 0x80)
      (by omega) (by omega) (by omega) (by omega) (by omega)
  have hvalue : ((v / 4096 % 0x10 + 0xE0) % 0x10 * 0x40 + (v / 64 % 0x40 + 0x80) % 0x40) * 0x40 +
      (v % 0x40 + 0x80) % 0x40 = v := by omega
  rw [decodeFrom_start _ hstart, decodeFrom_more _ (by omega) hlow' hhigh', decodeFrom_last, hvalue]
  · omega
  · change 0x80 ≤ _
    omega
  · change _ ≤ 0xBF
    omega

theorem decodeFrom_four (hlow : 0xFFFF < v) (hvalid : v.isValidChar) :
    decodeFrom none (UInt8.ofNat (v / 262144 % 0x08 + 0xF0) :: UInt8.ofNat (v / 4096 % 0x40 + 0x80) ::
      UInt8.ofNat (v / 64 % 0x40 + 0x80) :: UInt8.ofNat (v % 0x40 + 0x80) :: bs) =
        Char.ofNat v :: decodeFrom none bs := by
  have hrange : v < 0x110000 := by
    rcases hvalid with hsmall | hlarge
    · omega
    · exact hlarge.2
  obtain ⟨low, high, hstart, hlow', hhigh'⟩ :=
    start_four (n := v / 262144 % 0x08 + 0xF0) (m := v / 4096 % 0x40 + 0x80)
      (by omega) (by omega) (by omega) (by omega) (by omega)
  have hvalue : (((v / 262144 % 0x08 + 0xF0) % 0x08 * 0x40 + (v / 4096 % 0x40 + 0x80) % 0x40) * 0x40 +
      (v / 64 % 0x40 + 0x80) % 0x40) * 0x40 + (v % 0x40 + 0x80) % 0x40 = v := by omega
  rw [decodeFrom_start _ hstart, decodeFrom_more _ (by omega) hlow' hhigh', decodeFrom_more,
    decodeFrom_last, hvalue]
  all_goals first
    | omega
    | (change 0x80 ≤ _; omega)
    | (change _ ≤ 0xBF; omega)

end Characters

theorem decodeFrom_encodeChar (c : Char) (bs : List UInt8) :
    decodeFrom none (String.utf8EncodeChar c ++ bs) = c :: decodeFrom none bs := by
  have hc : Char.ofNat c.val.toNat = c := Char.ofNat_toNat c
  have hvalid : c.val.toNat.isValidChar := c.valid
  unfold String.utf8EncodeChar
  dsimp only
  conv => rhs; rw [← hc]
  split
  · rename_i hone
    exact decodeFrom_one bs hone
  · rename_i hone
    split
    · rename_i htwo
      exact decodeFrom_two bs (Nat.lt_of_not_le hone) htwo
    · rename_i htwo
      split
      · rename_i hthree
        exact decodeFrom_three bs (Nat.lt_of_not_le htwo) hthree hvalid
      · rename_i hthree
        exact decodeFrom_four bs (Nat.lt_of_not_le hthree) hvalid

theorem decodeFrom_flatMap_encodeChar (cs : List Char) (bs : List UInt8) :
    decodeFrom none (cs.flatMap String.utf8EncodeChar ++ bs) = cs ++ decodeFrom none bs := by
  induction cs with
  | nil => rfl
  | cons c cs ih =>
    rw [List.flatMap_cons, List.append_assoc, decodeFrom_encodeChar, ih, List.cons_append]

@[simp] theorem decode_encode (text : String) : decode (encode text) = text := by
  have h := decodeFrom_flatMap_encodeChar text.toList []
  rw [List.append_nil] at h
  rw [decode, encode, h, decodeFrom, List.append_nil, String.ofList_toList]

/-! ## Bytes of their own -/

/-- A byte below 0x80 stands for a character of its own and is no part of any other. -/
theorem mem_encodeChar {b : UInt8} (hb : b.toNat < 0x80) (c : Char) :
    b ∈ String.utf8EncodeChar c ↔ c.val.toNat = b.toNat := by
  have hne {n : Nat} (hn : n < 256) (hlow : 0x80 ≤ n) : b ≠ UInt8.ofNat n := by
    intro heq
    rw [heq, toNat_ofNat hn] at hb
    omega
  unfold String.utf8EncodeChar
  dsimp only
  split
  · rename_i hone
    rw [List.mem_singleton, ← UInt8.toNat_inj, toNat_ofNat (by omega), eq_comm]
  · rename_i hone
    have hother : c.val.toNat ≠ b.toNat := by omega
    simp only [hother, iff_false]
    split
    · simp only [List.mem_cons, List.not_mem_nil, or_false, not_or]
      exact ⟨hne (by omega) (by omega), hne (by omega) (by omega)⟩
    · split
      · simp only [List.mem_cons, List.not_mem_nil, or_false, not_or]
        exact ⟨hne (by omega) (by omega), hne (by omega) (by omega), hne (by omega) (by omega)⟩
      · simp only [List.mem_cons, List.not_mem_nil, or_false, not_or]
        exact ⟨hne (by omega) (by omega), hne (by omega) (by omega), hne (by omega) (by omega),
          hne (by omega) (by omega)⟩

theorem mem_encode {b : UInt8} {mark : Char} (hb : b.toNat < 0x80) (hmark : mark.val.toNat = b.toNat)
    (text : String) : b ∈ encode text ↔ mark ∈ text.toList := by
  simp only [encode, List.mem_flatMap, mem_encodeChar hb]
  constructor
  · rintro ⟨c, hc, heq⟩
    have hsame : c = mark := Char.toNat_inj.mp (heq.trans hmark.symm)
    rwa [← hsame]
  · exact fun hmem => ⟨mark, hmem, hmark⟩

end IrcClient.Text.Utf8
