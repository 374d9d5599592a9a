import IrcClient.Proofs.Text.Width
import IrcClient.Text.Base64
import IrcClient.Text.Utf8

/-!
# Reading base64 back

The encoder writes whole groups of four symbols of one byte each. The decoder takes a group apart where
the encoder put it together: in the middle of a text, where four symbols are three bytes, and at its
end, where padding stands for the bytes that are missing.
-/

namespace IrcClient.Text.Base64

/-! ## What is written -/

theorem utf8Size_symbol (n : Nat) : (symbol n).utf8Size = 1 := by
  have halphabet : ∀ n < 63, (symbol n).utf8Size = 1 := by decide
  by_cases h : n < 63
  · exact halphabet n h
  · rw [symbol, if_neg (by omega), if_neg (by omega), if_neg (by omega), if_neg (by omega)]
    rfl

theorem utf8Size_of_mem_encodeChars {bytes : List UInt8} {c : Char} (h : c ∈ encodeChars bytes) :
    c.utf8Size = 1 := by
  fun_induction encodeChars bytes with
  | case1 => cases h
  | case2 a n =>
    simp only [List.mem_cons, List.not_mem_nil, or_false] at h
    rcases h with rfl | rfl | rfl | rfl <;> first | exact utf8Size_symbol _ | rfl
  | case3 a b n =>
    simp only [List.mem_cons, List.not_mem_nil, or_false] at h
    rcases h with rfl | rfl | rfl | rfl <;> first | exact utf8Size_symbol _ | rfl
  | case4 a b c rest n ih =>
    simp only [List.mem_cons] at h
    rcases h with rfl | rfl | rfl | rfl | hrest
    any_goals exact utf8Size_symbol _
    exact ih hrest

theorem four_dvd_length_encodeChars (bytes : List UInt8) : 4 ∣ (encodeChars bytes).length := by
  fun_induction encodeChars bytes with
  | case1 => exact Nat.dvd_zero 4
  | case2 => exact Nat.dvd_refl 4
  | case3 => exact Nat.dvd_refl 4
  | case4 a b c rest n ih =>
    rw [List.length_cons, List.length_cons, List.length_cons, List.length_cons]
    omega

/-- There is no text of no symbols but that of no bytes. -/
theorem encodeChars_ne_nil {bytes : List UInt8} (h : bytes ≠ []) : encodeChars bytes ≠ [] := by
  fun_cases encodeChars bytes with
  | case1 => exact absurd rfl h
  | case2 => exact List.cons_ne_nil _ _
  | case3 => exact List.cons_ne_nil _ _
  | case4 => exact List.cons_ne_nil _ _

/-! ## What is read -/

/-- The byte of a symbol. -/
def letter (n : Nat) : UInt8 := UInt8.ofNat (symbol n).toNat

/-- Symbols are written as one byte each, which is read as the same six bits and is not padding. -/
theorem letter_spec {n : Nat} (h : n < 64) :
    String.utf8EncodeChar (symbol n) = [letter n] ∧ sextet? (letter n) = some n ∧ letter n ≠ pad := by
  have halphabet : ∀ n < 64, String.utf8EncodeChar (symbol n) = [letter n] ∧
      sextet? (letter n) = some n ∧ letter n ≠ pad := by decide
  exact halphabet n h

/-- The bytes of an encoded text. -/
def encodeBytes (bytes : List UInt8) : List UInt8 :=
  (encodeChars bytes).flatMap String.utf8EncodeChar

theorem utf8Encode_encode (bytes : List UInt8) : Utf8.encode (encode bytes) = encodeBytes bytes := by
  rw [Utf8.encode, encode, String.toList_ofList, encodeBytes]

@[simp] theorem encodeBytes_nil : encodeBytes [] = [] := rfl

/-- A last byte is written as two symbols, the second one with bits to spare. -/
theorem encodeBytes_one (a : UInt8) :
    ∃ m n, m < 64 ∧ n < 64 ∧ encodeBytes [a] = [letter m, letter n, pad, pad] ∧
      m * 4 + n / 16 = a.toNat ∧ n % 16 = 0 := by
  have ha := a.toNat_lt
  refine ⟨a.toNat / 4, a.toNat % 4 * 16, by omega, by omega, ?_, by omega, by omega⟩
  simp only [encodeBytes, encodeChars, List.flatMap_cons]
  rw [(letter_spec (by omega)).1, (letter_spec (by omega)).1]
  rfl

/-- Two last bytes are written as three symbols, the third one with bits to spare. -/
theorem encodeBytes_two (a b : UInt8) :
    ∃ m n o, m < 64 ∧ n < 64 ∧ o < 64 ∧
      encodeBytes [a, b] = [letter m, letter n, letter o, pad] ∧
      m * 4 + n / 16 = a.toNat ∧ n % 16 * 16 + o / 4 = b.toNat ∧ o % 4 = 0 := by
  have ha := a.toNat_lt
  have hb := b.toNat_lt
  let bits := a.toNat * 256 + b.toNat
  refine ⟨bits / 1024, bits / 16 % 64, bits % 16 * 4, by omega, by omega, by omega, ?_, by omega,
    by omega, by omega⟩
  simp only [encodeBytes, encodeChars, List.flatMap_cons]
  rw [(letter_spec (by omega)).1, (letter_spec (by omega)).1, (letter_spec (by omega)).1]
  rfl

/-- Three bytes are written as the four symbols of their bits, in front of what follows. -/
theorem encodeBytes_group (a b c : UInt8) (rest : List UInt8) :
    ∃ m n o p, m < 64 ∧ n < 64 ∧ o < 64 ∧ p < 64 ∧
      encodeBytes (a :: b :: c :: rest) =
        letter m :: letter n :: letter o :: letter p :: encodeBytes rest ∧
      m * 4 + n / 16 = a.toNat ∧ n % 16 * 16 + o / 4 = b.toNat ∧ o % 4 * 64 + p = c.toNat := by
  have ha := a.toNat_lt
  have hb := b.toNat_lt
  have hc := c.toNat_lt
  let bits := (a.toNat * 256 + b.toNat) * 256 + c.toNat
  refine ⟨bits / 262144, bits / 4096 % 64, bits / 64 % 64, bits % 64, by omega, by omega, by omega,
    by omega, ?_, by omega, by omega, by omega⟩
  simp only [encodeBytes, encodeChars, List.flatMap_cons]
  rw [(letter_spec (by omega)).1, (letter_spec (by omega)).1, (letter_spec (by omega)).1,
    (letter_spec (by omega)).1]
  rfl

theorem length_encodeBytes (bytes : List UInt8) :
    (encodeBytes bytes).length = (encodeChars bytes).length := by
  rw [encodeBytes, length_flatMap_utf8EncodeChar, byteLength_eq_length]
  exact fun c hc => utf8Size_of_mem_encodeChars hc

theorem encodeBytes_ne_nil {bytes : List UInt8} (h : bytes ≠ []) : encodeBytes bytes ≠ [] := by
  have hsome := List.length_pos_iff.mpr (encodeChars_ne_nil h)
  rw [← List.length_pos_iff, length_encodeBytes]
  exact hsome

/-- Texts of whole groups have no stray end. -/
theorem strayEnd?_encodeBytes (bytes : List UInt8) : strayEnd? (encodeBytes bytes) = none := by
  have hgroups := four_dvd_length_encodeChars bytes
  rw [← length_encodeBytes] at hgroups
  rw [strayEnd?, if_neg (by omega)]

theorem innerSextet_letter {n : Nat} (h : n < 64) (offset : Nat) :
    innerSextet offset (letter n) = .ok n := by
  rw [innerSextet, (letter_spec h).2.1]

/-- In the middle of a text four symbols are three bytes. -/
theorem decodeFrom_group {m n o p : Nat} (hm : m < 64) (hn : n < 64) (ho : o < 64) (hp : p < 64)
    {rest bytes : List UInt8} {base : Nat} (hrest : rest ≠ [])
    (hbytes : decodeFrom (base + 4) rest = .ok bytes) :
    decodeFrom base (letter m :: letter n :: letter o :: letter p :: rest) =
      .ok (UInt8.ofNat (m * 4 + n / 16) :: UInt8.ofNat (n % 16 * 16 + o / 4) ::
        UInt8.ofNat (o % 4 * 64 + p) :: bytes) := by
  obtain ⟨e, rest, rfl⟩ := List.exists_cons_of_ne_nil hrest
  rw [decodeFrom, innerSextet_letter hm, innerSextet_letter hn, innerSextet_letter ho,
    innerSextet_letter hp, hbytes]
  rfl

theorem lastSextets_letter {n : Nat} (h : n < 64) {base offset pads : Nat} {bs : List UInt8}
    {sextets : List (Nat × UInt8)}
    (hrest : lastSextets base (offset + 1) none bs = .ok (sextets, pads)) :
    lastSextets base offset none (letter n :: bs) = .ok ((n, letter n) :: sextets, pads) := by
  obtain ⟨-, hsextet, hpad⟩ := letter_spec h
  simp only [lastSextets, if_neg hpad, hsextet, hrest]

section LastGroup

variable {m n o p : Nat} (base : Nat)

theorem decodeFrom_three (hm : m < 64) (hn : n < 64) (ho : o < 64) (hp : p < 64) :
    decodeFrom base [letter m, letter n, letter o, letter p] =
      .ok [UInt8.ofNat (m * 4 + n / 16), UInt8.ofNat (n % 16 * 16 + o / 4),
        UInt8.ofNat (o % 4 * 64 + p)] := by
  have hsextets : lastSextets base base none [letter m, letter n, letter o, letter p] =
      .ok ([(m, letter m), (n, letter n), (o, letter o), (p, letter p)], 0) :=
    lastSextets_letter hm (lastSextets_letter hn (lastSextets_letter ho (lastSextets_letter hp rfl)))
  simp [decodeFrom, decodeLast, hsextets]

theorem decodeFrom_two (hm : m < 64) (hn : n < 64) (ho : o < 64) (hspare : o % 4 = 0) :
    decodeFrom base [letter m, letter n, letter o, pad] =
      .ok [UInt8.ofNat (m * 4 + n / 16), UInt8.ofNat (n % 16 * 16 + o / 4)] := by
  have hpad : lastSextets base (base + 3) none [pad] = .ok ([], 1) := by simp [lastSextets]
  have hsextets : lastSextets base base none [letter m, letter n, letter o, pad] =
      .ok ([(m, letter m), (n, letter n), (o, letter o)], 1) :=
    lastSextets_letter hm (lastSextets_letter hn (lastSextets_letter ho hpad))
  simp [decodeFrom, decodeLast, hsextets, hspare]

theorem decodeFrom_one (hm : m < 64) (hn : n < 64) (hspare : n % 16 = 0) :
    decodeFrom base [letter m, letter n, pad, pad] = .ok [UInt8.ofNat (m * 4 + n / 16)] := by
  have hpads : lastSextets base (base + 2) none [pad, pad] = .ok ([], 2) := by simp [lastSextets]
  have hsextets : lastSextets base base none [letter m, letter n, pad, pad] =
      .ok ([(m, letter m), (n, letter n)], 2) :=
    lastSextets_letter hm (lastSextets_letter hn hpads)
  simp [decodeFrom, decodeLast, hsextets, hspare]

end LastGroup

/-- A byte that is put together from the bits of its symbols. -/
theorem ofNat_eq {n : Nat} {b : UInt8} (h : n = b.toNat) : UInt8.ofNat n = b := by
  rw [h, UInt8.ofNat_toNat]

theorem decodeFrom_encodeBytes (bytes : List UInt8) (base : Nat) :
    decodeFrom base (encodeBytes bytes) = .ok bytes := by
  fun_induction encodeChars bytes generalizing base with
  | case1 => rfl
  | case2 a =>
    obtain ⟨m, n, hm, hn, hwritten, ha, hspare⟩ := encodeBytes_one a
    rw [hwritten, decodeFrom_one base hm hn hspare, ofNat_eq ha]
  | case3 a b =>
    obtain ⟨m, n, o, hm, hn, ho, hwritten, ha, hb, hspare⟩ := encodeBytes_two a b
    rw [hwritten, decodeFrom_two base hm hn ho hspare, ofNat_eq ha, ofNat_eq hb]
  | case4 a b c rest _ ih =>
    obtain ⟨m, n, o, p, hm, hn, ho, hp, hwritten, ha, hb, hc⟩ := encodeBytes_group a b c rest
    rw [hwritten]
    by_cases hrest : rest = []
    · rw [hrest, encodeBytes_nil, decodeFrom_three base hm hn ho hp, ofNat_eq ha, ofNat_eq hb,
        ofNat_eq hc]
    · rw [decodeFrom_group hm hn ho hp (encodeBytes_ne_nil hrest) (ih (base + 4)), ofNat_eq ha,
        ofNat_eq hb, ofNat_eq hc]

/-- Every text of bytes is read back from its encoding. -/
theorem decode_encode (bytes : List UInt8) : decode (Utf8.encode (encode bytes)) = .ok bytes := by
  rw [utf8Encode_encode, decode, strayEnd?_encodeBytes]
  exact decodeFrom_encodeBytes bytes 0

end IrcClient.Text.Base64
