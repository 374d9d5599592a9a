import IrcClient.Proofs.Text.Utf8
import Mathlib.Data.List.Basic

/-!
# What bytes read as that are no UTF-8

A character is read wherever the bytes of one stand. Where none stands, the longest run of bytes that
begins a character is read as one replacement character, and a byte that begins none is read so by
itself. The machine that takes one byte at a time reads all bytes in this way, and there is no other one.
-/

namespace IrcClient.Text.Utf8

variable {bytes run bs : List UInt8} {b : UInt8} {p : Partial} {text text' : List Char}

/-- There is a character whose bytes begin with these. -/
def Begins (run : List UInt8) : Prop := ∃ c, run <+: String.utf8EncodeChar c

/-- A run of bytes that is read as one replacement character, before some others. -/
structure Broken (run bs : List UInt8) : Prop where
  ne_nil : run ≠ []
  begins : run.length = 1 ∨ Begins run
  /-- No character stands there. -/
  no_char : ∀ c, ¬ String.utf8EncodeChar c <+: run ++ bs
  /-- No longer run begins a character. -/
  longest : ∀ b, bs.head? = some b → ¬ Begins (run ++ [b])

/-- What bytes read as. -/
inductive Reads : List UInt8 → List Char → Prop where
  | nil : Reads [] []
  | char (c : Char) {bs : List UInt8} {cs : List Char} (h : Reads bs cs) :
      Reads (String.utf8EncodeChar c ++ bs) (c :: cs)
  | broken {run bs : List UInt8} {cs : List Char} (hbroken : Broken run bs) (h : Reads bs cs) :
      Reads (run ++ bs) (replacement :: cs)

/-! ## There is only one way -/

theorem decodeFrom_char (c : Char) : decodeFrom none (String.utf8EncodeChar c) = [c] := by
  have hchar := decodeFrom_encodeChar c []
  rwa [List.append_nil] at hchar

theorem encodeChar_inj {c d : Char} {bs bs' : List UInt8}
    (h : String.utf8EncodeChar c ++ bs = String.utf8EncodeChar d ++ bs') : c = d ∧ bs = bs' := by
  have hread := congrArg (decodeFrom none) h
  rw [decodeFrom_encodeChar, decodeFrom_encodeChar] at hread
  obtain ⟨rfl, -⟩ := List.cons.inj hread
  exact ⟨rfl, List.append_cancel_left h⟩

theorem Broken.no_longer (h : Broken run bs) {more bs' : List UInt8} (hbytes : bs = more ++ bs')
    (h' : Broken (run ++ more) bs') : more = [] := by
  rcases more with _ | ⟨b, more⟩
  · rfl
  · exfalso
    apply h.longest b (by rw [hbytes]; rfl)
    rcases h'.begins with hone | ⟨c, hc⟩
    · have hpos := List.length_pos_iff.mpr h.ne_nil
      simp only [List.length_append, List.length_cons] at hone
      omega
    · refine ⟨c, .trans ⟨more, ?_⟩ hc⟩
      rw [List.append_assoc, List.singleton_append]

theorem Broken.unique {run' bs' : List UInt8} (h : Broken run bs) (h' : Broken run' bs')
    (hbytes : run ++ bs = run' ++ bs') : run = run' ∧ bs = bs' := by
  rcases List.append_eq_append_iff.mp hbytes with ⟨more, rfl, hrest⟩ | ⟨more, rfl, hrest⟩
  · cases h.no_longer hrest h'
    exact ⟨(List.append_nil _).symm, hrest⟩
  · cases h'.no_longer hrest h
    exact ⟨List.append_nil _, hrest.symm⟩

theorem Reads.unique (h : Reads bytes text) (h' : Reads bytes text') : text = text' := by
  induction h generalizing text' with
  | nil =>
    generalize hbytes : [] = bytes at h'
    cases h' with
    | nil => rfl
    | char c => exact absurd hbytes.symm (by simp)
    | broken hbroken => exact absurd (List.append_eq_nil_iff.mp hbytes.symm).1 hbroken.ne_nil
  | @char c bs cs _ ih =>
    generalize hbytes : String.utf8EncodeChar c ++ bs = bytes at h'
    cases h' with
    | nil => exact absurd hbytes (by simp)
    | char d hrest =>
      obtain ⟨rfl, rfl⟩ := encodeChar_inj hbytes
      rw [ih hrest]
    | broken hbroken => exact absurd ⟨bs, hbytes⟩ (hbroken.no_char c)
  | @broken run bs cs hbroken _ ih =>
    generalize hbytes : run ++ bs = bytes at h'
    cases h' with
    | nil => exact absurd (List.append_eq_nil_iff.mp hbytes).1 hbroken.ne_nil
    | char c => exact absurd ⟨_, hbytes.symm⟩ (hbroken.no_char c)
    | broken hbroken' hrest =>
      obtain ⟨rfl, rfl⟩ := hbroken.unique hbroken' hbytes
      rw [ih hrest]

/-! ## The bytes of characters -/

/-- Whether a byte may stand in a character, but not as its first one. -/
def IsContinuation (b : UInt8) : Prop := 0x80 ≤ b.toNat ∧ b.toNat ≤ 0xBF

theorem exists_char {v : Nat} (hvalid : v.isValidChar) : ∃ c : Char, c.val.toNat = v :=
  ⟨Char.ofNatAux v hvalid, rfl⟩

theorem encodeChar_one {b : UInt8} (h : b.toNat < 0x80) :
    String.utf8EncodeChar (Char.ofNat b.toNat) = [b] := by
  obtain ⟨c, hc⟩ := exists_char (v := b.toNat) (.inl (by omega))
  have hchar : Char.ofNat b.toNat = c := by
    rw [← hc]
    exact Char.ofNat_toNat c
  rw [hchar]
  unfold String.utf8EncodeChar
  dsimp only
  rw [hc, if_pos (by omega), UInt8.ofNat_toNat]

theorem encodeChar_two {b₁ b₂ : UInt8} (h₁ : 0xC2 ≤ b₁.toNat ∧ b₁.toNat < 0xE0)
    (h₂ : IsContinuation b₂) : ∃ c, String.utf8EncodeChar c = [b₁, b₂] := by
  obtain ⟨hlow, hhigh⟩ := h₂
  generalize hv : b₁.toNat % 0x20 * 0x40 + b₂.toNat % 0x40 = v
  obtain ⟨c, hc⟩ := exists_char (v := v) (.inl (by omega))
  have hfirst : v / 64 % 0x20 + 0xC0 = b₁.toNat := by omega
  have hlast : v % 0x40 + 0x80 = b₂.toNat := by omega
  refine ⟨c, ?_⟩
  unfold String.utf8EncodeChar
  dsimp only
  rw [hc, if_neg (by omega), if_pos (by omega), hfirst, hlast]
  simp only [UInt8.ofNat_toNat]

theorem encodeChar_three {b₁ b₂ b₃ : UInt8} (h₁ : 0xE0 ≤ b₁.toNat ∧ b₁.toNat < 0xF0)
    (h₂ : IsContinuation b₂) (hoverlong : b₁.toNat = 0xE0 → 0xA0 ≤ b₂.toNat)
    (hsurrogate : b₁.toNat = 0xED → b₂.toNat ≤ 0x9F) (h₃ : IsContinuation b₃) :
    ∃ c, String.utf8EncodeChar c = [b₁, b₂, b₃] := by
  obtain ⟨hlow₂, hhigh₂⟩ := h₂
  obtain ⟨hlow₃, hhigh₃⟩ := h₃
  generalize hv : (b₁.toNat % 0x10 * 0x40 + b₂.toNat % 0x40) * 0x40 + b₃.toNat % 0x40 = v
  obtain ⟨c, hc⟩ := exists_char (v := v) (by unfold Nat.isValidChar; omega)
  have hfirst : v / 4096 % 0x10 + 0xE0 = b₁.toNat := by omega
  have hsecond : v / 64 % 0x40 + 0x80 = b₂.toNat := by omega
  have hlast : v % 0x40 + 0x80 = b₃.toNat := by omega
  refine ⟨c, ?_⟩
  unfold String.utf8EncodeChar
  dsimp only
  rw [hc, if_neg (by omega), if_neg (by omega), if_pos (by omega), hfirst, hsecond, hlast]
  simp only [UInt8.ofNat_toNat]

theorem encodeChar_four {b₁ b₂ b₃ b₄ : UInt8} (h₁ : 0xF0 ≤ b₁.toNat ∧ b₁.toNat ≤ 0xF4)
    (h₂ : IsContinuation b₂) (hoverlong : b₁.toNat = 0xF0 → 0x90 ≤ b₂.toNat)
    (hbeyond : b₁.toNat = 0xF4 → b₂.toNat ≤ 0x8F) (h₃ : IsContinuation b₃)
    (h₄ : IsContinuation b₄) : ∃ c, String.utf8EncodeChar c = [b₁, b₂, b₃, b₄] := by
  obtain ⟨hlow₂, hhigh₂⟩ := h₂
  obtain ⟨hlow₃, hhigh₃⟩ := h₃
  obtain ⟨hlow₄, hhigh₄⟩ := h₄
  generalize hv : ((b₁.toNat % 0x08 * 0x40 + b₂.toNat % 0x40) * 0x40 + b₃.toNat % 0x40) * 0x40 +
    b₄.toNat % 0x40 = v
  obtain ⟨c, hc⟩ := exists_char (v := v) (by unfold Nat.isValidChar; omega)
  have hfirst : v / 262144 % 0x08 + 0xF0 = b₁.toNat := by omega
  have hsecond : v / 4096 % 0x40 + 0x80 = b₂.toNat := by omega
  have hthird : v / 64 % 0x40 + 0x80 = b₃.toNat := by omega
  have hlast : v % 0x40 + 0x80 = b₄.toNat := by omega
  refine ⟨c, ?_⟩
  unfold String.utf8EncodeChar
  dsimp only
  rw [hc, if_neg (by omega), if_neg (by omega), if_neg (by omega), hfirst, hsecond, hthird, hlast]
  simp only [UInt8.ofNat_toNat]

/-! ## Characters begun -/

/-- The machine is in a state once it has read these bytes, and every way to go on that the state allows
makes up a character with them. -/
structure Pending (run : List UInt8) (p : Partial) : Prop where
  reads : ∀ bs, decodeFrom none (run ++ bs) = decodeFrom (some p) bs
  bounds : p.low ≤ p.high
  whole : ∀ b more, p.low ≤ b → b ≤ p.high → more.length + 1 = max 1 p.owed →
    (∀ b ∈ more, IsContinuation b) → ∃ c, String.utf8EncodeChar c = run ++ b :: more

theorem Pending.exists_char (h : Pending run p) :
    ∃ c b more, String.utf8EncodeChar c = run ++ b :: more := by
  have hmore : ∀ b ∈ List.replicate (p.owed - 1) (0x80 : UInt8), IsContinuation b := by
    intro b hb
    rw [List.eq_of_mem_replicate hb]
    exact ⟨by decide, by decide⟩
  obtain ⟨c, hc⟩ := h.whole p.low (.replicate (p.owed - 1) 0x80) (UInt8.le_refl _) h.bounds
    (by rw [List.length_replicate]; omega) hmore
  exact ⟨c, _, _, hc⟩

theorem Pending.begins (h : Pending run p) : Begins run := by
  obtain ⟨c, b, more, hc⟩ := h.exists_char
  exact ⟨c, hc ▸ List.prefix_append _ _⟩

/-- A run that is to go on holds no character. -/
theorem Pending.no_char (h : Pending run p) (c : Char) : ¬ String.utf8EncodeChar c <+: run := by
  rintro ⟨rest, hrest⟩
  obtain ⟨d, b, more, hd⟩ := h.exists_char
  have hboth : String.utf8EncodeChar c ++ (rest ++ b :: more) = String.utf8EncodeChar d ++ [] := by
    rw [← List.append_assoc, hrest, hd, List.append_nil]
  simpa using (encodeChar_inj hboth).2

theorem Pending.ne_nil (h : Pending run p) : run ≠ [] := by
  rintro rfl
  have hreads := h.reads []
  cases hreads

/-- What the first byte of a character asks of those behind it. -/
def Opens (b : UInt8) (p : Partial) : Prop :=
  (p.owed = 1 ∧ p.low = 0x80 ∧ p.high = 0xBF ∧ 0xC2 ≤ b.toNat ∧ b.toNat < 0xE0) ∨
  (p.owed = 2 ∧ p.low ≤ p.high ∧ 0xE0 ≤ b.toNat ∧ b.toNat < 0xF0 ∧
    0x80 ≤ p.low.toNat ∧ p.high.toNat ≤ 0xBF ∧
    (b.toNat = 0xE0 → 0xA0 ≤ p.low.toNat) ∧ (b.toNat = 0xED → p.high.toNat ≤ 0x9F)) ∨
  (p.owed = 3 ∧ p.low ≤ p.high ∧ 0xF0 ≤ b.toNat ∧ b.toNat ≤ 0xF4 ∧
    0x80 ≤ p.low.toNat ∧ p.high.toNat ≤ 0xBF ∧
    (b.toNat = 0xF0 → 0x90 ≤ p.low.toNat) ∧ (b.toNat = 0xF4 → p.high.toNat ≤ 0x8F))

/-- What becomes of a byte with no character begun: it is a character, or it is none, or it opens one. -/
theorem start_cases {result : List Char × Option Partial} (h : start b = result) :
    (result = ([Char.ofNat b.toNat], none) ∧ b.toNat < 0x80) ∨ result = ([replacement], none) ∨
      ∃ p, result = ([], some p) ∧ Opens b p := by
  rw [← UInt8.ofNat_toNat (x := b), start_ofNat b.toNat_lt] at h
  repeat' split at h
  all_goals subst h
  all_goals simp [Opens]
  all_goals omega

theorem step_none (b : UInt8) : step none b = start b := rfl

/-- A byte either gives something to read or leaves a character begun. -/
theorem step_ne_silent (state : Option Partial) (b : UInt8) : step state b ≠ ([], none) := by
  cases state with
  | none =>
    intro hstart
    simpa using start_cases hstart
  | some p =>
    simp only [step]
    split
    · split <;> simp
    · simp

theorem decodeFrom_eq_nil {state : Option Partial} (h : decodeFrom state bs = []) :
    state = none ∧ bs = [] := by
  induction bs generalizing state with
  | nil =>
    cases state with
    | none => exact ⟨rfl, rfl⟩
    | some p => cases h
  | cons b bs ih =>
    rw [decodeFrom, List.append_eq_nil_iff] at h
    exact absurd (Prod.ext h.1 (ih h.2).1) (step_ne_silent state b)

theorem Opens.pending (hopens : Opens b p) (h : start b = ([], some p)) : Pending [b] p := by
  have hreads (bs : List UInt8) : decodeFrom none ([b] ++ bs) = decodeFrom (some p) bs :=
    decodeFrom_start bs h
  rcases hopens with ⟨howed, hlow, hhigh, hfirst⟩ |
    ⟨howed, hbounds, hmin, hmax, hlow, hhigh, hsecond⟩ |
    ⟨howed, hbounds, hmin, hmax, hlow, hhigh, hsecond⟩
  · refine ⟨hreads, by rw [hlow, hhigh]; decide, fun b₂ more hl hh hlength _ => ?_⟩
    rw [hlow, UInt8.le_iff_toNat_le] at hl
    rw [hhigh, UInt8.le_iff_toNat_le] at hh
    obtain rfl : more = [] := List.length_eq_zero_iff.mp (by omega)
    exact encodeChar_two hfirst ⟨hl, hh⟩
  · refine ⟨hreads, hbounds, fun b₂ more hl hh hlength hmore => ?_⟩
    rw [UInt8.le_iff_toNat_le] at hl hh
    obtain ⟨b₃, rfl⟩ := List.length_eq_one_iff.mp (show more.length = 1 by omega)
    exact encodeChar_three ⟨hmin, hmax⟩ ⟨by omega, by omega⟩ (by omega) (by omega)
      (hmore b₃ (by simp))
  · refine ⟨hreads, hbounds, fun b₂ more hl hh hlength hmore => ?_⟩
    rw [UInt8.le_iff_toNat_le] at hl hh
    obtain ⟨b₃, b₄, rfl⟩ := List.length_eq_two.mp (show more.length = 2 by omega)
    exact encodeChar_four ⟨hmin, hmax⟩ ⟨by omega, by omega⟩ (by omega) (by omega)
      (hmore b₃ (by simp)) (hmore b₄ (by simp))

namespace Pending

theorem decodeFrom_cons (h : Pending run p) (b : UInt8) (bs : List UInt8) :
    decodeFrom none (run ++ b :: bs) = (step (some p) b).1 ++ decodeFrom (step (some p) b).2 bs :=
  h.reads (b :: bs)

/-- The last byte of a character. -/
theorem exists_char_of_owed_le (h : Pending run p) (hb : p.low ≤ b ∧ b ≤ p.high) (howed : p.owed ≤ 1) :
    ∃ c, String.utf8EncodeChar c = run ++ [b] :=
  h.whole b [] hb.1 hb.2 (by simp; omega) (by simp)

theorem step (h : Pending run p) (hb : p.low ≤ b ∧ b ≤ p.high) (howed : ¬ p.owed ≤ 1) :
    Pending (run ++ [b]) ⟨p.owed - 1, 0x80, 0xBF, p.value * 0x40 + payload b⟩ := by
  refine ⟨fun bs => ?_, show (0x80 : UInt8) ≤ 0xBF by decide, fun b' more hlow hhigh hlength hmore => ?_⟩
  · rw [List.append_assoc, List.singleton_append, h.decodeFrom_cons, Utf8.step, if_pos hb]
    dsimp only
    rw [if_neg howed]
    rfl
  · rw [UInt8.le_iff_toNat_le] at hlow hhigh
    obtain ⟨c, hc⟩ := h.whole b (b' :: more) hb.1 hb.2
      (by rw [List.length_cons, hlength]; dsimp only; omega)
      (List.forall_mem_cons.mpr ⟨⟨hlow, hhigh⟩, hmore⟩)
    exact ⟨c, by rw [hc, List.append_assoc, List.singleton_append]⟩

/-- A byte out of bounds ends the run. -/
theorem not_begins (h : Pending run p) (hb : ¬ (p.low ≤ b ∧ b ≤ p.high)) : ¬ Begins (run ++ [b]) := by
  rintro ⟨c, more, hc⟩
  have hchar := decodeFrom_char c
  rw [← hc, List.append_assoc, List.singleton_append, h.decodeFrom_cons, Utf8.step,
    if_neg hb] at hchar
  -- The byte is read anew, so more than one character comes of the bytes.
  have hrest := (List.cons.inj hchar).2
  obtain ⟨-, hnil⟩ : (none : Option Partial) = none ∧ b :: more = [] := decodeFrom_eq_nil hrest
  cases hnil

theorem broken (h : Pending run p)
    (hbs : ∀ b, bs.head? = some b → ¬ (p.low ≤ b ∧ b ≤ p.high)) : Broken run bs where
  ne_nil := h.ne_nil
  begins := .inr h.begins
  no_char c hc := by
    rcases List.prefix_or_prefix_of_prefix hc (List.prefix_append run bs) with hshort | ⟨rest, hlong⟩
    · exact h.no_char c hshort
    · rw [← hlong, List.prefix_append_right_inj] at hc
      rcases rest with _ | ⟨b, rest⟩
      · rw [List.append_nil] at hlong
        exact h.no_char c (hlong ▸ List.prefix_rfl)
      · obtain ⟨more, rfl⟩ := hc
        refine h.not_begins (hbs b rfl) ⟨c, rest, ?_⟩
        rw [← hlong, List.append_assoc, List.singleton_append]
  longest b hb := h.not_begins (hbs b hb)

end Pending

theorem broken_start (h : start b = ([replacement], none)) (bs : List UInt8) : Broken [b] bs := by
  have hnone : ¬ Begins [b] := by
    rintro ⟨c, more, hc⟩
    have hchar := decodeFrom_char c
    rw [← hc, List.singleton_append, decodeFrom, step_none, h] at hchar
    obtain ⟨rfl, hrest⟩ := List.cons.inj hchar
    obtain ⟨-, rfl⟩ := decodeFrom_eq_nil hrest
    exact absurd (congrArg List.length hc) (show (1 : Nat) ≠ 3 by decide)
  refine ⟨by simp, .inl rfl, fun c hc => ?_, fun b' _ hb' => ?_⟩
  · obtain ⟨b', more, hchar⟩ := List.exists_cons_of_ne_nil (String.utf8EncodeChar_ne_nil (c := c))
    rw [hchar, List.singleton_append, List.cons_prefix_cons] at hc
    exact hnone ⟨c, more, by rw [hchar, hc.1, List.singleton_append]⟩
  · obtain ⟨c, hc⟩ := hb'
    exact hnone ⟨c, (List.prefix_append [b] [b']).trans hc⟩

/-! ## What the machine reads -/

theorem Pending.reads_append (h : Pending run p)
    (hrest : ∀ rest, rest <:+ bs → Reads rest (decodeFrom none rest)) :
    Reads (run ++ bs) (decodeFrom none (run ++ bs)) := by
  induction bs generalizing run p with
  | nil =>
    rw [h.reads]
    exact .broken (h.broken nofun) .nil
  | cons b bs ih =>
    by_cases hb : p.low ≤ b ∧ b ≤ p.high
    · by_cases howed : p.owed ≤ 1
      · obtain ⟨c, hc⟩ := h.exists_char_of_owed_le hb howed
        rw [List.append_cons, ← hc, decodeFrom_encodeChar]
        exact .char c (hrest bs (List.suffix_cons b bs))
      · rw [List.append_cons]
        exact ih (h.step hb howed) fun rest hsuffix => hrest rest (hsuffix.trans (List.suffix_cons b bs))
    · rw [h.decodeFrom_cons, Utf8.step, if_neg hb]
      exact .broken (h.broken (by simpa using hb)) (hrest (b :: bs) List.suffix_rfl)

theorem reads_decodeFrom (bytes : List UInt8) : Reads bytes (decodeFrom none bytes) := by
  induction h : bytes.length using Nat.strongRecOn generalizing bytes with
  | _ n ih =>
    cases bytes with
    | nil => exact .nil
    | cons b bs =>
      have hrest (rest : List UInt8) (hsuffix : rest <:+ bs) : Reads rest (decodeFrom none rest) := by
        have hle := hsuffix.length_le
        exact ih rest.length (by rw [← h, List.length_cons]; omega) rest rfl
      rcases start_cases (b := b) rfl with ⟨hstart, hone⟩ | hstart | ⟨p, hstart, hopens⟩
      · rw [decodeFrom, step_none, hstart, ← List.singleton_append, ← encodeChar_one hone]
        exact .char _ (hrest bs List.suffix_rfl)
      · rw [decodeFrom, step_none, hstart]
        exact .broken (broken_start hstart bs) (hrest bs List.suffix_rfl)
      · exact (hopens.pending hstart).reads_append hrest

/-- What the machine makes of some bytes is what they read as. -/
theorem reads_iff {bytes : List UInt8} {text : List Char} :
    Reads bytes text ↔ (decode bytes).toList = text := by
  have hreads : Reads bytes (decode bytes).toList := by
    rw [decode, String.toList_ofList]
    exact reads_decodeFrom bytes
  exact ⟨hreads.unique, fun h => h ▸ hreads⟩

end IrcClient.Text.Utf8
