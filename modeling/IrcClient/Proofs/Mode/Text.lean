import IrcClient.Mode.Apply
import IrcClient.Proofs.Text.Fields

/-!
# Mode texts and what they say

A change of modes without arguments reaches a channel in two ways: letter by letter in what is known of
its flags, key and limit, and as a whole in the text of its mode. Here the letters of a text are kept
apart from its arguments, where both ways come to the same. A text that is put together again says the
same as long as letters are left in front of its arguments.
-/

namespace IrcClient

theorem ChannelFlag.ofLetter?_eq_some_iff {c : Char} {flag : ChannelFlag} :
    ofLetter? c = some flag ↔ c = flag.letter := by
  constructor
  · intro h
    have hletter := List.find?_some (p := fun (f : ChannelFlag) => f.letter == c) h
    exact (eq_of_beq hletter).symm
  · rintro rfl
    exact ofLetter?_letter flag

theorem ChannelFlag.letter_injective : Function.Injective letter := by
  intro flag other h
  have hread := congrArg ofLetter? h
  rw [ofLetter?_letter, ofLetter?_letter] at hread
  exact Option.some.inj hread

namespace ModeTraits

variable {traits traits' : ModeTraits} {args : List String} {letters letters' : List Char}
  {adding : Bool} {c : Char}

/-- What a letter of a change does to the flags, the key and the limit of a channel. -/
def amend (traits : ModeTraits) (change : ModeChange) : ModeTraits :=
  match change.kind.effect with
  | .privilege _ | .ban => traits
  | .key => { traits with key := if change.adding then change.arg else none }
  | .limit =>
    if change.adding then
      match change.arg.bind (Text.unsigned? 32) with
      | none => traits
      | some limit => { traits with limit := some limit }
    else { traits with limit := none }
  | .flag flag => { traits with flags := traits.flags.set flag change.adding }

/-- What a change without arguments does to them. -/
def after (traits : ModeTraits) (change : String) : ModeTraits :=
  (ModeChange.read change []).foldl amend traits

/-! ## Letters -/

/-- Whether a letter stands for the key or the limit, which have arguments. -/
def isRuled (c : Char) : Bool := c == 'k' || c == 'l'

theorem isRuled_letter (flag : ChannelFlag) : isRuled flag.letter = false := by
  cases flag <;> rfl

theorem contains_none (flag : ChannelFlag) : ({} : ModeTraits).flags.contains flag = false := by
  cases flag <;> rfl

/-- The flags are those whose letters are there. -/
theorem contains_flags_readFrom (flag : ChannelFlag) :
    (readFrom traits args letters).flags.contains flag =
      (traits.flags.contains flag || letters.contains flag.letter) := by
  have hruled := isRuled_letter flag
  simp only [isRuled, Bool.or_eq_false_iff, beq_eq_false_iff_ne] at hruled
  induction letters generalizing traits args with
  | nil => simp [readFrom]
  | cons c letters ih =>
    rw [List.contains_cons]
    unfold readFrom
    split
    · rename_i hkey
      rw [ih, hkey, beq_eq_false_iff_ne.mpr hruled.1, Bool.false_or]
    · split
      · rename_i hlimit
        rw [ih, hlimit, beq_eq_false_iff_ne.mpr hruled.2, Bool.false_or]
      · split
        · rename_i other hother
          rw [ih, ChannelFlags.contains_set, ChannelFlag.ofLetter?_eq_some_iff.mp hother]
          by_cases hflag : other = flag
          · simp [hflag]
          · have hletter : flag.letter ≠ other.letter :=
              fun heq => hflag (ChannelFlag.letter_injective heq).symm
            rw [if_neg hflag, beq_eq_false_iff_ne.mpr hletter, Bool.false_or]
        · rename_i hnone
          have hletter : flag.letter ≠ c := by
            rintro rfl
            rw [ChannelFlag.ofLetter?_letter] at hnone
            cases hnone
          rw [ih, beq_eq_false_iff_ne.mpr hletter, Bool.false_or]

/-- Other letters than those of key and limit change the flags at most. -/
theorem readFrom_cons_of_unruled (traits : ModeTraits) (h : isRuled c = false) :
    ∃ flags, readFrom traits args (c :: letters) =
      readFrom { traits with flags := flags } args letters := by
  simp only [isRuled, Bool.or_eq_false_iff, beq_eq_false_iff_ne] at h
  rw [readFrom, if_neg h.1, if_neg h.2]
  cases ChannelFlag.ofLetter? c with
  | some flag => exact ⟨_, rfl⟩
  | none => exact ⟨traits.flags, rfl⟩

theorem isRuled_cases (c : Char) : c = 'k' ∨ c = 'l' ∨ isRuled c = false := by
  by_cases hk : c = 'k'
  · exact Or.inl hk
  · by_cases hl : c = 'l'
    · exact Or.inr (Or.inl hl)
    · exact Or.inr (Or.inr (by simp [isRuled, hk, hl]))

/-- The key and the limit depend on no other letters than their own. -/
theorem ruled_readFrom (args : List String) (letters : List Char) (hkey : traits.key = traits'.key)
    (hlimit : traits.limit = traits'.limit) :
    (readFrom traits args letters).key = (readFrom traits' args (letters.filter isRuled)).key ∧
      (readFrom traits args letters).limit =
        (readFrom traits' args (letters.filter isRuled)).limit := by
  induction letters generalizing traits traits' args with
  | nil => exact ⟨hkey, hlimit⟩
  | cons c letters ih =>
    rcases isRuled_cases c with rfl | rfl | hc
    · exact ih _ rfl hlimit
    · exact ih _ hkey rfl
    · obtain ⟨flags, hread⟩ := readFrom_cons_of_unruled traits hc
      rw [List.filter_cons_of_neg (by simp [hc]), hread]
      exact ih args hkey hlimit

/-- Without arguments there is neither a key nor a limit. -/
theorem bare_readFrom (hkey : traits.key = none) (hlimit : traits.limit = none) :
    (readFrom traits [] letters).key = none ∧ (readFrom traits [] letters).limit = none := by
  induction letters generalizing traits with
  | nil => exact ⟨hkey, hlimit⟩
  | cons c letters ih =>
    rcases isRuled_cases c with rfl | rfl | hc
    · exact ih rfl hlimit
    · exact ih hkey rfl
    · obtain ⟨flags, hread⟩ := readFrom_cons_of_unruled traits hc
      rw [hread]
      exact ih hkey hlimit

theorem bare_read (letters : List Char) :
    (readFrom {} [] letters).key = none ∧ (readFrom {} [] letters).limit = none :=
  bare_readFrom rfl rfl

theorem eq_of_parts (hflags : ∀ flag, traits.flags.contains flag = traits'.flags.contains flag)
    (hkey : traits.key = traits'.key) (hlimit : traits.limit = traits'.limit) : traits = traits' := by
  have hsets := ChannelFlags.ext_contains hflags
  cases traits
  cases traits'
  simp_all

/-- The key and the limit do not change with letters that have no arguments. -/
theorem ruled_readFrom_congr (h : args = [] ∨ letters.filter isRuled = letters'.filter isRuled) :
    (readFrom {} args letters).key = (readFrom {} args letters').key ∧
      (readFrom {} args letters).limit = (readFrom {} args letters').limit := by
  rcases h with rfl | hruled
  · obtain ⟨hkey, hlimit⟩ := bare_read letters
    obtain ⟨hkey', hlimit'⟩ := bare_read letters'
    exact ⟨hkey.trans hkey'.symm, hlimit.trans hlimit'.symm⟩
  · obtain ⟨hkey, hlimit⟩ := ruled_readFrom args letters rfl rfl
    obtain ⟨hkey', hlimit'⟩ := ruled_readFrom args letters' rfl rfl
    rw [hruled] at hkey hlimit
    exact ⟨hkey.trans hkey'.symm, hlimit.trans hlimit'.symm⟩

/-! ## One letter of a change -/

/-- The letters after one more is added or taken away. -/
def mergeLetter (adding : Bool) (letters : List Char) (c : Char) : List Char :=
  if adding then (if letters.contains c then letters else letters ++ [c])
  else letters.filter (· ≠ c)

theorem mergeLetters_cons (hplus : c ≠ '+') (hminus : c ≠ '-') (cs : List Char) :
    mergeLetters adding letters (c :: cs) = mergeLetters adding (mergeLetter adding letters c) cs := by
  rw [mergeLetters, if_neg hplus, if_neg hminus]
  cases adding <;> rfl

theorem mem_mergeLetter {d : Char} :
    d ∈ mergeLetter adding letters c ↔ if d = c then adding = true else d ∈ letters := by
  unfold mergeLetter
  by_cases hd : d = c
  · subst hd
    cases adding with
    | true => by_cases hmem : d ∈ letters <;> simp [hmem]
    | false => simp
  · cases adding with
    | true => by_cases hmem : c ∈ letters <;> simp [hmem, hd]
    | false => simp [hd]

theorem filter_isRuled_mergeLetter (h : isRuled c = false) :
    (mergeLetter adding letters c).filter isRuled = letters.filter isRuled := by
  unfold mergeLetter
  split
  · split
    · rfl
    · rw [List.filter_append, List.filter_cons_of_neg (by simp [h]), List.filter_nil, List.append_nil]
  · rw [List.filter_filter]
    apply List.filter_congr
    intro d _
    by_cases hd : d = c
    · simp [hd, h]
    · simp [hd]

/-- A letter that is read as a mode is one of a few kinds. -/
theorem kind_cases {kind : ModeKind} (h : ModeKind.ofLetter? c = some kind) :
    c = kind.letter ∧ ((∃ level, kind = .ofLevel level) ∨ kind = .onAdd 'k' .key ∨
      kind = .onAdd 'l' .limit ∨ kind = .always 'b' .ban ∨ ∃ flag, kind = .ofFlag flag) := by
  have hletter := List.find?_some (p := fun (kind : ModeKind) => kind.letter == c) h
  have hmem := List.mem_of_find?_eq_some h
  refine ⟨(eq_of_beq hletter).symm, ?_⟩
  simp only [ModeKind.all, List.mem_append, List.mem_map, List.mem_cons, List.not_mem_nil,
    or_false] at hmem
  rcases hmem with (⟨level, -, rfl⟩ | hkind) | ⟨flag, -, rfl⟩
  · exact Or.inl ⟨level, rfl⟩
  · rcases hkind with rfl | rfl | rfl <;> simp
  · simp

theorem readFrom_congr
    (hflags : ∀ flag : ChannelFlag, flag.letter ∈ letters ↔ flag.letter ∈ letters')
    (hruled : args = [] ∨ letters.filter isRuled = letters'.filter isRuled) :
    readFrom {} args letters = readFrom {} args letters' := by
  obtain ⟨hkey, hlimit⟩ := ruled_readFrom_congr hruled
  refine eq_of_parts ?_ hkey hlimit
  intro flag
  rw [contains_flags_readFrom, contains_flags_readFrom, contains_none, Bool.false_or,
    Bool.false_or, Bool.eq_iff_iff, List.contains_iff_mem, List.contains_iff_mem]
  exact hflags flag

theorem readFrom_without_plus :
    readFrom {} args letters = readFrom {} args (letters.filter (· ≠ '+')) := by
  refine readFrom_congr ?_ (Or.inr ?_)
  · intro flag
    cases flag <;> simp [ChannelFlag.letter]
  · rw [List.filter_filter]
    apply List.filter_congr
    intro c _
    by_cases hc : c = '+'
    · simp [hc, isRuled]
    · simp [hc]

/-- Letters that stand for no flag, and for neither key nor limit where there are arguments, do not
matter. -/
theorem readFrom_mergeLetter (hflag : ∀ flag : ChannelFlag, flag.letter ≠ c)
    (hruled : args = [] ∨ isRuled c = false) :
    readFrom {} args (mergeLetter adding letters c) = readFrom {} args letters := by
  refine readFrom_congr ?_ (hruled.imp_right filter_isRuled_mergeLetter)
  intro flag
  rw [mem_mergeLetter, if_neg (hflag flag)]

/-- A letter of a change does the same to the traits as to the letters. -/
theorem amend_readFrom {kind : ModeKind} (hkind : ModeKind.ofLetter? c = some kind)
    (hruled : args = [] ∨ isRuled c = false) :
    (readFrom {} args letters).amend ⟨adding, kind, none⟩ =
      readFrom {} args (mergeLetter adding letters c) := by
  obtain ⟨rfl, hcases⟩ := kind_cases hkind
  rcases hcases with ⟨level, rfl⟩ | rfl | rfl | rfl | ⟨flag, rfl⟩
  · refine (readFrom_mergeLetter ?_ hruled).symm
    intro flag
    cases flag <;> cases level <;> decide
  · -- A key without its argument is none, and without arguments there was none.
    obtain rfl : args = [] := hruled.resolve_right (by decide)
    rw [readFrom_mergeLetter (fun flag => by cases flag <;> decide) hruled]
    have hbare := bare_read letters
    refine eq_of_parts (fun _ => rfl) ?_ rfl
    cases adding <;> exact hbare.1.symm
  · obtain rfl : args = [] := hruled.resolve_right (by decide)
    rw [readFrom_mergeLetter (fun flag => by cases flag <;> decide) hruled]
    have hbare := bare_read letters
    cases adding with
    | true => rfl
    | false => exact eq_of_parts (fun _ => rfl) rfl hbare.2.symm
  · exact (readFrom_mergeLetter (fun flag => by cases flag <;> decide) hruled).symm
  · have hfilter : (mergeLetter adding letters flag.letter).filter isRuled = letters.filter isRuled :=
      filter_isRuled_mergeLetter (isRuled_letter flag)
    have hparts := ruled_readFrom_congr (show args = [] ∨ _ from Or.inr hfilter)
    refine eq_of_parts ?_ hparts.1.symm hparts.2.symm
    intro other
    change ((readFrom {} args letters).flags.set flag adding).contains other =
      (readFrom {} args (mergeLetter adding letters flag.letter)).flags.contains other
    rw [ChannelFlags.contains_set, contains_flags_readFrom, contains_flags_readFrom,
      contains_none, Bool.false_or, Bool.false_or, Bool.eq_iff_iff, List.contains_iff_mem,
      mem_mergeLetter]
    by_cases hflag : flag = other
    · rw [if_pos hflag, if_pos (congrArg ChannelFlag.letter hflag.symm)]
    · have hletter : other.letter ≠ flag.letter :=
        fun heq => hflag (ChannelFlag.letter_injective heq).symm
      rw [if_neg hflag, if_neg hletter, List.contains_iff_mem]

theorem foldl_amend_readFrom {change : List Char}
    (hruled : args = [] ∨ ∀ c ∈ change, isRuled c = false) :
    (ModeChange.readFrom adding [] change).foldl amend (readFrom {} args letters) =
      readFrom {} args (mergeLetters adding letters change) := by
  induction change generalizing adding letters with
  | nil => rfl
  | cons c change ih =>
    have hrest : args = [] ∨ ∀ c ∈ change, isRuled c = false :=
      hruled.imp_right fun h d hd => h d (List.mem_cons_of_mem c hd)
    have hfirst : args = [] ∨ isRuled c = false :=
      hruled.imp_right fun h => h c List.mem_cons_self
    by_cases hplus : c = '+'
    · subst hplus
      exact ih hrest
    by_cases hminus : c = '-'
    · subst hminus
      exact ih hrest
    rw [mergeLetters_cons hplus hminus, ← ih hrest, ModeChange.readFrom, if_neg hplus,
      if_neg hminus]
    cases hkind : ModeKind.ofLetter? c with
    | some kind =>
      rw [← amend_readFrom hkind hfirst]
      cases htakes : kind.takesArg adding <;> simp [htakes]
    | none =>
      rw [readFrom_mergeLetter ?_ hfirst]
      rintro flag rfl
      cases flag <;> cases hkind

end ModeTraits

/-! ## Texts -/

namespace ModeText

variable {mode change : String}

/-- The letters of a mode text, without signs of addition. -/
def letters (mode : String) : List Char :=
  (mode.toList.takeWhile (· ≠ ' ')).filter (· ≠ '+')

/-- What comes after the letters of a mode text. -/
def tail (mode : String) : List Char := mode.toList.dropWhile (· ≠ ' ')

/-- The arguments of a mode text. -/
def args (mode : String) : List String :=
  (Text.nonemptyFields (· == ' ') (tail mode)).map String.ofList

/-- A text of letters, if there are any, and what comes after them. -/
def written (letters tail : List Char) : List Char :=
  (if letters.isEmpty then [] else '+' :: letters) ++ tail

theorem tail_begins (mode : String) : tail mode = [] ∨ (tail mode).head? = some ' ' := by
  cases htail : tail mode with
  | nil => exact Or.inl rfl
  | cons c rest =>
    right
    have hhead := List.head?_dropWhile_not (· ≠ ' ') mode.toList
    unfold tail at htail
    rw [htail] at hhead
    simpa using hhead

theorem mergeMode_eq (mode change : String) :
    (mergeMode mode change).toList =
      written (mergeLetters true (letters mode) change.toList) (tail mode) := by
  unfold mergeMode
  cases hcut : Text.cutAt ' ' mode.toList with
  | none =>
    have hspaceless := Text.cutAt_eq_none_iff.mp hcut
    obtain ⟨htake, hdrop⟩ := Text.takeWhile_spaceless hspaceless (Or.inl rfl)
    rw [List.append_nil] at htake hdrop
    simp only [String.toList_ofList, letters, tail, htake, hdrop, written]
  | some parts =>
    obtain ⟨front, rest⟩ := parts
    obtain ⟨hmode, hspaceless⟩ := Text.cutAt_eq_some_iff.mp hcut
    have hspace : (' ' :: rest).head? = some ' ' := rfl
    obtain ⟨htake, hdrop⟩ := Text.takeWhile_spaceless hspaceless (Or.inr hspace)
    simp only [String.toList_ofList, letters, tail, hmode, htake, hdrop, written]

/-- Merging brings in no signs, and no spaces that were not there. -/
theorem mem_mergeLetters {adding : Bool} {letters change : List Char} {c : Char}
    (h : c ∈ mergeLetters adding letters change) : c ∈ letters ∨ c ∈ change ∧ c ≠ '+' := by
  induction change generalizing adding letters with
  | nil => exact Or.inl h
  | cons d change ih =>
    by_cases hplus : d = '+'
    · subst hplus
      exact (ih h).imp_right fun h => ⟨List.mem_cons_of_mem _ h.1, h.2⟩
    by_cases hminus : d = '-'
    · subst hminus
      exact (ih h).imp_right fun h => ⟨List.mem_cons_of_mem _ h.1, h.2⟩
    rw [ModeTraits.mergeLetters_cons hplus hminus] at h
    rcases ih h with hmem | hmem
    · rw [ModeTraits.mem_mergeLetter] at hmem
      by_cases hd : c = d
      · exact Or.inr ⟨hd ▸ List.mem_cons_self, hd ▸ hplus⟩
      · rw [if_neg hd] at hmem
        exact Or.inl hmem
    · exact Or.inr ⟨List.mem_cons_of_mem _ hmem.1, hmem.2⟩

/-- The letters and what comes after them change apart from each other. -/
theorem parts_mergeMode (mode : String) (hchange : ' ' ∉ change.toList) :
    letters (mergeMode mode change) = mergeLetters true (letters mode) change.toList ∧
      tail (mergeMode mode change) = tail mode := by
  have hletters {c : Char} (hc : c ∈ mergeLetters true (letters mode) change.toList) :
      c ≠ ' ' ∧ c ≠ '+' := by
    rcases mem_mergeLetters hc with hmem | ⟨hmem, hplus⟩
    · obtain ⟨hfront, hplus⟩ := List.mem_filter.mp hmem
      exact ⟨by simpa using List.mem_takeWhile_imp hfront, by simpa using hplus⟩
    · exact ⟨ne_of_mem_of_not_mem hmem hchange, hplus⟩
  have hmerged := mergeMode_eq mode change
  generalize mergeLetters true (letters mode) change.toList = merged at hletters hmerged
  have hspaceless : ' ' ∉ (if merged.isEmpty then [] else '+' :: merged) := by
    split
    · exact List.not_mem_nil
    · rw [List.mem_cons, not_or]
      exact ⟨by decide, fun hmem => (hletters hmem).1 rfl⟩
  obtain ⟨htake, hdrop⟩ := Text.takeWhile_spaceless hspaceless (tail_begins mode)
  refine ⟨?_, by rw [tail, hmerged, written, hdrop]⟩
  have hfilter : merged.filter (· ≠ '+') = merged :=
    List.filter_eq_self.mpr fun c hc => by simpa using (hletters hc).2
  rw [letters, hmerged, written, htake]
  cases merged with
  | nil => rfl
  | cons c merged => simpa using hfilter

/-- What the letters of a text say with the arguments that come after them. -/
def spelled (mode : String) : ModeTraits := ModeTraits.readFrom {} (args mode) (letters mode)

/-- A change that can be worked into a text does the same to the traits. -/
theorem after_spelled (hfits : Channel.entangled mode change = false) :
    (spelled mode).after change = spelled (mergeMode mode change) := by
  simp only [Channel.entangled, Bool.or_eq_false_iff, List.contains_eq_mem,
    decide_eq_false_iff_not, Bool.and_eq_false_iff] at hfits
  obtain ⟨hspaceless, hruled⟩ := hfits
  obtain ⟨hletters, htail⟩ := parts_mergeMode mode hspaceless
  have hargs : args (mergeMode mode change) = args mode := by rw [args, args, htail]
  rw [spelled, spelled, hletters, hargs]
  refine ModeTraits.foldl_amend_readFrom ?_
  rcases hruled with hplain | ⟨hk, hl⟩
  · left
    have hnone : tail mode = [] := by
      rw [tail, List.dropWhile_eq_nil_iff]
      intro c hc
      simpa using ne_of_mem_of_not_mem hc hplain
    rw [args, hnone]
    rfl
  · right
    intro c hc
    have hck : c ≠ 'k' := ne_of_mem_of_not_mem hc hk
    have hcl : c ≠ 'l' := ne_of_mem_of_not_mem hc hl
    simp [ModeTraits.isRuled, hck, hcl]

/-- A text that begins with letters, or is empty, says what it spells. -/
theorem read_eq_spelled (h : mode.toList.head? ≠ some ' ') : ModeTraits.read mode = spelled mode := by
  have hmode : mode.toList.takeWhile (· ≠ ' ') ++ tail mode = mode.toList :=
    List.takeWhile_append_dropWhile
  have hspaceless : ∀ c ∈ mode.toList.takeWhile (· ≠ ' '), (c == ' ') = false := by
    intro c hc
    simpa using List.mem_takeWhile_imp hc
  have htail := tail_begins mode
  rw [ModeTraits.read, spelled, letters, args]
  generalize mode.toList.takeWhile (· ≠ ' ') = front at hmode hspaceless
  rw [← hmode] at h ⊢
  by_cases hfront : front = []
  · subst hfront
    rcases htail with hnone | hspace
    · rw [hnone]
      rfl
    · exact absurd hspace h
  · have hrest : tail mode = [] ∨ ∃ c cs, tail mode = c :: cs ∧ (c == ' ') = true := by
      refine htail.imp_right fun hspace => ?_
      obtain ⟨cs, hcs⟩ := List.head?_eq_some_iff.mp hspace
      exact ⟨' ', cs, hcs, rfl⟩
    rw [Text.nonemptyFields_append hspaceless hfront hrest, List.map_cons]
    dsimp only
    rw [String.toList_ofList, ModeTraits.readFrom_without_plus]

/-- A text that begins with a space spells nothing. -/
theorem spelled_of_blank (h : mode.toList.head? = some ' ') : spelled mode = {} := by
  obtain ⟨rest, hmode⟩ := List.head?_eq_some_iff.mp h
  simp [spelled, letters, hmode, ModeTraits.readFrom]

/-! ## Changes one after the other -/

/-- Changes that can be worked into a mode text one after the other. -/
def Fits : String → List String → Prop
  | _, [] => True
  | mode, change :: changes =>
    Channel.entangled mode change = false ∧ Fits (mergeMode mode change) changes

theorem foldl_after_spelled {changes : List String} (hfits : Fits mode changes) :
    changes.foldl ModeTraits.after (spelled mode) = spelled (changes.foldl mergeMode mode) := by
  induction changes generalizing mode with
  | nil => rfl
  | cons change changes ih =>
    rw [List.foldl_cons, List.foldl_cons, after_spelled hfits.1, ih hfits.2]

theorem fits_concat {changes : List String} :
    Fits mode (changes ++ [change]) ↔
      Fits mode changes ∧ Channel.entangled (changes.foldl mergeMode mode) change = false := by
  induction changes generalizing mode with
  | nil => simp [Fits]
  | cons first changes ih => simp [Fits, ih, and_assoc]

/-- After changes of a text that began with letters, what was made of them letter by letter is what the
text says, unless the letters are used up and the arguments that are left say something. -/
theorem foldl_after_eq_read_iff {told : String} {changes : List String} (hfits : Fits told changes)
    (htold : told.toList.head? ≠ some ' ') :
    changes.foldl ModeTraits.after (ModeTraits.read told) =
        ModeTraits.read (changes.foldl mergeMode told) ↔
      ((changes.foldl mergeMode told).toList.head? = some ' ' →
        ModeTraits.read (changes.foldl mergeMode told) = {}) := by
  rw [read_eq_spelled htold, foldl_after_spelled hfits]
  generalize changes.foldl mergeMode told = mode
  by_cases hblank : mode.toList.head? = some ' '
  · rw [spelled_of_blank hblank]
    exact ⟨fun h _ => h.symm, fun h => (h hblank).symm⟩
  · exact ⟨fun _ h => absurd h hblank, fun _ => (read_eq_spelled hblank).symm⟩

theorem tail_of_blank (h : mode.toList.head? = some ' ') : tail mode = mode.toList := by
  obtain ⟨rest, hmode⟩ := List.head?_eq_some_iff.mp h
  simp [tail, hmode]

/-- The arguments of a text stay as they were told. -/
theorem tail_foldl_mergeMode {changes : List String} (hfits : Fits mode changes) :
    tail (changes.foldl mergeMode mode) = tail mode := by
  induction changes generalizing mode with
  | nil => rfl
  | cons change changes ih =>
    obtain ⟨hfirst, hrest⟩ := hfits
    simp only [Channel.entangled, Bool.or_eq_false_iff, List.contains_eq_mem,
      decide_eq_false_iff_not] at hfirst
    rw [List.foldl_cons, ih hrest, (parts_mergeMode mode hfirst.1).2]

/-- A text that began with a space says what it was told as long as no letters are added in front of
the space. With letters there, it forgets what it was told. -/
theorem read_after_blank {told : String} {changes : List String} (hfits : Fits told changes)
    (htold : told.toList.head? = some ' ') :
    ModeTraits.read (changes.foldl mergeMode told) =
      if (changes.foldl mergeMode told).toList.head? = some ' ' then ModeTraits.read told
      else changes.foldl ModeTraits.after {} := by
  have htail := tail_foldl_mergeMode hfits
  have hletters := foldl_after_spelled hfits
  rw [spelled_of_blank htold] at hletters
  rw [tail_of_blank htold] at htail
  rw [hletters]
  generalize changes.foldl mergeMode told = mode at htail ⊢
  split
  · rename_i hblank
    rw [tail_of_blank hblank] at htail
    rw [String.toList_injective htail]
  · rename_i hspelled
    exact read_eq_spelled hspelled

end ModeText

end IrcClient
