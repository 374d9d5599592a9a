import IrcClient.Proofs.Store.Hearing

/-!
# Mode lines of single letters

A line of mode changes can be cut into lines of one letter each, with the sign that holds for the letter
and the argument that it takes. They say the same letter by letter. If no argument of the line is left
over, they also do the same to the text of a mode: it is given up after both or after none, and both
leave the same text.
-/

namespace IrcClient

/-- A line of mode changes. -/
structure ModeLine where
  modes : String
  args : List String
  deriving DecidableEq, Repr

namespace ModeLine

def text (line : ModeLine) : String := modeText line.modes line.args

def changes (line : ModeLine) : List ModeChange := ModeChange.read line.modes line.args

/-- The line of one letter under a sign, with its argument if it has one. -/
def single (adding : Bool) (c : Char) (arg : Option String) : ModeLine :=
  ⟨String.ofList [if adding then '+' else '-', c], arg.toList⟩

@[simp] theorem args_single (adding : Bool) (c : Char) (arg : Option String) :
    (single adding c arg).args = arg.toList := rfl

/-- The lines of the letters that follow under a sign, whether they are understood or not. The
arguments go to the letters that take one, as long as there are any. -/
def singlesFrom (adding : Bool) (args : List String) : List Char → List ModeLine
  | [] => []
  | c :: cs =>
    if c = '+' then singlesFrom true args cs
    else if c = '-' then singlesFrom false args cs
    else if (ModeKind.ofLetter? c).any (·.takesArg adding) then
      single adding c args.head? :: singlesFrom adding args.tail cs
    else single adding c none :: singlesFrom adding args cs

/-- The lines of the letters of a line. -/
def singles (line : ModeLine) : List ModeLine := singlesFrom true line.args line.modes.toList

/-- Whether every argument of a line is handed out to a letter. -/
def UsesArgs (line : ModeLine) : Prop := line.changes.filterMap (·.arg) = line.args

instance (line : ModeLine) : Decidable line.UsesArgs :=
  inferInstanceAs (Decidable (_ = _))

/-- Whether a line has more than signs. -/
def HasLetter (line : ModeLine) : Prop := ∃ c ∈ line.modes.toList, c ≠ '+' ∧ c ≠ '-'

instance (line : ModeLine) : Decidable line.HasLetter :=
  List.decidableBEx (fun c => c ≠ '+' ∧ c ≠ '-') line.modes.toList

variable {adding : Bool} {args : List String} {cs : List Char}

/-! ## What the letters say -/

theorem changes_single (adding : Bool) (c : Char) (arg : Option String) :
    (single adding c arg).changes = ModeChange.readFrom adding arg.toList [c] := by
  rw [changes, single, ModeChange.read, String.toList_ofList]
  cases adding <;> rfl

/-- Signs make no lines, and every other letter makes one. -/
theorem singlesFrom_ne_nil (h : ∃ c ∈ cs, c ≠ '+' ∧ c ≠ '-') : singlesFrom adding args cs ≠ [] := by
  induction cs generalizing adding with
  | nil => simp at h
  | cons c cs ih =>
    unfold singlesFrom
    split
    · rename_i hplus
      exact ih (by simpa [hplus] using h)
    · split
      · rename_i hminus
        exact ih (by simpa [hminus] using h)
      · split <;> exact List.cons_ne_nil _ _

/-- The letters are read as they are in one line. -/
theorem flatMap_changes (adding : Bool) (args : List String) (cs : List Char) :
    (singlesFrom adding args cs).flatMap changes = ModeChange.readFrom adding args cs := by
  induction cs generalizing adding args with
  | nil => rfl
  | cons c cs ih =>
    unfold singlesFrom ModeChange.readFrom
    split
    · exact ih true args
    · rename_i hplus
      split
      · exact ih false args
      · rename_i hminus
        cases hkind : ModeKind.ofLetter? c with
        | none =>
          simp [hkind, changes_single, ModeChange.readFrom, hplus, hminus, ih]
        | some kind =>
          cases htakes : kind.takesArg adding <;>
            cases args <;> simp [hkind, htakes, changes_single, ModeChange.readFrom, hplus, hminus, ih]

theorem flatMap_changes_singles (line : ModeLine) : line.singles.flatMap changes = line.changes :=
  flatMap_changes true line.args line.modes.toList

/-- Their arguments are those that are handed out. -/
theorem flatMap_args (adding : Bool) (args : List String) (cs : List Char) :
    (singlesFrom adding args cs).flatMap (·.args) =
      (ModeChange.readFrom adding args cs).filterMap (·.arg) := by
  induction cs generalizing adding args with
  | nil => rfl
  | cons c cs ih =>
    unfold singlesFrom ModeChange.readFrom
    split
    · exact ih true args
    · split
      · exact ih false args
      · cases hkind : ModeKind.ofLetter? c with
        | none => simp [single, ih]
        | some kind =>
          cases htakes : kind.takesArg adding <;> cases args <;> simp [htakes, single, ih]

end ModeLine

/-! ## What they do to a text -/

namespace ModeText

variable {mode change : String} {c : Char}

/-- A letter that can be worked into a mode text. -/
def Merges (mode : String) (c : Char) : Prop :=
  c ≠ ' ' ∧ (' ' ∈ mode.toList → c ≠ 'k' ∧ c ≠ 'l')

theorem entangled_eq_false_iff :
    Channel.entangled mode change = false ↔ ∀ c ∈ change.toList, Merges mode c := by
  simp only [Channel.entangled, Bool.or_eq_false_iff, Bool.and_eq_false_iff, List.contains_eq_mem,
    decide_eq_false_iff_not, Merges]
  constructor
  · rintro ⟨hspace, hruled⟩ c hc
    refine ⟨ne_of_mem_of_not_mem hc hspace, fun hargs => ?_⟩
    obtain ⟨hk, hl⟩ := hruled.resolve_left (not_not_intro hargs)
    exact ⟨ne_of_mem_of_not_mem hc hk, ne_of_mem_of_not_mem hc hl⟩
  · intro h
    refine ⟨fun hspace => (h ' ' hspace).1 rfl, ?_⟩
    by_cases hargs : ' ' ∈ mode.toList
    · exact Or.inr ⟨fun hk => ((h 'k' hk).2 hargs).1 rfl, fun hl => ((h 'l' hl).2 hargs).2 rfl⟩
    · exact Or.inl hargs

theorem tail_eq_nil_iff : tail mode = [] ↔ ' ' ∉ mode.toList := by
  rw [tail, List.dropWhile_eq_nil_iff]
  constructor
  · exact fun h hspace => by simpa using h ' ' hspace
  · exact fun h c hc => by simpa using ne_of_mem_of_not_mem hc h

/-- Whether a letter can be worked in does not depend on what was worked in before. -/
theorem entangled_mergeMode (h : Channel.entangled mode change = false) (other : String) :
    Channel.entangled (mergeMode mode change) other = Channel.entangled mode other := by
  have hspaceless : ' ' ∉ change.toList :=
    fun hspace => (entangled_eq_false_iff.mp h ' ' hspace).1 rfl
  have hsame : ' ' ∈ (mergeMode mode change).toList ↔ ' ' ∈ mode.toList := by
    rw [← not_iff_not, ← tail_eq_nil_iff, ← tail_eq_nil_iff, (parts_mergeMode mode hspaceless).2]
  simp only [Channel.entangled, List.contains_eq_mem, hsame]

theorem fits_iff {changes : List String} :
    Fits mode changes ↔ ∀ change ∈ changes, Channel.entangled mode change = false := by
  induction changes generalizing mode with
  | nil => simp [Fits]
  | cons change changes ih =>
    rw [Fits, List.forall_mem_cons]
    refine and_congr_right fun hfirst => ?_
    rw [ih]
    simp only [entangled_mergeMode hfirst]

theorem merges_sign (adding : Bool) (mode : String) : Merges mode (if adding then '+' else '-') := by
  cases adding <;> exact ⟨by decide, fun _ => by decide⟩

theorem entangled_single (adding : Bool) (c : Char) (arg : Option String) :
    Channel.entangled mode (ModeLine.single adding c arg).text = false ↔
      arg.toList = [] ∧ Merges mode c := by
  rw [ModeLine.text, Channel.entangled_modeText, entangled_eq_false_iff, ModeLine.single,
    String.toList_ofList]
  simp [merges_sign]

theorem entangled_singlesFrom (adding : Bool) (args : List String) (cs : List Char) :
    (∀ line ∈ ModeLine.singlesFrom adding args cs, Channel.entangled mode line.text = false) ↔
      (ModeLine.singlesFrom adding args cs).flatMap (·.args) = [] ∧ ∀ c ∈ cs, Merges mode c := by
  induction cs generalizing adding args with
  | nil => simp [ModeLine.singlesFrom]
  | cons c cs ih =>
    have hsign (adding : Bool) : (∀ d ∈ (if adding then '+' else '-') :: cs, Merges mode d) ↔
        ∀ d ∈ cs, Merges mode d := by
      rw [List.forall_mem_cons]
      exact and_iff_right (merges_sign adding mode)
    have hletter (arg : Option String) (args : List String) :
        (∀ line ∈ ModeLine.single adding c arg :: ModeLine.singlesFrom adding args cs,
          Channel.entangled mode line.text = false) ↔
        (ModeLine.single adding c arg :: ModeLine.singlesFrom adding args cs).flatMap (·.args) = [] ∧
          ∀ d ∈ c :: cs, Merges mode d := by
      simp only [List.forall_mem_cons, List.flatMap_cons, List.append_eq_nil_iff, entangled_single,
        ih, ModeLine.args_single]
      exact and_and_and_comm
    unfold ModeLine.singlesFrom
    split
    · rename_i hplus
      exact (ih true args).trans (and_congr_right fun _ => hplus ▸ (hsign true).symm)
    · split
      · rename_i hminus
        exact (ih false args).trans (and_congr_right fun _ => hminus ▸ (hsign false).symm)
      · split
        · exact hletter args.head? args.tail
        · exact hletter none args

/-- The lines of single letters can be worked in one after the other if the whole line can. -/
theorem fits_singles {line : ModeLine} (hargs : line.UsesArgs) :
    Fits mode (line.singles.map ModeLine.text) ↔ Fits mode [line.text] := by
  have htaken : line.singles.flatMap (·.args) = line.args :=
    (ModeLine.flatMap_args true line.args line.modes.toList).trans hargs
  rw [fits_iff, fits_iff, List.forall_mem_map, List.forall_mem_singleton, ModeLine.singles,
    entangled_singlesFrom, ← ModeLine.singles, htaken, ModeLine.text, Channel.entangled_modeText,
    entangled_eq_false_iff]

/-- Letters that are worked in one by one leave the letters that they leave together. -/
theorem parts_foldl_singlesFrom (adding : Bool) (mode : String) {cs : List Char} (hspace : ' ' ∉ cs) :
    letters (((ModeLine.singlesFrom adding [] cs).map ModeLine.text).foldl mergeMode mode) =
        mergeLetters adding (letters mode) cs ∧
      tail (((ModeLine.singlesFrom adding [] cs).map ModeLine.text).foldl mergeMode mode) = tail mode := by
  induction cs generalizing adding mode with
  | nil => exact ⟨rfl, rfl⟩
  | cons c cs ih =>
    rw [List.mem_cons, not_or] at hspace
    by_cases hplus : c = '+'
    · subst hplus
      exact ih true mode hspace.2
    by_cases hminus : c = '-'
    · subst hminus
      exact ih false mode hspace.2
    have hsingles : ModeLine.singlesFrom adding [] (c :: cs) =
        ModeLine.single adding c none :: ModeLine.singlesFrom adding [] cs := by
      rw [ModeLine.singlesFrom, if_neg hplus, if_neg hminus]
      split <;> rfl
    have htext : (ModeLine.single adding c none).text.toList = [if adding then '+' else '-', c] := by
      simp [ModeLine.text, ModeLine.single, modeText]
    have hfree : ' ' ∉ (ModeLine.single adding c none).text.toList := by
      rw [htext]
      cases adding <;> simpa using hspace.1
    have hletter : mergeLetters true (letters mode) [if adding then '+' else '-', c] =
        ModeTraits.mergeLetter adding (letters mode) c := by
      have hone (adding : Bool) : mergeLetters adding (letters mode) [c] =
          ModeTraits.mergeLetter adding (letters mode) c := ModeTraits.mergeLetters_cons hplus hminus []
      cases adding
      · exact hone false
      · exact hone true
    obtain ⟨hletters, htail⟩ := parts_mergeMode mode hfree
    obtain ⟨hlater, hkept⟩ := ih adding (mergeMode mode (ModeLine.single adding c none).text) hspace.2
    rw [hsingles, List.map_cons, List.foldl_cons, hlater, hkept, hletters, htext, hletter, htail,
      ModeTraits.mergeLetters_cons hplus hminus]
    exact ⟨rfl, rfl⟩

/-- A merged text is written from its parts. -/
theorem toList_mergeMode (mode : String) (hchange : ' ' ∉ change.toList) :
    (mergeMode mode change).toList =
      written (letters (mergeMode mode change)) (tail (mergeMode mode change)) := by
  obtain ⟨hletters, htail⟩ := parts_mergeMode mode hchange
  rw [hletters, htail]
  exact mergeMode_eq mode change

/-- Where a line can be worked into a text, its letters one by one make the same text of it. -/
theorem foldl_mergeMode_singles {line : ModeLine} (hletter : line.HasLetter) (hargs : line.UsesArgs)
    (hfits : Fits mode [line.text]) :
    (line.singles.map ModeLine.text).foldl mergeMode mode = mergeMode mode line.text := by
  obtain ⟨modes, args⟩ := line
  have hunentangled := fits_iff.mp hfits _ (List.mem_singleton.mpr rfl)
  rw [ModeLine.text, Channel.entangled_modeText] at hunentangled
  obtain ⟨rfl, hmodes⟩ := hunentangled
  have hspace : ' ' ∉ modes.toList := fun hmem => (entangled_eq_false_iff.mp hmodes ' ' hmem).1 rfl
  have hsingles := fits_iff.mp ((fits_singles hargs).mpr hfits)
  obtain ⟨hletters, htail⟩ := parts_foldl_singlesFrom true mode hspace
  obtain ⟨first, last, hlast⟩ := (List.eq_nil_or_concat
    ((ModeLine.singlesFrom true [] modes.toList).map ModeLine.text)).resolve_left
      fun hnil => ModeLine.singlesFrom_ne_nil hletter (List.map_eq_nil_iff.mp hnil)
  rw [ModeLine.singles] at hsingles ⊢
  rw [hlast] at hsingles hletters htail ⊢
  rw [List.concat_eq_append, List.foldl_append, List.foldl_cons, List.foldl_nil] at hletters htail ⊢
  have hfree : ' ' ∉ last.toList := fun hmem =>
    (entangled_eq_false_iff.mp (hsingles last (by simp)) ' ' hmem).1 rfl
  apply String.toList_injective
  rw [toList_mergeMode _ hfree, hletters, htail]
  exact (mergeMode_eq mode modes).symm

end ModeText

/-! ## What they do to a channel -/

namespace Channel

variable {channel : Channel} {texts : List String}

/-- A channel without its mode text where that is stale, and so means nothing. -/
def settled (channel : Channel) : Channel :=
  if channel.stale then { channel with mode := "" } else channel

theorem foldl_amendMode_of_stale (h : channel.stale = true) (texts : List String) :
    texts.foldl amendMode channel = channel := by
  induction texts with
  | nil => rfl
  | cons text texts ih => rwa [List.foldl_cons, amendMode, if_pos h]

theorem amendMode_of_fits {text : String} (hfresh : channel.stale = false)
    (hfits : entangled channel.mode text = false) :
    channel.amendMode text = { channel with
      mode := mergeMode channel.mode text
      published := some (mergeMode channel.mode text) } := by
  rw [amendMode, if_neg (by simp [hfresh]), if_neg (by simp [hfits])]

theorem foldl_amendMode_of_fits (hfresh : channel.stale = false)
    (hfits : ModeText.Fits channel.mode texts) (hne : texts ≠ []) :
    texts.foldl amendMode channel = { channel with
      mode := texts.foldl mergeMode channel.mode
      published := some (texts.foldl mergeMode channel.mode) } := by
  induction texts generalizing channel with
  | nil => exact absurd rfl hne
  | cons text texts ih =>
    rw [List.foldl_cons, List.foldl_cons, amendMode_of_fits hfresh hfits.1]
    cases texts with
    | nil => rfl
    | cons next texts => exact ih hfresh hfits.2 (List.cons_ne_nil next texts)

/-- A text is given up at the first change that does not fit, and nothing is known of it then. -/
theorem settled_foldl_of_not_fits (hfresh : channel.stale = false)
    (hnot : ¬ ModeText.Fits channel.mode texts) :
    (texts.foldl amendMode channel).settled =
      { channel with mode := "", stale := true, published := none } := by
  induction texts generalizing channel with
  | nil => exact absurd trivial hnot
  | cons text texts ih =>
    rw [List.foldl_cons]
    by_cases hfirst : entangled channel.mode text = false
    · rw [amendMode_of_fits hfresh hfirst]
      exact ih hfresh fun hrest => hnot ⟨hfirst, hrest⟩
    · rw [amendMode, if_neg (by simp [hfresh]), if_pos (by simpa using hfirst),
        foldl_amendMode_of_stale rfl]
      rfl

/-- A line does the same to the mode text of a channel as its letters do one by one. -/
theorem settled_foldl_singles (channel : Channel) {line : ModeLine} (hletter : line.HasLetter)
    (hargs : line.UsesArgs) :
    ((line.singles.map ModeLine.text).foldl amendMode channel).settled =
      (channel.amendMode line.text).settled := by
  cases hfresh : channel.stale with
  | true => rw [foldl_amendMode_of_stale hfresh, amendMode, if_pos hfresh]
  | false =>
    have hwhole : channel.amendMode line.text = [line.text].foldl amendMode channel := rfl
    have hsame : ModeText.Fits channel.mode (line.singles.map ModeLine.text) ↔
        ModeText.Fits channel.mode [line.text] := ModeText.fits_singles hargs
    by_cases hfits : ModeText.Fits channel.mode [line.text]
    · have hne : line.singles.map ModeLine.text ≠ [] :=
        fun hnil => ModeLine.singlesFrom_ne_nil hletter (List.map_eq_nil_iff.mp hnil)
      rw [foldl_amendMode_of_fits hfresh (hsame.mpr hfits) hne, hwhole,
        foldl_amendMode_of_fits hfresh hfits (List.cons_ne_nil _ _),
        ModeText.foldl_mergeMode_singles hletter hargs hfits]
      rfl
    · rw [settled_foldl_of_not_fits hfresh (mt hsame.mp hfits), hwhole,
        settled_foldl_of_not_fits hfresh hfits]

end Channel

end IrcClient
