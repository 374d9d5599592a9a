import Mathlib.Data.List.TakeWhile
import IrcClient.Text.Blank

/-!
# Fields of a text

What comes first in a text, up to a separator, is its first field, and the others are those of the
rest.
-/

namespace IrcClient.Text

variable {p : Char → Bool} {front rest : List Char}

theorem fields_of_free (hfront : ∀ c ∈ front, p c = false) : fields p front = [front] := by
  induction front with
  | nil => rfl
  | cons c front ih =>
    obtain ⟨hc, hfront⟩ := List.forall_mem_cons.mp hfront
    simp [fields, hc, ih hfront]

theorem fields_append {c : Char} (hfront : ∀ c ∈ front, p c = false) (hc : p c = true) :
    fields p (front ++ c :: rest) = front :: fields p rest := by
  induction front with
  | nil => simp [fields, hc]
  | cons d front ih =>
    obtain ⟨hd, hfront⟩ := List.forall_mem_cons.mp hfront
    simp [fields, hd, ih hfront]

/-- What comes first is the first field, if it is anything at all. -/
theorem nonemptyFields_append (hfront : ∀ c ∈ front, p c = false) (hnonempty : front ≠ [])
    (hrest : rest = [] ∨ ∃ c cs, rest = c :: cs ∧ p c = true) :
    nonemptyFields p (front ++ rest) = front :: nonemptyFields p rest := by
  rcases hrest with rfl | ⟨c, cs, rfl, hc⟩
  · simp [nonemptyFields, fields_of_free hfront, fields, hnonempty]
  · have hskipped : fields p (c :: cs) = [] :: fields p cs := if_pos hc
    simp [nonemptyFields, fields_append hfront hc, hskipped, hnonempty]

/-- A text that is one word. -/
structure IsWord (word : List Char) : Prop where
  nonempty : word ≠ []
  solid : ∀ c ∈ word, isBlank c = false

instance (word : List Char) : Decidable (IsWord word) :=
  decidable_of_iff (word ≠ [] ∧ (word.all fun c => !isBlank c) = true)
    ⟨fun h => ⟨h.1, by simpa using h.2⟩, fun h => ⟨h.nonempty, by simpa using h.solid⟩⟩

/-- Words with a space between each two of them are read back. -/
theorem words_intercalate {texts : List (List Char)} (h : ∀ text ∈ texts, IsWord text) :
    words ([' '].intercalate texts) = texts := by
  induction texts with
  | nil => rfl
  | cons text texts ih =>
    obtain ⟨htext, hrest⟩ := List.forall_mem_cons.mp h
    cases texts with
    | nil =>
      have hlast : nonemptyFields isBlank (text ++ []) = [text] :=
        nonemptyFields_append htext.solid htext.nonempty (Or.inl rfl)
      rw [List.append_nil] at hlast
      rw [List.intercalate_singleton, words, hlast]
    | cons next texts =>
      have hblank : isBlank ' ' = true := by decide
      have hskipped (cs : List Char) : nonemptyFields isBlank (' ' :: cs) = words cs := by
        simp [words, nonemptyFields, fields, hblank]
      rw [List.intercalate_cons_cons, List.append_assoc, List.singleton_append, words,
        nonemptyFields_append htext.solid htext.nonempty (Or.inr ⟨_, _, rfl, hblank⟩), hskipped,
        ih hrest]

theorem takeWhile_spaceless (hfront : ' ' ∉ front)
    (hrest : rest = [] ∨ rest.head? = some ' ') :
    (front ++ rest).takeWhile (· ≠ ' ') = front ∧ (front ++ rest).dropWhile (· ≠ ' ') = rest := by
  have hpos : ∀ c ∈ front, decide (c ≠ ' ') = true := by
    intro c hc
    simpa using ne_of_mem_of_not_mem hc hfront
  rw [List.takeWhile_append_of_pos hpos, List.dropWhile_append_of_pos hpos]
  rcases hrest with rfl | hspace
  · simp
  · obtain ⟨rest, rfl⟩ := List.head?_eq_some_iff.mp hspace
    simp

end IrcClient.Text
