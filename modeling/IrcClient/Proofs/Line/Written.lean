import Mathlib.Data.List.TakeWhile
import IrcClient.Line.Parser
import IrcClient.Proofs.Command.Framing

/-!
# Reading a line that was written from its parts

Parameters are read back as they were written, each after one space, if all of them but the last could
not be taken for anything else. The last one may be any text if a colon is written in front of it.
-/

namespace IrcClient.Line

/-- A parameter that is read as one wherever it stands. -/
structure IsMiddle (param : List Char) : Prop where
  nonempty : param ≠ []
  spaceless : ' ' ∉ param
  plain : param.head? ≠ some ':'

instance (param : List Char) : Decidable (IsMiddle param) :=
  decidable_of_iff (param ≠ [] ∧ ' ' ∉ param ∧ param.head? ≠ some ':')
    ⟨fun h => ⟨h.1, h.2.1, h.2.2⟩, fun h => ⟨h.nonempty, h.spaceless, h.plain⟩⟩

/-- A rest of a line that does not go on with what stands before it. -/
def Begins (rest : List Char) : Prop := rest = [] ∨ rest.head? = some ' '

variable {rest : List Char}

/-- The parameter that is begun ends where the rest begins. -/
theorem paramsFrom_append (hrest : Begins rest) {current param : List Char} (hcurrent : current ≠ [])
    (hparam : ' ' ∉ param) :
    paramsFrom current (param ++ rest) = (current.reverse ++ param) :: splitParams rest := by
  induction param generalizing current with
  | nil =>
    obtain ⟨c, cs, rfl⟩ := List.exists_cons_of_ne_nil hcurrent
    rcases hrest with rfl | hspace
    · simp [paramsFrom, splitParams]
    · obtain ⟨rest, rfl⟩ := List.head?_eq_some_iff.mp hspace
      simp [paramsFrom, splitParams]
  | cons c param ih =>
    simp only [List.mem_cons, not_or] at hparam
    obtain ⟨hspace, hparam⟩ := hparam
    obtain ⟨b, bs, rfl⟩ := List.exists_cons_of_ne_nil hcurrent
    rw [List.cons_append, paramsFrom, if_neg (Ne.symm hspace), ih (List.cons_ne_nil c _) hparam]
    · simp
    · exact List.cons_ne_nil b bs

theorem splitParams_middle (hrest : Begins rest) {param : List Char} (hparam : IsMiddle param) :
    splitParams (' ' :: param ++ rest) = param :: splitParams rest := by
  obtain ⟨c, param, rfl⟩ := List.exists_cons_of_ne_nil hparam.nonempty
  obtain ⟨hspace, hspaces⟩ : ' ' ≠ c ∧ ' ' ∉ param := by
    simpa only [List.mem_cons, not_or] using hparam.spaceless
  have hcolon : c ≠ ':' := fun heq => hparam.plain (congrArg some heq)
  change paramsFrom [] (c :: (param ++ rest)) = _
  rw [paramsFrom, if_neg (Ne.symm hspace), if_neg hcolon,
    paramsFrom_append hrest (List.cons_ne_nil c []) hspaces]
  rfl

theorem begins_written (hrest : Begins rest) (params : List (List Char)) :
    Begins (params.flatMap (' ' :: ·) ++ rest) := by
  cases params with
  | nil => exact hrest
  | cons param params => exact Or.inr rfl

theorem splitParams_written (hrest : Begins rest) {params : List (List Char)}
    (hparams : ∀ param ∈ params, IsMiddle param) :
    splitParams (params.flatMap (' ' :: ·) ++ rest) = params ++ splitParams rest := by
  induction params with
  | nil => rfl
  | cons param params ih =>
    obtain ⟨hparam, hparams⟩ := List.forall_mem_cons.mp hparams
    rw [List.flatMap_cons, List.append_assoc, splitParams_middle (begins_written hrest params) hparam,
      ih hparams, List.cons_append]

theorem splitParams_trailing (text : List Char) : splitParams (' ' :: ':' :: text) = [text] := rfl

/-! ## Lines that begin with their command -/

theorem trimEnd_of_unbroken {text : List Char} (h : LineFormatter.Unbroken text) :
    Text.trimEnd (fun c => c == '\r' || c == '\n') text = text := by
  have hlast : text.reverse.dropWhile (fun c => c == '\r' || c == '\n') = text.reverse := by
    rw [List.dropWhile_eq_self_iff]
    intro hlength hbreak
    have hmem := List.mem_reverse.mp (List.getElem_mem hlength)
    rcases Bool.or_eq_true_iff.mp hbreak with hcr | hlf
    · exact h.1 (eq_of_beq hcr ▸ hmem)
    · exact h.2 (eq_of_beq hlf ▸ hmem)
  rw [Text.trimEnd, hlast, List.reverse_reverse]

/-- An ASCII letter or digit is neither white space nor does it open a section. -/
theorem ne_of_isAlphanum {c : Char} (h : c.isAlphanum = true) :
    Text.isBlank c = false ∧ c ≠ ' ' ∧ c ≠ '\t' ∧ c ≠ '@' ∧ c ≠ ':' := by
  refine ⟨?_, ?_, ?_, ?_, ?_⟩
  · have hbounds {lo hi : Char} (h : c.val ≥ lo.val ∧ c.val ≤ hi.val) :
        lo.toNat ≤ c.toNat ∧ c.toNat ≤ hi.toNat :=
      h.imp UInt32.le_iff_toNat_le.mp UInt32.le_iff_toNat_le.mp
    have hrange : (65 ≤ c.toNat ∧ c.toNat ≤ 90) ∨ (97 ≤ c.toNat ∧ c.toNat ≤ 122) ∨
        (48 ≤ c.toNat ∧ c.toNat ≤ 57) := by
      rcases Bool.or_eq_true_iff.mp h with hletter | hdigit
      · rcases Bool.or_eq_true_iff.mp hletter with hupper | hlower
        · have hpair : c.val ≥ 'A'.val ∧ c.val ≤ 'Z'.val := of_decide_eq_true hupper
          exact Or.inl (hbounds hpair)
        · have hpair : c.val ≥ 'a'.val ∧ c.val ≤ 'z'.val :=
            (Bool.and_eq_true_iff.mp hlower).imp of_decide_eq_true of_decide_eq_true
          exact Or.inr (Or.inl (hbounds hpair))
      · have hpair : c.val ≥ '0'.val ∧ c.val ≤ '9'.val :=
          (Bool.and_eq_true_iff.mp hdigit).imp of_decide_eq_true of_decide_eq_true
        exact Or.inr (Or.inr (hbounds hpair))
    rw [← Bool.not_eq_true]
    simp only [Text.isBlank, Bool.or_eq_true, Bool.and_eq_true, decide_eq_true_eq, beq_iff_eq]
    omega
  all_goals
    rintro rfl
    exact absurd h (by decide)

theorem takeWhile_isAlphanum (hrest : Begins rest) {verb : List Char}
    (hverb : ∀ c ∈ verb, c.isAlphanum = true) :
    (verb ++ rest).takeWhile Char.isAlphanum = verb ∧
      (verb ++ rest).dropWhile Char.isAlphanum = rest := by
  have hnone : rest.takeWhile Char.isAlphanum = [] ∧ rest.dropWhile Char.isAlphanum = rest := by
    rcases hrest with rfl | hspace
    · exact ⟨rfl, rfl⟩
    · obtain ⟨rest, rfl⟩ := List.head?_eq_some_iff.mp hspace
      exact ⟨rfl, rfl⟩
  rw [List.takeWhile_append_of_pos hverb, List.dropWhile_append_of_pos hverb, hnone.1, hnone.2,
    List.append_nil]
  exact ⟨rfl, rfl⟩

/-- A line without tags and source, from its command on. -/
theorem parse_command (hrest : Begins rest) {verb : List Char} (hnonempty : verb ≠ [])
    (hverb : ∀ c ∈ verb, c.isAlphanum = true) {raw : String} (hraw : raw.toList = verb ++ rest)
    (hunbroken : LineFormatter.Unbroken raw.toList) :
    parse raw = .ok {
      raw := raw
      tags := []
      source := none
      command := String.ofList (verb.map Char.toUpper)
      params := (splitParams rest).map String.ofList } := by
  obtain ⟨htake, hdrop⟩ := takeWhile_isAlphanum hrest hverb
  obtain ⟨c, cs, rfl⟩ := List.exists_cons_of_ne_nil hnonempty
  obtain ⟨hblank, hspace, htab, hat, hcolon⟩ := ne_of_isAlphanum (hverb c List.mem_cons_self)
  have hgap : skipGap (c :: cs ++ rest) = c :: cs ++ rest := by
    simp [skipGap, hspace, htab]
  have hsection {mark : Char} (hmark : c ≠ mark) : Line.section? mark (c :: cs ++ rest) =
      (none, c :: cs ++ rest) := by
    simp [section?, hmark]
  have hpresent : (c :: cs ++ rest).all Text.isBlank = false := by
    simp [hblank]
  have hsame : String.ofList (c :: cs ++ rest) = raw := by
    rw [← hraw, String.ofList_toList]
  unfold parse
  rw [trimEnd_of_unbroken hunbroken, hraw]
  simp only [hpresent, hsection hat, hsection hcolon, hgap, htake, hdrop, hsame]
  rfl

end IrcClient.Line
