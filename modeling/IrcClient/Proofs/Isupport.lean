import IrcClient.ServerInfo

/-!
# Feature tokens of several lines

What a key is read as depends on its last token alone. So where no key of one line is a key of the
other, the two lines are read as one line with the tokens of both would be.
-/

namespace IrcClient

namespace Isupport

/-- The tokens of one line and then those of another. -/
def append (first second : Isupport) : Isupport := ⟨first.entries ++ second.entries⟩

instance : Append Isupport := ⟨append⟩

/-- Whether no key of one line is a key of the other, in any case. -/
def Apart (first second : Isupport) : Prop :=
  ∀ a ∈ first.entries, ∀ b ∈ second.entries, Text.sameIgnoringCase a.1 b.1 = false

variable {features first second : Isupport} {key : String}

theorem ofTokens_append (first second : List String) :
    ofTokens (first ++ second) = ofTokens first ++ ofTokens second := by
  rw [ofTokens, List.filter_append, List.map_append]
  rfl

theorem get?_append (first second : Isupport) (key : String) :
    (first ++ second).get? key = (second.get? key).or (first.get? key) := by
  change ((first.entries ++ second.entries).reverse.find? _).map Prod.snd = _
  rw [List.reverse_append, List.find?_append, Option.map_or]
  rfl

theorem exists_entry_of_get? {value : Option String} (h : features.get? key = some value) :
    ∃ entry ∈ features.entries, Text.sameIgnoringCase entry.1 key = true := by
  obtain ⟨entry, hfound, -⟩ := Option.map_eq_some_iff.mp h
  have hkey := List.find?_some hfound
  exact ⟨entry, List.mem_reverse.mp (List.mem_of_find?_eq_some hfound), hkey⟩

/-- A key is in one of the lines at most. -/
theorem Apart.get?_eq_none (h : first.Apart second) (key : String) :
    first.get? key = none ∨ second.get? key = none := by
  cases hfirst : first.get? key with
  | none => exact .inl rfl
  | some value =>
    cases hsecond : second.get? key with
    | none => exact .inr rfl
    | some other =>
      obtain ⟨a, ha, hakey⟩ := exists_entry_of_get? hfirst
      obtain ⟨b, hb, hbkey⟩ := exists_entry_of_get? hsecond
      have hsame : Text.sameIgnoringCase a.1 b.1 = true :=
        beq_iff_eq.mpr ((eq_of_beq hakey).trans (eq_of_beq hbkey).symm)
      exact absurd hsame (Bool.eq_false_iff.mp (h a ha b hb))

theorem Apart.value?_append (h : first.Apart second) (key : String) :
    (first ++ second).value? key = (second.value? key).or (first.value? key) := by
  rw [value?, value?, value?, get?_append]
  rcases h.get?_eq_none key with hnone | hnone
  · rw [hnone, Option.or_none, Option.join_none, Option.or_none]
  · rw [hnone, Option.none_or, Option.join_none, Option.none_or]

/-- What a value is read as is what the line says that has its key. -/
theorem Apart.bind_value?_append {α : Type} (h : first.Apart second) (key : String)
    (read : String → Option α) :
    ((first ++ second).value? key).bind read =
      ((second.value? key).bind read).or ((first.value? key).bind read) := by
  rw [value?, value?, value?, get?_append]
  rcases h.get?_eq_none key with hnone | hnone
  · rw [hnone, Option.or_none, Option.join_none, Option.bind_none, Option.or_none]
  · rw [hnone, Option.none_or, Option.join_none, Option.bind_none, Option.none_or]

theorem Apart.caseMapping?_append (h : first.Apart second) :
    (first ++ second).caseMapping? = second.caseMapping?.or first.caseMapping? :=
  h.value?_append _

theorem Apart.channelTypes?_append (h : first.Apart second) :
    (first ++ second).channelTypes? = second.channelTypes?.or first.channelTypes? :=
  h.value?_append _

theorem Apart.statusMessage?_append (h : first.Apart second) :
    (first ++ second).statusMessage? = second.statusMessage?.or first.statusMessage? :=
  h.value?_append _

theorem Apart.status?_append (h : first.Apart second) :
    (first ++ second).status? = second.status?.or first.status? :=
  h.bind_value?_append _ _

end Isupport

/-- Tokens on two lines tell of the server what they would tell on one. -/
theorem ServerInfo.withFeatures_append {first second : Isupport} (h : first.Apart second)
    (info : ServerInfo) :
    info.withFeatures (first ++ second) = (info.withFeatures first).withFeatures second := by
  have hmapping : (first ++ second).caseMapping?.bind CaseMapping.ofName? =
      (second.caseMapping?.bind CaseMapping.ofName?).or
        (first.caseMapping?.bind CaseMapping.ofName?) :=
    h.bind_value?_append _ _
  have hnetwork : (first ++ second).network? = second.network?.or first.network? :=
    h.value?_append _
  have hlength : (first ++ second).nickLength? = second.nickLength?.or first.nickLength? :=
    h.bind_value?_append _ _
  have hentries : (first ++ second).entries = first.entries ++ second.entries := rfl
  simp only [withFeatures, hentries, hmapping, hnetwork, hlength, h.channelTypes?_append,
    h.statusMessage?_append, h.status?_append, Option.orElse_eq_orElse, Option.orElse_eq_or,
    Option.getD_or, Option.map_or, Option.or_assoc, List.append_assoc]

end IrcClient
