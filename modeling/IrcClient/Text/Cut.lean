/-!
# Cutting a text at a character

Most of the protocol's notation is a marker between two parts: `key=value`, `nick!login@host`,
`name args`. `cutAt` finds the first marker and gives both parts; `stripHead?` and `stripLast?`
remove a marker that has to stand at one end.
-/

namespace IrcClient.Text

/-- The text before the first `mark` and the text after it, or nothing if there is no `mark`. -/
def cutAt (mark : Char) : List Char → Option (List Char × List Char)
  | [] => none
  | c :: cs =>
    if c = mark then some ([], cs)
    else (cutAt mark cs).map fun parts => (c :: parts.1, parts.2)

/-- What follows `mark`, if the text starts with it. -/
def stripHead? (mark : Char) : List Char → Option (List Char)
  | [] => none
  | c :: cs => if c = mark then some cs else none

/-- What stands before a final `mark`, if the text ends with it. -/
def stripLast? (mark : Char) (cs : List Char) : Option (List Char) :=
  if cs.getLast? = some mark then some cs.dropLast else none

/-- A text without the `mark` that it may start with. -/
def stripHead (mark : Char) (cs : List Char) : List Char :=
  (stripHead? mark cs).getD cs

theorem stripHead_of_head?_ne {mark : Char} {cs : List Char} (h : cs.head? ≠ some mark) :
    stripHead mark cs = cs := by
  cases cs with
  | nil => rfl
  | cons c cs =>
    have hne : c ≠ mark := by simpa using h
    simp [stripHead, stripHead?, hne]

theorem cutAt_eq_none_iff {mark : Char} {cs : List Char} : cutAt mark cs = none ↔ mark ∉ cs := by
  induction cs with
  | nil => simp [cutAt]
  | cons c cs ih =>
    by_cases h : c = mark
    · simp [cutAt, h]
    · simp [cutAt, h, ih, Ne.symm h]

theorem cutAt_eq_some_iff {mark : Char} {cs before after : List Char} :
    cutAt mark cs = some (before, after) ↔ cs = before ++ mark :: after ∧ mark ∉ before := by
  induction cs generalizing before with
  | nil => simp [cutAt]
  | cons c cs ih =>
    by_cases h : c = mark
    · subst h
      cases before with
      | nil => simp [cutAt, eq_comm]
      | cons b bs => simp +contextual [cutAt]
    · cases before with
      | nil => simp [cutAt, h]
      | cons b bs =>
        simp only [cutAt, if_neg h, Option.map_eq_some_iff, Prod.exists, Prod.mk.injEq,
          List.cons.injEq]
        constructor
        · rintro ⟨l, r, hl, ⟨rfl, rfl⟩, rfl⟩
          obtain ⟨rfl, hm⟩ := ih.1 hl
          exact ⟨by simp, by simpa [Ne.symm h] using hm⟩
        · rintro ⟨heq, hm⟩
          obtain ⟨rfl, rfl⟩ := List.cons.inj heq
          exact ⟨bs, after, ih.2 ⟨rfl, fun hb => hm (List.mem_cons_of_mem _ hb)⟩, ⟨rfl, rfl⟩, rfl⟩

/-- Nothing is cut inside a front that has no mark. -/
theorem cutAt_append {mark : Char} {front : List Char} (h : mark ∉ front) (cs : List Char) :
    cutAt mark (front ++ cs) = (cutAt mark cs).map fun parts => (front ++ parts.1, parts.2) := by
  induction front with
  | nil => simp
  | cons c front ih =>
    rw [List.mem_cons, not_or] at h
    rw [List.cons_append, cutAt, if_neg (Ne.symm h.1), ih h.2, Option.map_map]
    rfl

end IrcClient.Text
