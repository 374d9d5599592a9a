import IrcClient.Session.Numeric

/-!
# Status symbols in front of names

Servers put the status symbols of a member in front of its nick, and those of somebody in front of the
channels it is on. What is taken off is the longest start that consists of status symbols, whatever it
is in front of.
-/

namespace IrcClient.ServerInfo

variable {info : ServerInfo} {symbols cs : List Char} {c : Char}

theorem splitStatus_cons (h : info.isStatusSymbol c = true) (cs : List Char) :
    info.splitStatus (c :: cs) =
      (Session.levelsIn info [c] ++ (info.splitStatus cs).1, (info.splitStatus cs).2) := by
  obtain ⟨⟨symbol, level⟩, hfound⟩ := Option.isSome_iff_exists.mp h
  have hlevels : Session.levelsIn info [c] = level.toList := by
    cases level <;> simp [Session.levelsIn, hfound]
  rw [splitStatus, hlevels]
  simp only [hfound]

/-- What does not begin with a status symbol is left as it is. -/
theorem splitStatus_of_head (h : ∀ c ∈ cs.head?, info.isStatusSymbol c = false) :
    info.splitStatus cs = ([], cs) := by
  cases cs with
  | nil => rfl
  | cons c cs =>
    have hnone : info.status? c = none :=
      Option.isNone_iff_eq_none.mp (Option.isSome_eq_false_iff.mp (h c rfl))
    rw [splitStatus]
    simp only [hnone]

theorem splitStatus_append (h : ∀ c ∈ symbols, info.isStatusSymbol c = true) (cs : List Char) :
    info.splitStatus (symbols ++ cs) =
      (Session.levelsIn info symbols ++ (info.splitStatus cs).1, (info.splitStatus cs).2) := by
  induction symbols with
  | nil => rfl
  | cons c symbols ih =>
    obtain ⟨hfirst, hrest⟩ := List.forall_mem_cons.mp h
    rw [List.cons_append, splitStatus_cons hfirst, ih hrest, Session.levelsIn, Session.levelsIn,
      Session.levelsIn, ← List.append_assoc, ← List.filterMap_append, List.singleton_append]

theorem splitStatus_append_snd (h : ∀ c ∈ symbols, info.isStatusSymbol c = true) (cs : List Char) :
    (info.splitStatus (symbols ++ cs)).2 = (info.splitStatus cs).2 := by
  rw [splitStatus_append h]

/-- The name is an end of the text. -/
theorem splitStatus_suffix (info : ServerInfo) (cs : List Char) : (info.splitStatus cs).2 <:+ cs := by
  induction cs with
  | nil => exact List.suffix_refl []
  | cons c cs ih =>
    cases hsymbol : info.isStatusSymbol c with
    | true =>
      rw [splitStatus_cons hsymbol]
      exact ih.trans (List.suffix_cons c cs)
    | false =>
      have hwhole : info.splitStatus (c :: cs) = ([], c :: cs) :=
        splitStatus_of_head (by simpa using hsymbol)
      exact ⟨[], congrArg Prod.snd hwhole⟩

end IrcClient.ServerInfo
