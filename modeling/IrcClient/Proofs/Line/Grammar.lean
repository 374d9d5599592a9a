import Mathlib.Data.List.Basic
import IrcClient.Proofs.Line.Written
import IrcClient.Proofs.Text.Fields

/-!
# The grammar of lines

A line is `[@tags] [:source] command` with parameters. Sections are set off by spaces and tabs,
parameters by spaces. Here the grammar stands as a relation of its own. What `parse` accepts matches
it, up to what stands directly behind a command, and it reads whatever matches.
-/

namespace IrcClient.Line

/-- White space between sections. -/
def IsGap (gap : List Char) : Prop := ∀ c ∈ gap, c = ' ' ∨ c = '\t'

/-- A section that `mark` opens, or none, with the gap behind it. -/
inductive IsSection (mark : Char) : List Char → Option (List Char) → Prop where
  | absent {gap : List Char} (hgap : IsGap gap) : IsSection mark gap none
  | present {body gap : List Char} (hnonempty : body ≠ []) (hspaceless : ' ' ∉ body)
      (hgap : IsGap gap) : IsSection mark (mark :: body ++ ' ' :: gap) (some body)

/-- The parameters behind a command, of which the last may be a trailing one, and the number of spaces
behind all of them. -/
inductive AreParams : List Char → List (List Char) → Nat → Prop where
  | done (spaces : Nat) : AreParams (List.replicate spaces ' ') [] spaces
  | trailing (gap : Nat) (text : List Char) :
      AreParams (List.replicate (gap + 1) ' ' ++ ':' :: text) [text] 0
  | middle (gap : Nat) {param rest : List Char} {params : List (List Char)} {spaces : Nat}
      (hparam : IsMiddle param) (hrest : AreParams rest params spaces) :
      AreParams (List.replicate (gap + 1) ' ' ++ param ++ rest) (param :: params) spaces

/-- A line in its parts, as they stand in its text. -/
structure Parts where
  tags : Option (List Char)
  source : Option (List Char)
  command : List Char
  params : List (List Char)

/-- What the parts of a text mean. -/
def Parts.line (parts : Parts) (text : List Char) : Line where
  raw := String.ofList text
  tags := (parts.tags.map parseTags).getD []
  source := parts.source.map fun source => Hostmask.parse (String.ofList source)
  command := String.ofList (parts.command.map Char.toUpper)
  params := parts.params.map String.ofList

/-- A text that is made up of the parts of a line, and of nothing else but white space between them and
some spaces at its end. -/
inductive Matches : List Char → Parts → Nat → Prop where
  | intro {tagsText sourceText paramsText : List Char} {parts : Parts} {spaces : Nat}
      (htags : IsSection '@' tagsText parts.tags) (hsource : IsSection ':' sourceText parts.source)
      (hnonempty : parts.command ≠ []) (hcommand : ∀ c ∈ parts.command, c.isAlphanum = true)
      (hparams : AreParams paramsText parts.params spaces) :
      Matches (tagsText ++ sourceText ++ parts.command ++ paramsText) parts spaces

/-- A text that goes on directly behind its command, with neither more of the command nor a space. -/
inductive RunsOn : List Char → Parts → Prop where
  | intro {front : List Char} {parts : Parts} {c : Char} (hfront : Matches front parts 0)
      (hparams : parts.params = []) (hcommand : c.isAlphanum = false) (hspace : c ≠ ' ')
      (rest : List Char) : RunsOn (front ++ c :: rest) parts

/-- A line without its terminator. -/
def unterminated (raw : String) : List Char :=
  Text.trimEnd (fun c => c == '\r' || c == '\n') raw.toList

/-! ## Parameters -/

section Params

variable {text : List Char} {params : List (List Char)} {spaces : Nat}

theorem begins_replicate (n : Nat) : Begins (List.replicate n ' ') := by
  cases n with
  | zero => exact .inl rfl
  | succ n => exact .inr rfl

theorem AreParams.begins (h : AreParams text params spaces) : Begins text := by
  cases h with
  | done => exact begins_replicate spaces
  | trailing | middle => exact .inr rfl

theorem splitParams_spaces (gap : Nat) (cs : List Char) :
    splitParams (List.replicate (gap + 1) ' ' ++ cs) = paramsFrom [] cs := by
  induction gap with
  | zero => rfl
  | succ gap ih => exact ih

theorem AreParams.splitParams_eq (h : AreParams text params spaces) :
    splitParams text = params := by
  induction h with
  | done spaces =>
    cases spaces with
    | zero => rfl
    | succ spaces => simpa [paramsFrom] using splitParams_spaces spaces []
  | trailing gap text => exact splitParams_spaces gap (':' :: text)
  | @middle gap param rest params spaces hparam hrest ih =>
    rw [List.append_assoc, splitParams_spaces]
    exact (splitParams_middle hrest.begins hparam).trans (congrArg (param :: ·) ih)

/-- Where a parameter is begun, it is one that can stand anywhere. -/
theorem areParams_paramsFrom (gap : Nat) (current cs : List Char)
    (hcurrent : current ≠ [] → IsMiddle current.reverse) :
    ∃ spaces, AreParams (List.replicate (gap + 1) ' ' ++ (current.reverse ++ cs))
      (paramsFrom current cs) spaces := by
  induction cs generalizing gap current with
  | nil =>
    cases current with
    | nil => exact ⟨gap + 1, by simpa [paramsFrom] using AreParams.done (gap + 1)⟩
    | cons b bs =>
      have hmiddle := hcurrent (List.cons_ne_nil b bs)
      exact ⟨0, by simpa [paramsFrom] using AreParams.middle gap hmiddle (.done 0)⟩
  | cons c cs ih =>
    cases current with
    | nil =>
      rw [paramsFrom]
      split
      · rename_i hspace
        obtain ⟨spaces, h⟩ := ih (gap + 1) [] (absurd rfl)
        rw [List.replicate_succ', List.append_assoc] at h
        exact ⟨spaces, hspace ▸ h⟩
      · rename_i hspace
        split
        · rename_i hcolon
          exact ⟨0, hcolon ▸ .trailing gap cs⟩
        · rename_i hcolon
          have hmiddle : IsMiddle [c] := ⟨by simp, by simpa using Ne.symm hspace, by simpa⟩
          exact ih gap [c] fun _ => hmiddle
    | cons b bs =>
      have hmiddle := hcurrent (List.cons_ne_nil b bs)
      rw [paramsFrom]
      split
      · rename_i hspace
        obtain ⟨spaces, h⟩ := ih 0 [] (absurd rfl)
        rw [hspace, ← List.append_assoc]
        exact ⟨spaces, .middle gap hmiddle h⟩
      · rename_i hspace
        have hmore : IsMiddle ((b :: bs).reverse ++ [c]) := by
          refine ⟨by simp, ?_, ?_⟩
          · rw [List.mem_append, List.mem_singleton, not_or]
            exact ⟨hmiddle.spaceless, Ne.symm hspace⟩
          · rw [List.head?_append_of_ne_nil _ hmiddle.nonempty]
            exact hmiddle.plain
        obtain ⟨spaces, h⟩ := ih gap (c :: b :: bs) fun _ => List.reverse_cons ▸ hmore
        rw [List.reverse_cons, List.append_assoc] at h
        exact ⟨spaces, h⟩
      · exact List.cons_ne_nil b bs

theorem areParams_splitParams (h : Begins text) : ∃ spaces, AreParams text (splitParams text) spaces := by
  rcases h with rfl | hspace
  · exact ⟨0, .done 0⟩
  · obtain ⟨cs, rfl⟩ := List.head?_eq_some_iff.mp hspace
    exact areParams_paramsFrom 0 [] cs (absurd rfl)

end Params

/-! ## Sections -/

section Sections

variable {mark : Char} {text rest gap : List Char} {body : Option (List Char)}

theorem section?_present {body : List Char} (hnonempty : body ≠ []) (hspaceless : ' ' ∉ body)
    (rest : List Char) : section? mark (mark :: (body ++ ' ' :: rest)) = (some body, ' ' :: rest) := by
  obtain ⟨htake, hdrop⟩ := Text.takeWhile_spaceless hspaceless (.inr (List.head?_cons (l := rest)))
  simp only [section?, htake, hdrop, true_and]
  exact if_pos hnonempty

theorem section?_absent (h : text.head? ≠ some mark) : section? mark text = (none, text) := by
  cases text with
  | nil => rfl
  | cons c cs =>
    have hmark : c ≠ mark := fun heq => h (congrArg some heq)
    simp [section?, hmark]

theorem skipGap_append (hgap : IsGap gap) (rest : List Char) : skipGap (gap ++ rest) = skipGap rest :=
  List.dropWhile_append_of_pos (by simpa [IsGap] using hgap)

theorem skipGap_cons {c : Char} (hspace : c ≠ ' ') (htab : c ≠ '\t') (cs : List Char) :
    skipGap (c :: cs) = c :: cs := by
  simp [skipGap, hspace, htab]

theorem head?_gap_append {c : Char} (hgap : IsGap gap) (hc : ¬ IsGap [c])
    (hrest : rest.head? ≠ some c) : (gap ++ rest).head? ≠ some c := by
  cases gap with
  | nil => exact hrest
  | cons d gap =>
    rintro ⟨⟩
    exact hc (List.forall_mem_singleton.mpr (hgap c List.mem_cons_self))

theorem isGap_takeWhile (text : List Char) :
    IsGap (text.takeWhile fun c => c == ' ' || c == '\t') := by
  intro c hc
  simpa using List.mem_takeWhile_imp hc

/-- A section and the gap behind it are what stands in front of the rest. -/
theorem exists_isSection (mark : Char) (text : List Char)
    (hrest : skipGap (section? mark text).2 ≠ []) :
    ∃ front, text = front ++ skipGap (section? mark text).2 ∧
      IsSection mark front (section? mark text).1 := by
  have hgap (cs : List Char) : cs = (cs.takeWhile fun c => c == ' ' || c == '\t') ++ skipGap cs :=
    (List.takeWhile_append_dropWhile ..).symm
  have habsent : ∃ front, text = front ++ skipGap text ∧ IsSection mark front none :=
    ⟨_, hgap text, .absent (isGap_takeWhile text)⟩
  cases text with
  | nil => exact absurd rfl hrest
  | cons c cs =>
    unfold section? at hrest ⊢
    dsimp only at hrest ⊢
    split at hrest
    · rename_i hopens
      obtain ⟨rfl, hnonempty⟩ := hopens
      rw [if_pos ⟨rfl, hnonempty⟩]
      have hspaceless : ' ' ∉ cs.takeWhile (· ≠ ' ') := fun hmem => by
        simpa using List.mem_takeWhile_imp hmem
      -- The section ends at a space, because something follows the gap.
      have hspace : ∃ ds, cs.dropWhile (· ≠ ' ') = ' ' :: ds := by
        cases hdrop : cs.dropWhile (· ≠ ' ') with
        | nil => exact absurd (congrArg skipGap hdrop) hrest
        | cons d ds =>
          have hd := List.head?_dropWhile_not (· ≠ ' ') cs
          rw [hdrop] at hd
          exact ⟨ds, by simpa using hd⟩
      obtain ⟨ds, hdrop⟩ := hspace
      have hskip : skipGap (' ' :: ds) = skipGap ds := rfl
      have hcs : cs = cs.takeWhile (· ≠ ' ') ++ ' ' :: ds := by
        rw [← hdrop, List.takeWhile_append_dropWhile]
      refine ⟨_, ?_, .present hnonempty hspaceless (isGap_takeWhile ds)⟩
      rw [hdrop, hskip]
      conv_lhs => rw [hcs, hgap ds]
      simp
    · rename_i hopens
      rw [if_neg hopens]
      exact habsent

/-- A section is found, and then the gap behind it is skipped. -/
theorem IsSection.section?_eq (h : IsSection mark text body) (hmark : ¬ IsGap [mark])
    (hrest : rest.head? ≠ some mark) :
    (section? mark (text ++ rest)).1 = body ∧
      skipGap (section? mark (text ++ rest)).2 = skipGap rest := by
  cases h with
  | absent hgap =>
    rw [section?_absent (head?_gap_append hgap hmark hrest)]
    exact ⟨rfl, skipGap_append hgap rest⟩
  | @present body gap hnonempty hspaceless hgap =>
    rw [List.append_assoc, List.cons_append, List.cons_append, section?_present hnonempty hspaceless]
    exact ⟨rfl, skipGap_append hgap rest⟩

/-- The gap in front of a section does not matter. -/
theorem IsSection.skipGap_eq (h : IsSection mark text body) (hmark : ¬ IsGap [mark])
    (hrest : skipGap rest = rest) :
    ∃ front, skipGap (text ++ rest) = front ++ rest ∧ IsSection mark front body := by
  cases h with
  | absent hgap => exact ⟨[], by rw [skipGap_append hgap, hrest]; rfl, .absent nofun⟩
  | @present body gap hnonempty hspaceless hgap =>
    simp only [IsGap, List.forall_mem_singleton, not_or] at hmark
    exact ⟨mark :: body ++ ' ' :: gap, skipGap_cons hmark.1 hmark.2 (body ++ ' ' :: gap ++ rest),
      .present hnonempty hspaceless hgap⟩

theorem IsSection.head?_ne {c : Char} (h : IsSection mark text body) (hmark : mark ≠ c)
    (hc : ¬ IsGap [c]) (hrest : rest.head? ≠ some c) : (text ++ rest).head? ≠ some c := by
  cases h with
  | absent hgap => exact head?_gap_append hgap hc hrest
  | present => exact fun hhead => hmark (Option.some.inj hhead)

end Sections

/-! ## Lines -/

variable {raw : String} {text : List Char} {parts : Parts} {spaces : Nat} {line : Line}

/-- A line is read section by section, and what follows the command is split into parameters. -/
theorem parse_eq {text : List Char} (htext : unterminated raw = text)
    (hpresent : text.all Text.isBlank = false) :
    parse raw =
      let source := section? ':' (skipGap (section? '@' text).2)
      let rest := skipGap source.2
      let parts : Parts := ⟨(section? '@' text).1, source.1, rest.takeWhile Char.isAlphanum,
        splitParams (rest.dropWhile Char.isAlphanum)⟩
      if parts.command.isEmpty then
        .error (.noCommand (Text.byteLength text - Text.byteLength rest))
      else .ok (parts.line text) := by
  subst htext
  unfold parse
  rw [show Text.trimEnd _ raw.toList = unterminated raw from rfl]
  simp only [hpresent]
  rfl

/-- What matches is read as the parts that it is made up of. -/
theorem parse_of_matches (h : Matches (unterminated raw) parts spaces) :
    parse raw = .ok (parts.line (unterminated raw)) := by
  generalize htext : unterminated raw = text at h ⊢
  cases h with
  | @intro tagsText sourceText paramsText _ _ htags hsource hnonempty hcommand hparams =>
    obtain ⟨tags, source, command, params⟩ := parts
    dsimp only at htags hsource hnonempty hcommand hparams htext ⊢
    obtain ⟨c, cs, hcons⟩ := List.exists_cons_of_ne_nil hnonempty
    obtain ⟨hblank, hspace, htab, hat, hcolon⟩ :=
      ne_of_isAlphanum (hcommand c (hcons ▸ List.mem_cons_self))
    have hhead {mark : Char} (hmark : c ≠ mark) : (command ++ paramsText).head? ≠ some mark := by
      simp [hcons, hmark]
    have hskip : skipGap (command ++ paramsText) = command ++ paramsText := by
      rw [hcons]
      exact skipGap_cons hspace htab (cs ++ paramsText)
    have hpresent :
        (tagsText ++ sourceText ++ command ++ paramsText).all Text.isBlank = false := by
      simp [hcons, hblank]
    -- The two sections, one after the other.
    obtain ⟨htagsRead, htagsRest⟩ := htags.section?_eq (by simp [IsGap])
      (hsource.head?_ne (by decide) (by simp [IsGap]) (hhead hat))
    obtain ⟨front, hfront, hsource⟩ := hsource.skipGap_eq (by simp [IsGap]) hskip
    obtain ⟨hsourceRead, hsourceRest⟩ := hsource.section?_eq (by simp [IsGap]) (hhead hcolon)
    obtain ⟨htake, hdrop⟩ := takeWhile_isAlphanum hparams.begins hcommand
    rw [parse_eq htext hpresent, List.append_assoc, List.append_assoc]
    simp only [htagsRead, htagsRest, hfront, hsourceRead, hsourceRest, hskip, htake, hdrop,
      hparams.splitParams_eq]
    exact if_neg (by simpa using hnonempty)

theorem splitParams_of_ne {c : Char} (hspace : c ≠ ' ') (cs : List Char) :
    splitParams (c :: cs) = [] := by
  unfold splitParams
  split
  · rename_i heq
    exact absurd (List.cons.inj heq).1 hspace
  · rfl

theorem parse_of_blank (h : (unterminated raw).all Text.isBlank = true) :
    parse raw = .error .empty :=
  if_pos h

/-- The text of a line, put together again from what the sections and the command have left over. -/
theorem matches_or_runsOn {tagsText sourceText command behind : List Char}
    {tags source : Option (List Char)} (htags : IsSection '@' tagsText tags)
    (hsource : IsSection ':' sourceText source) (hnonempty : command ≠ [])
    (hcommand : ∀ c ∈ command, c.isAlphanum = true)
    (hbehind : ∀ c, behind.head? = some c → c.isAlphanum = false) :
    (∃ spaces, Matches (tagsText ++ sourceText ++ command ++ behind)
        ⟨tags, source, command, splitParams behind⟩ spaces) ∨
      RunsOn (tagsText ++ sourceText ++ command ++ behind)
        ⟨tags, source, command, splitParams behind⟩ := by
  have hmatches {paramsText : List Char} {params : List (List Char)} {spaces : Nat}
      (hparams : AreParams paramsText params spaces) :
      Matches (tagsText ++ sourceText ++ command ++ paramsText) ⟨tags, source, command, params⟩
        spaces :=
    @Matches.intro _ _ _ ⟨tags, source, command, params⟩ _ htags hsource hnonempty hcommand hparams
  by_cases hbegins : Begins behind
  · obtain ⟨spaces, hparams⟩ := areParams_splitParams hbegins
    exact .inl ⟨spaces, hmatches hparams⟩
  · simp only [Begins, not_or] at hbegins
    obtain ⟨c, cs, rfl⟩ := List.exists_cons_of_ne_nil hbegins.1
    have hspace : c ≠ ' ' := fun heq => hbegins.2 (congrArg some heq)
    rw [splitParams_of_ne hspace]
    have hfront := hmatches (.done 0)
    rw [List.replicate_zero, List.append_nil] at hfront
    exact .inr (.intro hfront rfl (hbehind c rfl) hspace cs)

/-- What is read matches, unless something stands directly behind the command. -/
theorem exists_matches_of_parse (h : parse raw = .ok line) :
    ∃ parts, line = parts.line (unterminated raw) ∧
      ((∃ spaces, Matches (unterminated raw) parts spaces) ∨ RunsOn (unterminated raw) parts) := by
  generalize htext : unterminated raw = text
  have hpresent : text.all Text.isBlank = false := by
    rw [Bool.eq_false_iff]
    intro hblank
    rw [parse_of_blank (htext ▸ hblank)] at h
    cases h
  rw [parse_eq htext hpresent] at h
  dsimp only at h
  split at h
  · cases h
  · rename_i hcommand
    cases h
    -- Something is left over at each point, the command being there at the last.
    have hrest : skipGap (section? ':' (skipGap (section? '@' text).2)).2 ≠ [] := by
      intro heq
      rw [heq] at hcommand
      exact hcommand rfl
    have hafter : skipGap (section? '@' text).2 ≠ [] := by
      intro heq
      rw [heq] at hrest
      exact hrest rfl
    obtain ⟨tagsText, htagsText, htags⟩ := exists_isSection '@' text hafter
    obtain ⟨sourceText, hsourceText, hsource⟩ := exists_isSection ':' _ hrest
    refine ⟨_, rfl, ?_⟩
    generalize skipGap (section? ':' (skipGap (section? '@' text).2)).2 = rest at *
    generalize (section? ':' (skipGap (section? '@' text).2)).1 = source at *
    generalize (section? '@' text).1 = tags at *
    rw [hsourceText, ← List.takeWhile_append_dropWhile (p := Char.isAlphanum) (l := rest),
      ← List.append_assoc, ← List.append_assoc] at htagsText
    rw [htagsText]
    refine matches_or_runsOn htags hsource (by simpa using hcommand)
      (fun c hc => List.mem_takeWhile_imp hc) fun c hc => ?_
    have hd := List.head?_dropWhile_not Char.isAlphanum rest
    rw [hc] at hd
    simpa using hd

theorem exists_noCommand_of_not_matches (hpresent : (unterminated raw).all Text.isBlank = false)
    (hmatches : ∀ parts spaces, ¬ Matches (unterminated raw) parts spaces)
    (hruns : ∀ parts, ¬ RunsOn (unterminated raw) parts) :
    ∃ position, parse raw = .error (.noCommand position) := by
  cases h : parse raw with
  | ok line =>
    obtain ⟨parts, -, ⟨spaces, hmatch⟩ | hrun⟩ := exists_matches_of_parse h
    · exact absurd hmatch (hmatches parts spaces)
    · exact absurd hrun (hruns parts)
  | error error =>
    rw [parse_eq rfl hpresent] at h
    dsimp only at h
    split at h
    · cases h
      exact ⟨_, rfl⟩
    · cases h

/-- A line is read only if it matches, spaces at its end included, and then as exactly the parts that
it is made up of. One that is not blank and does not match is refused for want of a command. Nothing
is said here of what stands directly behind a command. -/
theorem parse_only_matches (raw : String) :
    (∀ line, parse raw = .ok line → ∃ parts, line = parts.line (unterminated raw) ∧
      ((∃ spaces, Matches (unterminated raw) parts spaces) ∨ RunsOn (unterminated raw) parts)) ∧
    (∀ parts spaces, Matches (unterminated raw) parts spaces →
      parse raw = .ok (parts.line (unterminated raw))) ∧
    ((unterminated raw).all Text.isBlank = false →
      (∀ parts spaces, ¬ Matches (unterminated raw) parts spaces) →
      (∀ parts, ¬ RunsOn (unterminated raw) parts) →
      ∃ position, parse raw = .error (.noCommand position)) :=
  ⟨fun _ h => exists_matches_of_parse h, fun _ _ h => parse_of_matches h,
    exists_noCommand_of_not_matches⟩

theorem Matches.exists_alphanum (h : Matches text parts spaces) :
    ∃ c ∈ text, c.isAlphanum = true := by
  cases h with
  | intro htags hsource hnonempty hcommand hparams =>
    obtain ⟨c, cs, hcons⟩ := List.exists_cons_of_ne_nil hnonempty
    exact ⟨c, by simp [hcons], hcommand c (hcons ▸ List.mem_cons_self)⟩

/-- A line with a gap of several spaces and a trailing space of its own, and a line without any
command. -/
theorem parse_only_matches_tagged :
    let parts : Parts := ⟨some "a=b".toList, some "eve!e@h".toList, "join".toList, ["#c".toList]⟩
    Matches (unterminated "@a=b  :eve!e@h join  #c \r\n") parts 1 ∧
      parse "@a=b  :eve!e@h join  #c \r\n" = .ok {
        raw := "@a=b  :eve!e@h join  #c "
        tags := [("a", some "b")]
        source := some ⟨"eve!e@h", "eve", some "e", some "h"⟩
        command := "JOIN"
        params := ["#c"] } ∧
      (∃ parts, (∃ spaces, Matches (unterminated "@a=b  :eve!e@h join  #c \r\n") parts spaces) ∨
        RunsOn (unterminated "@a=b  :eve!e@h join  #c \r\n") parts) ∧
      ∃ position, parse ":! @" = .error (.noCommand position) := by
  intro parts
  obtain ⟨hread, hmatch, -⟩ := parse_only_matches "@a=b  :eve!e@h join  #c \r\n"
  obtain ⟨-, -, hrefuse⟩ := parse_only_matches ":! @"
  have hmiddle : IsMiddle "#c".toList := by decide
  have hsource : IsSection ':' ":eve!e@h ".toList parts.source :=
    @IsSection.present _ "eve!e@h".toList [] (by decide) (by decide) nofun
  have htags : IsSection '@' "@a=b  ".toList parts.tags :=
    @IsSection.present _ "a=b".toList [' '] (by decide) (by decide) (by simp [IsGap])
  have hmatches : Matches (unterminated "@a=b  :eve!e@h join  #c \r\n") parts 1 :=
    Matches.intro htags hsource (by decide) (List.all_eq_true.mp (by decide))
      (.middle 1 hmiddle (.done 1))
  have hparse := hmatch parts 1 hmatches
  have hnone : ∀ c ∈ unterminated ":! @", ¬ c.isAlphanum = true := List.any_eq_false.mp (by decide)
  refine ⟨hmatches, hparse, ?_, hrefuse (by decide) ?_ ?_⟩
  · obtain ⟨parts, -, hparts⟩ := hread _ hparse
    exact ⟨parts, hparts⟩
  · intro parts spaces h
    obtain ⟨c, hc, halphanum⟩ := h.exists_alphanum
    exact hnone c hc halphanum
  · intro parts h
    generalize unterminated ":! @" = text at h hnone
    cases h with
    | intro hfront =>
      obtain ⟨c, hc, halphanum⟩ := hfront.exists_alphanum
      exact hnone c (List.mem_append_left _ hc) halphanum

/-- A line that matches and is read without parameters ends in its command and some spaces. -/
theorem Matches.command_at_end (h : Matches (unterminated raw) parts spaces)
    (hparse : parse raw = .ok line) (hparams : line.params = []) :
    let back := (unterminated raw).reverse
    back.take spaces = List.replicate spaces ' ' ∧
      ∀ c ∈ (back.drop spaces).take line.command.toList.length, c.isAlphanum = true := by
  have hline : parts.line (unterminated raw) = line :=
    Except.ok.inj ((parse_of_matches h).symm.trans hparse)
  have hlength : line.command.toList.length = parts.command.reverse.length := by
    simp [← hline, Parts.line]
  have hbare : parts.params = [] := by
    rw [← hline] at hparams
    exact List.map_eq_nil_iff.mp hparams
  generalize unterminated raw = text at h
  cases h with
  | intro htags hsource hnonempty hcommand hall =>
    rw [hbare] at hall
    cases hall
    rw [hlength, List.reverse_append, List.reverse_append, List.reverse_replicate]
    constructor
    · exact List.take_left' List.length_replicate
    · rw [List.drop_left' List.length_replicate, List.take_left]
      exact fun c hc => hcommand c (List.mem_reverse.mp hc)

/-- A space at the end belongs to no part, and what stands directly behind a command is lost. -/
theorem ends_unaccounted_for :
    parse "PING " = .ok ⟨"PING ", [], none, "PING", []⟩ ∧
      (∀ parts, ¬ Matches (unterminated "PING ") parts 0) ∧
      parse "PING!x" = .ok ⟨"PING!x", [], none, "PING", []⟩ ∧
      ∀ parts spaces, ¬ Matches (unterminated "PING!x") parts spaces := by
  have hspaced : parse "PING " = .ok ⟨"PING ", [], none, "PING", []⟩ := by decide
  have htailed : parse "PING!x" = .ok ⟨"PING!x", [], none, "PING", []⟩ := by decide
  refine ⟨hspaced, ?_, htailed, ?_⟩
  · intro parts h
    obtain ⟨-, hall⟩ := h.command_at_end hspaced rfl
    exact absurd (hall ' ' (by decide)) (by decide)
  · intro parts spaces h
    obtain ⟨hspaces, hall⟩ := h.command_at_end htailed rfl
    cases spaces with
    | zero => exact absurd (hall '!' (by decide)) (by decide)
    | succ spaces =>
      have hlast : some 'x' = some ' ' := congrArg List.head? hspaces
      exact absurd hlast (by decide)

end IrcClient.Line
