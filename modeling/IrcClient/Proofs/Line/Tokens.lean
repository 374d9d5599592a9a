import IrcClient.Proofs.Line.RoundTrip
import Mathlib.Data.List.DropRight

/-!
# Tokens beside parameters

A line without tags is taken apart in two ways: into bare tokens, and into a source, a command and
parameters. Both find the same parameters, but for white space at the end of a trailing one, which is
taken for the end of the line when there are to be tokens.
-/

namespace IrcClient

namespace Text

variable {p : Char → Bool}

/-- Nothing is trimmed in front of a character that stays. -/
theorem trimEnd_append_cons {c : Char} (hc : p c = false) (front rest : List Char) :
    trimEnd p (front ++ c :: rest) = front ++ c :: trimEnd p rest := by
  have hstop : (front ++ [c]).reverse.dropWhile p = (front ++ [c]).reverse := by simp [hc]
  rw [List.append_cons, trimEnd, trimEnd, List.reverse_append, List.dropWhile_append]
  split
  · rename_i hempty
    rw [List.isEmpty_iff.mp hempty, hstop]
    simp
  · simp

/-- Nothing is trimmed if the last character stays. -/
theorem trimEnd_eq_self_iff {cs : List Char} :
    trimEnd p cs = cs ↔ ∀ c ∈ cs.getLast?, p c = false := by
  refine List.rdropWhile_eq_self_iff.trans ?_
  rcases List.eq_nil_or_concat cs with rfl | ⟨front, c, rfl⟩
  · simp
  · simp

theorem trim_of_head {cs : List Char} (h : ∀ c ∈ cs.head?, isBlank c = false) :
    trim cs = trimEnd isBlank cs := by
  cases cs with
  | nil => rfl
  | cons c cs => simp [trim, h c rfl]

end Text

namespace Line

/-- What a line without tags says. Its source may be anything that is one token. -/
structure Untagged where
  source : Option String
  command : String
  middle : List String
  trailing : Option String
  source_token : ∀ text ∈ source, text.toList ≠ [] ∧ ' ' ∉ text.toList
  command_nonempty : command.toList ≠ []
  command_alphanum : ∀ c ∈ command.toList, c.isAlphanum = true
  middle_words : ∀ param ∈ middle, Text.IsWord param.toList
  middle_plain : ∀ param ∈ middle, param.toList.head? ≠ some ':'
  trailing_unbroken : ∀ text ∈ trailing, LineFormatter.Unbroken text.toList

theorem isMiddle_of_alphanum {command : List Char} (hnonempty : command ≠ [])
    (halphanum : ∀ c ∈ command, c.isAlphanum = true) : IsMiddle command where
  nonempty := hnonempty
  spaceless hmem := (ne_of_isAlphanum (halphanum ' ' hmem)).2.1 rfl
  plain hhead := (ne_of_isAlphanum (halphanum ':' (List.mem_of_mem_head? hhead))).2.2.2.2 rfl

theorem exists_gapped_concat (more : Nat → Nat) (parts : List (List Char)) :
    ∃ front, ∀ last, gapped more (parts ++ [last]) = front ++ last := by
  induction parts generalizing more with
  | nil => exact ⟨List.replicate (more 0 + 1) ' ', fun last => by simp [gapped]⟩
  | cons part parts ih =>
    obtain ⟨front, hfront⟩ := ih fun i => more (i + 1)
    refine ⟨List.replicate (more 0 + 1) ' ' ++ part ++ front, fun last => ?_⟩
    rw [List.cons_append, gapped, hfront, ← List.append_assoc]

/-- The last of some parts stands at the end. -/
theorem exists_spread_concat (more : Nat → Nat) (parts : List (List Char)) :
    ∃ front, ∀ last, spread more (parts ++ [last]) = front ++ last := by
  cases parts with
  | nil => exact ⟨[], fun last => by simp [spread, gapped]⟩
  | cons part parts =>
    obtain ⟨front, hfront⟩ := exists_gapped_concat more parts
    refine ⟨part ++ front, fun last => ?_⟩
    rw [List.cons_append, spread, hfront, List.append_assoc]

/-- Only a trailing parameter can be trimmed, as the other parts end in characters that stay. -/
theorem trimEnd_spread {p : Char → Bool} (hp : ∀ c, p c = true → Text.isBlank c = true)
    (more : Nat → Nat) (parts : List (List Char)) {word : List Char} (hword : Text.IsWord word)
    (trailing : Option (List Char)) :
    Text.trimEnd p (spread more (parts ++ [word] ++ (trailing.map (':' :: ·)).toList)) =
      spread more (parts ++ [word] ++ ((trailing.map (Text.trimEnd p)).map (':' :: ·)).toList) := by
  have hstays {c : Char} (hc : Text.isBlank c = false) : p c = false := by
    rw [Bool.eq_false_iff] at hc ⊢
    exact mt (hp c) hc
  cases trailing with
  | none =>
    obtain ⟨front, hfront⟩ := exists_spread_concat more parts
    obtain ⟨init, c, rfl⟩ := List.eq_nil_or_concat word |>.resolve_left hword.nonempty
    have hc : p c = false := hstays (hword.solid c (by simp))
    simp only [Option.map_none, Option.toList_none, List.append_nil, hfront]
    rw [List.concat_eq_append, ← List.append_assoc, Text.trimEnd_append_cons hc]
    rfl
  | some text =>
    obtain ⟨front, hfront⟩ := exists_spread_concat more (parts ++ [word])
    have hcolon : p ':' = false := hstays (by decide)
    simp only [Option.map_some, Option.toList_some, hfront]
    exact Text.trimEnd_append_cons hcolon front text

/-- The first token ends at the first space, and the others are what parameters would be. -/
theorem tokenize_spread (more : Nat → Nat) {first : List Char} (hpresent : first ≠ [])
    (hspaceless : ' ' ∉ first) {middle : List (List Char)}
    (hmiddle : ∀ param ∈ middle, IsMiddle param) (trailing : Option (List Char)) {text : String}
    (htext : Text.trim text.toList =
      spread more (first :: (middle ++ (trailing.map (':' :: ·)).toList))) :
    tokenize text = (first :: (middle ++ trailing.toList)).map String.ofList := by
  have hparams := areParams_gapped more trailing hmiddle
  obtain ⟨htake, hdrop⟩ := Text.takeWhile_spaceless hspaceless hparams.begins
  obtain ⟨c, cs, rfl⟩ := List.exists_cons_of_ne_nil hpresent
  rw [spread] at htext
  unfold tokenize
  rw [htext, List.cons_append]
  dsimp only
  rw [← List.cons_append, htake, hdrop, hparams.splitParams_eq]

namespace Untagged

variable (content : Untagged)

/-- The tokens in front of the parameters. -/
def leading : List String :=
  (content.source.map (":" ++ ·)).toList ++ [content.command]

/-- The parts of a line as they are written, with a given trailing parameter. -/
def written (trailing : Option (List Char)) : List (List Char) :=
  (content.leading ++ content.middle).map String.toList ++ (trailing.map (':' :: ·)).toList

/-- A line with so many spaces in each gap as `more` tells, and one more. -/
def render (more : Nat → Nat) : String :=
  String.ofList (spread more (content.written (content.trailing.map String.toList)))

theorem trimEnd_written {p : Char → Bool} (hp : ∀ c, p c = true → Text.isBlank c = true)
    (more : Nat → Nat) (trailing : Option (List Char)) :
    Text.trimEnd p (spread more (content.written trailing)) =
      spread more (content.written (trailing.map (Text.trimEnd p))) := by
  have hlast : ∃ parts word,
      (content.leading ++ content.middle).map String.toList = parts ++ [word] ∧ Text.IsWord word := by
    rcases List.eq_nil_or_concat content.middle with hnone | ⟨init, param, hsome⟩
    · have hword : Text.IsWord content.command.toList :=
        ⟨content.command_nonempty, fun c hc => (ne_of_isAlphanum (content.command_alphanum c hc)).1⟩
      exact ⟨(content.source.map (":" ++ ·)).toList.map String.toList, _, by simp [leading, hnone],
        hword⟩
    · have hword := content.middle_words param (by simp [hsome])
      exact ⟨(content.leading ++ init).map String.toList, _, by simp [hsome], hword⟩
  obtain ⟨parts, word, hparts, hword⟩ := hlast
  simp only [written, hparts]
  exact trimEnd_spread hp more parts hword trailing

theorem middle_isMiddle : ∀ param ∈ content.middle.map String.toList, IsMiddle param := by
  refine List.forall_mem_map.mpr fun param hparam => ?_
  have hword := content.middle_words param hparam
  have hspaceless : ' ' ∉ param.toList := fun hmem => absurd (hword.solid ' ' hmem) (by decide)
  exact ⟨hword.nonempty, hspaceless, content.middle_plain param hparam⟩

/-- The parts as they stand in the text. -/
def parts : Parts where
  tags := none
  source := content.source.map String.toList
  command := content.command.toList
  params := content.middle.map String.toList ++ (content.trailing.map String.toList).toList

theorem matches_written (more : Nat → Nat) :
    Matches (spread more (content.written (content.trailing.map String.toList))) content.parts 0 := by
  have hsource : ∀ text ∈ content.source.map String.toList, text ≠ [] ∧ ' ' ∉ text := by
    intro text htext
    obtain ⟨source, hsource, rfl⟩ := Option.map_eq_some_iff.mp htext
    exact content.source_token source hsource
  have hwritten : content.written (content.trailing.map String.toList) =
      ((content.source.map String.toList).map (':' :: ·)).toList ++ content.command.toList ::
        (content.middle.map String.toList ++
          ((content.trailing.map String.toList).map (':' :: ·)).toList) := by
    cases hsource : content.source <;> simp [written, leading, hsource]
  obtain ⟨front, more', hspread, hsection⟩ :=
    exists_isSection_spread hwritten hsource (List.cons_ne_nil _ _) more
  have hparams :=
    areParams_gapped more' (content.trailing.map String.toList) content.middle_isMiddle
  have htags : IsSection '@' [] content.parts.tags := .absent nofun
  rw [hspread, spread, ← List.append_assoc]
  exact @Matches.intro [] front _ content.parts 0 htags hsection content.command_nonempty
    content.command_alphanum hparams

theorem unterminated_render (more : Nat → Nat) : unterminated (content.render more) =
    spread more (content.written (content.trailing.map String.toList)) := by
  have hbreak (c : Char) (hc : (c == '\r' || c == '\n') = true) : Text.isBlank c = true := by
    rcases Bool.or_eq_true_iff.mp hc with hcr | hlf
    · exact eq_of_beq hcr ▸ rfl
    · exact eq_of_beq hlf ▸ rfl
  have htrailing : (content.trailing.map String.toList).map
      (Text.trimEnd fun c => c == '\r' || c == '\n') = content.trailing.map String.toList := by
    rw [Option.map_map]
    exact Option.map_congr fun text htext => trimEnd_of_unbroken (content.trailing_unbroken text htext)
  rw [unterminated, render, String.toList_ofList, content.trimEnd_written hbreak, htrailing]

theorem params_of_parse (more : Nat → Nat) : ∃ line, parse (content.render more) = .ok line ∧
    line.params = content.middle ++ content.trailing.toList := by
  have hmatches := content.unterminated_render more ▸ content.matches_written more
  refine ⟨_, parse_of_matches hmatches, ?_⟩
  cases htrailing : content.trailing <;> simp [Parts.line, parts, htrailing]

/-- The first token is not blank, and the others are such as could be parameters. -/
theorem exists_first : ∃ c cs others,
    (content.leading ++ content.middle).map String.toList = (c :: cs) :: others ∧
      Text.isBlank c = false ∧ ' ' ∉ c :: cs ∧ ∀ token ∈ others, IsMiddle token := by
  have hcommand := isMiddle_of_alphanum content.command_nonempty content.command_alphanum
  cases hsource : content.source with
  | none =>
    obtain ⟨c, cs, hcons⟩ := List.exists_cons_of_ne_nil content.command_nonempty
    have hc := content.command_alphanum c (hcons ▸ List.mem_cons_self)
    exact ⟨c, cs, content.middle.map String.toList, by simp [leading, hsource, hcons],
      (ne_of_isAlphanum hc).1, hcons ▸ hcommand.spaceless, content.middle_isMiddle⟩
  | some text =>
    have hspaceless : ' ' ∉ ':' :: text.toList := by
      simpa using (content.source_token text hsource).2
    exact ⟨':', text.toList, content.command.toList :: content.middle.map String.toList,
      by simp [leading, hsource], by decide, hspaceless,
      List.forall_mem_cons.mpr ⟨hcommand, content.middle_isMiddle⟩⟩

/-- A text without the white space at its end. -/
def trimmed (text : String) : String := String.ofList (Text.trimEnd Text.isBlank text.toList)

theorem trimmed_eq_self_iff {text : String} :
    trimmed text = text ↔ ∀ c ∈ text.toList.getLast?, Text.isBlank c = false := by
  rw [← Text.trimEnd_eq_self_iff, ← String.toList_inj, trimmed, String.toList_ofList]

theorem tokenize_render (more : Nat → Nat) : tokenize (content.render more) =
    content.leading ++ content.middle ++ (content.trailing.map trimmed).toList := by
  obtain ⟨c, cs, others, hfirst, hblank, hspaceless, hothers⟩ := content.exists_first
  have hwritten (trailing : Option (List Char)) :
      content.written trailing = (c :: cs) :: (others ++ (trailing.map (':' :: ·)).toList) := by
    rw [written, hfirst, List.cons_append]
  have hhead : ∀ d ∈ (content.render more).toList.head?, Text.isBlank d = false := by
    simp [render, hwritten, spread, hblank]
  have htrim : Text.trim (content.render more).toList = spread more (content.written
      ((content.trailing.map String.toList).map (Text.trimEnd Text.isBlank))) := by
    rw [Text.trim_of_head hhead, render, String.toList_ofList]
    exact content.trimEnd_written (fun _ => id) more _
  rw [hwritten] at htrim
  rw [tokenize_spread more (List.cons_ne_nil c cs) hspaceless hothers _ htrim, ← List.cons_append,
    ← hfirst, List.map_append, List.map_map]
  cases content.trailing <;> simp [trimmed, Function.comp_def]

/-- The tokens of a line without tags are its source with the colon, its command as it is written, and
its parameters, of which a trailing one has lost the white space at its end. So they are just what
`parse` finds if and only if there is none. -/
theorem tokenize_beside_parse (more : Nat → Nat) :
    ∃ line, parse (content.render more) = .ok line ∧
      line.params = content.middle ++ content.trailing.toList ∧
      tokenize (content.render more) =
        content.leading ++ content.middle ++ (content.trailing.map trimmed).toList ∧
      (tokenize (content.render more) = content.leading ++ line.params ↔
        ∀ text ∈ content.trailing, ∀ c ∈ text.toList.getLast?, Text.isBlank c = false) := by
  obtain ⟨line, hparse, hparams⟩ := content.params_of_parse more
  have htokens := content.tokenize_render more
  refine ⟨line, hparse, hparams, htokens, ?_⟩
  rw [htokens, hparams, ← List.append_assoc, List.append_cancel_left_eq]
  cases content.trailing with
  | none => simp
  | some text => simpa using trimmed_eq_self_iff

/-- The space at the end of the text is lost among the tokens, and a parameter has it. -/
theorem trailing_space_lost :
    ∃ content : Untagged,
      content.leading = ["PRIVMSG"] ∧ content.render (fun _ => 0) = "PRIVMSG #c :hi " ∧
      parse "PRIVMSG #c :hi " = .ok ⟨"PRIVMSG #c :hi ", [], none, "PRIVMSG", ["#c", "hi "]⟩ ∧
      tokenize "PRIVMSG #c :hi " = ["PRIVMSG", "#c", "hi"] ∧
      tokenize "PRIVMSG #c :hi " ≠ content.leading ++ ["#c", "hi "] := by
  let content : Untagged := {
    source := none
    command := "PRIVMSG"
    middle := ["#c"]
    trailing := some "hi "
    source_token := nofun
    command_nonempty := by decide
    command_alphanum := List.all_eq_true.mp (by decide)
    middle_words := by decide
    middle_plain := by decide
    trailing_unbroken := by decide }
  exact ⟨content, by decide, by decide, by decide, by decide, by decide⟩

end Untagged

end Line

end IrcClient
