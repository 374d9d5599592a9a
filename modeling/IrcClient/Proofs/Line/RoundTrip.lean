import IrcClient.Proofs.Line.Grammar

/-!
# Lines are read back as they were written

A line is written from tags, a source, a command and parameters, with some space between any two of
them. What is read from it are the same parts, whatever the spaces are, and whether the line is
terminated or not.
-/

namespace IrcClient.Line

/-! ## Tags -/

/-- The escaped form of a character in the value of a tag. -/
def escapeChar (c : Char) : List Char :=
  if c = ';' then ['\\', ':']
  else if c = ' ' then ['\\', 's']
  else if c = '\\' then ['\\', '\\']
  else if c = '\r' then ['\\', 'r']
  else if c = '\n' then ['\\', 'n']
  else [c]

/-- The escaped form of the value of a tag. -/
def escape (cs : List Char) : List Char := cs.flatMap escapeChar

/-- A tag that can be written. -/
structure Tag where
  key : String
  value : Option String
  key_nonempty : key.toList ≠ []
  key_plain : ∀ c ∈ key.toList, c ≠ ';' ∧ c ≠ '=' ∧ c ≠ ' ' ∧ c ≠ '\r' ∧ c ≠ '\n'
  value_nonempty : ∀ text ∈ value, text.toList ≠ []

namespace Tag

def write (tag : Tag) : List Char :=
  match tag.value with
  | none => tag.key.toList
  | some text => tag.key.toList ++ '=' :: escape text.toList

/-- Tags with semicolons between them. -/
def writeAll : List Tag → List Char
  | [] => []
  | [tag] => tag.write
  | tag :: tags => tag.write ++ ';' :: writeAll tags

end Tag

theorem unescape_cons {c : Char} (h : c ≠ '\\') (cs : List Char) :
    unescape (c :: cs) = c :: unescape cs := by
  conv_lhs => unfold unescape
  split <;> simp_all

theorem unescape_escapeChar (c : Char) (cs : List Char) :
    unescape (escapeChar c ++ cs) = c :: unescape cs := by
  by_cases hsemicolon : c = ';'
  · subst hsemicolon
    rfl
  by_cases hspace : c = ' '
  · subst hspace
    rfl
  by_cases hbackslash : c = '\\'
  · subst hbackslash
    rfl
  by_cases hcr : c = '\r'
  · subst hcr
    rfl
  by_cases hlf : c = '\n'
  · subst hlf
    rfl
  simp only [escapeChar, if_neg hsemicolon, if_neg hspace, if_neg hbackslash, if_neg hcr, if_neg hlf]
  exact unescape_cons hbackslash cs

theorem unescape_escape (cs : List Char) : unescape (escape cs) = cs := by
  induction cs with
  | nil => rfl
  | cons c cs ih => rw [escape, List.flatMap_cons, unescape_escapeChar, ← escape, ih]

/-- An escaped value holds nothing that would end it. -/
theorem ne_of_mem_escape {c : Char} {cs : List Char} (h : c ∈ escape cs) :
    c ≠ ';' ∧ c ≠ ' ' ∧ c ≠ '\r' ∧ c ≠ '\n' := by
  rw [escape, List.mem_flatMap] at h
  obtain ⟨d, -, hmem⟩ := h
  unfold escapeChar at hmem
  split_ifs at hmem with hsemicolon hspace _ hcr hlf
  all_goals simp only [List.mem_cons, List.not_mem_nil, or_false] at hmem
  case neg =>
    subst hmem
    exact ⟨hsemicolon, hspace, hcr, hlf⟩
  all_goals rcases hmem with rfl | rfl <;> decide

theorem escape_ne_nil {cs : List Char} (h : cs ≠ []) : escape cs ≠ [] := by
  intro hnil
  have hcs := unescape_escape cs
  rw [hnil] at hcs
  exact h hcs.symm

namespace Tag

theorem write_ne_nil (tag : Tag) : tag.write ≠ [] := by
  unfold write
  split
  · exact tag.key_nonempty
  · exact List.append_ne_nil_of_left_ne_nil tag.key_nonempty _

theorem ne_of_mem_write {tag : Tag} {c : Char} (h : c ∈ tag.write) :
    c ≠ ';' ∧ c ≠ ' ' ∧ c ≠ '\r' ∧ c ≠ '\n' := by
  have hkey (hc : c ∈ tag.key.toList) : c ≠ ';' ∧ c ≠ ' ' ∧ c ≠ '\r' ∧ c ≠ '\n' := by
    obtain ⟨hsemicolon, -, hrest⟩ := tag.key_plain c hc
    exact ⟨hsemicolon, hrest⟩
  unfold write at h
  split at h
  · exact hkey h
  · rw [List.mem_append, List.mem_cons] at h
    rcases h with hmem | rfl | hmem
    · exact hkey hmem
    · decide
    · exact ne_of_mem_escape hmem

theorem parseTag_write (tag : Tag) : parseTag tag.write = (tag.key, tag.value) := by
  have hkey : '=' ∉ tag.key.toList := fun hmem => (tag.key_plain '=' hmem).2.1 rfl
  unfold write
  split
  · rename_i hvalue
    rw [parseTag, Text.cutAt_eq_none_iff.mpr hkey, hvalue]
    simp
  · rename_i text hvalue
    have hnonempty : escape text.toList ≠ [] := escape_ne_nil (tag.value_nonempty text hvalue)
    rw [parseTag, Text.cutAt_eq_some_iff.mpr ⟨rfl, hkey⟩, hvalue]
    simp [hnonempty, unescape_escape]

theorem writeAll_cons (tag : Tag) (tags : List Tag) :
    ∃ rest, writeAll (tag :: tags) = tag.write ++ rest ∧
      ((tags = [] ∧ rest = []) ∨ rest = ';' :: writeAll tags) := by
  cases tags with
  | nil => exact ⟨[], (List.append_nil _).symm, .inl ⟨rfl, rfl⟩⟩
  | cons => exact ⟨_, rfl, .inr rfl⟩

theorem nonemptyFields_writeAll (tags : List Tag) :
    Text.nonemptyFields (· == ';') (writeAll tags) = tags.map write := by
  induction tags with
  | nil => rfl
  | cons tag tags ih =>
    have hfree : ∀ c ∈ tag.write, (c == ';') = false := by
      intro c hc
      simpa using (ne_of_mem_write hc).1
    obtain ⟨rest, hwrite, hrest⟩ := writeAll_cons tag tags
    rw [hwrite, List.map_cons]
    rcases hrest with ⟨rfl, rfl⟩ | rfl
    · exact Text.nonemptyFields_append hfree tag.write_ne_nil (.inl rfl)
    · rw [Text.nonemptyFields_append hfree tag.write_ne_nil (.inr ⟨';', _, rfl, rfl⟩), ← ih]
      rfl

theorem parseTags_writeAll (tags : List Tag) :
    parseTags (writeAll tags) = tags.map fun tag => (tag.key, tag.value) := by
  rw [parseTags, nonemptyFields_writeAll, List.map_map]
  exact List.map_congr_left fun tag _ => parseTag_write tag

theorem ne_of_mem_writeAll {tags : List Tag} {c : Char} (h : c ∈ writeAll tags) :
    c ≠ ' ' ∧ c ≠ '\r' ∧ c ≠ '\n' := by
  induction tags with
  | nil => cases h
  | cons tag tags ih =>
    obtain ⟨rest, hwrite, hrest⟩ := writeAll_cons tag tags
    rw [hwrite, List.mem_append] at h
    rcases h with hmem | hmem
    · exact (ne_of_mem_write hmem).2
    · rcases hrest with ⟨rfl, rfl⟩ | rfl
      · cases hmem
      · rcases List.mem_cons.mp hmem with rfl | hmem
        · decide
        · exact ih hmem

end Tag

/-! ## Lines -/

/-- What a line says, whatever the spaces between its parts are. -/
structure Content where
  tags : List Tag
  source : Option String
  command : String
  middle : List String
  trailing : Option String
  source_plain : ∀ text ∈ source, IsMiddle text.toList
  command_nonempty : command.toList ≠ []
  command_alphanum : ∀ c ∈ command.toList, c.isAlphanum = true
  middle_plain : ∀ param ∈ middle, IsMiddle param.toList
  unbroken : ∀ text ∈ source.toList ++ middle ++ trailing.toList,
    LineFormatter.Unbroken text.toList

/-- Parts one after the other, each behind a gap of one space and some more. -/
def gapped (more : Nat → Nat) : List (List Char) → List Char
  | [] => []
  | part :: parts =>
    List.replicate (more 0 + 1) ' ' ++ part ++ gapped (fun i => more (i + 1)) parts

/-- Parts one after the other, with gaps between them. -/
def spread (more : Nat → Nat) : List (List Char) → List Char
  | [] => []
  | part :: parts => part ++ gapped more parts

namespace Content

variable (content : Content)

/-- The text of the tags, if there are any. -/
def tagsText : Option (List Char) :=
  if content.tags.isEmpty then none else some (Tag.writeAll content.tags)

/-- The parts as they are written. A trailing parameter may be any text, as it stands behind a colon. -/
def written : List (List Char) :=
  (content.tagsText.map ('@' :: ·)).toList ++
    (((content.source.map String.toList).map (':' :: ·)).toList ++ content.command.toList ::
      (content.middle.map String.toList ++
        ((content.trailing.map String.toList).map (':' :: ·)).toList))

/-- A line with so many spaces in each gap as `more` tells, and one more. -/
def render (more : Nat → Nat) : String := String.ofList (spread more content.written)

/-- The parts as they stand in the text. -/
def parts : Parts where
  tags := content.tagsText
  source := content.source.map String.toList
  command := content.command.toList
  params := content.middle.map String.toList ++ (content.trailing.map String.toList).toList

end Content

theorem areParams_gapped (more : Nat → Nat) {middle : List (List Char)} (trailing : Option (List Char))
    (hmiddle : ∀ param ∈ middle, IsMiddle param) :
    AreParams (gapped more (middle ++ (trailing.map (':' :: ·)).toList)) (middle ++ trailing.toList) 0 := by
  induction middle generalizing more with
  | nil =>
    cases trailing with
    | none => exact .done 0
    | some text => simpa [gapped] using AreParams.trailing (more 0) text
  | cons param middle ih =>
    obtain ⟨hparam, hmiddle⟩ := List.forall_mem_cons.mp hmiddle
    exact .middle (more 0) hparam (ih _ hmiddle)

/-- A section in front of other parts, with the gap behind it. -/
theorem exists_isSection_spread {mark : Char} {body : Option (List Char)}
    {parts others : List (List Char)} (hparts : parts = (body.map (mark :: ·)).toList ++ others)
    (hbody : ∀ text ∈ body, text ≠ [] ∧ ' ' ∉ text) (hothers : others ≠ []) (more : Nat → Nat) :
    ∃ front more', spread more parts = front ++ spread more' others ∧ IsSection mark front body := by
  subst hparts
  cases body with
  | none => exact ⟨[], more, rfl, .absent nofun⟩
  | some text =>
    obtain ⟨hnonempty, hspaceless⟩ := hbody text rfl
    obtain ⟨part, parts, rfl⟩ := List.exists_cons_of_ne_nil hothers
    have hgap : IsGap (List.replicate (more 0) ' ') := fun c hc => .inl (List.eq_of_mem_replicate hc)
    refine ⟨mark :: text ++ ' ' :: List.replicate (more 0) ' ', fun i => more (i + 1), ?_,
      .present hnonempty hspaceless hgap⟩
    simp [spread, gapped, List.replicate_succ]

theorem mem_gapped {more : Nat → Nat} {parts : List (List Char)} {c : Char}
    (h : c ∈ gapped more parts) : c = ' ' ∨ ∃ part ∈ parts, c ∈ part := by
  induction parts generalizing more with
  | nil => cases h
  | cons part parts ih =>
    rw [gapped, List.mem_append, List.mem_append] at h
    rcases h with (hmem | hmem) | hmem
    · exact .inl (List.eq_of_mem_replicate hmem)
    · exact .inr ⟨part, List.mem_cons_self, hmem⟩
    · exact (ih hmem).imp_right fun ⟨other, hother, hc⟩ => ⟨other, List.mem_cons_of_mem _ hother, hc⟩

theorem unbroken_of_forall {text : List Char} (h : ∀ c ∈ text, c ≠ '\r' ∧ c ≠ '\n') :
    LineFormatter.Unbroken text :=
  ⟨fun hcr => (h _ hcr).1 rfl, fun hlf => (h _ hlf).2 rfl⟩

theorem unbroken_spread (more : Nat → Nat) {parts : List (List Char)}
    (h : ∀ part ∈ parts, LineFormatter.Unbroken part) : LineFormatter.Unbroken (spread more parts) := by
  refine unbroken_of_forall fun c hc => ?_
  have hmem : c = ' ' ∨ ∃ part ∈ parts, c ∈ part := by
    cases parts with
    | nil => cases hc
    | cons part parts =>
      rcases List.mem_append.mp hc with hc | hc
      · exact .inr ⟨part, List.mem_cons_self, hc⟩
      · exact (mem_gapped hc).imp_right fun ⟨other, hother, hc⟩ =>
          ⟨other, List.mem_cons_of_mem _ hother, hc⟩
  rcases hmem with rfl | ⟨part, hpart, hc⟩
  · decide
  · exact ⟨ne_of_mem_of_not_mem hc (h part hpart).1, ne_of_mem_of_not_mem hc (h part hpart).2⟩

/-- A terminator does not count. -/
theorem unterminated_append {text ending : List Char} (htext : LineFormatter.Unbroken text)
    (hending : ∀ c ∈ ending, c = '\r' ∨ c = '\n') :
    unterminated (String.ofList (text ++ ending)) = text := by
  have hall : ∀ c ∈ ending.reverse, (c == '\r' || c == '\n') = true := by
    simpa using hending
  rw [unterminated, String.toList_ofList, Text.trimEnd, List.reverse_append,
    List.dropWhile_append_of_pos hall]
  exact trimEnd_of_unbroken htext

namespace Content

variable (content : Content)

theorem tagsText_spec : ∀ text ∈ content.tagsText, text ≠ [] ∧ ' ' ∉ text := by
  intro text htext
  unfold tagsText at htext
  split at htext
  · cases htext
  · rename_i htags
    cases htext
    obtain ⟨tag, tags, htags⟩ := List.exists_cons_of_ne_nil (mt List.isEmpty_iff.mpr htags)
    obtain ⟨rest, hwrite, -⟩ := Tag.writeAll_cons tag tags
    rw [htags]
    refine ⟨?_, fun hmem => (Tag.ne_of_mem_writeAll hmem).1 rfl⟩
    rw [hwrite]
    exact List.append_ne_nil_of_left_ne_nil tag.write_ne_nil rest

theorem matches_spread (more : Nat → Nat) :
    Matches (spread more content.written) content.parts 0 := by
  have hmiddle : ∀ param ∈ content.middle.map String.toList, IsMiddle param :=
    List.forall_mem_map.mpr content.middle_plain
  have hsource : ∀ text ∈ content.source.map String.toList, text ≠ [] ∧ ' ' ∉ text := by
    intro text htext
    obtain ⟨source, hsource, rfl⟩ := Option.map_eq_some_iff.mp htext
    have hplain := content.source_plain source hsource
    exact ⟨hplain.nonempty, hplain.spaceless⟩
  -- The sections come off the front one after the other.
  obtain ⟨tagsFront, afterTags, htags, htagsSection⟩ :=
    @exists_isSection_spread _ _ content.written _ rfl content.tagsText_spec (by simp) more
  obtain ⟨sourceFront, afterSource, hsource, hsourceSection⟩ :=
    exists_isSection_spread rfl hsource (List.cons_ne_nil _ _) afterTags
  have hparams := areParams_gapped afterSource (content.trailing.map String.toList) hmiddle
  rw [htags, hsource, spread, ← List.append_assoc, ← List.append_assoc]
  exact @Matches.intro _ _ _ content.parts _ htagsSection hsourceSection content.command_nonempty
    content.command_alphanum hparams

theorem unbroken_written : ∀ part ∈ content.written, LineFormatter.Unbroken part := by
  have hmarked {mark : Char} {text : List Char} (hmark : mark ≠ '\r' ∧ mark ≠ '\n')
      (htext : LineFormatter.Unbroken text) : LineFormatter.Unbroken (mark :: text) := by
    simpa [LineFormatter.Unbroken, Ne.symm hmark.1, Ne.symm hmark.2] using htext
  have htags : LineFormatter.Unbroken (Tag.writeAll content.tags) :=
    unbroken_of_forall fun c hc => (Tag.ne_of_mem_writeAll hc).2
  have hcommand : LineFormatter.Unbroken content.command.toList := by
    refine unbroken_of_forall fun c hc => ?_
    constructor
    all_goals
      rintro rfl
      exact absurd (content.command_alphanum _ hc) (by decide)
  intro part hpart
  simp only [written, List.mem_append, List.mem_cons, Option.mem_toList, Option.map_map,
    Option.map_eq_some_iff, List.mem_map, Function.comp_apply] at hpart
  rcases hpart with ⟨text, htext, rfl⟩ | ⟨text, htext, rfl⟩ | rfl | ⟨text, htext, rfl⟩ |
    ⟨text, htext, rfl⟩
  · unfold tagsText at htext
    split at htext
    · cases htext
    · cases htext
      exact hmarked (by decide) htags
  · exact hmarked (by decide) (content.unbroken text (by simp [htext]))
  · exact hcommand
  · exact content.unbroken text (by simp [htext])
  · exact hmarked (by decide) (content.unbroken text (by simp [htext]))

/-- The line that the content stands for. -/
def line (text : List Char) : Line where
  raw := String.ofList text
  tags := content.tags.map fun tag => (tag.key, tag.value)
  source := content.source.map Hostmask.parse
  command := Text.upper content.command
  params := content.middle ++ content.trailing.toList

theorem line_parts (text : List Char) : content.parts.line text = content.line text := by
  have htags : (content.tagsText.map parseTags).getD [] =
      content.tags.map fun tag => (tag.key, tag.value) := by
    unfold tagsText
    split
    · rename_i hnone
      rw [List.isEmpty_iff.mp hnone]
      rfl
    · exact Tag.parseTags_writeAll content.tags
  have htrailing : (content.trailing.map String.toList).toList.map String.ofList =
      content.trailing.toList := by
    cases content.trailing <;> simp
  unfold Parts.line line parts
  simp [htags, htrailing, Function.comp_def, Text.upper]

theorem parse_spread (more : Nat → Nat) {ending : List Char}
    (hending : ∀ c ∈ ending, c = '\r' ∨ c = '\n') :
    parse (String.ofList (spread more content.written ++ ending)) =
      .ok (content.line (spread more content.written)) := by
  have htext := unterminated_append (unbroken_spread more content.unbroken_written) hending
  have hparse := parse_of_matches (htext.symm ▸ content.matches_spread more)
  rw [hparse, htext, line_parts]

theorem source_raw : (content.source.map Hostmask.parse).map Hostmask.raw = content.source := by
  cases hsource : content.source with
  | none => rfl
  | some text =>
    have hplain := (content.source_plain text hsource).plain
    simp [Hostmask.parse, Text.stripHead_of_head?_ne hplain]

/-- A line that is written from tags, a source, a command and parameters is read back as just these, with
as many spaces in each gap as there may be, terminated or not. -/
theorem parse_written (more : Nat → Nat) :
    ∃ line, parse (content.render more) = .ok line ∧
      parse (content.render more ++ "\r\n") = .ok line ∧
      line.raw = content.render more ∧
      line.tags = content.tags.map (fun tag => (tag.key, tag.value)) ∧
      line.source = content.source.map Hostmask.parse ∧
      line.source.map Hostmask.raw = content.source ∧
      line.command = Text.upper content.command ∧
      line.params = content.middle ++ content.trailing.toList := by
  refine ⟨content.line (spread more content.written), ?_, ?_, rfl, rfl, rfl, content.source_raw, rfl,
    rfl⟩
  · have hnone : ∀ c ∈ ([] : List Char), c = '\r' ∨ c = '\n' := nofun
    have hbare := content.parse_spread more hnone
    rwa [List.append_nil] at hbare
  · have hcrlf : ∀ c ∈ ['\r', '\n'], c = '\r' ∨ c = '\n' := by simp
    have hterminated := content.parse_spread more hcrlf
    rwa [String.ofList_append] at hterminated

/-- A line with a tag that needs escapes, gaps of one and of two spaces, and a trailing parameter that
begins with a colon and ends in a space. -/
theorem parse_written_escaped :
    ∃ line, parse "@k=a\\:\\sb;flag :eve!e@h  join #c  :: x \r\n" = .ok line ∧
      line.tags = [("k", some "a; b"), ("flag", none)] ∧
      line.source.map Hostmask.raw = some "eve!e@h" ∧ line.command = "JOIN" ∧
      line.params = ["#c", ": x "] := by
  let escaped : Tag := ⟨"k", some "a; b", by decide, by simp, by simp⟩
  let bare : Tag := ⟨"flag", none, by decide, by simp, by simp⟩
  let content : Content := {
    tags := [escaped, bare]
    source := some "eve!e@h"
    command := "join"
    middle := ["#c"]
    trailing := some ": x "
    source_plain := by
      rintro text ⟨⟩
      decide
    command_nonempty := by decide
    command_alphanum := List.all_eq_true.mp (by decide)
    middle_plain := by decide
    unbroken := by decide }
  obtain ⟨line, -, hparse, -, htags, -, hsource, hcommand, hparams⟩ :=
    content.parse_written fun i => i % 2
  have hrender : content.render (fun i => i % 2) ++ "\r\n" =
      "@k=a\\:\\sb;flag :eve!e@h  join #c  :: x \r\n" := by decide
  exact ⟨line, hrender ▸ hparse, htags, hsource, hcommand.trans (by decide), hparams⟩

end Content

end IrcClient.Line
