import IrcClient.Proofs.Text.Lossy
import IrcClient.Transport.LineCodec

/-!
# Lines on the wire

Lines that are written one after another are read back as they were, whatever else they hold, as
long as none of them has a line feed of its own.
-/

namespace IrcClient.LineCodec

theorem lineFeed_mem_encode (text : String) : lineFeed ∈ Text.Utf8.encode text ↔ '\n' ∈ text.toList :=
  Text.Utf8.mem_encode (by decide) (by decide) text

theorem lineText_encode (line : String) :
    lineText (Text.Utf8.encode line ++ [carriageReturn]) = line := by
  simp [lineText]

/-- A line is read without the carriage return at its end, of which it may have several, and whether or
not the rest is UTF-8. -/
theorem reads_lineText (line : List UInt8) :
    ∃ body, (line = body ++ [carriageReturn] ∨ line = body ∧ ¬ [carriageReturn] <:+ line) ∧
      Text.Utf8.Reads body (lineText line).toList := by
  refine ⟨_, ?_, Text.Utf8.reads_iff.mpr rfl⟩
  split
  · rename_i hreturn
    left
    obtain ⟨front, rfl⟩ := List.getLast?_eq_some_iff.mp hreturn
    rw [List.dropLast_concat]
  · rename_i hreturn
    right
    refine ⟨rfl, fun hsuffix => hreturn ?_⟩
    obtain ⟨front, rfl⟩ := hsuffix
    exact List.getLast?_concat

/-- What a reader sees of a line up to its line feed. -/
theorem encode_append (line : String) (rest : List UInt8) :
    encode line ++ rest = (Text.Utf8.encode line ++ [carriageReturn]) ++ lineFeed :: rest := by
  simp [encode]

theorem lineEnd?_eq_none {buffer : List UInt8} (hfree : lineFeed ∉ buffer) (scanned : Nat) :
    lineEnd? scanned buffer = none := by
  rw [lineEnd?, Option.map_eq_none_iff, List.findIdx?_eq_none_iff]
  intro b hb
  rw [beq_eq_false_iff_ne]
  rintro rfl
  exact hfree (List.mem_of_mem_drop hb)

/-- The line feed is found behind a line, however much of the line was looked through before. -/
theorem lineEnd?_append {line : List UInt8} (hfree : lineFeed ∉ line) {scanned : Nat}
    (hscanned : scanned ≤ line.length) (rest : List UInt8) :
    lineEnd? scanned (line ++ lineFeed :: rest) = some line.length := by
  have hnone : (line.drop scanned).findIdx? (· == lineFeed) = none :=
    Option.map_eq_none_iff.mp (lineEnd?_eq_none hfree scanned)
  rw [lineEnd?, List.drop_append_of_le_length hscanned, List.findIdx?_append, hnone]
  simp only [List.findIdx?_cons, beq_self_eq_true, if_true, Option.map_some, Option.none_or,
    List.length_drop, Option.some.injEq]
  omega

/-! ## One call -/

theorem decode_line {codec : LineCodec} (hkeeps : codec.discarding = false) {line : List UInt8}
    (hfree : lineFeed ∉ line) (hscanned : codec.scanned ≤ line.length) (rest : List UInt8) :
    codec.decode (line ++ lineFeed :: rest) = (some (lineText line), initial, rest) := by
  have htail : (line ++ lineFeed :: rest).drop (line.length + 1) = rest := by
    simp [List.drop_append]
  rw [decode, hkeeps, if_neg Bool.false_ne_true, decodeLine, lineEnd?_append hfree hscanned]
  dsimp only
  rw [List.take_left, htail]

/-- The end of a line that is thrown away is followed by a new line. -/
theorem decode_discarded {codec : LineCodec} (hdiscards : codec.discarding = true)
    {line : List UInt8} (hfree : lineFeed ∉ line) (hscanned : codec.scanned ≤ line.length)
    (rest : List UInt8) : codec.decode (line ++ lineFeed :: rest) = initial.decode rest := by
  have htail : (line ++ lineFeed :: rest).drop (line.length + 1) = rest := by
    simp [List.drop_append]
  rw [decode, hdiscards, if_pos rfl, lineEnd?_append hfree hscanned]
  dsimp only
  rw [htail]
  rfl

theorem decode_of_free (codec : LineCodec) {buffer : List UInt8} (hfree : lineFeed ∉ buffer) :
    codec.decode buffer = await codec.discarding buffer := by
  unfold decode
  split
  · rename_i hdiscards
    rw [lineEnd?_eq_none hfree, hdiscards]
  · rename_i hkeeps
    rw [Bool.not_eq_true] at hkeeps
    rw [decodeLine, lineEnd?_eq_none hfree, hkeeps]

theorem decode_encode {line : String} (h : '\n' ∉ line.toList) (rest : List UInt8) :
    initial.decode (encode line ++ rest) = (some line, initial, rest) := by
  have hfree : lineFeed ∉ Text.Utf8.encode line ++ [carriageReturn] := by
    intro hmem
    rcases List.mem_append.mp hmem with htext | hreturn
    · exact h ((lineFeed_mem_encode line).mp htext)
    · exact absurd (List.mem_singleton.mp hreturn) (by decide)
  rw [encode_append, decode_line rfl hfree (Nat.zero_le _), lineText_encode]

/-- Lines are read back as they were written, and nothing is left over. -/
theorem decodeAll_flatMap_encode {lines : List String} (h : ∀ line ∈ lines, '\n' ∉ line.toList) :
    initial.decodeAll (lines.flatMap encode) = (lines, initial, []) := by
  induction lines with
  | nil =>
    rw [decodeAll]
    rfl
  | cons line lines ih =>
    have hline : '\n' ∉ line.toList := h line List.mem_cons_self
    have hlines := ih fun other hother => h other (List.mem_cons_of_mem line hother)
    have hfirst := decode_encode hline (lines.flatMap encode)
    rw [List.flatMap_cons, decodeAll]
    split
    · rename_i heq
      rw [hfirst] at heq
      cases heq
      rw [hlines]
    · rename_i heq
      rw [hfirst] at heq
      cases heq

/-! ## Cutting a text -/

theorem cutLines_ne_nil (text : List Char) : cutLines text ≠ [] := by
  fun_induction cutLines text with
  | case1 => simp
  | case2 => simp
  | case3 c cs hpair ih => simpa [List.modifyHead_eq_nil_iff] using ih

/-- What stands behind the end of a line is cut by itself. -/
theorem cutLines_append (line rest : List Char) :
    cutLines (line ++ '\r' :: '\n' :: rest) = cutLines line ++ cutLines rest := by
  fun_induction cutLines line with
  | case1 => simp [cutLines]
  | case2 cs ih => simp [cutLines, ih]
  | case3 c cs hpair ih =>
    have hcut : cutLines (c :: (cs ++ '\r' :: '\n' :: rest)) =
        (cutLines (cs ++ '\r' :: '\n' :: rest)).modifyHead (c :: ·) := by
      rw [cutLines]
      rintro cs' rfl hcs
      cases cs with
      | nil => cases hcs
      | cons d ds =>
        cases hcs
        exact hpair ds rfl rfl
    obtain ⟨first, lines, hlines⟩ := List.exists_cons_of_ne_nil (cutLines_ne_nil cs)
    rw [List.cons_append, hcut, ih, hlines]
    rfl

end IrcClient.LineCodec
