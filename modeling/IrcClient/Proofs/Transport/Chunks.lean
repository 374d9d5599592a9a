import IrcClient.Proofs.Transport.LineCodec
import Mathlib.Data.List.Infix
import Mathlib.Data.List.Induction

/-!
# Streams that come in chunks

A stream is read chunk by chunk: each chunk is put behind what the buffer holds, and then all lines
are taken off. Wherever the stream is cut, what is read are whole lines of it, and all lines of a
permitted length are among them. The codec looks for a line that is too long only when it has run
out of bytes. So such a line is dropped if a chunk ends in it late enough, and is read otherwise.
-/

namespace IrcClient

/-! ## Sequences in lines -/

section Lines

variable {α : Type} [BEq α] [LawfulBEq α] {separator : α} {isBlank : List α → Bool}

/-- What stands between separators. What comes after the last one is left out if it is blank. -/
def linesOf (separator : α) (isBlank : List α → Bool) (xs : List α) : List (List α) :=
  let parts := xs.splitOn separator
  if parts.getLast?.any isBlank then parts.dropLast else parts

theorem linesOf_of_not_mem {xs : List α} (h : separator ∉ xs) :
    linesOf separator isBlank xs = if isBlank xs then [] else [xs] := by
  rw [linesOf, List.splitOn_eq_singleton h]
  rfl

theorem linesOf_append_cons {line : List α} (h : separator ∉ line) (rest : List α) :
    linesOf separator isBlank (line ++ separator :: rest) =
      line :: linesOf separator isBlank rest := by
  have hparts : (line ++ separator :: rest).splitOn separator = line :: rest.splitOn separator := by
    have hline : line.splitOn separator = [line] := List.splitOn_eq_singleton h
    rw [List.splitOn,
      List.splitOnP_append_cons (p := (· == separator)) line rest (beq_self_eq_true separator)]
    exact congrArg (· ++ rest.splitOn separator) hline
  have hne : rest.splitOn separator ≠ [] := List.splitOn_ne_nil separator rest
  simp only [linesOf, hparts, List.getLast?_cons_of_ne_nil hne, List.dropLast_cons_of_ne_nil hne]
  split <;> rfl

omit [BEq α] [LawfulBEq α] in
/-- What holds without a separator, and of a line before what it holds of, holds always. -/
theorem induction_on_lines (separator : α) {P : List α → Prop}
    (hlast : ∀ xs, separator ∉ xs → P xs)
    (hline : ∀ line rest, separator ∉ line → P rest → P (line ++ separator :: rest))
    (xs : List α) : P xs := by
  induction h : xs.length using Nat.strongRecOn generalizing xs with
  | _ n ih =>
    by_cases hmem : separator ∈ xs
    · obtain ⟨line, rest, rfl, hfree⟩ := List.eq_append_cons_of_mem hmem
      refine hline line rest hfree (ih rest.length ?_ rest rfl)
      rw [← h, List.length_append, List.length_cons]
      omega
    · exact hlast xs hmem

end Lines

namespace LineCodec

/-- The lines of a stream without their line feeds. What follows the last line feed is a line too,
unless it is empty. -/
def wireLines (stream : List UInt8) : List (List UInt8) :=
  linesOf lineFeed List.isEmpty stream

/-! ## The arrival of a stream -/

/-- What a reader of a stream meets. -/
inductive Arrival where
  | byte (b : UInt8)
  /-- The end of a chunk. -/
  | pause
  deriving DecidableEq

def Arrival.byte? : Arrival → Option UInt8
  | byte b => some b
  | pause => none

/-- A stream in chunks, each with a pause behind it. -/
def arrivals (chunks : List (List UInt8)) : List Arrival :=
  chunks.flatMap fun chunk => chunk.map .byte ++ [.pause]

/-- What came, without the pauses. -/
def bytes (stream : List Arrival) : List UInt8 := stream.filterMap Arrival.byte?

@[simp] theorem bytes_nil : bytes [] = [] := rfl

@[simp] theorem bytes_append (xs ys : List Arrival) : bytes (xs ++ ys) = bytes xs ++ bytes ys :=
  List.filterMap_append

@[simp] theorem bytes_byte (b : UInt8) (xs : List Arrival) : bytes (.byte b :: xs) = b :: bytes xs :=
  rfl

@[simp] theorem bytes_pause (xs : List Arrival) : bytes (.pause :: xs) = bytes xs := rfl

@[simp] theorem bytes_map_byte (chunk : List UInt8) : bytes (chunk.map .byte) = chunk := by
  induction chunk with
  | nil => rfl
  | cons b chunk ih => rw [List.map_cons, bytes_byte, ih]

@[simp] theorem bytes_arrivals (chunks : List (List UInt8)) : bytes (arrivals chunks) = chunks.flatten := by
  induction chunks with
  | nil => rfl
  | cons chunk chunks ih =>
    rw [arrivals, List.flatMap_cons, ← arrivals, bytes_append, ih]
    simp

theorem lineFeed_mem_bytes {stream : List Arrival} :
    lineFeed ∈ bytes stream ↔ Arrival.byte lineFeed ∈ stream := by
  simp only [bytes, List.mem_filterMap]
  constructor
  · rintro ⟨arrival, hmem, hbyte⟩
    cases arrival with
    | byte b =>
      cases hbyte
      exact hmem
    | pause => cases hbyte
  · exact fun hmem => ⟨_, hmem, rfl⟩

/-- The lines of a stream as they arrived. -/
def arrivedLines (stream : List Arrival) : List (List Arrival) :=
  linesOf (.byte lineFeed) (fun line => (bytes line).isEmpty) stream

theorem map_bytes_arrivedLines (stream : List Arrival) :
    (arrivedLines stream).map bytes = wireLines (bytes stream) := by
  induction stream using induction_on_lines (Arrival.byte lineFeed) with
  | hlast xs hfree =>
    rw [arrivedLines, linesOf_of_not_mem hfree, wireLines,
      linesOf_of_not_mem (mt lineFeed_mem_bytes.mp hfree)]
    split <;> rfl
  | hline line rest hfree ih =>
    rw [wireLines] at ih
    rw [arrivedLines, linesOf_append_cons hfree, wireLines, bytes_append, bytes_byte,
      linesOf_append_cons (mt lineFeed_mem_bytes.mp hfree), List.map_cons, ← ih, arrivedLines]

/-- A line is overrun if a pause in it shows that it is too long. -/
def Overrun (line : List Arrival) : Prop :=
  ∃ head ∈ line.inits, head.getLast? = some .pause ∧ maxLength < (bytes head).length

instance (line : List Arrival) : Decidable (Overrun line) :=
  inferInstanceAs (Decidable (∃ head ∈ line.inits, _ ∧ _))

theorem Overrun.lt_length {line : List Arrival} (h : Overrun line) :
    maxLength < (bytes line).length := by
  obtain ⟨head, hhead, -, hlong⟩ := h
  obtain ⟨tail, rfl⟩ := (List.mem_inits _ _).mp hhead
  rw [bytes_append, List.length_append]
  omega

theorem not_overrun_nil : ¬ Overrun [] := fun h => absurd h.lt_length (Nat.not_lt_zero _)

theorem overrun_append_pause (line : List Arrival) :
    Overrun (line ++ [.pause]) ↔ maxLength < (bytes line).length := by
  constructor
  · intro h
    simpa using h.lt_length
  · intro hlong
    exact ⟨_, (List.mem_inits _ _).mpr List.prefix_rfl, List.getLast?_concat, by simpa using hlong⟩

/-- A line is overrun at a pause and not by the bytes that follow. -/
theorem overrun_append_bytes (line : List Arrival) (chunk : List UInt8) :
    Overrun (line ++ chunk.map .byte) ↔ Overrun line := by
  induction chunk using List.reverseRecOn with
  | nil => rw [List.map_nil, List.append_nil]
  | append_singleton chunk b ih =>
    rw [List.map_append, List.map_singleton, ← List.append_assoc, ← ih]
    simp only [Overrun, List.mem_inits, List.prefix_concat_iff]
    constructor
    · rintro ⟨head, rfl | hhead, hpause, hlong⟩
      · rw [List.getLast?_concat] at hpause
        cases hpause
      · exact ⟨head, hhead, hpause, hlong⟩
    · rintro ⟨head, hhead, hpause, hlong⟩
      exact ⟨head, Or.inr hhead, hpause, hlong⟩

/-- The texts of the lines that are not overrun. -/
def readable (stream : List Arrival) : List String :=
  ((arrivedLines stream).filter fun line => ¬ Overrun line).map fun line => lineText (bytes line)

theorem readable_of_not_mem {stream : List Arrival} (h : .byte lineFeed ∉ stream) :
    readable stream =
      if (bytes stream).isEmpty ∨ Overrun stream then [] else [lineText (bytes stream)] := by
  rw [readable, arrivedLines, linesOf_of_not_mem h]
  by_cases hempty : (bytes stream).isEmpty
  · simp [hempty]
  · by_cases hover : Overrun stream <;> simp [hempty, hover]

theorem readable_append_cons {line : List Arrival} (h : .byte lineFeed ∉ line)
    (rest : List Arrival) :
    readable (line ++ .byte lineFeed :: rest) =
      (if Overrun line then [] else [lineText (bytes line)]) ++ readable rest := by
  rw [readable, arrivedLines, linesOf_append_cons h]
  by_cases hover : Overrun line <;> simp [hover, readable, arrivedLines]

/-! ## Reading -/

/-- A way to take a line off a buffer, which uses up bytes. -/
structure Taking where
  take : LineCodec → List UInt8 → Option String × LineCodec × List UInt8
  length_lt : ∀ {codec codec' : LineCodec} {buffer rest : List UInt8} {line : String},
    take codec buffer = (some line, codec', rest) → rest.length < buffer.length

/-- As long as more bytes may come. -/
def Taking.next : Taking := ⟨decode, length_decode_lt⟩

/-- When no more bytes will come. -/
def Taking.last : Taking := ⟨decodeEof, length_decodeEof_lt⟩

/-- Takes lines off a buffer until there is none. There is no result if a call begins to look beyond
the end of its buffer; a line that is found is always within it (`lineEnd?_lt`). -/
def Taking.drain? (taking : Taking) (codec : LineCodec) (buffer : List UInt8) :
    Option (List String × LineCodec × List UInt8) :=
  if codec.scanned ≤ buffer.length then
    match _h : taking.take codec buffer with
    | (some line, codec, rest) =>
      (taking.drain? codec rest).map fun (lines, final) => (line :: lines, final)
    | (none, codec, rest) => some ([], codec, rest)
  else none
  termination_by buffer.length
  decreasing_by exact taking.length_lt _h

/-- Reads on in a stream of which the buffer holds the last bytes: takes all lines off after each
chunk, and takes off the rest at the end. -/
def readFrom? (codec : LineCodec) (buffer : List UInt8) : List (List UInt8) → Option (List String)
  | [] => (Taking.last.drain? codec buffer).map Prod.fst
  | chunk :: chunks =>
    (Taking.next.drain? codec (buffer ++ chunk)).bind fun (lines, codec, rest) =>
      (readFrom? codec rest chunks).map (lines ++ ·)

/-- Reads a whole stream that comes in chunks. -/
def read? (chunks : List (List UInt8)) : Option (List String) := readFrom? initial [] chunks

namespace Taking

variable {taking : Taking} {codec codec' : LineCodec} {buffer rest : List UInt8}

theorem drain?_of_none (hscanned : codec.scanned ≤ buffer.length)
    (h : taking.take codec buffer = (none, codec', rest)) :
    taking.drain? codec buffer = some ([], codec', rest) := by
  rw [drain?, if_pos hscanned]
  split
  · rename_i heq
    rw [h] at heq
    cases heq
  · rename_i heq
    rw [h] at heq
    cases heq
    rfl

theorem drain?_of_some {line : String} (hscanned : codec.scanned ≤ buffer.length)
    (h : taking.take codec buffer = (some line, codec', rest)) :
    taking.drain? codec buffer =
      (taking.drain? codec' rest).map fun (lines, final) => (line :: lines, final) := by
  rw [drain?, if_pos hscanned]
  split
  · rename_i heq
    rw [h] at heq
    cases heq
    rfl
  · rename_i heq
    rw [h] at heq
    cases heq

/-- What is taken off depends on the first call only. -/
theorem drain?_congr {buffer' : List UInt8} (hscanned : codec.scanned ≤ buffer.length)
    (hscanned' : codec'.scanned ≤ buffer'.length)
    (h : taking.take codec buffer = taking.take codec' buffer') :
    taking.drain? codec buffer = taking.drain? codec' buffer' := by
  rcases hcall : taking.take codec buffer with ⟨_ | line, next, rest⟩
  · rw [drain?_of_none hscanned hcall, drain?_of_none hscanned' (h ▸ hcall)]
  · rw [drain?_of_some hscanned hcall, drain?_of_some hscanned' (h ▸ hcall)]

end Taking

/-- The codec and its buffer between two chunks, when the current line came as `begun`. -/
structure Idle (codec : LineCodec) (buffer : List UInt8) (begun : List Arrival) : Prop where
  unended : .byte lineFeed ∉ begun
  overrun_iff : Overrun begun ↔ maxLength < (bytes begun).length
  discarding_iff : codec.discarding = true ↔ maxLength < (bytes begun).length
  buffer_eq : codec.discarding = false → buffer = bytes begun
  unended_buffer : lineFeed ∉ buffer
  scanned_le : codec.scanned ≤ buffer.length

namespace Idle

variable {codec : LineCodec} {buffer : List UInt8} {begun : List Arrival}

theorem initial : Idle initial [] [] where
  unended := List.not_mem_nil
  overrun_iff := iff_of_false not_overrun_nil (Nat.not_lt_zero _)
  discarding_iff := iff_of_false Bool.false_ne_true (Nat.not_lt_zero _)
  buffer_eq _ := rfl
  unended_buffer := List.not_mem_nil
  scanned_le := Nat.le_refl 0

/-- More of the same line is waited for, or the line is given up. -/
theorem await (h : Idle codec buffer begun) {chunk : List UInt8} (hfree : lineFeed ∉ chunk) :
    ∃ codec' rest, LineCodec.await codec.discarding (buffer ++ chunk) = (none, codec', rest) ∧
      Idle codec' rest (begun ++ chunk.map .byte ++ [.pause]) := by
  have hunended : Arrival.byte lineFeed ∉ begun ++ chunk.map .byte ++ [.pause] := by
    rw [← lineFeed_mem_bytes, bytes_append, bytes_append, bytes_map_byte]
    simpa [lineFeed_mem_bytes] using ⟨h.unended, hfree⟩
  have hover := overrun_append_pause (begun ++ chunk.map .byte)
  have hlength : (bytes (begun ++ chunk.map .byte ++ [.pause])).length =
      (bytes begun).length + chunk.length := by simp
  have hgrown : (bytes (begun ++ chunk.map .byte)).length =
      (bytes begun).length + chunk.length := by simp
  unfold LineCodec.await
  split
  · rename_i hlong
    refine ⟨_, _, rfl, hunended, ?_, ?_, nofun, List.not_mem_nil, Nat.le_refl 0⟩
    · rw [hover, hlength, hgrown]
    · rw [hlength]
      refine iff_of_true rfl ?_
      cases hd : codec.discarding with
      | false =>
        rw [List.length_append, h.buffer_eq hd] at hlong
        exact hlong
      | true =>
        have := h.discarding_iff.mp hd
        omega
  · rename_i hshort
    refine ⟨_, _, rfl, hunended, ?_, ?_, ?_, ?_, Nat.le_refl _⟩
    · rw [hover, hlength, hgrown]
    · rw [hlength]
      cases hd : codec.discarding with
      | false =>
        rw [List.length_append, h.buffer_eq hd] at hshort
        exact iff_of_false Bool.false_ne_true hshort
      | true =>
        have := h.discarding_iff.mp hd
        exact iff_of_true rfl (by omega)
    · intro hd
      rw [h.buffer_eq hd]
      simp
    · exact fun hmem => (List.mem_append.mp hmem).elim h.unended_buffer hfree

/-- All lines that a chunk completes are taken off. -/
theorem drain_next (h : Idle codec buffer begun) (chunk : List UInt8) :
    ∃ lines codec' rest begun', Taking.next.drain? codec (buffer ++ chunk) = some (lines, codec', rest) ∧
      Idle codec' rest begun' ∧
      ∀ later, readable (begun ++ chunk.map .byte ++ .pause :: later) = lines ++ readable (begun' ++ later) := by
  induction chunk using induction_on_lines lineFeed generalizing codec buffer begun with
  | hlast chunk hfree =>
    have hscanned : codec.scanned ≤ (buffer ++ chunk).length := by
      have := h.scanned_le
      rw [List.length_append]
      omega
    have hunended : lineFeed ∉ buffer ++ chunk :=
      fun hmem => (List.mem_append.mp hmem).elim h.unended_buffer hfree
    obtain ⟨codec', rest, hawait, hidle⟩ := h.await hfree
    refine ⟨[], codec', rest, _, ?_, hidle, ?_⟩
    · exact Taking.drain?_of_none hscanned ((decode_of_free codec hunended).trans hawait)
    · intro later
      simp
  | hline line remaining hfree ih =>
    obtain ⟨lines, codec', rest, begun', hdrain, hidle, hreadable⟩ := ih Idle.initial
    have hunended : Arrival.byte lineFeed ∉ begun ++ line.map .byte := by
      rw [← lineFeed_mem_bytes, bytes_append, bytes_map_byte]
      simpa [lineFeed_mem_bytes] using ⟨h.unended, hfree⟩
    have hbuffer : lineFeed ∉ buffer ++ line :=
      fun hmem => (List.mem_append.mp hmem).elim h.unended_buffer hfree
    have hscanned : codec.scanned ≤ (buffer ++ line).length := by
      have := h.scanned_le
      rw [List.length_append]
      omega
    have hwithin : codec.scanned ≤ (buffer ++ line ++ lineFeed :: remaining).length := by
      rw [List.length_append]
      omega
    have hlater (later : List Arrival) :
        readable (begun ++ (line ++ lineFeed :: remaining).map .byte ++ .pause :: later) =
          (if Overrun begun then [] else [lineText (bytes begun ++ line)]) ++
            (lines ++ readable (begun' ++ later)) := by
      have hsplit : begun ++ (line ++ lineFeed :: remaining).map .byte ++ .pause :: later =
          (begun ++ line.map .byte) ++ .byte lineFeed ::
            ([] ++ remaining.map .byte ++ .pause :: later) := by simp
      rw [hsplit, readable_append_cons hunended, hreadable]
      simp only [overrun_append_bytes, bytes_append, bytes_map_byte]
    rw [← List.append_assoc]
    cases hd : codec.discarding with
    | true =>
      have hover : Overrun begun := h.overrun_iff.mpr (h.discarding_iff.mp hd)
      refine ⟨lines, codec', rest, begun', ?_, hidle, ?_⟩
      · rw [← hdrain]
        exact Taking.drain?_congr hwithin (Nat.zero_le _) (decode_discarded hd hbuffer hscanned remaining)
      · intro later
        rw [hlater, if_pos hover, List.nil_append]
    | false =>
      have hover : ¬ Overrun begun := by
        rw [h.overrun_iff, ← h.discarding_iff, hd]
        exact Bool.false_ne_true
      refine ⟨lineText (buffer ++ line) :: lines, codec', rest, begun', ?_, hidle, ?_⟩
      · rw [Taking.drain?_of_some hwithin (decode_line hd hbuffer hscanned remaining)]
        exact congrArg _ hdrain
      · intro later
        rw [hlater, if_neg hover, h.buffer_eq hd, List.cons_append, List.nil_append, List.cons_append]

/-- What is left at the end of the stream is its last line, if it is a line that was kept. -/
theorem drain_last (h : Idle codec buffer begun) :
    (Taking.last.drain? codec buffer).map Prod.fst = some (readable begun) := by
  have hdecode := decode_of_free codec h.unended_buffer
  rw [readable_of_not_mem h.unended]
  cases hd : codec.discarding with
  | true =>
    have hover : Overrun begun := h.overrun_iff.mpr (h.discarding_iff.mp hd)
    have hcall : codec.decodeEof buffer = (none, ⟨0, true⟩, []) := by
      rw [decodeEof, hdecode, hd, LineCodec.await]
      by_cases hlong : maxLength < buffer.length
      · rw [if_pos hlong]
        rfl
      · rw [if_neg hlong]
        simp
    rw [if_pos (Or.inr hover), Taking.drain?_of_none h.scanned_le hcall]
    rfl
  | false =>
    have hshort : ¬ maxLength < (bytes begun).length := by
      rw [← h.discarding_iff, hd]
      exact Bool.false_ne_true
    have hover : ¬ Overrun begun := mt h.overrun_iff.mp hshort
    have hbuffer := h.buffer_eq hd
    have hawait : codec.decode buffer = (none, ⟨buffer.length, false⟩, buffer) := by
      rw [hdecode, hd, LineCodec.await, if_neg (hbuffer ▸ hshort)]
    by_cases hempty : (bytes begun).isEmpty
    · have hcall : codec.decodeEof buffer = (none, ⟨0, false⟩, []) := by
        rw [decodeEof, hawait]
        simp [hbuffer, hempty]
      rw [if_pos (Or.inl hempty), Taking.drain?_of_none h.scanned_le hcall]
      rfl
    · have hcall : codec.decodeEof buffer = (some (lineText buffer), ⟨0, false⟩, []) := by
        rw [decodeEof, hawait]
        simp [hbuffer, hempty]
      have hlast : decodeEof ⟨0, false⟩ [] = (none, ⟨0, false⟩, []) := rfl
      rw [if_neg (not_or.mpr ⟨hempty, hover⟩), Taking.drain?_of_some h.scanned_le hcall,
        Taking.drain?_of_none (Nat.le_refl 0) hlast, hbuffer]
      rfl

end Idle

theorem readFrom?_eq {codec : LineCodec} {buffer : List UInt8} {begun : List Arrival}
    (h : Idle codec buffer begun) (chunks : List (List UInt8)) :
    readFrom? codec buffer chunks = some (readable (begun ++ arrivals chunks)) := by
  induction chunks generalizing codec buffer begun with
  | nil =>
    rw [readFrom?, h.drain_last, arrivals, List.flatMap_nil, List.append_nil]
  | cons chunk chunks ih =>
    obtain ⟨lines, codec', rest, begun', hdrain, hidle, hreadable⟩ := h.drain_next chunk
    have harrivals : begun ++ arrivals (chunk :: chunks) =
        begun ++ chunk.map .byte ++ .pause :: arrivals chunks := by
      simp [arrivals]
    rw [readFrom?, hdrain, harrivals, hreadable, Option.bind_some]
    dsimp only
    rw [ih hidle, Option.map_some]

/-- The lines read are those that are not overrun. -/
theorem read?_eq (chunks : List (List UInt8)) : read? chunks = some (readable (arrivals chunks)) :=
  readFrom?_eq Idle.initial chunks

/-- Whether a line may come in any chunks. -/
def fits (line : List UInt8) : Bool := line.length ≤ maxLength

/-- However a stream is cut, its lines are read in order and as they are, and none that fits is
missing. Each is read without one carriage return at its end, character by character, with replacement
characters where it is no UTF-8. -/
theorem read_whole_lines (chunks : List (List UInt8)) :
    ∃ lines : List (List UInt8), read? chunks = some (lines.map lineText) ∧
      lines.Sublist (wireLines chunks.flatten) ∧
      lines.filter fits = (wireLines chunks.flatten).filter fits ∧
      ∀ line ∈ lines, ∃ body,
        (line = body ++ [carriageReturn] ∨ line = body ∧ ¬ [carriageReturn] <:+ line) ∧
          Text.Utf8.Reads body (lineText line).toList := by
  have hwire : (arrivedLines (arrivals chunks)).map bytes = wireLines chunks.flatten := by
    rw [map_bytes_arrivedLines, bytes_arrivals]
  refine ⟨((arrivedLines (arrivals chunks)).filter fun line => ¬ Overrun line).map bytes, ?_, ?_, ?_,
    fun line _ => reads_lineText line⟩
  · rw [read?_eq, readable, List.map_map]
    rfl
  · rw [← hwire]
    exact List.filter_sublist.map bytes
  · rw [← hwire, List.filter_map, List.filter_map, List.filter_filter]
    congr 1
    apply List.filter_congr
    intro line _
    have hover : fits (bytes line) = true → ¬ Overrun line := by
      intro hfits hover
      have := hover.lt_length
      rw [fits, decide_eq_true_iff] at hfits
      omega
    by_cases hfits : fits (bytes line) = true
    · simp [hfits, hover hfits]
    · simp [hfits]

/-- Exactly the lines that are not overrun are read, too long or not. -/
theorem read_unless_overrun (chunks : List (List UInt8)) :
    (arrivedLines (arrivals chunks)).map bytes = wireLines chunks.flatten ∧
      read? chunks = some (((arrivedLines (arrivals chunks)).filter fun line => ¬ Overrun line).map
        fun line => lineText (bytes line)) := by
  refine ⟨?_, read?_eq chunks⟩
  rw [map_bytes_arrivedLines, bytes_arrivals]

/-- A line that comes at once is read, whatever its length. -/
theorem read?_at_once {line : List UInt8} (hfree : lineFeed ∉ line) :
    read? [line ++ [lineFeed]] = some [lineText line] := by
  have harrivals : arrivals [line ++ [lineFeed]] = line.map .byte ++ .byte lineFeed :: [.pause] := by
    simp [arrivals]
  have hunended : Arrival.byte lineFeed ∉ line.map Arrival.byte := by simpa using hfree
  have hover : ¬ Overrun (line.map .byte) := mt (overrun_append_bytes [] line).mp not_overrun_nil
  have hlast : readable [.pause] = [] := by decide
  rw [read?_eq, harrivals, readable_append_cons hunended, if_neg hover, hlast, bytes_map_byte]
  rfl

/-- A line of one byte more than is permitted is read if it comes at once. -/
theorem read_oversized_line :
    wireLines (List.replicate (maxLength + 1) 0x61 ++ [lineFeed]) =
        [List.replicate (maxLength + 1) 0x61] ∧
      read? [List.replicate (maxLength + 1) 0x61 ++ [lineFeed]] =
        some [lineText (List.replicate (maxLength + 1) 0x61)] ∧
      maxLength < (List.replicate (maxLength + 1) (0x61 : UInt8)).length := by
  have hfree : lineFeed ∉ List.replicate (maxLength + 1) (0x61 : UInt8) :=
    fun hmem => absurd (List.eq_of_mem_replicate hmem) (by decide)
  refine ⟨?_, read?_at_once hfree, ?_⟩
  · rw [wireLines, linesOf_append_cons hfree]
    rfl
  · rw [List.length_replicate]
    exact Nat.lt_succ_self maxLength

end LineCodec

end IrcClient
