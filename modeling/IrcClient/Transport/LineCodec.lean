import IrcClient.Error
import IrcClient.Text.Ascii
import IrcClient.Text.Utf8

/-!
# Cutting a byte stream into lines

Bytes come in chunks of any size and are kept in a buffer until a line is complete. The codec
remembers how much of the buffer it has looked through in vain. A line that grows too long is not
kept: its bytes are thrown away as they come, up to its end.
-/

namespace IrcClient

/-- What a reader of lines remembers besides the buffer. -/
structure LineCodec where
  /-- How many bytes at the start of the buffer have no line feed among them. -/
  scanned : Nat
  /-- Whether the buffer continues a line that was too long. -/
  discarding : Bool
  deriving DecidableEq, Repr

namespace LineCodec

/-- The codec at the start of a stream. -/
def initial : LineCodec := ⟨0, false⟩

/-- The longest incomplete line that is kept: a full section of tags, and a body of 512 bytes. -/
def maxLength : Nat := 8191 + 512

def lineFeed : UInt8 := 0x0A

/-- The byte that may stand before a line feed and belongs to it. -/
def carriageReturn : UInt8 := 0x0D

/-- The codec for a character encoding. There is one for UTF-8 only. -/
def ofLabel (label : String) : Except ClientError LineCodec :=
  if Text.lower label = "utf-8" ∨ Text.lower label = "utf8" then .ok initial
  else .error (.unsupportedEncoding label)

/-- The place of the first line feed that is not among the bytes already looked through. -/
def lineEnd? (scanned : Nat) (buffer : List UInt8) : Option Nat :=
  ((buffer.drop scanned).findIdx? (· == lineFeed)).map (scanned + ·)

/-- The text of a line without its line feed. -/
def lineText (bytes : List UInt8) : String :=
  Text.Utf8.decode (if bytes.getLast? = some carriageReturn then bytes.dropLast else bytes)

/-- Waits for more of a line, or gives the line up if it is too long. -/
def await (discarding : Bool) (buffer : List UInt8) : Option String × LineCodec × List UInt8 :=
  if maxLength < buffer.length then (none, ⟨0, true⟩, [])
  else (none, ⟨buffer.length, discarding⟩, buffer)

/-- Takes a line off a buffer that begins with a new line. -/
def decodeLine (scanned : Nat) (buffer : List UInt8) : Option String × LineCodec × List UInt8 :=
  match lineEnd? scanned buffer with
  | some stop => (some (lineText (buffer.take stop)), initial, buffer.drop (stop + 1))
  | none => await false buffer

/-- Takes a line off the buffer, if there is one, and gives what remains. -/
def decode (codec : LineCodec) (buffer : List UInt8) : Option String × LineCodec × List UInt8 :=
  if codec.discarding then
    match lineEnd? codec.scanned buffer with
    | some stop => decodeLine 0 (buffer.drop (stop + 1))
    | none => await true buffer
  else decodeLine codec.scanned buffer

/-- Takes a line off the buffer when no more bytes will come. What stands after the last line feed
counts as a line, unless it is empty or continues one that was too long. -/
def decodeEof (codec : LineCodec) (buffer : List UInt8) : Option String × LineCodec × List UInt8 :=
  match codec.decode buffer with
  | (some line, codec, rest) => (some line, codec, rest)
  | (none, codec, rest) =>
    if rest.isEmpty || codec.discarding then (none, ⟨0, codec.discarding⟩, [])
    else (some (lineText rest), ⟨0, codec.discarding⟩, [])

theorem lineEnd?_lt {scanned : Nat} {buffer : List UInt8} {stop : Nat}
    (h : lineEnd? scanned buffer = some stop) : stop < buffer.length := by
  simp only [lineEnd?, Option.map_eq_some_iff] at h
  obtain ⟨i, hi, rfl⟩ := h
  have hlt : i < (buffer.drop scanned).length := (List.findIdx?_eq_some_iff_getElem.1 hi).1
  rw [List.length_drop] at hlt
  omega

theorem length_decodeLine_lt {scanned : Nat} {buffer rest : List UInt8} {line : String}
    {codec : LineCodec} (h : decodeLine scanned buffer = (some line, codec, rest)) :
    rest.length < buffer.length := by
  unfold decodeLine at h
  split at h
  · rename_i stop hstop
    have := lineEnd?_lt hstop
    cases h
    rw [List.length_drop]
    omega
  · unfold await at h
    split at h <;> cases h

/-- A line takes bytes off the buffer. -/
theorem length_decode_lt {codec codec' : LineCodec} {buffer rest : List UInt8} {line : String}
    (h : codec.decode buffer = (some line, codec', rest)) : rest.length < buffer.length := by
  unfold decode at h
  split at h
  · split at h
    · rename_i stop hstop
      have := length_decodeLine_lt h
      rw [List.length_drop] at this
      omega
    · unfold await at h
      split at h <;> cases h
  · exact length_decodeLine_lt h

theorem length_await_le (discarding : Bool) (buffer : List UInt8) :
    (await discarding buffer).2.2.length ≤ buffer.length := by
  unfold await
  split
  · exact Nat.zero_le _
  · exact Nat.le_refl _

theorem length_decodeLine_le (scanned : Nat) (buffer : List UInt8) :
    (decodeLine scanned buffer).2.2.length ≤ buffer.length := by
  unfold decodeLine
  split
  · rw [List.length_drop]
    exact Nat.sub_le _ _
  · exact length_await_le _ _

/-- What remains is part of the buffer. -/
theorem length_decode_le (codec : LineCodec) (buffer : List UInt8) :
    (codec.decode buffer).2.2.length ≤ buffer.length := by
  unfold decode
  split
  · split
    · refine Nat.le_trans (length_decodeLine_le _ _) ?_
      rw [List.length_drop]
      exact Nat.sub_le _ _
    · exact length_await_le _ _
  · exact length_decodeLine_le _ _

/-- A line takes bytes off the buffer at the end of the stream too. -/
theorem length_decodeEof_lt {codec codec' : LineCodec} {buffer rest : List UInt8} {line : String}
    (h : codec.decodeEof buffer = (some line, codec', rest)) : rest.length < buffer.length := by
  unfold decodeEof at h
  split at h
  · rename_i hdecode
    cases h
    exact length_decode_lt hdecode
  · rename_i codec₁ rest₁ hdecode
    split at h
    · cases h
    · rename_i hrest
      cases h
      have hle : 0 < buffer.length := by
        rcases buffer with _ | ⟨b, bs⟩
        · exfalso
          apply hrest
          unfold decode decodeLine await lineEnd? at hdecode
          split at hdecode <;> simp_all
        · simp
      simpa using hle

theorem length_decodeEof_le (codec : LineCodec) (buffer : List UInt8) :
    (codec.decodeEof buffer).2.2.length ≤ buffer.length := by
  have hle := codec.length_decode_le buffer
  unfold decodeEof
  split
  · rename_i hdecode
    rw [hdecode] at hle
    exact hle
  · split
    · exact Nat.zero_le _
    · exact Nat.zero_le _

def decodeAll (codec : LineCodec) (buffer : List UInt8) : List String × LineCodec × List UInt8 :=
  match _h : codec.decode buffer with
  | (some line, codec, rest) =>
    let (lines, codec, rest) := decodeAll codec rest
    (line :: lines, codec, rest)
  | (none, codec, rest) => ([], codec, rest)
  termination_by buffer.length
  decreasing_by exact length_decode_lt _h

/-- The bytes of a line with its terminator. -/
def encode (line : String) : List UInt8 :=
  Text.Utf8.encode line ++ [carriageReturn, lineFeed]

/-- Cuts a text at each carriage return that a line feed follows, as the one who receives it does. A
line that holds such a pair counts there as several. -/
def cutLines : List Char → List (List Char)
  | [] => [[]]
  | '\r' :: '\n' :: cs => [] :: cutLines cs
  | c :: cs => (cutLines cs).modifyHead (c :: ·)

end LineCodec

end IrcClient
