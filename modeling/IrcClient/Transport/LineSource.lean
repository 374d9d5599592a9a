import IrcClient.Transport.ReadBuffer

/-!
# A source of lines

The receiving end of a stream: a codec, its buffer, and the bytes that the stream still holds.
Lines are taken off the buffer, and bytes are fetched only for want of a line. The number of fetches
may be limited.
-/

namespace IrcClient

/-- The receiving end of a stream. -/
structure LineSource where
  codec : LineCodec
  buffer : ReadBuffer
  /-- What has come in and is not fetched. -/
  stream : List UInt8

namespace LineSource

/-- The source at the start of a stream. -/
def initial (codec : LineCodec) : LineSource := ⟨codec, .empty, []⟩

/-- The number of bytes that are not used yet. -/
def unread (source : LineSource) : Nat := source.buffer.bytes.length + source.stream.length

def receive (source : LineSource) (bytes : List UInt8) : LineSource :=
  { source with stream := source.stream ++ bytes }

/-- Starts on a new stream that has the same bytes. What was fetched and not used is fetched
again. -/
def restart (source : LineSource) : LineSource :=
  { source with buffer := .empty, stream := source.buffer.bytes ++ source.stream }

@[simp] theorem unread_restart (source : LineSource) : source.restart.unread = source.unread := by
  simp [restart, unread]

/-- Takes the next line, if it is there after so many fetches at most, and tells how many fetches
are left. -/
def next (source : LineSource) (fetches : Nat) : Option String × Nat × LineSource :=
  match source.codec.decode source.buffer.bytes with
  | (some line, codec, rest) =>
    (some line, fetches, { source with codec := codec, buffer := source.buffer.keep rest })
  | (none, codec, rest) =>
    let kept : LineSource := { source with codec := codec, buffer := source.buffer.keep rest }
    match fetches, source.stream with
    | 0, _ | _, [] => (none, fetches, kept)
    | fetches + 1, stream =>
      let fetched := kept.buffer.fetch stream
      next { kept with buffer := fetched.1, stream := fetched.2 } fetches

/-- Takes the last line when no more bytes will come. -/
def last (source : LineSource) : Option String × LineSource :=
  let (line, codec, rest) := source.codec.decodeEof source.buffer.bytes
  (line, { source with codec := codec, buffer := source.buffer.keep rest })

theorem unread_fetch (source : LineSource) (rest : List UInt8) (codec : LineCodec) :
    let fetched := (source.buffer.keep rest).fetch source.stream
    unread ⟨codec, fetched.1, fetched.2⟩ = rest.length + source.stream.length :=
  (source.buffer.keep rest).length_fetch_add source.stream

/-- To look for a line brings no new bytes. -/
theorem unread_next_le (source : LineSource) (fetches : Nat) :
    (source.next fetches).2.2.unread ≤ source.unread := by
  induction fetches generalizing source with
  | zero =>
    have hle := source.codec.length_decode_le source.buffer.bytes
    unfold next
    split
    · rename_i hdecode
      rw [hdecode] at hle
      exact Nat.add_le_add_right hle _
    · rename_i hdecode
      rw [hdecode] at hle
      exact Nat.add_le_add_right hle _
  | succ fetches ih =>
    have hle := source.codec.length_decode_le source.buffer.bytes
    unfold next
    split
    · rename_i hdecode
      rw [hdecode] at hle
      exact Nat.add_le_add_right hle _
    · rename_i codec rest hdecode
      rw [hdecode] at hle
      dsimp only
      split
      · exact Nat.add_le_add_right hle _
      · exact Nat.add_le_add_right hle _
      · rename_i heq hstream
        cases heq
        refine Nat.le_trans (ih _) ?_
        rw [unread_fetch source rest codec]
        exact Nat.add_le_add_right hle _

/-- A line uses up bytes. -/
theorem unread_next_lt {source d : LineSource} {fetches left : Nat} {line : String}
    (h : source.next fetches = (some line, left, d)) : d.unread < source.unread := by
  induction fetches generalizing source with
  | zero =>
    unfold next at h
    split at h
    · rename_i hdecode
      cases h
      exact Nat.add_lt_add_right (LineCodec.length_decode_lt hdecode) _
    · cases h
  | succ fetches ih =>
    have hle := source.codec.length_decode_le source.buffer.bytes
    unfold next at h
    split at h
    · rename_i hdecode
      cases h
      exact Nat.add_lt_add_right (LineCodec.length_decode_lt hdecode) _
    · rename_i codec rest hdecode
      rw [hdecode] at hle
      dsimp only at h
      split at h
      · cases h
      · cases h
      · rename_i heq hstream
        cases heq
        refine Nat.lt_of_lt_of_le (ih h) ?_
        rw [unread_fetch source rest codec]
        exact Nat.add_le_add_right hle _

/-- The last line uses up bytes too. -/
theorem unread_last_lt {source d : LineSource} {line : String} (h : source.last = (some line, d)) :
    d.unread < source.unread := by
  simp only [last, Prod.mk.injEq] at h
  obtain ⟨hline, rfl⟩ := h
  have hlt := LineCodec.length_decodeEof_lt
    (show source.codec.decodeEof source.buffer.bytes = (some line, _, _) by rw [← hline])
  exact Nat.add_lt_add_right hlt _

theorem unread_last_le (source : LineSource) : source.last.2.unread ≤ source.unread := by
  exact Nat.add_le_add_right (source.codec.length_decodeEof_le source.buffer.bytes) _

end LineSource

end IrcClient
