import IrcClient.Transport.LineCodec

/-!
# Fetching bytes

A reader fetches bytes from a stream into a buffer and takes lines off the front of it. One fetch
brings as many bytes as there is room for. So a line may come in several pieces even if the stream
holds all of it, and a line that is too long is given up as soon as one piece shows that it is.

The bytes that were used stay in front until the buffer is full. Their space is then taken back if
it can hold the others, and else the buffer grows to twice its size.
-/

namespace IrcClient

/-- A buffer between a stream and the reader of its lines. -/
structure ReadBuffer where
  /-- The bytes fetched and not used. -/
  bytes : List UInt8
  /-- The space in front of them, which used bytes take up. -/
  used : Nat
  /-- The space behind them, which is free. -/
  room : Nat
  size_pos : 0 < used + bytes.length + room

namespace ReadBuffer

/-- An empty buffer. It has room for 8192 bytes. -/
def empty : ReadBuffer := ⟨[], 0, 8192, by simp⟩

@[simp] theorem bytes_empty : empty.bytes = [] := rfl

/-- Uses up all bytes but the given last ones. -/
def keep (b : ReadBuffer) (rest : List UInt8) : ReadBuffer where
  bytes := rest
  used := b.used + (b.bytes.length - rest.length)
  room := b.room
  size_pos := by
    have := b.size_pos
    omega

/-- Makes room in a full buffer. -/
def makeRoom (b : ReadBuffer) : ReadBuffer :=
  if hroom : 0 < b.room then b
  else if b.bytes.length ≤ b.used then
    { b with
      used := 0
      room := b.used
      size_pos := by
        have := b.size_pos
        omega }
  else
    { b with
      room := b.used + b.bytes.length
      size_pos := by
        have := b.size_pos
        omega }

@[simp] theorem bytes_makeRoom (b : ReadBuffer) : b.makeRoom.bytes = b.bytes := by
  unfold makeRoom
  split
  · rfl
  · split <;> rfl

/-- Fetches bytes from a stream, as many as there is room for. -/
def fetch (b : ReadBuffer) (stream : List UInt8) : ReadBuffer × List UInt8 :=
  let b := b.makeRoom
  ({  bytes := b.bytes ++ stream.take b.room
      used := b.used
      room := b.room - stream.length
      size_pos := by
        have := b.size_pos
        simp only [List.length_append, List.length_take]
        omega },
    stream.drop b.room)

/-- A fetch loses no byte and leaves them in order. -/
theorem append_fetch (b : ReadBuffer) (stream : List UInt8) :
    (b.fetch stream).1.bytes ++ (b.fetch stream).2 = b.bytes ++ stream := by
  simp [fetch]

theorem length_fetch_add (b : ReadBuffer) (stream : List UInt8) :
    (b.fetch stream).1.bytes.length + (b.fetch stream).2.length =
      b.bytes.length + stream.length := by
  rw [← List.length_append, append_fetch, List.length_append]

end ReadBuffer

end IrcClient
