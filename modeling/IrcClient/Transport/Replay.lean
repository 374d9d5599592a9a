/-!
# Reading bytes a second time

When the connection changes under the reader, bytes that were read ahead must be read again before
any others. A replayed stream gives them first and then goes on with the stream itself. What is
written goes straight through.
-/

namespace IrcClient

/-- A stream with bytes in front that are read first. -/
structure ReplayStream where
  /-- The bytes to read first. -/
  held : List UInt8
  /-- The bytes that the stream itself still has to give. -/
  incoming : List UInt8
  outgoing : List UInt8
  deriving DecidableEq, Repr

namespace ReplayStream

/-- Reads at most `size` bytes. Held bytes and the stream's own are never given in one read. -/
def read (s : ReplayStream) (size : Nat) : List UInt8 × ReplayStream :=
  if s.held.isEmpty then (s.incoming.take size, { s with incoming := s.incoming.drop size })
  else (s.held.take size, { s with held := s.held.drop size })

/-- Reads several times, at most so many bytes each time. -/
def readAll (s : ReplayStream) : List Nat → List (List UInt8) × ReplayStream
  | [] => ([], s)
  | size :: sizes =>
    let first := s.read size
    let rest := readAll first.2 sizes
    (first.1 :: rest.1, rest.2)

def write (s : ReplayStream) (bytes : List UInt8) : ReplayStream :=
  { s with outgoing := s.outgoing ++ bytes }

end ReplayStream

end IrcClient
