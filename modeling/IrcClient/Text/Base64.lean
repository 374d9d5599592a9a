/-!
# Base64

The standard alphabet with padding (RFC 4648, section 4). `encode` writes three bytes as four
symbols; `decode` accepts exactly what `encode` writes and tells what is wrong with anything else.

Where a text has several faults, the reported one is: a lone last symbol outside the alphabet (such
as a line break after a complete text), then the first byte at fault from the left, then too short a
last group, then missing padding, then bits set beyond the last byte.
-/

namespace IrcClient.Text.Base64

/-- What is wrong with a text that is not base64. Offsets count bytes. -/
inductive DecodeError where
  | symbol (byte : UInt8) (offset : Nat)
  | lastSymbol (byte : UInt8) (offset : Nat)
  | length (size : Nat)
  | padding
  deriving DecidableEq, Repr

def DecodeError.message : DecodeError → String
  | .symbol byte offset => s!"Invalid symbol {byte.toNat}, offset {offset}."
  | .lastSymbol byte offset => s!"Invalid last symbol {byte.toNat}, offset {offset}."
  | .length size => s!"Invalid input length: {size}"
  | .padding => "Invalid padding"

def symbol (n : Nat) : Char :=
  if n < 26 then Char.ofNat ('A'.toNat + n)
  else if n < 52 then Char.ofNat ('a'.toNat + (n - 26))
  else if n < 62 then Char.ofNat ('0'.toNat + (n - 52))
  else if n = 62 then '+'
  else '/'

/-- The six bits of a symbol. -/
def sextet? (b : UInt8) : Option Nat :=
  let n := b.toNat
  if 0x41 ≤ n ∧ n ≤ 0x5A then some (n - 0x41)
  else if 0x61 ≤ n ∧ n ≤ 0x7A then some (n - 0x61 + 26)
  else if 0x30 ≤ n ∧ n ≤ 0x39 then some (n - 0x30 + 52)
  else if n = 0x2B then some 62
  else if n = 0x2F then some 63
  else none

/-- The byte that fills up the last group. -/
def pad : UInt8 := 0x3D

def encodeChars : List UInt8 → List Char
  | [] => []
  | [a] =>
    let n := a.toNat
    [symbol (n / 4), symbol (n % 4 * 16), '=', '=']
  | [a, b] =>
    let n := a.toNat * 256 + b.toNat
    [symbol (n / 1024), symbol (n / 16 % 64), symbol (n % 16 * 4), '=']
  | a :: b :: c :: rest =>
    let n := (a.toNat * 256 + b.toNat) * 256 + c.toNat
    symbol (n / 262144) :: symbol (n / 4096 % 64) :: symbol (n / 64 % 64) :: symbol (n % 64) ::
      encodeChars rest

def encode (bytes : List UInt8) : String :=
  String.ofList (encodeChars bytes)

/-- The symbols of the last group before its padding, as their six bits. `offset` is the place of
the next byte, `padStart` the place of the first padding byte met. In a group, padding starts at its
third byte at the earliest, and only padding follows padding. -/
def lastSextets (base offset : Nat) (padStart : Option Nat) :
    List UInt8 → Except DecodeError (List (Nat × UInt8) × Nat)
  | [] => .ok ([], 0)
  | b :: bs =>
    if b = pad then
      if offset < base + 2 then .error (.symbol b offset)
      else
        match lastSextets base (offset + 1) (some (padStart.getD offset)) bs with
        | .ok (sextets, pads) => .ok (sextets, pads + 1)
        | .error e => .error e
    else
      match padStart with
      | some at_ => .error (.symbol pad at_)
      | none =>
        match sextet? b with
        | none => .error (.symbol b offset)
        | some n =>
          match lastSextets base (offset + 1) none bs with
          | .ok (sextets, pads) => .ok ((n, b) :: sextets, pads)
          | .error e => .error e

/-- The bytes of the last group, which starts at `base`. -/
def decodeLast (base : Nat) (bs : List UInt8) : Except DecodeError (List UInt8) :=
  match lastSextets base base none bs with
  | .error e => .error e
  | .ok (sextets, pads) =>
    if sextets.length < 2 then .error (.length (base + sextets.length))
    else if (sextets.length + pads) % 4 ≠ 0 then .error .padding
    else
      match sextets with
      | [(m, _), (n, last)] =>
        if n % 16 ≠ 0 then .error (.lastSymbol last (base + 1))
        else .ok [UInt8.ofNat (m * 4 + n / 16)]
      | [(m, _), (n, _), (o, last)] =>
        if o % 4 ≠ 0 then .error (.lastSymbol last (base + 2))
        else .ok [UInt8.ofNat (m * 4 + n / 16), UInt8.ofNat (n % 16 * 16 + o / 4)]
      | [(m, _), (n, _), (o, _), (p, _)] =>
        .ok [UInt8.ofNat (m * 4 + n / 16), UInt8.ofNat (n % 16 * 16 + o / 4),
          UInt8.ofNat (o % 4 * 64 + p)]
      | _ => .ok []

/-- The six bits of a symbol inside the text, where padding has no place. -/
def innerSextet (offset : Nat) (b : UInt8) : Except DecodeError Nat :=
  match sextet? b with
  | some n => .ok n
  | none => .error (.symbol b offset)

/-- The bytes of a text from `base` on. Every group of four with something after it is complete. -/
def decodeFrom (base : Nat) : List UInt8 → Except DecodeError (List UInt8)
  | a :: b :: c :: d :: e :: rest => do
    let m ← innerSextet base a
    let n ← innerSextet (base + 1) b
    let o ← innerSextet (base + 2) c
    let p ← innerSextet (base + 3) d
    let bytes ← decodeFrom (base + 4) (e :: rest)
    .ok (UInt8.ofNat (m * 4 + n / 16) :: UInt8.ofNat (n % 16 * 16 + o / 4) ::
      UInt8.ofNat (o % 4 * 64 + p) :: bytes)
  | [] => .ok []
  | last => decodeLast base last

/-- The last byte of a text of `4 * k + 1` bytes, if it is neither a symbol nor padding. -/
def strayEnd? (bs : List UInt8) : Option UInt8 :=
  if bs.length % 4 = 1 then
    bs.getLast?.filter fun b => b ≠ pad && (sextet? b).isNone
  else none

/-- The bytes that a base64 text stands for. -/
def decode (bs : List UInt8) : Except DecodeError (List UInt8) :=
  match strayEnd? bs with
  | some b => .error (.symbol b (bs.length - 1))
  | none => decodeFrom 0 bs

end IrcClient.Text.Base64
