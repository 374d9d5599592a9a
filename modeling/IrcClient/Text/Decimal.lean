/-!
# Decimal numbers

Numbers in protocol text are ASCII digits after an optional sign. A number that does not fit the
width its field has is refused as a whole, like one with any other character in it.
-/

namespace IrcClient.Text

/-- The value of a digit sequence, continuing from the value `acc` of the digits before it. -/
def natFrom (acc : Nat) : List Char → Option Nat
  | [] => some acc
  | c :: cs => if c.isDigit then natFrom (acc * 10 + (c.toNat - '0'.toNat)) cs else none

def nat? : List Char → Option Nat
  | [] => none
  | cs => natFrom 0 cs

/-- An unsigned number below `2 ^ bits`. A plus sign may stand before the digits. -/
def unsigned? (bits : Nat) (text : String) : Option Nat :=
  let digits := match text.toList with
    | '+' :: cs => cs
    | cs => cs
  match nat? digits with
  | some n => if n < Nat.pow 2 bits then some n else none
  | none => none

/-- A signed number of `bits` bits in two's complement. Either sign may stand before the digits. -/
def signed? (bits : Nat) (text : String) : Option Int :=
  let value := match text.toList with
    | '-' :: cs => (nat? cs).map fun n => -(n : Int)
    | '+' :: cs => (nat? cs).map Int.ofNat
    | cs => (nat? cs).map Int.ofNat
  match value with
  | some n =>
    let bound : Int := Nat.pow 2 (bits - 1)
    if -bound ≤ n ∧ n < bound then some n else none
  | none => none

end IrcClient.Text
