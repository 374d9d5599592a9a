import IrcClient.Timestamp.Basic

/-!
# RFC 3339 date-times

`2024-05-01T12:30:00.25+02:00` and its like. The separator between date and time may be `T`, `t` or
a space; the offset may be `Z`, `z` or a signed `hh:mm` below a day, with U+2212 as a second
spelling of the minus sign. Second 60 is accepted in every minute. Digits of the fraction beyond the
ninth are dropped.
-/

namespace IrcClient.Timestamp

def digit? (c : Char) : Option Nat :=
  if c.isDigit then some (c.toNat - '0'.toNat) else none

/-- A number of exactly `count` digits, and what follows it. -/
def digits? : Nat → Nat → List Char → Option (Nat × List Char)
  | 0, acc, cs => some (acc, cs)
  | _ + 1, _, [] => none
  | count + 1, acc, c :: cs => do
    let d ← digit? c
    digits? count (acc * 10 + d) cs

/-- What follows the character `c`. -/
def expect? (c : Char) : List Char → Option (List Char)
  | [] => none
  | x :: xs => if x = c then some xs else none

/-- The nanoseconds of a fraction, of which a digit counts `unit` next, and what follows its last
digit. -/
def fraction (unit acc : Nat) : List Char → Nat × List Char
  | [] => (acc, [])
  | c :: cs =>
    match digit? c with
    | some d => fraction (unit / 10) (acc + d * unit) cs
    | none => (acc, c :: cs)

/-- An optional fraction of a second, which has at least one digit, and what follows it. -/
def optionalFraction? : List Char → Option (Nat × List Char)
  | '.' :: c :: cs => do
    let _ ← digit? c
    some (fraction 100000000 0 (c :: cs))
  | '.' :: [] => none
  | cs => some (0, cs)

/-- The seconds by which a zone is ahead, and what follows its offset. -/
def offset? : List Char → Option (Int × List Char)
  | [] => none
  | sign :: cs =>
    if sign = 'Z' ∨ sign = 'z' then some (0, cs)
    else if sign = '+' ∨ sign = '-' ∨ sign = '\u2212' then do
      let (hours, cs) ← digits? 2 0 cs
      let cs ← expect? ':' cs
      let (minutes, cs) ← digits? 2 0 cs
      if hours ≤ 23 ∧ minutes ≤ 59 then
        let ahead : Int := (hours * 60 + minutes) * 60
        some (if sign = '+' then ahead else -ahead, cs)
      else none
    else none

/-- The point in time that a complete RFC 3339 text names. -/
def ofRfc3339? (text : String) : Option Timestamp := do
  let (year, cs) ← digits? 4 0 text.toList
  let cs ← expect? '-' cs
  let (month, cs) ← digits? 2 0 cs
  let cs ← expect? '-' cs
  let (day, cs) ← digits? 2 0 cs
  let cs ← match cs with
    | c :: cs => if c = 'T' ∨ c = 't' ∨ c = ' ' then some cs else none
    | [] => none
  let (hour, cs) ← digits? 2 0 cs
  let cs ← expect? ':' cs
  let (minute, cs) ← digits? 2 0 cs
  let cs ← expect? ':' cs
  let (second, cs) ← digits? 2 0 cs
  let (nanos, cs) ← optionalFraction? cs
  let (ahead, cs) ← offset? cs
  if cs.isEmpty ∧ 1 ≤ month ∧ month ≤ 12 ∧ 1 ≤ day ∧ day ≤ daysInMonth year month ∧
      hour ≤ 23 ∧ minute ≤ 59 ∧ second ≤ 60 then
    let inDay : Nat := (hour * 60 + minute) * 60 + min second 59
    some {
      seconds := dayNumber year month day * 86400 + inDay - ahead
      nanos := if second = 60 then nanos + 1000000000 else nanos }
  else none

end IrcClient.Timestamp
