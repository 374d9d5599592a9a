/-!
# Points in time

A point in time is a number of seconds since the start of 1970 and the nanoseconds within the
second. A leap second has no number of its own: it is the second before it with a thousand million
nanoseconds or more. Dates are those of the Gregorian calendar, extended over all years.
-/

namespace IrcClient

/-- A point in time, in Coordinated Universal Time. -/
structure Timestamp where
  seconds : Int
  nanos : Nat
  deriving DecidableEq, Repr

namespace Timestamp

def isLeapYear (year : Nat) : Bool :=
  year % 4 == 0 && (year % 100 != 0 || year % 400 == 0)

def daysInMonth (year month : Nat) : Nat :=
  if month = 2 then (if isLeapYear year then 29 else 28)
  else if month = 4 ∨ month = 6 ∨ month = 9 ∨ month = 11 then 30
  else 31

/-- The days of a year that pass before a month begins. -/
def daysBeforeMonth (year : Nat) : Nat → Nat
  | 0 => 0
  | month + 1 => daysBeforeMonth year month + (if month = 0 then 0 else daysInMonth year month)

/-- The days from the start of year 0 to the start of a year. -/
def daysBeforeYear (year : Nat) : Nat :=
  365 * year + (year + 3) / 4 - (year + 99) / 100 + (year + 399) / 400

/-- The day of a date, counted from 1970-01-01. -/
def dayNumber (year month day : Nat) : Int :=
  (daysBeforeYear year + daysBeforeMonth year month + (day - 1) : Nat) - 719528

/-- The first second of the earliest representable year, -262143. -/
def earliest : Int := -8334601228800

/-- The last second of the latest representable year, 262142. -/
def latest : Int := 8210266876799

/-- The point in time a number of seconds after the start of 1970, if it is representable. -/
def ofSeconds? (seconds : Int) : Option Timestamp :=
  if earliest ≤ seconds ∧ seconds ≤ latest then some ⟨seconds, 0⟩ else none

end Timestamp

end IrcClient
