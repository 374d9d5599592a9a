/-!
# Blank characters and words

Protocol text is taken apart at white space in the sense of Unicode, which is a larger set than the
blanks of ASCII. This module holds that set, the two ways of trimming, and the division of a text
into words.
-/

namespace IrcClient.Text

/-- White space: the characters with the Unicode property of that name. -/
def isBlank (c : Char) : Bool :=
  let n := c.toNat
  (0x09 ≤ n && n ≤ 0x0D) || n == 0x20 || n == 0x85 || n == 0xA0 || n == 0x1680 ||
    (0x2000 ≤ n && n ≤ 0x200A) || n == 0x2028 || n == 0x2029 || n == 0x202F || n == 0x205F ||
    n == 0x3000

/-- A text without the characters at its end that satisfy `p`. -/
def trimEnd (p : Char → Bool) (cs : List Char) : List Char :=
  (cs.reverse.dropWhile p).reverse

/-- A text without the white space at its two ends. -/
def trim (cs : List Char) : List Char :=
  trimEnd isBlank (cs.dropWhile isBlank)

/-- The pieces of a text between the characters that satisfy `p`, empty pieces included. There is
always one piece more than there are such characters. -/
def fields (p : Char → Bool) : List Char → List (List Char)
  | [] => [[]]
  | c :: cs =>
    if p c then [] :: fields p cs
    else match fields p cs with
      | [] => [[c]]
      | piece :: pieces => (c :: piece) :: pieces

/-- The pieces of a text between the characters that satisfy `p`, without the empty ones. -/
def nonemptyFields (p : Char → Bool) (cs : List Char) : List (List Char) :=
  (fields p cs).filter fun piece => !piece.isEmpty

/-- The words of a text: its longest runs of characters that are not blank. -/
def words (cs : List Char) : List (List Char) :=
  nonemptyFields isBlank cs

end IrcClient.Text
