/-!
# ASCII case

Protocol keywords are compared without regard to the case of ASCII letters. Other characters have no
case here.
-/

namespace IrcClient.Text

/-- A text with its ASCII letters in upper case. -/
def upper (s : String) : String := String.ofList (s.toList.map Char.toUpper)

/-- A text with its ASCII letters in lower case. -/
def lower (s : String) : String := String.ofList (s.toList.map Char.toLower)

/-- Whether two texts differ at most in the case of ASCII letters. -/
def sameIgnoringCase (a b : String) : Bool := lower a == lower b

end IrcClient.Text
