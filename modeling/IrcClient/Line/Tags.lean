import IrcClient.Text.Blank
import IrcClient.Text.Cut

/-!
# Message tags

The tag section is a list of `key` or `key=value` between semicolons. Values carry five characters
in escaped form; a backslash before any other character is dropped, and one at the end is too.
-/

namespace IrcClient.Line

/-- The character that a backslash before `c` stands for. -/
def unescaped (c : Char) : Char :=
  if c = ':' then ';'
  else if c = 's' then ' '
  else if c = 'r' then '\r'
  else if c = 'n' then '\n'
  else c

/-- A tag value without its escapes. -/
def unescape : List Char → List Char
  | [] => []
  | ['\\'] => []
  | '\\' :: c :: cs => unescaped c :: unescape cs
  | c :: cs => c :: unescape cs

def parseTag (cs : List Char) : String × Option String :=
  match Text.cutAt '=' cs with
  | some (key, value) =>
    (String.ofList key, if value.isEmpty then none else some (String.ofList (unescape value)))
  | none => (String.ofList cs, none)

def parseTags (cs : List Char) : List (String × Option String) :=
  (Text.nonemptyFields (· == ';') cs).map parseTag

end IrcClient.Line
