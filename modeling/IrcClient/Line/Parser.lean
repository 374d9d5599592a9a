import IrcClient.Line.Basic
import IrcClient.Line.Tags
import IrcClient.Text.Width

/-!
# Reading lines

`Line.parse` reads a whole line, and `Line.tokenize` splits one into bare tokens. Both take
parameters apart alike: runs of spaces separate them, and one that begins with a colon takes all the
rest of the line.

A line is refused only if it is blank or has no command where one is due.
-/

namespace IrcClient

/-- Why a text is no line. -/
inductive LineError where
  /-- Nothing but white space. -/
  | empty
  /-- No command at this byte. -/
  | noCommand (position : Nat)
  deriving DecidableEq, Repr

namespace LineError

/-- What was being read when the text went wrong. -/
def context : String := "parsing required command"

def message : LineError → String
  | empty => "empty line"
  | noCommand position => s!"parsing failed at position {position} while {context}"

end LineError

namespace Line

/-- The parameters of the rest of a line, of which `current` (last character first) is begun. No
parameter is begun while `current` is empty. -/
def paramsFrom : List Char → List Char → List (List Char)
  | [], [] => []
  | current, [] => [current.reverse]
  | [], c :: cs =>
    if c = ' ' then paramsFrom [] cs
    else if c = ':' then [cs]
    else paramsFrom [c] cs
  | current, c :: cs =>
    if c = ' ' then current.reverse :: paramsFrom [] cs
    else paramsFrom (c :: current) cs

/-- The parameters after a command. What does not start with a space holds none. -/
def splitParams : List Char → List (List Char)
  | ' ' :: cs => paramsFrom [] cs
  | _ => []

/-- A section that `mark` opens, up to the next space, and what follows it. A mark with nothing
behind it opens none. -/
def section? (mark : Char) (cs : List Char) : Option (List Char) × List Char :=
  match cs with
  | c :: rest =>
    let body := rest.takeWhile (· ≠ ' ')
    if c = mark ∧ body ≠ [] then (some body, rest.dropWhile (· ≠ ' ')) else (none, cs)
  | [] => (none, cs)

/-- What follows spaces and tabs. -/
def skipGap (cs : List Char) : List Char :=
  cs.dropWhile fun c => c == ' ' || c == '\t'

/-- Reads a line. Its terminator, any run of carriage returns and line feeds, may be missing. -/
def parse (raw : String) : Except LineError Line :=
  let text := Text.trimEnd (fun c => c == '\r' || c == '\n') raw.toList
  if text.all Text.isBlank then .error .empty
  else
    let (tags, rest) := section? '@' text
    let (source, rest) := section? ':' (skipGap rest)
    let rest := skipGap rest
    let command := rest.takeWhile Char.isAlphanum
    if command.isEmpty then .error (.noCommand (Text.byteLength text - Text.byteLength rest))
    else
      .ok {
        raw := String.ofList text
        tags := (tags.map parseTags).getD []
        source := source.map fun cs => Hostmask.parse (String.ofList cs)
        command := String.ofList (command.map Char.toUpper)
        params := (splitParams (rest.dropWhile Char.isAlphanum)).map String.ofList }

/-- The tokens of a text without the white space around it. The first token keeps a leading
colon. -/
def tokenize (text : String) : List String :=
  match Text.trim text.toList with
  | [] => []
  | cs =>
    let tokens := cs.takeWhile (· ≠ ' ') :: splitParams (cs.dropWhile (· ≠ ' '))
    tokens.map String.ofList

end Line

end IrcClient
