import IrcClient.Command.Basic
import IrcClient.Text.Width

/-!
# Line lengths

A server reads lines up to a length that counts the terminator. A message that is too long goes out
in several lines to the same target; any other command is cut off. Line breaks inside a command
become spaces, because they would start a new command on the wire.
-/

namespace IrcClient

/-- How commands become lines of bounded length. -/
structure LineFormatter where
  /-- The greatest length in bytes, terminator included. -/
  maxLineLength : Nat := 512
  /-- Whether long messages are split rather than cut off. -/
  autoSplit : Bool := true
  /-- What ends each line of a split message. -/
  splitSuffix : String := ""
  deriving DecidableEq, Repr

namespace LineFormatter

/-- A text with a space for each carriage return and line feed. -/
def sanitize (cs : List Char) : List Char :=
  cs.map fun c => if c = '\r' ∨ c = '\n' then ' ' else c

/-- The bytes that a line has besides its terminator. -/
def bodyLimit (f : LineFormatter) : Nat := f.maxLineLength - 2

/-- The longest start of a line within the limit. -/
def truncate (f : LineFormatter) (line : String) : String :=
  String.ofList (Text.takeBytes f.bodyLimit line.toList)

/-- The lines `head ++ part` of a message. One line carries the whole message if it can; otherwise
every line ends in the suffix. Where not even a byte of the message has room, the line is cut
off. -/
def split (f : LineFormatter) (head message : String) : List String :=
  let body := sanitize message.toList
  let headLength := Text.byteLength head.toList
  if headLength + Text.byteLength body ≤ f.bodyLimit then [head ++ String.ofList body]
  else
    let room := f.bodyLimit - (headLength + Text.byteLength f.splitSuffix.toList)
    if room = 0 then [f.truncate (head ++ String.ofList body)]
    else (Text.partsWithin room body).map fun part => head ++ String.ofList part ++ f.splitSuffix

def formatWhole (f : LineFormatter) (command : Command) : String :=
  f.truncate (String.ofList (sanitize command.render.toList))

/-- The lines of a command, without terminators. -/
def format (f : LineFormatter) (command : Command) : List String :=
  match command with
  | .privmsg target text =>
    if f.autoSplit then f.split ("PRIVMSG " ++ target ++ " :") text else [f.formatWhole command]
  | .notice target text =>
    if f.autoSplit then f.split ("NOTICE " ++ target ++ " :") text else [f.formatWhole command]
  | _ => [f.formatWhole command]

end LineFormatter

end IrcClient
