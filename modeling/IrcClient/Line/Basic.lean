import IrcClient.Hostmask

/-!
# Protocol lines

One inbound message: `[@tags] [:source] command params`. The command is kept in upper case, and
`verb` sorts it into the commands that a client has to tell apart.
-/

namespace IrcClient

/-- A protocol line in its parts. -/
structure Line where
  /-- The line as it came, without its terminator. -/
  raw : String
  /-- The message tags in order. A tag without a value, or with an empty one, has none. -/
  tags : List (String × Option String)
  source : Option Hostmask
  /-- The command in upper case. -/
  command : String
  params : List String
  deriving DecidableEq, Repr, Inhabited

/-- What a line is about. -/
inductive Verb where
  | numeric (code : Nat)
  | ping
  | pong
  | error
  | cap
  | authenticate
  | privmsg
  | notice
  | join
  | part
  | quit
  | kick
  | nick
  | mode
  | topic
  | invite
  | away
  | other
  deriving DecidableEq, Repr

/-- The value of a command of exactly three digits. -/
def Verb.numericCode? (command : String) : Option Nat :=
  match command.toList with
  | [a, b, c] =>
    if a.isDigit && b.isDigit && c.isDigit then
      some (((a.toNat - '0'.toNat) * 10 + (b.toNat - '0'.toNat)) * 10 + (c.toNat - '0'.toNat))
    else none
  | _ => none

/-- The verb of a command in upper case. -/
def Verb.ofCommand (command : String) : Verb :=
  match Verb.numericCode? command with
  | some code => .numeric code
  | none =>
    if command = "PING" then .ping
    else if command = "PONG" then .pong
    else if command = "ERROR" then .error
    else if command = "CAP" then .cap
    else if command = "AUTHENTICATE" then .authenticate
    else if command = "PRIVMSG" then .privmsg
    else if command = "NOTICE" then .notice
    else if command = "JOIN" then .join
    else if command = "PART" then .part
    else if command = "QUIT" then .quit
    else if command = "KICK" then .kick
    else if command = "NICK" then .nick
    else if command = "MODE" then .mode
    else if command = "TOPIC" then .topic
    else if command = "INVITE" then .invite
    else if command = "AWAY" then .away
    else .other

namespace Line

def verb (line : Line) : Verb := Verb.ofCommand line.command

def numeric (line : Line) : Option Nat := Verb.numericCode? line.command

def param (line : Line) (index : Nat) : Option String := line.params[index]?

def lastParam (line : Line) : Option String := line.params.getLast?

/-- The value of the first tag with a key. -/
def tag (line : Line) (key : String) : Option String :=
  (line.tags.find? fun tag => tag.1 = key).bind Prod.snd

def sourceNick (line : Line) : Option String := line.source.map Hostmask.nick

end Line

end IrcClient
