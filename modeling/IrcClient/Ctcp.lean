import IrcClient.Text.Ascii
import IrcClient.Text.Cut

/-!
# Client-to-client payloads

Clients address each other inside ordinary messages: a text between two control characters is a
verb, in any case, and perhaps arguments after a space.
-/

namespace IrcClient

/-- A payload by its verb. -/
inductive Ctcp where
  | version (args : Option String)
  | action (text : String)
  | ping (value : String)
  | time (args : Option String)
  | finger (args : Option String)
  | dcc (request : String)
  | other (verb args : String)
  deriving DecidableEq, Repr

namespace Ctcp

/-- The control character around a payload. -/
def delimiter : Char := '\x01'

/-- The text between the delimiters, if both are there. -/
def inner? (cs : List Char) : Option (List Char) :=
  (Text.stripHead? delimiter cs).bind (Text.stripLast? delimiter)

/-- The payload with a verb, whatever its case, and arguments. -/
def ofVerb (verb : String) (args : Option String) : Ctcp :=
  let text := args.getD ""
  let upper := Text.upper verb
  if upper = "VERSION" then .version args
  else if upper = "ACTION" then .action text
  else if upper = "PING" then .ping text
  else if upper = "TIME" then .time args
  else if upper = "FINGER" then .finger args
  else if upper = "DCC" then .dcc text
  else .other verb text

/-- The payload that a message text is, if it is one. -/
def parse? (text : String) : Option Ctcp :=
  match inner? text.toList with
  | none => none
  | some cs =>
    let (verb, args) := match Text.cutAt ' ' cs with
      | some (verb, args) => (verb, some (String.ofList args))
      | none => (cs, none)
    if verb.isEmpty then none else some (ofVerb (String.ofList verb) args)

def verb : Ctcp → String
  | version _ => "VERSION"
  | action _ => "ACTION"
  | ping _ => "PING"
  | time _ => "TIME"
  | finger _ => "FINGER"
  | dcc _ => "DCC"
  | other verb _ => verb

/-- The text after the verb, empty if there is none. -/
def args : Ctcp → String
  | version args | time args | finger args => args.getD ""
  | action text | ping text | dcc text => text
  | other _ args => args

def encode (verb : String) (args : Option String) : String :=
  match args with
  | some args => "\x01" ++ verb ++ " " ++ args ++ "\x01"
  | none => "\x01" ++ verb ++ "\x01"

/-- Whether the space before the arguments is written although there are none. -/
def keepsSpace : Ctcp → Bool
  | action _ => true
  | _ => false

/-- The text of a payload. Empty arguments are left out, save those of an action. -/
def render (payload : Ctcp) : String :=
  encode payload.verb
    (if payload.args = "" && !payload.keepsSpace then none else some payload.args)

end Ctcp

end IrcClient
