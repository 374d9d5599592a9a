import IrcClient.Command.Basic
import IrcClient.Error
import IrcClient.Line.Basic
import IrcClient.Text.Ascii
import IrcClient.Text.Cut

/-!
# Capability handlers

Capabilities are negotiated by handlers. A handler is shown what the server says, one prompt after
the other, and answers each with commands and with whether it has nothing left to do. It may also
give up, which ends the registration.
-/

namespace IrcClient

/-- The name in an entry `name=value` of a capability list. -/
def capName (entry : String) : String :=
  match Text.cutAt '=' entry.toList with
  | some (name, _) => String.ofList name
  | none => entry

/-- The value in an entry `name=value` of a capability list. -/
def capValue (entry : String) : Option String :=
  (Text.cutAt '=' entry.toList).map fun parts => String.ofList parts.2

/-- An entry without the hyphens in front that mark a removal. -/
def capUnmarked (entry : String) : String :=
  String.ofList (entry.toList.dropWhile (· == '-'))

/-- Whether a list has a capability, as offered or as removed, with any value. -/
def hasCap (caps : List String) (name : String) : Bool :=
  caps.any fun entry => Text.sameIgnoringCase (capName (capUnmarked entry)) name

/-- What the server says to a handler. -/
inductive Prompt where
  /-- The complete list of what the server offers. -/
  | offered (caps : List String)
  | accepted (caps : List String)
  | refused (caps : List String)
  /-- Any line that is none of these. -/
  | other (line : Line)
  deriving DecidableEq, Repr

/-- What a handler does on a prompt. -/
structure Turn (H : Type) where
  handler : H
  outgoing : List Command
  /-- Whether the handler is done, or why it gave up. -/
  outcome : Except RegistrationError Bool

namespace Turn

variable {H : Type}

def wait (handler : H) (outgoing : List Command) : Turn H := ⟨handler, outgoing, .ok false⟩

/-- Has nothing left to do. -/
def done (handler : H) : Turn H := ⟨handler, [], .ok true⟩

/-- Has failed, which is the end of the handler if failure is tolerated and of the registration if
it is not. -/
def fail (handler : H) (tolerant : Bool) (name reason : String) : Turn H :=
  ⟨handler, [], if tolerant then .ok true else .error (.capability name reason)⟩

end Turn

/-- The participants in capability negotiation. -/
class CapHandler (H : Type) where
  /-- The answer to a prompt, when some capabilities are enabled already. -/
  step : H → (enabled : List String) → Prompt → Turn H

end IrcClient
