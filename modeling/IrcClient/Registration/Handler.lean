import IrcClient.Config
import IrcClient.Registration.Capability
import IrcClient.Sasl.Plain

/-!
# The built-in capability handlers

One handler asks for a single capability, one upgrades to an encrypted connection, and one logs in
to an account.
-/

namespace IrcClient

/-- How far a login has come. -/
inductive SaslState where
  | initial
  /-- The capability is asked for. -/
  | requested
  /-- The mechanism is named. -/
  | mechanismSent
  /-- Account and password are on their way. -/
  | credentialsSent
  | success
  | failed (reason : String)
  deriving DecidableEq, Repr

namespace SaslState

def isComplete : SaslState → Bool
  | success | failed _ => true
  | _ => false

def isSuccess : SaslState → Bool
  | success => true
  | _ => false

end SaslState

/-- A built-in capability handler. A tolerant one is done where another would give up. -/
inductive Handler where
  | enable (cap : String) (tolerant : Bool)
  | tls (tolerant requested : Bool)
  | sasl (account password : String) (tolerant : Bool) (state : SaslState)
  deriving DecidableEq, Repr

namespace Handler

/-- The handler for a request. Only a login has to succeed. -/
def ofRequest : CapRequest → Handler
  | .enable cap => enable cap true
  | .tls => tls true false
  | .sasl account password => sasl account password false .initial

def name : Handler → String
  | enable cap _ => cap
  | tls _ _ => "tls"
  | sasl _ _ _ _ => "sasl"

/-- Asks for a capability that is offered and waits for the answer. -/
def stepEnable (cap : String) (tolerant : Bool) (prompt : Prompt) : Turn Handler :=
  let self := enable cap tolerant
  match prompt with
  | .offered caps =>
    if hasCap caps cap then .wait self [.capRequest [cap]]
    else .fail self tolerant cap "not offered by server"
  | .accepted caps => if hasCap caps cap then .done self else .wait self []
  | .refused caps =>
    if hasCap caps cap then .fail self tolerant cap "refused by server" else .wait self []
  | .other _ => .wait self []

/-- Asks for the upgrade if it is offered. The connection is upgraded on the server's consent, and
then the handler is done. -/
def stepTls (tolerant requested : Bool) (prompt : Prompt) : Turn Handler :=
  let self := tls tolerant requested
  match prompt with
  | .offered caps =>
    if hasCap caps "tls" then .wait (tls tolerant true) [.startTls]
    else .fail self tolerant "tls" "not offered by server"
  | .accepted _ | .refused _ => .wait self []
  | .other line =>
    if !requested then .wait self []
    else match line.numeric with
      | some 670 => .done self
      | some 691 => .fail self tolerant "tls" (line.lastParam.getD "STARTTLS failed")
      | _ => .wait self []

/-- The numerics that refuse a login. -/
def loginRefused (code : Nat) : Bool :=
  code == 902 || code == 904 || code == 905 || code == 906 || code == 907

/-- Asks for the capability, names the mechanism when it is accepted, sends the credentials on the
empty challenge, and waits for the verdict. -/
def stepSasl (account password : String) (tolerant : Bool) (state : SaslState) (prompt : Prompt) :
    Turn Handler :=
  let move (next : SaslState) := sasl account password tolerant next
  let fail (reason : String) : Turn Handler := .fail (move (.failed reason)) tolerant "sasl" reason
  match prompt with
  | .offered caps =>
    if hasCap caps "sasl" then .wait (move .requested) [.capRequest ["sasl"]]
    else fail "sasl not offered by server"
  | .accepted caps =>
    if hasCap caps "sasl" && state == .requested then
      .wait (move .mechanismSent) [.authenticate "PLAIN"]
    else .wait (move state) []
  | .refused caps =>
    if hasCap caps "sasl" then fail "sasl refused by server" else .wait (move state) []
  | .other line =>
    if line.command = "AUTHENTICATE" then
      if state == .mechanismSent && line.param 0 == some "+" then
        .wait (move .credentialsSent)
          ((Sasl.chunks (Sasl.encodePlain account password)).map .authenticate)
      else .wait (move state) []
    else match line.numeric with
      | some 903 => .done (move .success)
      | some code =>
        if loginRefused code then fail (line.lastParam.getD s!"numeric {code}")
        else .wait (move state) []
      | none => .wait (move state) []

/-- The answer of a built-in handler to a prompt. -/
def step : Handler → Prompt → Turn Handler
  | enable cap tolerant, prompt => stepEnable cap tolerant prompt
  | tls tolerant requested, prompt => stepTls tolerant requested prompt
  | sasl account password tolerant state, prompt => stepSasl account password tolerant state prompt

instance : CapHandler Handler where
  step handler _ prompt := handler.step prompt

end Handler

end IrcClient
