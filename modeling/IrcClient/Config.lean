import IrcClient.Command.Formatter

/-!
# Configuration

What a client has to be told before it connects.
-/

namespace IrcClient

/-- The credentials of a gateway that connects on behalf of somebody else. -/
structure WebIrc where
  password : String
  gateway : String
  host : String
  ip : String
  deriving DecidableEq, Repr

/-- A capability to negotiate during registration. -/
inductive CapRequest where
  /-- Ask for a capability if the server offers it. -/
  | enable (cap : String)
  /-- Upgrade to an encrypted connection if the server offers it. -/
  | tls
  /-- Log in to an account. Registration fails without it. -/
  | sasl (account password : String)
  deriving DecidableEq, Repr

/-- Who registers, and how. -/
structure RegistrationConfig where
  nickname : String
  username : String
  realname : String
  password : Option String := none
  webIrc : Option WebIrc := none
  /-- Whether to try the nick with a number when it is taken. -/
  autoNickChange : Bool := false
  /-- Whether to negotiate capabilities. -/
  capEnabled : Bool := true
  deriving DecidableEq, Repr

/-- Everything a client needs to know. Times are in milliseconds. -/
structure ClientConfig extends RegistrationConfig where
  host : String
  capabilities : List CapRequest := []
  /-- The password to identify with after registration. -/
  nickservPassword : Option String := none
  /-- The channels to join after registration, each with its key. -/
  autoJoin : List (String × Option String) := []
  /-- The pause after each queued line. -/
  messageDelay : Nat := 1000
  /-- The idle time after which the server is pinged. -/
  socketTimeout : Nat := 300000
  formatter : LineFormatter := {}
  /-- The answer to the question for the version. -/
  version : String := "slirc-client 0.1.0"
  /-- The answer to the question for the person. -/
  finger : String := "slirc-client"
  /-- The characters that channel names begin with, until the server announces its own. -/
  channelPrefixes : String := "#&"
  encoding : String := "utf-8"
  deriving DecidableEq, Repr

/-- The usual configuration for a host and a nick, which is the user name and the real name too. -/
def ClientConfig.standard (host nickname : String) : ClientConfig where
  host := host
  nickname := nickname
  username := nickname
  realname := nickname

end IrcClient
