import IrcClient.Privilege

/-!
# Errors

What can go wrong with a connection, and the wording of each error.
-/

namespace IrcClient

/-- A registration that came to a bad end. -/
inductive RegistrationError where
  /-- The nick is taken, and no other is to be tried. -/
  | nicknameInUse (nick : String)
  /-- The server answered with an error numeric. -/
  | rejected (code : Nat) (line : String)
  /-- A capability handler gave up. -/
  | capability (handler reason : String)
  | connectionClosed
  deriving DecidableEq, Repr

def RegistrationError.message : RegistrationError → String
  | .nicknameInUse nick => "nickname in use: " ++ nick
  | .rejected code line => s!"server rejected registration with {code}: {line}"
  | .capability handler reason => s!"capability handler {handler} failed: {reason}"
  | .connectionClosed => "connection closed before registration completed"

/-- The relations between users and channels. -/
inductive RelationName where
  | membership
  | privilege (level : PrivilegeLevel)
  deriving DecidableEq, Repr

def RelationName.label : RelationName → String
  | .membership => "membership"
  | .privilege level => level.label

/-- A pair that one direction of a relation has and the other has not. User and channel are given
by name, or by id if they have no name. -/
structure ConsistencyFault where
  relation : RelationName
  user : String
  channel : String
  deriving DecidableEq, Repr

def ConsistencyFault.message (fault : ConsistencyFault) : String :=
  s!"{fault.relation.label} relation disagrees for {fault.user} on {fault.channel}"

/-- Anything that can go wrong with a connection. -/
inductive ClientError where
  | io (reason : String)
  | tls (reason : String)
  | registration (cause : RegistrationError)
  | consistency (fault : ConsistencyFault)
  /-- Whoever waited for the mode of a channel will get no answer. -/
  | modeWaitInterrupted (channel : String)
  | noSuchChannel (channel : String)
  | disconnected
  | unsupportedEncoding (label : String)
  deriving DecidableEq, Repr

def ClientError.message : ClientError → String
  | .io reason => "io error: " ++ reason
  | .tls reason => "tls error: " ++ reason
  | .registration cause => "registration failed: " ++ cause.message
  | .consistency fault => "internal consistency fault: " ++ fault.message
  | .modeWaitInterrupted channel => s!"waiting for the mode of {channel} was interrupted"
  | .noSuchChannel channel => "no such channel: " ++ channel
  | .disconnected => "not connected"
  | .unsupportedEncoding label => "unsupported encoding: " ++ label

end IrcClient
