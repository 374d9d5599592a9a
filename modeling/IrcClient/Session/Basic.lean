import IrcClient.Event
import IrcClient.Mode.Apply
import IrcClient.Registration.Handler
import IrcClient.Registration.Machine
import IrcClient.Store.Basic
import IrcClient.Timestamp.Rfc3339

/-!
# Sessions

A session is everything that happens to one connection between reading a line and acting on it. It
takes one line at a time, keeps the store up to date and gives back what is to be done, in order. It
does no input or output itself; the time of day comes in with each line.
-/

namespace IrcClient

/-- The time at which a line is handled. -/
structure Clock where
  now : Timestamp
  /-- The local date and time in the format of mail headers. -/
  date : String
  deriving DecidableEq, Repr

/-- What is to be done for a session. -/
inductive Action where
  /-- Put a line into the queue. -/
  | send (line : String)
  /-- Write a line at once. -/
  | sendNow (line : String)
  /-- Encrypt the connection before the next line is read. -/
  | startTls
  /-- Tell the application. -/
  | emit (event : Event)
  /-- Give the connection up. -/
  | fail (error : ClientError)
  deriving DecidableEq

/-- The state of a session. -/
structure Session where
  store : Store
  registration : Registration Handler
  formatter : LineFormatter
  nick : String
  info : ServerInfo
  nickservPassword : Option String
  autoJoin : List (String × Option String)
  version : String
  finger : String
  /-- The lines of a message of the day that is being received. -/
  motd : List String
  /-- The entries of a channel list that is being received. -/
  channelList : List ListedChannel
  /-- The replies that are being received, by the lower form of the nick. -/
  whois : Table String WhoisReply
  /-- Whether the connection is gone. -/
  ended : Bool

namespace Session

/-- A session that has not begun, with the contents of a store. -/
def new (config : ClientConfig) (store : Store) : Session where
  store := store.withChannelPrefixes config.channelPrefixes
  registration := .new config.toRegistrationConfig (config.capabilities.map Handler.ofRequest)
  formatter := config.formatter
  nick := config.nickname
  info := {}
  nickservPassword := config.nickservPassword
  autoJoin := config.autoJoin
  version := config.version
  finger := config.finger
  motd := []
  channelList := []
  whois := .empty
  ended := false

def isRegistered (s : Session) : Bool := s.registration.phase == .welcomed

def enabledCaps (s : Session) : List String := s.registration.enabledCaps

/-- The lines of a command for the queue. -/
def format (s : Session) (command : Command) : List String := s.formatter.format command

/-- Puts a command into the queue. -/
def send (s : Session) (command : Command) : List Action := (s.format command).map .send

/-- Writes a command at once. -/
def sendNow (s : Session) (command : Command) : List Action := (s.format command).map .sendNow

def isOwnNick (s : Session) (nick : String) : Bool :=
  let mapping := s.store.directory.caseMapping
  mapping.same nick s.nick ||
    match s.store.selfUser? with
    | some user => mapping.same user.nick nick
    | none => false

def onStore (s : Session) (f : Store → Store) : Session := { s with store := f s.store }

/-- Reports a line that means nothing to the client. -/
def unknown (line : Line) : List Action := [.emit (.unknown line.raw)]

/-- What became of a line. -/
structure Handling where
  session : Session
  actions : List Action
  /-- The pair on which the store was found at odds with itself, if it was. -/
  fault : Option ConsistencyFault

namespace Handling

/-- A line that found the store in order. -/
def sound (outcome : Session × List Action) : Handling := ⟨outcome.1, outcome.2, none⟩

/-- The same after some actions that come first. -/
def after (first : List Action) (h : Handling) : Handling := { h with actions := first ++ h.actions }

/-- What is done in the end: a line that found a fault is reported as unknown. -/
def report (line : Line) (h : Handling) : Session × List Action :=
  match h.fault with
  | none => (h.session, h.actions)
  | some _ => (h.session, h.actions ++ unknown line)

end Handling

/-- The outcome of a line that changes the store by an operation that may find it at odds with
itself; then the store is left alone. -/
def attempt {α : Type} (s : Session) (result : Except ConsistencyFault α)
    (k : α → Session × List Action) : Handling :=
  match result with
  | .ok a => .sound (k a)
  | .error fault => ⟨s, [], some fault⟩

end Session

/-- The time that a line gives for itself, or the time of its handling. -/
def Clock.timeOf (clock : Clock) (line : Line) : Timestamp :=
  ((line.tag "time").bind Timestamp.ofRfc3339?).getD clock.now

namespace Store

/-- Records the login and the host that the source of a line shows. -/
def observe (s : Store) (source : Hostmask) : Store :=
  match s.userId? source.nick with
  | some id => s.modifyUser id fun user => user.absorb source
  | none => s

/-- What is known about the source of a line. -/
def sourceSnapshot (s : Store) (source : Hostmask) : UserSnapshot :=
  ((s.userId? source.nick).bind s.userSnapshot?).getD (.detached source)

end Store

end IrcClient
