import IrcClient.Line.Parser
import IrcClient.Session.Channel
import IrcClient.Session.Membership
import IrcClient.Session.Message
import IrcClient.Session.Numeric

/-!
# Handling lines

The way of a line through a session. Pings are answered first of all. Until the welcome, a line goes
through the registration, which may fail; the welcome itself connects the session. Then the line is
handled by what it is about.
-/

namespace IrcClient.Session

/-- Handles a line by what it is about. Commands of users need a source. -/
def dispatch (s : Session) (clock : Clock) (line : Line) : Handling :=
  match line.verb with
  | .numeric code => .sound (s.onNumeric code line)
  | .error => .sound (s, [.emit (.serverError (line.lastParam.getD ""))])
  | .pong | .cap | .authenticate => .sound (s, [])
  | verb =>
    match line.source with
    | none => .sound (s, unknown line)
    | some source =>
      match verb with
      | .privmsg => .sound (s.onMessage clock false source line)
      | .notice => .sound (s.onMessage clock true source line)
      | .join => .sound (s.onJoin source line)
      | .part => s.onPart source line
      | .quit => s.onQuit source line
      | .kick => s.onKick source line
      | .nick => s.onNick source line
      | .mode => s.onMode source line
      | .topic => .sound (s.onTopic clock source line)
      | .invite => s.onInvite source line
      | .away => .sound (s.onAway source line, [])
      | _ => .sound (s, unknown line)

/-- What a request of the registration means for the connection. Completion is dealt with by the
session itself. -/
def perform (s : Session) : RegistrationAction → List Action
  | .send command => s.sendNow command
  | .upgradeTls => [.startTls]
  | .nickTaken used next => [.emit (.nickTaken used next)]
  | .complete _ => []
  | .fail error => [.fail (.registration error)]

/-- The nick of a completed registration. -/
def completedAs? : RegistrationAction → Option String
  | .complete nick => some nick
  | _ => none

/-- The session is connected under a nick: the client's own user becomes known, and what the
configuration asks for is sent. -/
def connect (s : Session) (nick : String) : Session × List Action :=
  let (store, id) := s.store.trackUser (.ofNick nick)
  let s := { s with store := store.withSelf id, nick := nick }
  let identify := s.nickservPassword.toList.flatMap fun secret =>
    s.send (.privmsg "NickServ" ("IDENTIFY " ++ secret))
  let joins := s.autoJoin.flatMap fun channel => s.send (.join channel.1 channel.2)
  (s, identify ++ joins ++ [.emit .connected])

def start (s : Session) : Session × List Action :=
  let (registration, requests) := s.registration.start
  ({ s with registration := registration }, requests.flatMap s.perform)

/-- Shows a line to a registration that waits for its welcome. The flag says whether it failed. -/
def register (s : Session) (line : Line) : Session × List Action × Bool :=
  if s.registration.phase = .waiting then
    let (registration, requests) := s.registration.feed line
    let s := { s with registration := registration }
    let actions := requests.flatMap s.perform
    if requests.any RegistrationAction.isFail then (s, actions, true)
    else match requests.findSome? completedAs? with
      | some nick =>
        let (s, connected) := s.connect nick
        (s, actions ++ connected, false)
      | none => (s, actions, false)
  else (s, [], false)

def handle (s : Session) (clock : Clock) (line : Line) : Handling :=
  if line.verb = .ping then
    let token := line.lastParam.getD ""
    .sound (s, s.sendNow (.pong token) ++ [.emit (.serverPing token)])
  else
    let (s, first, failed) := s.register line
    if failed then .sound (s, first) else (s.dispatch clock line).after first

/-- Handles one line. A blank one means nothing. -/
def handleLine (s : Session) (clock : Clock) (raw : String) : Session × List Action :=
  match Line.parse raw with
  | .ok line => (s.handle clock line).report line
  | .error .empty => (s, [])
  | .error (.noCommand _) => (s, [.emit (.unknown raw)])

/-- Ends the session, and tells of it the first time. The store is emptied. -/
def disconnect (s : Session) (error : Option String) : Session × Option Event :=
  if s.ended then (s, none)
  else
    ({ s with ended := true, store := s.store.clear, whois := .empty },
      some (.disconnected error))

end IrcClient.Session
