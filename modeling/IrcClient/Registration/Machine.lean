import IrcClient.Config
import IrcClient.Registration.Capability
import IrcClient.Text.Blank

/-!
# Registration

What happens between opening the connection and the server's welcome: the client names itself,
negotiates capabilities through its handlers, and tries other nicks where it may. Negotiation ends
once all handlers are done, and the server holds its welcome back until then.

The machine does nothing itself. It takes lines and gives back what is to be done.
-/

namespace IrcClient

/-- How far a connection has come. -/
inductive RegistrationPhase where
  | notStarted
  /-- The client has named itself and waits for the welcome. -/
  | waiting
  | welcomed
  deriving DecidableEq, Repr

/-- What registration asks for. -/
inductive RegistrationAction where
  /-- Send a command at once. -/
  | send (command : Command)
  /-- Encrypt the connection before anything else is read. -/
  | upgradeTls
  /-- Report that a nick is taken, and which one is tried next. -/
  | nickTaken (used : String) (next : Option String)
  /-- The server has welcomed the client under a nick. -/
  | complete (nick : String)
  | fail (error : RegistrationError)
  deriving DecidableEq, Repr

/-- Whether an action ends the registration in failure. -/
def RegistrationAction.isFail : RegistrationAction → Bool
  | .fail _ => true
  | _ => false

/-- A handler, and whether it is done. -/
structure Seat (H : Type) where
  handler : H
  finished : Bool
  deriving Repr

/-- The state of a registration. -/
structure Registration (H : Type) where
  config : RegistrationConfig
  phase : RegistrationPhase
  /-- The nick being registered, or registered. -/
  nick : String
  /-- The number behind the nick that was tried last. -/
  nickSuffix : Nat
  seats : List (Seat H)
  /-- The capabilities that the server has accepted, in order. -/
  enabledCaps : List String
  /-- What the server has offered so far in a list that goes on. -/
  offered : List String
  capEndSent : Bool
  deriving Repr

/-- What a line means to a client that waits for its welcome. -/
inductive Cue where
  | welcome
  | nickTaken
  /-- A complaint that does not stand in the way. -/
  | harmless
  | rejected (code : Nat)
  | tlsReady
  | cap
  | other
  deriving DecidableEq, Repr

namespace Cue

/-- Whether a numeric proves that the server accepted the client. -/
def isWelcome (code : Nat) : Bool :=
  (1 ≤ code && code ≤ 5) || (251 ≤ code && code ≤ 255) || code == 375 || code == 376

/-- Whether a numeric only says that the server does not know about capabilities. -/
def isCapRefusal (code : Nat) (params : List String) : Bool :=
  (code == 421 && params[1]? == some "CAP") || (code == 451 && (params.take 2).contains "CAP")

def ofLine (config : RegistrationConfig) (line : Line) : Cue :=
  match line.verb with
  | .numeric code =>
    if isWelcome code then welcome
    else if code = 433 then nickTaken
    else if code = 439 then harmless
    else if config.capEnabled && isCapRefusal code line.params then harmless
    else if 400 ≤ code ∧ code < 600 then rejected code
    else if code = 670 then tlsReady
    else other
  | .cap => cap
  | _ => other

end Cue

namespace Registration

variable {H : Type}

def new (config : RegistrationConfig) (handlers : List H) : Registration H where
  config := config
  phase := .notStarted
  nick := config.nickname
  nickSuffix := 0
  seats := handlers.map fun handler => ⟨handler, false⟩
  enabledCaps := []
  offered := []
  capEndSent := false

/-- The commands that open a registration, in order. -/
def opening (r : Registration H) : List Command :=
  (if r.config.capEnabled then [.capList] else []) ++
    (r.config.webIrc.toList.map fun w => .webIrc w.password w.gateway w.host w.ip) ++
    (r.config.password.toList.map .pass) ++
    [.nick r.nick, .user r.config.username r.config.realname]

def start (r : Registration H) : Registration H × List RegistrationAction :=
  ({ r with phase := .waiting }, r.opening.map .send)

/-- Takes the welcome. The first parameter is the nick that the server knows the client by. -/
def welcome (r : Registration H) (line : Line) : Registration H × List RegistrationAction :=
  let nick := (line.param 0).getD r.nick
  ({ r with nick := nick, phase := .welcomed }, [.complete nick])

/-- Tries the next nick, or gives up. -/
def retryNick (r : Registration H) (line : Line) : Registration H × List RegistrationAction :=
  let used := (line.param 1).getD r.nick
  if r.config.autoNickChange then
    let next := r.config.nickname ++ toString (r.nickSuffix + 1)
    ({ r with nickSuffix := r.nickSuffix + 1, nick := next },
      [.send (.nick next), .nickTaken used (some next)])
  else (r, [.nickTaken used none, .fail (.nicknameInUse used)])

variable [CapHandler H]

/-- Shows a prompt to every handler that is not done, in order, up to the first that gives up. -/
def consult (enabled : List String) (prompt : Prompt) :
    List (Seat H) → List (Seat H) × List RegistrationAction
  | [] => ([], [])
  | seat :: seats =>
    if seat.finished then
      let rest := consult enabled prompt seats
      (seat :: rest.1, rest.2)
    else
      let turn := CapHandler.step seat.handler enabled prompt
      let sent := turn.outgoing.map RegistrationAction.send
      match turn.outcome with
      | .error error => (⟨turn.handler, false⟩ :: seats, sent ++ [.fail error])
      | .ok finished =>
        let rest := consult enabled prompt seats
        (⟨turn.handler, finished⟩ :: rest.1, sent ++ rest.2)

def offer (r : Registration H) (prompt : Prompt) : Registration H × List RegistrationAction :=
  let shown := consult r.enabledCaps prompt r.seats
  ({ r with seats := shown.1 }, shown.2)

/-- The capabilities in a negotiation line, and whether the list goes on in the next one. -/
def capList (line : Line) : List String × Bool :=
  let (list, more) := match line.param 2, line.param 3 with
    | some "*", some list => (list, true)
    | some list, _ => (list, false)
    | none, _ => ("", false)
  ((Text.words list.toList).map String.ofList, more)

/-- Takes a line of the negotiation. -/
def negotiate (r : Registration H) (line : Line) : Registration H × List RegistrationAction :=
  let verb := Text.upper ((line.param 1).getD "")
  let (caps, more) := capList line
  if verb = "LS" then
    let offered := r.offered ++ caps
    if more then ({ r with offered := offered }, [])
    else ({ r with offered := [] }).offer (.offered offered)
  else if verb = "ACK" then
    let fresh := if r.capEndSent then [] else caps.filter fun cap => cap.toList.head? ≠ some '-'
    ({ r with enabledCaps := r.enabledCaps ++ fresh }).offer (.accepted caps)
  else if verb = "NAK" then r.offer (.refused caps)
  else r.offer (.other line)

/-- Ends the negotiation if nothing keeps it open. -/
def endNegotiation (result : Registration H × List RegistrationAction) :
    Registration H × List RegistrationAction :=
  let (r, actions) := result
  if actions.any RegistrationAction.isFail || r.capEndSent || !r.config.capEnabled ||
      r.seats.any fun seat => !seat.finished then (r, actions)
  else ({ r with capEndSent := true }, actions ++ [.send .capEnd])

/-- Takes one line. Lines before the start and after the welcome mean nothing here. -/
def feed (r : Registration H) (line : Line) : Registration H × List RegistrationAction :=
  if r.phase ≠ .waiting then (r, [])
  else match Cue.ofLine r.config line with
    | .welcome => r.welcome line
    | .nickTaken => r.retryNick line
    | .rejected code => (r, [.fail (.rejected code line.raw)])
    | .harmless => endNegotiation (r, [])
    | .tlsReady =>
      let (r, actions) := r.offer (.other line)
      endNegotiation (r, .upgradeTls :: actions)
    | .cap => endNegotiation (r.negotiate line)
    | .other => endNegotiation (r.offer (.other line))

end Registration

end IrcClient
