import IrcClient.Connection.Run

/-!
# Using a connection

What the application can do with a connection, and what the server at its other end can.
-/

namespace IrcClient.Connection

/-- A connection at its start: the session has begun, and nothing else has happened. -/
def opened (config : ClientConfig) (clock : Clock) (handshake : Except String Unit)
    (codec : LineCodec) : Connection :=
  let (session, actions) := (Session.new config .initial).start
  { now := 0
    timers := 0
    session := session
    clock := clock
    host := config.host
    socketTimeout := config.socketTimeout
    messageDelay := config.messageDelay
    handshake := handshake
    serverOpen := true
    source := .initial codec
    reader := .performing actions
    writer := .idle
    lock := .free
    writable := true
    queue := []
    taken := 0
    stopping := false
    failure := none
    calls := []
    wire := []
    events := []
    modes := [] }

/-- Opens a connection. -/
def openWith (config : ClientConfig) (clock : Clock) (handshake : Except String Unit) :
    Except ClientError Connection :=
  match LineCodec.ofLabel config.encoding with
  | .error error => .error error
  | .ok codec => .ok (opened config clock handshake codec).settle

/-! ## The application -/

/-- Whether the connection has not been told to stop. -/
def isConnected (c : Connection) : Bool := !c.stopping

/-- The client's own nick, once it is registered. -/
def nick? (c : Connection) : Option String := c.session.store.selfUser?.map fun user => user.nick

def snapshot (c : Connection) : StoreSnapshot := c.session.store.snapshot

/-- Puts a command into the queue. -/
def send (c : Connection) (command : Command) : Except ClientError Connection :=
  if c.stopping then .error .disconnected
  else .ok ((c.session.format command).foldl enqueue c)

/-- Writes lines at once, up to the first that fails. -/
def writeLines (c : Connection) : List String → Connection × Except ClientError Unit
  | [] => (c, .ok ())
  | line :: lines =>
    match c.write (.urgent line) with
    | .ok c => writeLines c lines
    | .error error => (c, .error error)

/-- Writes a command at once. -/
def sendNow (c : Connection) (command : Command) : Connection × Except ClientError Unit :=
  c.writeLines (c.session.format command)

def shutdown (c : Connection) : Connection := { c with stopping := true }

/-- Asks for the mode of a channel. If it is not known, the server is asked, and the answer comes
later. -/
def askMode (c : Connection) (name : String) : Connection :=
  match c.session.store.modeQuery name with
  | none => c.answer name (.error (.noSuchChannel name))
  | some (.known mode) => c.answer name (.ok mode)
  | some (.stale waiter) =>
    match c.send (.mode name none) with
    | .ok c => { c with calls := c.calls ++ [⟨name, waiter, false⟩] }
    | .error error => c.answer name (.error error)

/-! ## The server -/

/-- Why the server cannot send anything. -/
inductive SendFault where
  /-- The server has closed its end. -/
  | closed
  /-- The client has closed its end. -/
  | broken
  deriving DecidableEq, Repr

/-- The server sends bytes. To send none needs nobody to take them. -/
def receive (c : Connection) (bytes : List UInt8) : Except SendFault Connection :=
  if !c.serverOpen then .error .closed
  else if c.reader matches .stopped && !bytes.isEmpty then .error .broken
  else .ok { c with source := c.source.receive bytes }

def hangUp (c : Connection) : Connection := { c with serverOpen := false }

end IrcClient.Connection
