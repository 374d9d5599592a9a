import IrcClient.Connection.WriteLock
import IrcClient.Session.Handle
import IrcClient.Store.ModeQuery
import IrcClient.Transport.LineSource
import IrcClient.Transport.ServerName

/-!
# Connections

A connection runs a session over a stream of bytes. Two workers share it. The reader takes lines off
the stream, gives them to the session and carries out what the session asks for; when the server is
silent for too long it sends a ping. The writer takes lines off a queue, one at a time, with a pause
after each. Lines that may not wait bypass the queue.

Time is a number of milliseconds that the connection is told of. What leaves the connection is
recorded with its time: the lines on the wire, the events for the application, and the answers to
those who asked for the mode of a channel. The queue is a record too, of which the writer has taken
a part.
-/

namespace IrcClient

/-- A point in time that a worker waits for. Of two timers that end together, the one with the lower
rank was started first. -/
structure Timer where
  due : Nat
  rank : Nat
  deriving DecidableEq, Repr

/-- What the reader is doing. -/
inductive ReaderPhase where
  /-- It waits for a line, and for the end of the time for which the server may be silent, once it
  has started to wait. -/
  | reading (silence : Option Timer)
  /-- It carries out what the session asks for. -/
  | performing (actions : List Action)
  /-- It has the right to write, and a line that may not wait. Other requests come after it. -/
  | writing (line : String) (actions : List Action)
  /-- It gives up, perhaps because of an error, and looks whether the writer met one. -/
  | leaving (error : Option String)
  /-- It knows what to report, and tells both workers to stop. -/
  | halting (error : Option String)
  /-- It ends the stream. -/
  | closing (error : Option String)
  /-- It ends the session. -/
  | ending (error : Option String)
  /-- The session is over, and this is left to tell. -/
  | parting (event : Option Event)
  | stopped

/-- What the writer is doing. -/
inductive WriterPhase where
  /-- It waits for a line. -/
  | idle
  /-- It has taken a line, and waits for the right to write it. -/
  | locking (line : String)
  /-- It has a line and the right to write it. -/
  | writing (line : String)
  /-- It pauses after a line. -/
  | pausing (timer : Timer)
  /-- It could not write a line, and records the error. -/
  | failing (error : String)
  /-- It has recorded an error, and tells both workers to stop. -/
  | halting
  /-- It takes no more lines, and gives up the queue. -/
  | leaving
  | stopped
  deriving DecidableEq, Repr

/-- What the client does to the stream. -/
inductive WireEntry where
  /-- The writer writes a line of the queue. -/
  | paced (line : String)
  /-- A line is written that may not wait. -/
  | urgent (line : String)
  /-- The client ends the stream. -/
  | closed
  deriving DecidableEq, Repr

namespace WireEntry

/-- What the server takes it for: the lines in what is written, or the end of the stream. -/
def received : WireEntry → List (Option String)
  | paced line | urgent line => (LineCodec.cutLines line.toList).map (some ∘ String.ofList)
  | closed => [none]

/-- The line, if it is one of the queue. -/
def paced? : WireEntry → Option String
  | paced line => some line
  | urgent _ | closed => none

end WireEntry

/-- Somebody who asked for the mode of a channel, under a name, and waits for it. -/
structure ModeCall where
  asked : String
  waiter : ModeWaiter
  /-- Whether the waiter has something to look at. A mode that was published wakes it, even one that
  is withdrawn before the waiter gets to look. -/
  woken : Bool
  deriving DecidableEq, Repr

/-- Lets the waiter know what has become of its channel. -/
def ModeCall.refresh (store : Store) (call : ModeCall) : ModeCall :=
  let waiter := call.waiter.refresh store
  { call with waiter := waiter, woken := call.woken || waiter.answer?.isSome }

/-- A running connection. -/
structure Connection where
  now : Nat
  /-- The number of timers started so far. -/
  timers : Nat
  session : Session
  /-- The time of day as the session sees it. -/
  clock : Clock
  host : String
  socketTimeout : Nat
  messageDelay : Nat
  /-- How the server answers an attempt to encrypt the connection. -/
  handshake : Except String Unit
  /-- Whether the server still holds its end of the stream. -/
  serverOpen : Bool
  /-- Where the lines of the server come from. -/
  source : LineSource
  reader : ReaderPhase
  writer : WriterPhase
  lock : WriteLock
  writable : Bool
  /-- All lines that were put into the queue. -/
  queue : List String
  /-- How many of them the writer has taken. -/
  taken : Nat
  /-- Whether both workers are told to stop. -/
  stopping : Bool
  /-- The first error that the writer met. -/
  failure : Option String
  calls : List ModeCall
  /-- What was written. The last entry is the end of the stream, if it was the client that ended
  it. -/
  wire : List (Nat × WireEntry)
  /-- The events told. The last entry says that there will be no more. -/
  events : List (Nat × Option Event)
  /-- The modes answered, by the name asked for. -/
  modes : List (Nat × String × Except ClientError String)

namespace Connection

def startTimer (c : Connection) (delay : Nat) : Connection × Timer :=
  ({ c with timers := c.timers + 1 }, ⟨c.now + delay, c.timers⟩)

/-- Starts the time for which the server may be silent, unless that was done. -/
def startSilence (c : Connection) : Connection :=
  match c.reader with
  | .reading none =>
    let (c, timer) := c.startTimer c.socketTimeout
    { c with reader := .reading (some timer) }
  | _ => c

/-- Goes on with a session, and lets those who wait for a mode know of its store. Those who are
woken come first, in the order in which they were. -/
def withSession (c : Connection) (session : Session) : Connection :=
  let calls := c.calls.map (ModeCall.refresh session.store)
  let (woken, waiting) := calls.partition ModeCall.woken
  { c with session := session, calls := woken ++ waiting }

def write (c : Connection) (entry : WireEntry) : Except ClientError Connection :=
  if !c.writable then .error .disconnected
  else if !c.serverOpen then .error (.io "broken pipe")
  else .ok { c with wire := c.wire ++ [(c.now, entry)] }

/-- Ends the stream, unless that was done. -/
def shut (c : Connection) : Connection :=
  { c with
    writable := false
    wire := if c.writable && c.serverOpen then c.wire ++ [(c.now, .closed)] else c.wire }

/-- The lines of the queue that the writer has not taken. -/
def pending (c : Connection) : List String := c.queue.drop c.taken

def enqueue (c : Connection) (line : String) : Connection :=
  { c with queue := c.queue ++ [line] }

def tell (c : Connection) (event : Event) : Connection :=
  { c with events := c.events ++ [(c.now, some event)] }

def answer (c : Connection) (asked : String) (result : Except ClientError String) : Connection :=
  { c with modes := c.modes ++ [(c.now, asked, result)] }

/-- Encrypts the connection. What was read ahead is read again from the encrypted stream. -/
def startTls (c : Connection) : Except ClientError Connection :=
  if !c.writable then .error .disconnected
  else if !ServerName.isValid c.host then
    .error (.tls s!"invalid server name {c.host}: invalid dns name")
  else match c.handshake with
    | .error reason => .error (.tls s!"handshake with {c.host} failed: {reason}")
    | .ok _ => .ok { c with source := c.source.restart }

end Connection

/-- What comes of a step of a worker. Steps that touch the stream, the queue or the right to write
count, and a turn has a limited number of them. -/
inductive Step where
  /-- It goes on, with so many such steps left in its turn. -/
  | again (left : Nat) (c : Connection)
  /-- It stops, because its turn is over, or else because it has to wait. -/
  | stop (spent : Bool) (c : Connection)

namespace Connection

/-- The number of steps that count in a turn. -/
def turnLength : Nat := 128

/-- Goes on with the right to write, if the worker gets it. To ask for it counts. -/
def withLock (c : Connection) (worker : Worker) (left : Nat) (go : Connection → Connection) :
    Step :=
  match left with
  | 0 => .stop true c
  | left + 1 =>
    match c.lock.acquire? worker with
    | some lock => .again left (go { c with lock := lock })
    | none => .stop false { c with lock := c.lock.await worker }

/-- Gives the right to write back. -/
def unlock (c : Connection) : Connection := { c with lock := c.lock.release }

end Connection

end IrcClient
