import IrcClient.Ctcp
import IrcClient.Session.Basic

/-!
# Messages and notices

What is said on a known channel belongs to the channel; whoever says something to the client alone
becomes a contact, unless it is a server. Some requests of other clients are answered by a notice,
but never a request that comes in a notice itself.
-/

namespace IrcClient.Session

/-- The answer to a request of another client, if there is one. -/
def ctcpAnswer (s : Session) (clock : Clock) (nick : String) : Ctcp → List Action
  | .version _ => s.send (.ctcpReply nick "VERSION" (some s.version))
  | .ping value => s.send (.ctcpReply nick "PING" (if value = "" then none else some value))
  | .time _ => s.send (.ctcpReply nick "TIME" (some clock.date))
  | .finger _ => s.send (.ctcpReply nick "FINGER" (some s.finger))
  | _ => []

/-- The event of a request of another client. -/
def ctcpEvent (channel : Option ChannelSnapshot) (user : UserSnapshot) : Ctcp → Event
  | .version _ => .versionRequest channel user
  | .action text => .action channel user text
  | .ping value => .pingRequest channel user value
  | .time _ => .timeRequest channel user
  | .finger _ => .fingerRequest channel user
  | .dcc request => .dccRequest user request
  | .other verb args => .ctcpRequest channel user verb args

def textEvent (isNotice : Bool) (channel : Option ChannelSnapshot) (user : UserSnapshot)
    (text : String) : Event :=
  if isNotice then .notice channel user text
  else match channel with
    | some channel => .message channel user text
    | none => .privateMessage user text

/-- The known channel that something was said on. -/
def channelOf? (s : Session) (target : String) : Option ChannelId :=
  if s.store.isChannelName target then s.store.channelId? target else none

/-- Makes a note of somebody who said something to the client alone. -/
def meet (s : Session) (source : Hostmask) : Session × UserSnapshot :=
  if source.isServer then (s, .detached source)
  else
    let (store, id) := s.store.trackUser source
    let store := store.addContact id
    ({ s with store := store }, (store.userSnapshot? id).getD (.detached source))

/-- Makes a note of the speaker. -/
def noteSpeaker (s : Session) (channel : Option ChannelId) (source : Hostmask) :
    Session × UserSnapshot :=
  match channel with
  | some _ =>
    let s := s.onStore fun store => store.observe source
    (s, s.store.sourceSnapshot source)
  | none => s.meet source

def onMessage (s : Session) (clock : Clock) (isNotice : Bool) (source : Hostmask) (line : Line) :
    Session × List Action :=
  match line.param 0, line.param 1 with
  | some target, some text =>
    let channel := s.channelOf? target
    let (s, user) := s.noteSpeaker channel source
    let channel := channel.bind s.store.channelSnapshot?
    match Ctcp.parse? text with
    | some payload =>
      if isNotice then (s, [.emit (.ctcpReply user payload.verb payload.args)])
      else
        (s, s.ctcpAnswer clock source.nick payload ++ [.emit (ctcpEvent channel user payload)])
    | none => (s, [.emit (textEvent isNotice channel user text)])
  | _, _ => (s, unknown line)

end IrcClient.Session
