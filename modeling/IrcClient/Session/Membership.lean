import IrcClient.Session.Basic

/-!
# Coming and going

The client follows the channels that it is on itself: a channel becomes known when the client joins
it and is forgotten when the client leaves. Of everybody else, the comings and goings on those
channels are followed. Events of leaving carry the store as it was before.
-/

namespace IrcClient.Session

/-- The channel of a join. The client's own join makes it known and asks for its members and its
mode. -/
def enterChannel (s : Session) (nick name : String) : Option (Session × ChannelId × List Action) :=
  if s.isOwnNick nick then
    let (store, channel) := s.store.trackChannel name
    some ({ s with store := store }, channel, s.send (.who name) ++ s.send (.mode name none))
  else (s.store.channelId? name).map fun channel => (s, channel, [])

/-- What a join says about the user besides its identity. -/
def joinDetails (line : Line) (user : User) : User :=
  match line.param 1, line.param 2 with
  | some account, some realName =>
    { user with realName := some realName, identified := account != "*" }
  | _, _ => user

def onJoin (s : Session) (source : Hostmask) (line : Line) : Session × List Action :=
  match (line.param 0).bind (s.enterChannel source.nick) with
  | none => (s, unknown line)
  | some (s, channel, asked) =>
    let (store, user) := s.store.trackUser source
    let store := (store.modifyUser user (joinDetails line)).addMember user channel
    let events := match store.channelSnapshot? channel, store.userSnapshot? user with
      | some channel, some user => [Action.emit (.joined channel user)]
      | _, _ => []
    ({ s with store := store }, asked ++ events)

/-- Takes a user off a channel. If it is the client itself, the channel is forgotten. -/
def takeOff (store : Store) (user : UserId) (channel : ChannelId) :
    Except ConsistencyFault Store :=
  if store.isSelf user then store.removeChannel channel else store.removeMember user channel

def onPart (s : Session) (source : Hostmask) (line : Line) : Handling :=
  match (line.param 0).bind s.store.channelId?, s.store.userId? source.nick with
  | some channel, some user =>
    let before := s.store.snapshot
    match before.channels.get? channel, before.users.get? user with
    | some channelThen, some userThen =>
      s.attempt (takeOff s.store user channel) fun store =>
        ({ s with store := store },
          [.emit (.parted before channelThen userThen ((line.param 1).getD ""))])
    | _, _ => .sound (s, unknown line)
  | _, _ => .sound (s, unknown line)

/-- Forgets a user who is gone. The client does not forget itself. -/
def dismiss (store : Store) (user : Option UserId) : Except ConsistencyFault Store :=
  match user with
  | some id => if store.isSelf id then .ok store else store.removeUser id
  | none => .ok store

def onQuit (s : Session) (source : Hostmask) (line : Line) : Handling :=
  let before := s.store.snapshot
  let id := s.store.userId? source.nick
  let user := (id.bind before.users.get?).getD (.detached source)
  s.attempt (dismiss s.store id) fun store =>
    ({ s with store := store }, [.emit (.quit before user ((line.param 0).getD ""))])

def onKick (s : Session) (source : Hostmask) (line : Line) : Handling :=
  match (line.param 0).bind s.store.channelId?, line.param 1 with
  | some channel, some nick =>
    let s := s.onStore fun store => store.observe source
    let user := s.store.sourceSnapshot source
    let before := s.store.snapshot
    match before.channels.get? channel with
    | none => .sound (s, unknown line)
    | some channelThen =>
      let id := s.store.userId? nick
      let recipient := (id.bind before.users.get?).getD (.detached (.ofNick nick))
      let result := match id with
        | some id => takeOff s.store id channel
        | none => .ok s.store
      s.attempt result fun store =>
        ({ s with store := store },
          [.emit (.kicked before channelThen user recipient ((line.param 2).getD ""))])
  | _, _ => .sound (s, unknown line)

/-- Somebody, perhaps the client itself, takes another nick. -/
def onNick (s : Session) (source : Hostmask) (line : Line) : Handling :=
  match line.param 0 with
  | none => .sound (s, unknown line)
  | some nick =>
    let id := s.store.userId? source.nick
    let result := match id with
      | some id => s.store.renameUser id nick
      | none => .ok s.store
    s.attempt result fun store =>
      let user := (id.bind store.userSnapshot?).getD (.detached (source.withNick nick))
      let own := store.directory.caseMapping.same source.nick s.nick
      ({ s with store := store, nick := if own then nick else s.nick },
        [.emit (.nickChanged source.nick nick user)])

/-- Somebody invites the client to a channel. An inviter who shares no channel with the client is
forgotten at once. -/
def onInvite (s : Session) (source : Hostmask) (line : Line) : Handling :=
  match line.param 1 with
  | none => .sound (s, unknown line)
  | some name =>
    let (store, id) := s.store.trackUser source
    let s := { s with store := store }
    let invited : Action :=
      .emit (.invited ((store.userSnapshot? id).getD (.detached source)) name)
    if !store.isSelf id && (store.channelsOf id).isEmpty then
      (s.attempt (store.removeUser id) fun store => ({ s with store := store }, [])).after [invited]
    else .sound (s, [invited])

def onAway (s : Session) (source : Hostmask) (line : Line) : Session :=
  s.onStore fun store =>
    let store := store.observe source
    match store.userId? source.nick with
    | some id =>
      store.modifyUser id fun user => { user with awayMessage := some ((line.param 0).getD "") }
    | none => store

end IrcClient.Session
