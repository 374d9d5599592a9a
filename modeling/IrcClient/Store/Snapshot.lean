import IrcClient.Store.Channel
import IrcClient.Store.Directory
import IrcClient.Store.Relation
import IrcClient.Store.User

/-!
# Snapshots of the whole store

What was known about all users and channels at one moment. A snapshot is asked by name, under the
case mapping and the status symbols of its moment.
-/

namespace IrcClient

/-- The contents of the store at one moment. -/
structure StoreSnapshot where
  directory : Directory
  users : Table UserId UserSnapshot
  channels : Table ChannelId ChannelSnapshot
  standing : Standing
  /-- The users known from private messages. -/
  contacts : List UserId
  selfId : Option UserId
  deriving DecidableEq

namespace StoreSnapshot

def user? (s : StoreSnapshot) (nick : String) : Option UserSnapshot :=
  (s.directory.userId? nick).bind s.users.get?

/-- The channel that a name stands for. -/
def channel? (s : StoreSnapshot) (name : String) : Option ChannelSnapshot :=
  (s.directory.channelId? name).bind s.channels.get?

def selfUser? (s : StoreSnapshot) : Option UserSnapshot := s.selfId.bind s.users.get?

/-- The user and the channel of two names. -/
def pair? (s : StoreSnapshot) (nick channel : String) : Option Pair :=
  match s.directory.userId? nick, s.directory.channelId? channel with
  | some user, some channel => some (user, channel)
  | _, _ => none

/-- The members of a channel, in the order of their ids. -/
def membersOf (s : StoreSnapshot) (channel : String) : List UserSnapshot :=
  match s.directory.channelId? channel with
  | some id => (s.standing.members.usersOf id).filterMap s.users.get?
  | none => []

/-- The channels of a user, in the order of their ids. -/
def channelsOf (s : StoreSnapshot) (nick : String) : List ChannelSnapshot :=
  match s.directory.userId? nick with
  | some id => (s.standing.members.channelsOf id).filterMap s.channels.get?
  | none => []

def isMember (s : StoreSnapshot) (nick channel : String) : Bool :=
  match s.pair? nick channel with
  | some (user, channel) => s.standing.members.contains user channel
  | none => false

/-- Whether a user holds a privilege on a channel. -/
def hasPrivilege (s : StoreSnapshot) (level : PrivilegeLevel) (nick channel : String) : Bool :=
  match s.pair? nick channel with
  | some (user, channel) => s.standing.holds level user channel
  | none => false

/-- The privileges of a user on a channel, lowest first. -/
def privilegesOf (s : StoreSnapshot) (nick channel : String) : List PrivilegeLevel :=
  PrivilegeLevel.all.filter fun level => s.hasPrivilege level nick channel

/-- The members of a channel with a privilege, in the order of their ids. -/
def holdersOf (s : StoreSnapshot) (level : PrivilegeLevel) (channel : String) :
    List UserSnapshot :=
  match s.directory.channelId? channel with
  | some id => ((s.standing.levels.get level).usersOf id).filterMap s.users.get?
  | none => []

/-- Whether a user is known from private messages. -/
def isContact (s : StoreSnapshot) (nick : String) : Bool :=
  match s.directory.userId? nick with
  | some id => s.contacts.contains id
  | none => false

end StoreSnapshot

end IrcClient
