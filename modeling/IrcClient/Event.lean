import IrcClient.ServerInfo
import IrcClient.Store.Snapshot

/-!
# Events

What a session tells its application. An event shows users and channels as they were when it
happened. Events of removals also show the whole store as it was just before.
-/

namespace IrcClient

/-- One channel in a list of all channels. -/
structure ListedChannel where
  name : String
  users : Nat
  topic : String
  deriving DecidableEq, Repr

/-- Everything the server said about one nick. -/
structure WhoisReply where
  nick : String
  login : Option String := none
  host : Option String := none
  realName : Option String := none
  /-- The names of the channels, without status symbols. -/
  channels : List String := []
  server : Option String := none
  serverInfo : Option String := none
  idleSeconds : Option Nat := none
  signOn : Option Timestamp := none
  /-- The account that the user is logged in to. -/
  account : Option String := none
  /-- Whether the nick is a registered one. -/
  registered : Bool := false
  awayMessage : Option String := none
  /-- Whether there is such a user at all. -/
  found : Bool := false
  deriving DecidableEq, Repr

/-- What happened in a session. A channel is absent where something was said to the client alone. -/
inductive Event where
  | connected
  /-- The connection is gone, for a reason if it did not end in order. -/
  | disconnected (error : Option String)
  | serverPing (token : String)
  | serverError (message : String)
  /-- A numeric reply. It comes after the events of its contents. -/
  | serverResponse (code : Nat) (params : List String) (raw : String)
  /-- A nick is taken, and which one is tried next. -/
  | nickTaken (used : String) (next : Option String)
  /-- A line that means nothing to the client, or that does not fit what it knows. -/
  | unknown (raw : String)
  | message (channel : ChannelSnapshot) (user : UserSnapshot) (text : String)
  | privateMessage (user : UserSnapshot) (text : String)
  | notice (channel : Option ChannelSnapshot) (user : UserSnapshot) (text : String)
  | action (channel : Option ChannelSnapshot) (user : UserSnapshot) (text : String)
  | versionRequest (channel : Option ChannelSnapshot) (user : UserSnapshot)
  | pingRequest (channel : Option ChannelSnapshot) (user : UserSnapshot) (value : String)
  | timeRequest (channel : Option ChannelSnapshot) (user : UserSnapshot)
  | fingerRequest (channel : Option ChannelSnapshot) (user : UserSnapshot)
  | dccRequest (user : UserSnapshot) (request : String)
  | ctcpRequest (channel : Option ChannelSnapshot) (user : UserSnapshot) (verb args : String)
  | ctcpReply (user : UserSnapshot) (verb args : String)
  | joined (channel : ChannelSnapshot) (user : UserSnapshot)
  | parted (before : StoreSnapshot) (channel : ChannelSnapshot) (user : UserSnapshot)
      (reason : String)
  | quit (before : StoreSnapshot) (user : UserSnapshot) (reason : String)
  | kicked (before : StoreSnapshot) (channel : ChannelSnapshot) (user recipient : UserSnapshot)
      (reason : String)
  | nickChanged (oldNick newNick : String) (user : UserSnapshot)
  /-- A topic, changed just now or told on joining. -/
  | topic (channel : ChannelSnapshot) (oldTopic : Option String) (text : String)
      (setter : Hostmask) (time : Timestamp) (changed : Bool)
  | invited (user : UserSnapshot) (channel : String)
  /-- A change of channel modes. It comes after the events of its letters. -/
  | modeChanged (channel : ChannelSnapshot) (user : UserSnapshot) (mode : String)
  | userModeChanged (target : String) (user : UserSnapshot) (mode : String)
  /-- The server told the mode of a channel. -/
  | channelMode (channel : ChannelSnapshot) (mode : String)
  | channelCreated (channel : ChannelSnapshot) (time : Timestamp)
  | privilegeChanged (channel : ChannelSnapshot) (user recipient : UserSnapshot)
      (level : PrivilegeLevel) (granted : Bool)
  | keySet (channel : ChannelSnapshot) (user : UserSnapshot) (key : String)
  | keyRemoved (channel : ChannelSnapshot) (user : UserSnapshot) (key : Option String)
  | limitSet (channel : ChannelSnapshot) (user : UserSnapshot) (limit : Nat)
  | limitRemoved (channel : ChannelSnapshot) (user : UserSnapshot)
  | banChanged (channel : ChannelSnapshot) (user : UserSnapshot) (mask : Hostmask) (added : Bool)
  | flagChanged (channel : ChannelSnapshot) (user : UserSnapshot) (flag : ChannelFlag)
      (added : Bool)
  /-- The members of a channel, of whom more than the nick is known if the list is complete. -/
  | userList (channel : ChannelSnapshot) (users : List UserSnapshot) (complete : Bool)
  | motd (text : String)
  | channelList (channels : List ListedChannel)
  | serverInfo (info : ServerInfo)
  | whois (reply : WhoisReply)
  deriving DecidableEq

end IrcClient
