import IrcClient.Store.Snapshot

/-!
# The store

All users and channels that the client knows, who is on which channel, and who holds which privilege
there. A user stays known as long as it is on a channel, is a contact from private messages, or is
the client itself; whoever is none of these any more is forgotten.

Operations that take relations apart fail on a pair that is known in one direction only. No
operation of this module makes such a pair.
-/

namespace IrcClient

/-- The users and channels that the client knows. -/
structure Store where
  directory : Directory
  /-- The characters that channel names begin with. -/
  channelPrefixes : String
  /-- The number of the next id. -/
  nextId : Nat
  users : Table UserId User
  channels : Table ChannelId Channel
  standing : Standing
  /-- The users known from private messages. -/
  contacts : List UserId
  selfId : Option UserId
  deriving DecidableEq

namespace Store

def initial : Store where
  directory := .initial
  channelPrefixes := "#&"
  nextId := 1
  users := .empty
  channels := .empty
  standing := .empty
  contacts := []
  selfId := none

/-! ## Looking up -/

/-- The id of the user with a nick. -/
def userId? (s : Store) (nick : String) : Option UserId := s.directory.userId? nick

def user? (s : Store) (nick : String) : Option User := (s.userId? nick).bind s.users.get?

/-- The id of the channel that a name stands for. -/
def channelId? (s : Store) (name : String) : Option ChannelId := s.directory.channelId? name

/-- The channel that a name stands for. -/
def channel? (s : Store) (name : String) : Option Channel :=
  (s.channelId? name).bind s.channels.get?

def isChannelName (s : Store) (name : String) : Bool :=
  IrcClient.isChannelName s.channelPrefixes s.directory.statusSymbols name.toList

def selfUser? (s : Store) : Option User := s.selfId.bind s.users.get?

def isSelf (s : Store) (id : UserId) : Bool := s.selfId == some id

def isMember (s : Store) (user : UserId) (channel : ChannelId) : Bool :=
  s.standing.members.contains user channel

/-- The members of a channel, in the order of their ids. -/
def membersOf (s : Store) (channel : ChannelId) : List User :=
  (s.standing.members.usersOf channel).filterMap s.users.get?

/-- The channels of a user, in the order of their ids. -/
def channelsOf (s : Store) (user : UserId) : List Channel :=
  (s.standing.members.channelsOf user).filterMap s.channels.get?

/-- The members of a channel with a privilege, in the order of their ids. -/
def holdersOf (s : Store) (level : PrivilegeLevel) (channel : ChannelId) : List User :=
  ((s.standing.levels.get level).usersOf channel).filterMap s.users.get?

def userSnapshot? (s : Store) (id : UserId) : Option UserSnapshot :=
  (s.users.get? id).map User.snapshot

def channelSnapshot? (s : Store) (id : ChannelId) : Option ChannelSnapshot :=
  (s.channels.get? id).map Channel.snapshot

def snapshot (s : Store) : StoreSnapshot where
  directory := s.directory
  users := s.users.map User.snapshot
  channels := s.channels.map Channel.snapshot
  standing := s.standing
  contacts := s.contacts
  selfId := s.selfId

/-- The report of a pair on which the relations are at odds. Whoever has no name is given by id. -/
def report (s : Store) (d : Disagreement) : ConsistencyFault where
  relation := d.relation
  user := ((s.users.get? d.pair.1).map fun user => user.nick).getD d.pair.1.text
  channel := ((s.channels.get? d.pair.2).map fun channel => channel.name).getD d.pair.2.text

/-- Checks that the relations agree, and that privileges are held by members only. -/
def verify (s : Store) : Except ConsistencyFault Unit :=
  match s.standing.fault? with
  | some d => .error (s.report d)
  | none => .ok ()

/-! ## Settings -/

/-- Changes the case mapping, and enters all users and channels anew. -/
def withCaseMapping (s : Store) (mapping : CaseMapping) : Store :=
  if s.directory.caseMapping = mapping then s
  else
    { s with
      directory := s.directory.rebuilt mapping
        (s.users.values.map fun user => (user.nick, user.id))
        (s.channels.values.map fun channel => (channel.name, channel.id)) }

/-- Changes the characters that channel names begin with. -/
def withChannelPrefixes (s : Store) (prefixes : String) : Store :=
  { s with channelPrefixes := prefixes }

/-- Changes the symbols that may stand before channel names. -/
def withStatusSymbols (s : Store) (symbols : String) : Store :=
  { s with directory := { s.directory with statusSymbols := symbols } }

/-! ## Users -/

def modifyUser (s : Store) (id : UserId) (f : User → User) : Store :=
  { s with users := s.users.modify id f }

/-- The user with the nick of an identity, who becomes known if there is none. What the identity
shows of login and host is recorded. -/
def trackUser (s : Store) (seen : Hostmask) : Store × UserId :=
  match s.userId? seen.nick with
  | some id => (s.modifyUser id fun user => user.absorb seen, id)
  | none =>
    let id : UserId := ⟨s.nextId⟩
    ({ s with
        nextId := s.nextId + 1
        directory := s.directory.enterNick seen.nick id
        users := s.users.insert id (.new id seen) }, id)

/-- Forgets a user. The relations are not touched. -/
def forgetUser (s : Store) (id : UserId) : Store :=
  match s.users.get? id with
  | some user =>
    { s with
      directory := s.directory.strikeNick user.nick id
      users := s.users.erase id }
  | none => s

/-- Whether there is a reason to know a user. -/
def isNeeded (s : Store) (id : UserId) : Bool :=
  s.isSelf id || s.standing.hasUser id || s.contacts.contains id

/-- Forgets a user whom there is no reason to know. -/
def collect (s : Store) (id : UserId) : Store :=
  if s.isNeeded id then s else s.forgetUser id

/-- Takes over relations after an operation on them. -/
def settle (s : Store) (result : Except Disagreement Standing) : Except ConsistencyFault Store :=
  match result with
  | .ok standing => .ok { s with standing := standing }
  | .error d => .error (s.report d)

/-- Forgets a user, whatever the reasons to know it, and takes it off all channels. -/
def removeUser (s : Store) (id : UserId) : Except ConsistencyFault Store := do
  let s ← s.settle (s.standing.removeUser id)
  .ok ({ s with
    contacts := s.contacts.filter (· ≠ id)
    selfId := if s.selfId = some id then none else s.selfId }.forgetUser id)

/-- Forgets whoever holds a nick, unless it is this user. -/
def evictOther (s : Store) (id : UserId) (nick : String) : Except ConsistencyFault Store :=
  match s.userId? nick with
  | some holder => if holder = id then .ok s else s.removeUser holder
  | none => .ok s

/-- Gives a user another nick. Another user that holds it is out of date and is forgotten. -/
def renameUser (s : Store) (id : UserId) (nick : String) : Except ConsistencyFault Store :=
  match s.users.get? id with
  | none => .ok s
  | some user => do
    let s ← s.evictOther id nick
    .ok { s with
      directory := (s.directory.strikeNick user.nick id).enterNick nick id
      users := s.users.modify id fun user => user.withNick nick }

/-- Marks a user as a contact from private messages. -/
def addContact (s : Store) (id : UserId) : Store :=
  if s.contacts.contains id then s else { s with contacts := s.contacts ++ [id] }

/-- Takes the mark of a contact away. -/
def removeContact (s : Store) (id : UserId) : Store :=
  { s with contacts := s.contacts.filter (· ≠ id) }.collect id

/-- Marks a user as the client itself. -/
def withSelf (s : Store) (id : UserId) : Store := { s with selfId := some id }

/-! ## Channels -/

def modifyChannel (s : Store) (id : ChannelId) (f : Channel → Channel) : Store :=
  { s with channels := s.channels.modify id f }

/-- The channel of exactly this name, which becomes known if there is none. -/
def trackChannel (s : Store) (name : String) : Store × ChannelId :=
  match s.directory.exactChannel? name with
  | some id => (s, id)
  | none =>
    let id : ChannelId := ⟨s.nextId⟩
    ({ s with
        nextId := s.nextId + 1
        directory := s.directory.enterChannel name id
        channels := s.channels.insert id (.new id name) }, id)

/-- Forgets a channel. The relations are not touched. -/
def forgetChannel (s : Store) (id : ChannelId) : Store :=
  match s.channels.get? id with
  | some channel =>
    { s with
      directory := s.directory.strikeChannel channel.name
      channels := s.channels.erase id }
  | none => s

/-- Forgets a channel and takes everybody off it. -/
def removeChannel (s : Store) (id : ChannelId) : Except ConsistencyFault Store := do
  let members := s.standing.members.usersOf id
  let s ← s.settle (s.standing.removeChannel id)
  .ok (members.foldl collect (s.forgetChannel id))

/-! ## Relations -/

def addMember (s : Store) (user : UserId) (channel : ChannelId) : Store :=
  { s with standing := s.standing.join user channel }

/-- Takes a user off a channel. -/
def removeMember (s : Store) (user : UserId) (channel : ChannelId) :
    Except ConsistencyFault Store := do
  let s ← s.settle (s.standing.leave user channel)
  .ok (s.collect user)

/-- Grants a privilege, which puts the user on the channel too. -/
def grant (s : Store) (level : PrivilegeLevel) (user : UserId) (channel : ChannelId) : Store :=
  { s with standing := s.standing.grant level user channel }

def grantAll (s : Store) (levels : List PrivilegeLevel) (user : UserId) (channel : ChannelId) :
    Store :=
  levels.foldl (fun s level => s.grant level user channel) s

/-- Revokes a privilege. The user stays on the channel. -/
def revoke (s : Store) (level : PrivilegeLevel) (user : UserId) (channel : ChannelId) :
    Except ConsistencyFault Store :=
  s.settle (s.standing.revoke level user channel)

/-! ## The whole store -/

/-- Forgets everybody and everything but the settings. Ids go on counting. -/
def clear (s : Store) : Store :=
  { s with
    directory := { s.directory with nicks := .empty, channels := .empty }
    users := .empty
    channels := .empty
    standing := .empty
    contacts := []
    selfId := none }

end Store

end IrcClient
