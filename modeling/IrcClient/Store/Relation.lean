import IrcClient.Error
import IrcClient.Store.Id
import IrcClient.Table

/-!
# Relations between users and channels

A relation is kept in both directions, so that it can be asked and emptied from either side. No
direction keeps an id without partners. The operations that take pairs away check that both
directions agree on them, and name the pair if they do not.

`Standing` is the six relations of the client together: who is on a channel, and who holds which
privilege there.
-/

namespace IrcClient

/-- One direction of a relation: the partners of each id that has any, ascending. -/
abbrev Links (a b : EntityKind) := Table (Id a) (List (Id b))

namespace Links

variable {a b : EntityKind}

def of (links : Links a b) (x : Id a) : List (Id b) := (links.get? x).getD []

def has (links : Links a b) (x : Id a) (y : Id b) : Bool := (links.of x).contains y

def link (links : Links a b) (x : Id a) (y : Id b) : Links a b :=
  links.insert x (Id.insertSorted y (links.of x))

/-- Takes a pair away, and the id with it if that was its last partner. -/
def unlink (links : Links a b) (x : Id a) (y : Id b) : Links a b :=
  match links.get? x with
  | none => links
  | some partners =>
    let rest := partners.filter (· ≠ y)
    if rest.isEmpty then links.erase x else links.insert x rest

/-- Takes the pairs of `y` with several ids away. It fails at the first id that is not linked to
`y`. -/
def unlinkAll (links : Links a b) (y : Id b) : List (Id a) → Except (Id a) (Links a b)
  | [] => .ok links
  | x :: xs => if links.has x y then unlinkAll (links.unlink x y) y xs else .error x

def pairs (links : Links a b) : List (Id a × Id b) :=
  links.entries.flatMap fun entry => entry.2.map fun y => (entry.1, y)

end Links

/-- A user and a channel. -/
abbrev Pair := UserId × ChannelId

/-- A relation between users and channels. -/
structure Relation where
  byUser : Links .user .channel
  byChannel : Links .channel .user
  deriving DecidableEq

namespace Relation

def empty : Relation := ⟨.empty, .empty⟩

/-- Whether a user is related to a channel. -/
def contains (r : Relation) (user : UserId) (channel : ChannelId) : Bool :=
  r.byUser.has user channel

/-- The channels of a user, in the order of their ids. -/
def channelsOf (r : Relation) (user : UserId) : List ChannelId := r.byUser.of user

/-- The users of a channel, in the order of their ids. -/
def usersOf (r : Relation) (channel : ChannelId) : List UserId := r.byChannel.of channel

/-- Whether a user is related to any channel. -/
def hasUser (r : Relation) (user : UserId) : Bool := r.byUser.contains user

def insert (r : Relation) (user : UserId) (channel : ChannelId) : Relation :=
  ⟨r.byUser.link user channel, r.byChannel.link channel user⟩

/-- Takes a pair away, if it is there. -/
def remove (r : Relation) (user : UserId) (channel : ChannelId) : Except Pair Relation :=
  if r.byUser.has user channel = r.byChannel.has channel user then
    .ok ⟨r.byUser.unlink user channel, r.byChannel.unlink channel user⟩
  else .error (user, channel)

def removeUser (r : Relation) (user : UserId) : Except Pair Relation :=
  match r.byChannel.unlinkAll user (r.channelsOf user) with
  | .ok byChannel => .ok ⟨r.byUser.erase user, byChannel⟩
  | .error channel => .error (user, channel)

def removeChannel (r : Relation) (channel : ChannelId) : Except Pair Relation :=
  match r.byUser.unlinkAll channel (r.usersOf channel) with
  | .ok byUser => .ok ⟨byUser, r.byChannel.erase channel⟩
  | .error user => .error (user, channel)

/-- All pairs, from the side of the users. -/
def pairs (r : Relation) : List Pair := r.byUser.pairs

/-- The first pair that one direction has and the other has not. -/
def disagreement? (r : Relation) : Option Pair :=
  (r.byUser.pairs.find? fun pair => !r.byChannel.has pair.2 pair.1) <|>
    ((r.byChannel.pairs.find? fun pair => !r.byUser.has pair.2 pair.1).map Prod.swap)

end Relation

/-- A pair on which a relation is at odds. -/
structure Disagreement where
  relation : RelationName
  pair : Pair
  deriving DecidableEq, Repr

/-- Who is on a channel, and who holds which privilege there. -/
structure Standing where
  members : Relation
  levels : PerLevel Relation
  deriving DecidableEq

namespace Standing

/-- Nobody is anywhere. -/
def empty : Standing := ⟨.empty, .all .empty⟩

/-- Whether a user holds a privilege on a channel. -/
def holds (s : Standing) (level : PrivilegeLevel) (user : UserId) (channel : ChannelId) : Bool :=
  (s.levels.get level).contains user channel

/-- The privileges of a user on a channel, lowest first. -/
def privilegesOf (s : Standing) (user : UserId) (channel : ChannelId) : List PrivilegeLevel :=
  PrivilegeLevel.all.filter fun level => s.holds level user channel

/-- Whether a user is in any of the relations. -/
def hasUser (s : Standing) (user : UserId) : Bool :=
  s.members.hasUser user || PrivilegeLevel.all.any fun level => (s.levels.get level).hasUser user

def join (s : Standing) (user : UserId) (channel : ChannelId) : Standing :=
  { s with members := s.members.insert user channel }

/-- Grants a privilege, which puts the user on the channel too. -/
def grant (s : Standing) (level : PrivilegeLevel) (user : UserId) (channel : ChannelId) :
    Standing where
  members := s.members.insert user channel
  levels := s.levels.set level ((s.levels.get level).insert user channel)

/-- Changes the members by an operation that may find them at odds. -/
def onMembers (s : Standing) (f : Relation → Except Pair Relation) :
    Except Disagreement Standing :=
  match f s.members with
  | .ok members => .ok { s with members := members }
  | .error pair => .error ⟨.membership, pair⟩

/-- Changes those who hold a privilege by an operation that may find them at odds. -/
def onLevel (s : Standing) (level : PrivilegeLevel) (f : Relation → Except Pair Relation) :
    Except Disagreement Standing :=
  match f (s.levels.get level) with
  | .ok relation => .ok { s with levels := s.levels.set level relation }
  | .error pair => .error ⟨.privilege level, pair⟩

/-- Changes all levels in turn, the lowest first. -/
def onLevels (s : Standing) (f : Relation → Except Pair Relation) : Except Disagreement Standing :=
  PrivilegeLevel.all.foldlM (fun s level => s.onLevel level f) s

/-- Revokes a privilege. The user stays on the channel. -/
def revoke (s : Standing) (level : PrivilegeLevel) (user : UserId) (channel : ChannelId) :
    Except Disagreement Standing :=
  s.onLevel level fun relation => relation.remove user channel

/-- Takes a user off a channel, with all privileges there. -/
def leave (s : Standing) (user : UserId) (channel : ChannelId) : Except Disagreement Standing := do
  let s ← s.onLevels fun relation => relation.remove user channel
  s.onMembers fun relation => relation.remove user channel

def removeUser (s : Standing) (user : UserId) : Except Disagreement Standing := do
  let s ← s.onMembers fun relation => relation.removeUser user
  s.onLevels fun relation => relation.removeUser user

def removeChannel (s : Standing) (channel : ChannelId) : Except Disagreement Standing := do
  let s ← s.onMembers fun relation => relation.removeChannel channel
  s.onLevels fun relation => relation.removeChannel channel

/-- The first fault of a level: a pair on which its directions differ, or a holder of the privilege
who is not on the channel. -/
def levelFault? (s : Standing) (level : PrivilegeLevel) : Option Disagreement :=
  let relation := s.levels.get level
  (relation.disagreement?.map (⟨.privilege level, ·⟩)) <|>
    ((relation.pairs.find? fun pair => !s.members.contains pair.1 pair.2).map (⟨.membership, ·⟩))

/-- The first fault of the relations: a pair on which the directions of one differ, or a holder of a
privilege who is not on the channel. -/
def fault? (s : Standing) : Option Disagreement :=
  (s.members.disagreement?.map (⟨.membership, ·⟩)) <|>
    PrivilegeLevel.all.findSome? s.levelFault?

end Standing

end IrcClient
