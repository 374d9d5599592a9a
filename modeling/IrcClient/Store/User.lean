import IrcClient.Hostmask
import IrcClient.Store.Id

/-!
# Users

What is known about a user. A tracked user has an id; a snapshot is what was known at one moment,
and has an id only if the user was tracked.
-/

namespace IrcClient

/-- What is known about a user. -/
structure UserInfo where
  hostmask : Hostmask
  /-- The last known away message. An empty one says that the user is back. -/
  awayMessage : Option String := none
  /-- Whether the user is an operator of the network. -/
  ircOp : Bool := false
  server : Option String := none
  /-- The number of servers between the user and the client's. -/
  hops : Option Nat := none
  realName : Option String := none
  /-- Whether the user is known to be logged in. -/
  identified : Bool := false
  deriving DecidableEq, Repr

namespace UserInfo

def nick (info : UserInfo) : String := info.hostmask.nick

def isAway (info : UserInfo) : Bool :=
  match info.awayMessage with
  | some message => message != ""
  | none => false

end UserInfo

/-- A tracked user. -/
structure User extends UserInfo where
  id : UserId
  deriving DecidableEq, Repr

/-- A user as known at one moment. -/
structure UserSnapshot extends UserInfo where
  /-- The id, if the user was tracked. -/
  id : Option UserId
  deriving DecidableEq, Repr

/-- The snapshot of somebody who is not tracked. -/
def UserSnapshot.detached (hostmask : Hostmask) : UserSnapshot where
  hostmask := hostmask
  id := none

namespace User

/-- A user of whom only the identity is known. -/
def new (id : UserId) (hostmask : Hostmask) : User where
  hostmask := hostmask
  id := id

def snapshot (user : User) : UserSnapshot :=
  { user.toUserInfo with id := some user.id }

/-- Takes over the login and the host that a sighting of the user shows. -/
def absorb (user : User) (seen : Hostmask) : User :=
  let current := user.hostmask
  let login := seen.login <|> current.login
  let host := seen.host <|> current.host
  if login = current.login ∧ host = current.host then user
  else { user with hostmask := .ofParts current.nick login host }

def withNick (user : User) (nick : String) : User :=
  { user with hostmask := user.hostmask.withNick nick }

def withLogin (user : User) (login : String) : User :=
  { user with hostmask := .ofParts user.hostmask.nick (some login) user.hostmask.host }

def withHost (user : User) (host : String) : User :=
  { user with hostmask := .ofParts user.hostmask.nick user.hostmask.login (some host) }

@[simp] theorem id_absorb (user : User) (seen : Hostmask) : (user.absorb seen).id = user.id := by
  unfold absorb
  dsimp only
  split <;> rfl

@[simp] theorem nick_absorb (user : User) (seen : Hostmask) :
    (user.absorb seen).nick = user.nick := by
  unfold absorb
  dsimp only
  split <;> rfl

end User

end IrcClient
