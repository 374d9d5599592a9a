import IrcClient.Text.Cut

/-!
# Hostmasks

The wire identity of a user or server, `nick!login@host`. Login and host may be missing, each on its
own. The host is split off at the first `@` of the whole text, the login at the first `!` before it.
-/

namespace IrcClient

/-- An identity as it stands on the wire. -/
structure Hostmask where
  /-- The text the parts were read from, or their rendering. -/
  raw : String
  nick : String
  login : Option String
  host : Option String
  deriving DecidableEq, Repr, Inhabited

namespace Hostmask

/-- The text of an identity given by its parts. -/
def render (nick : String) (login host : Option String) : String :=
  let masked := match login with
    | some login => nick ++ "!" ++ login
    | none => nick
  match host with
  | some host => masked ++ "@" ++ host
  | none => masked

def ofParts (nick : String) (login host : Option String) : Hostmask :=
  ⟨render nick login host, nick, login, host⟩

/-- The identity of which only the nick is known. -/
def ofNick (nick : String) : Hostmask :=
  ofParts nick none none

/-- Reads an identity. A colon in front is the protocol's and not part of it. -/
def parse (text : String) : Hostmask :=
  let raw := Text.stripHead ':' text.toList
  let (rest, host) := match Text.cutAt '@' raw with
    | some (rest, host) => (rest, some (String.ofList host))
    | none => (raw, none)
  let (nick, login) := match Text.cutAt '!' rest with
    | some (nick, login) => (nick, some (String.ofList login))
    | none => (rest, none)
  ⟨String.ofList raw, String.ofList nick, login, host⟩

/-- Whether two identities agree in all their parts. How they were written does not count. -/
def agrees (a b : Hostmask) : Bool :=
  a.nick == b.nick && a.login == b.login && a.host == b.host

/-- Whether this looks like a server: a dotted name alone. -/
def isServer (m : Hostmask) : Bool :=
  m.login.isNone && m.host.isNone && m.nick.toList.contains '.'

/-- The same login and host under another nick. -/
def withNick (m : Hostmask) (nick : String) : Hostmask :=
  ofParts nick m.login m.host

end Hostmask

end IrcClient
