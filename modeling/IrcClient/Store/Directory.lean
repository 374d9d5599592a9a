import IrcClient.CaseMapping
import IrcClient.Store.Id
import IrcClient.Table

/-!
# Finding users and channels by name

Names are looked up under the case mapping of the server. In front of a channel name there may be
status symbols, which say that only members of some rank are meant; they are tried as part of the
name first and then taken off one by one.
-/

namespace IrcClient

/-- The ids of users and channels by name. The keys of both tables are names in lower form. -/
structure Directory where
  caseMapping : CaseMapping
  statusSymbols : String
  nicks : Table String UserId
  channels : Table String ChannelId
  deriving DecidableEq

namespace Directory

def initial : Directory where
  caseMapping := .initial
  statusSymbols := "~&@%+"
  nicks := .empty
  channels := .empty

def key (d : Directory) (name : String) : String := d.caseMapping.normalize name

def userId? (d : Directory) (nick : String) : Option UserId := d.nicks.get? (d.key nick)

/-- The channel of exactly this name. -/
def exactChannel? (d : Directory) (name : String) : Option ChannelId := d.channels.get? (d.key name)

/-- The channel that a name stands for, with as few status symbols taken off it as possible. -/
def resolve? (d : Directory) : List Char → Option ChannelId
  | [] => d.exactChannel? ""
  | c :: cs =>
    match d.exactChannel? (String.ofList (c :: cs)) with
    | some id => some id
    | none => if d.statusSymbols.toList.contains c then resolve? d cs else none

/-- The channel that a name stands for, with or without status symbols. -/
def channelId? (d : Directory) (name : String) : Option ChannelId := d.resolve? name.toList

def enterNick (d : Directory) (nick : String) (id : UserId) : Directory :=
  { d with nicks := d.nicks.insert (d.key nick) id }

/-- Strikes a nick out, if it is this user's. -/
def strikeNick (d : Directory) (nick : String) (id : UserId) : Directory :=
  if d.userId? nick = some id then { d with nicks := d.nicks.erase (d.key nick) } else d

def enterChannel (d : Directory) (name : String) (id : ChannelId) : Directory :=
  { d with channels := d.channels.insert (d.key name) id }

/-- Strikes a channel name out, whichever channel it stands for. -/
def strikeChannel (d : Directory) (name : String) : Directory :=
  { d with channels := d.channels.erase (d.key name) }

/-- The directory of some names under a case mapping. Where names coincide, the last one counts. -/
def rebuilt (d : Directory) (mapping : CaseMapping) (nicks : List (String × UserId))
    (channels : List (String × ChannelId)) : Directory :=
  { d with
    caseMapping := mapping
    nicks := .ofList (nicks.map fun entry => (mapping.normalize entry.1, entry.2))
    channels := .ofList (channels.map fun entry => (mapping.normalize entry.1, entry.2)) }

end Directory

/-- Whether a name can be a channel's, by the characters that channel names begin with. Status
symbols may stand before them. -/
def isChannelName (channelPrefixes statusSymbols : String) : List Char → Bool
  | [] => false
  | c :: cs =>
    channelPrefixes.toList.contains c ||
      (statusSymbols.toList.contains c && isChannelName channelPrefixes statusSymbols cs)

end IrcClient
