import IrcClient.Isupport

/-!
# What a server tells about itself

The client collects the server's own data and every feature token it announces, and reads nicks in
member lists by the status symbols then in force.
-/

namespace IrcClient

/-- Everything a server told about itself. -/
structure ServerInfo where
  serverName : Option String := none
  serverVersion : Option String := none
  userModes : Option String := none
  channelModes : Option String := none
  network : Option String := none
  nickLength : Option Nat := none
  caseMapping : CaseMapping := CaseMapping.initial
  channelTypes : Option String := none
  statusMessage : Option String := none
  /-- The symbols before nicks in member lists, highest first, with their levels. -/
  statusSymbols : List (Char × Option PrivilegeLevel) :=
    PrivilegeLevel.all.reverse.map fun level => (level.symbol, some level)
  /-- Every feature token, in the order of arrival. -/
  features : List (String × Option String) := []
  deriving DecidableEq, Repr

namespace ServerInfo

/-- Takes over the reply with the server's data, which stand after the recipient. What is missing in
it is forgotten. -/
def withMyInfo (info : ServerInfo) (params : List String) : ServerInfo :=
  { info with
    serverName := params[1]?
    serverVersion := params[2]?
    userModes := params[3]?
    channelModes := params[4]? }

/-- Takes over the feature tokens of one line. A value that cannot be read changes nothing. -/
def withFeatures (info : ServerInfo) (features : Isupport) : ServerInfo :=
  { info with
    features := info.features ++ features.entries
    caseMapping := (features.caseMapping?.bind CaseMapping.ofName?).getD info.caseMapping
    channelTypes := features.channelTypes? <|> info.channelTypes
    network := features.network? <|> info.network
    statusMessage := features.statusMessage? <|> info.statusMessage
    nickLength := features.nickLength? <|> info.nickLength
    statusSymbols := (features.status?.map StatusSpec.pairs).getD info.statusSymbols }

def status? (info : ServerInfo) (c : Char) : Option (Char × Option PrivilegeLevel) :=
  info.statusSymbols.find? fun entry => entry.1 == c

def isStatusSymbol (info : ServerInfo) (c : Char) : Bool :=
  (info.status? c).isSome

/-- The levels of the status symbols that a text starts with, and what follows the symbols. -/
def splitStatus (info : ServerInfo) : List Char → List PrivilegeLevel × List Char
  | [] => ([], [])
  | c :: cs =>
    match info.status? c with
    | none => ([], c :: cs)
    | some (_, level) =>
      let rest := splitStatus info cs
      (level.toList ++ rest.1, rest.2)

/-- The levels of the status symbols before a name, and the name itself. -/
def stripStatus (info : ServerInfo) (name : String) : List PrivilegeLevel × String :=
  let parts := info.splitStatus name.toList
  (parts.1, String.ofList parts.2)

/-- The symbols that may stand before a channel name in the target of a message. -/
def targetSymbols (info : ServerInfo) : String :=
  info.statusMessage.getD (String.ofList (info.statusSymbols.map Prod.fst))

end ServerInfo

end IrcClient
