import IrcClient.Session.Whois

/-!
# Numeric replies

The numerics that tell something about the server, its users and its channels. Every numeric is
reported as such after whatever else it gave rise to.
-/

namespace IrcClient.Session

def tracked? (s : Session) (line : Line) (index : Nat) : Option ChannelId :=
  (line.param index).bind s.store.channelId?

/-- The point in time that a parameter gives in seconds. -/
def timeParam? (line : Line) (index : Nat) : Option Timestamp :=
  ((line.param index).bind (Text.signed? 64)).bind Timestamp.ofSeconds?

/-- Changes a channel, and tells of it as it is then. -/
def updateChannel (s : Session) (channel : ChannelId) (f : Channel → Channel)
    (event : ChannelSnapshot → Event) : Session × List Action :=
  let s := s.onStore fun store => store.modifyChannel channel f
  (s, ((s.store.channelSnapshot? channel).map fun c => Action.emit (event c)).toList)

/-- Handles the features of the server. Names are looked up by them from now on. -/
def onFeatures (s : Session) (line : Line) : Session × List Action :=
  match Isupport.ofReply? line.params with
  | none => (s, [])
  | some features =>
    let info := s.info.withFeatures features
    let store := s.store
    let store := if features.caseMapping?.isSome then store.withCaseMapping info.caseMapping
      else store
    let store := match features.channelTypes? with
      | some prefixes => store.withChannelPrefixes prefixes
      | none => store
    let store := if features.status?.isSome || features.statusMessage?.isSome then
        store.withStatusSymbols info.targetSymbols
      else store
    ({ s with info := info, store := store }, [.emit (.serverInfo info)])

/-- The entry of a list of all channels. -/
def listedChannel? (line : Line) : Option ListedChannel :=
  (line.param 1).map fun name =>
    { name := name
      users := ((line.param 2).bind (Text.unsigned? 32)).getD 0
      topic := (line.param 3).getD "" }

/-- The away message of a user whom a member list marks as away or as present. The text itself is
not told there. -/
def awayAs (away : Bool) (user : User) : String :=
  if away then (if user.isAway then user.awayMessage.getD "" else "away") else ""

/-- What a member list tells about a user. -/
structure WhoEntry where
  login : String
  host : String
  server : String
  nick : String
  flags : String
  /-- The distance in servers, and the real name after it. -/
  remark : String
  deriving DecidableEq, Repr

/-- Reads an entry, which may not lack anything. -/
def WhoEntry.ofLine? (line : Line) : Option WhoEntry :=
  match line.params with
  | _ :: _ :: login :: host :: server :: nick :: flags :: remark :: _ =>
    some ⟨login, host, server, nick, flags, remark⟩
  | _ => none

/-- Records an entry of a member list for its user. -/
def WhoEntry.record (entry : WhoEntry) (user : User) : User :=
  let (hops, realName) := match Text.cutAt ' ' entry.remark.toList with
    | some (hops, realName) => (String.ofList hops, String.ofList realName)
    | none => (entry.remark, "")
  let user := (user.withLogin entry.login).withHost entry.host
  { user with
    server := some entry.server
    hops := Text.unsigned? 32 hops <|> user.hops
    realName := some realName
    ircOp := entry.flags.toList.contains '*'
    awayMessage := some (awayAs (entry.flags.toList.head? == some 'G') user) }

/-- The privilege levels of the status symbols among some flags. -/
def levelsIn (info : ServerInfo) (flags : List Char) : List PrivilegeLevel :=
  flags.filterMap fun c => (info.status? c).bind Prod.snd

/-- Handles an entry of a member list. Only an entry for a known channel makes a user known. -/
def onWho (s : Session) (line : Line) : Session :=
  match WhoEntry.ofLine? line with
  | none => s
  | some entry =>
    let channel := s.tracked? line 1
    let found := match s.store.userId? entry.nick, channel with
      | some id, _ => some (s.store, id)
      | none, some _ =>
        some (s.store.trackUser (.ofParts entry.nick (some entry.login) (some entry.host)))
      | none, none => none
    match found with
    | none => s
    | some (store, id) =>
      let store := store.modifyUser id entry.record
      let store := match channel with
        | some channel =>
          (store.addMember id channel).grantAll (levelsIn s.info entry.flags.toList) id channel
        | none => store
      { s with store := store }

/-- The identity of a name in a list of nicks, where some servers put whole identities. -/
def namedMask (name : String) : Hostmask :=
  if name.toList.contains '!' then .parse name else .ofNick name

/-- Puts one name of a list of nicks on a channel, with the privileges of its status symbols. -/
def addName (info : ServerInfo) (channel : ChannelId) (store : Store) (entry : List Char) : Store :=
  let (levels, name) := info.splitStatus entry
  if name.isEmpty then store
  else
    let (store, id) := store.trackUser (namedMask (String.ofList name))
    (store.addMember id channel).grantAll levels id channel

def onNames (s : Session) (line : Line) : Session :=
  match s.tracked? line 2, line.param 3 with
  | some channel, some names =>
    s.onStore fun store => (Text.words names.toList).foldl (addName s.info channel) store
  | _, _ => s

def onListEnd (s : Session) (line : Line) (complete : Bool) : Session × List Action :=
  match (s.tracked? line 1).bind fun id => (s.store.channelSnapshot? id).map (id, ·) with
  | some (id, channel) =>
    (s, [.emit (.userList channel ((s.store.membersOf id).map User.snapshot) complete)])
  | none => (s, [])

def onChannelMode (s : Session) (line : Line) : Session × List Action :=
  match s.tracked? line 1 with
  | some channel =>
    let mode := String.intercalate " " (line.params.drop 2)
    s.updateChannel channel (fun c => c.withMode mode) fun c => .channelMode c mode
  | none => (s, [])

/-- Handles the time when a channel was created. -/
def onCreationTime (s : Session) (line : Line) : Session × List Action :=
  match s.tracked? line 1, timeParam? line 2 with
  | some channel, some time =>
    s.updateChannel channel (fun c => { c with createdAt := some time }) fun c =>
      .channelCreated c time
  | _, _ => (s, [])

/-- Handles the topic of a channel. It is told to the application with its setter. -/
def onTopicText (s : Session) (line : Line) : Session :=
  match s.tracked? line 1, line.param 2 with
  | some channel, some topic =>
    s.onStore fun store => store.modifyChannel channel (·.withTopic topic)
  | _, _ => s

/-- Handles the setter and the time of a topic. -/
def onTopicSetter (s : Session) (line : Line) : Session × List Action :=
  match s.tracked? line 1, line.param 2, timeParam? line 3 with
  | some channel, some setter, some time =>
    let setter := Hostmask.parse setter
    s.updateChannel channel (·.withTopicInfo setter time) fun c =>
      .topic c none (c.topic.getD "") setter time false
  | _, _, _ => (s, [])

/-- A line of the message of the day, without the hyphen that many servers put in front. -/
def motdLine (line : Line) : String :=
  match (line.lastParam.getD "").toList with
  | '-' :: ' ' :: cs => String.ofList cs
  | cs => String.ofList cs

/-- What a numeric does, other than being reported. -/
def numericEffect (s : Session) (code : Nat) (line : Line) : Session × List Action :=
  match code with
  | 4 =>
    let info := s.info.withMyInfo line.params
    ({ s with info := info }, [.emit (.serverInfo info)])
  | 5 => s.onFeatures line
  | 321 => ({ s with channelList := [] }, [])
  | 322 => ({ s with channelList := s.channelList ++ (listedChannel? line).toList }, [])
  | 323 => ({ s with channelList := [] }, [.emit (.channelList s.channelList)])
  | 324 => s.onChannelMode line
  | 329 => s.onCreationTime line
  | 332 => (s.onTopicText line, [])
  | 333 => s.onTopicSetter line
  | 352 => (s.onWho line, [])
  | 315 => s.onListEnd line true
  | 353 => (s.onNames line, [])
  | 366 => s.onListEnd line false
  | 375 => ({ s with motd := [] }, [])
  | 372 => ({ s with motd := s.motd ++ [motdLine line] }, [])
  | 376 => ({ s with motd := [] }, [.emit (.motd (String.intercalate "\n" s.motd))])
  | 301 | 307 | 311 | 312 | 317 | 318 | 319 | 330 => s.onWhois code line
  | _ => (s, [])

def onNumeric (s : Session) (code : Nat) (line : Line) : Session × List Action :=
  let (s, actions) := s.numericEffect code line
  (s, actions ++ [.emit (.serverResponse code line.params line.raw)])

end IrcClient.Session
