import IrcClient.ChannelFlag
import IrcClient.Hostmask
import IrcClient.Store.Id
import IrcClient.Text.Blank
import IrcClient.Text.Cut
import IrcClient.Text.Decimal
import IrcClient.Timestamp.Basic

/-!
# Channels

What is known about a channel. The text of its mode is known for sure only after the server has told
it; until then, and again after a change that cannot be worked into the text, it is stale. Whoever
waits for the mode looks at the published text, which a stale channel has not.
-/

namespace IrcClient

/-- What the letters and arguments of a mode text say. -/
structure ModeTraits where
  flags : ChannelFlags := .none
  key : Option String := none
  limit : Option Nat := none
  deriving DecidableEq, Repr

namespace ModeTraits

/-- Reads letters, which take their arguments in order. All letters but those of key and limit are
taken to have none. -/
def readFrom (traits : ModeTraits) (args : List String) : List Char → ModeTraits
  | [] => traits
  | c :: cs =>
    if c = 'k' then readFrom { traits with key := args.head? } args.tail cs
    else if c = 'l' then
      readFrom { traits with limit := args.head?.bind (Text.unsigned? 32) } args.tail cs
    else match ChannelFlag.ofLetter? c with
      | some flag => readFrom { traits with flags := traits.flags.set flag true } args cs
      | none => readFrom traits args cs

/-- Reads a mode text: letters, then their arguments. -/
def read (mode : String) : ModeTraits :=
  match (Text.nonemptyFields (· == ' ') mode.toList).map String.ofList with
  | [] => {}
  | letters :: args => readFrom {} args letters.toList

end ModeTraits

/-- The letters of a mode text after more of them are added or taken away under changing signs. -/
def mergeLetters (adding : Bool) (letters : List Char) : List Char → List Char
  | [] => letters
  | c :: cs =>
    if c = '+' then mergeLetters true letters cs
    else if c = '-' then mergeLetters false letters cs
    else if adding then
      mergeLetters adding (if letters.contains c then letters else letters ++ [c]) cs
    else mergeLetters adding (letters.filter (· ≠ c)) cs

/-- A mode text after a change that has no arguments. Its own arguments stay. -/
def mergeMode (mode change : String) : String :=
  let (letters, args) := match Text.cutAt ' ' mode.toList with
    | some (letters, args) => (letters, ' ' :: args)
    | none => (mode.toList, [])
  let merged := mergeLetters true (letters.filter (· ≠ '+')) change.toList
  String.ofList ((if merged.isEmpty then [] else '+' :: merged) ++ args)

/-- What is known about a channel. -/
structure ChannelInfo extends ModeTraits where
  name : String
  /-- The text of the mode. It means nothing while stale. -/
  mode : String := ""
  stale : Bool := true
  topic : Option String := none
  topicSetter : Option Hostmask := none
  topicAt : Option Timestamp := none
  createdAt : Option Timestamp := none
  deriving DecidableEq, Repr

/-- A channel as known at one moment. -/
structure ChannelSnapshot extends ChannelInfo where
  id : ChannelId
  deriving DecidableEq, Repr

/-- A tracked channel. -/
structure Channel extends ChannelInfo where
  id : ChannelId
  /-- The mode as shown to those who wait for it. -/
  published : Option String
  deriving DecidableEq, Repr

namespace Channel

/-- A channel of which only the name is known. -/
def new (id : ChannelId) (name : String) : Channel where
  name := name
  id := id
  published := none

def snapshot (channel : Channel) : ChannelSnapshot :=
  { channel.toChannelInfo with id := channel.id }

/-- Takes the mode that the server has told. -/
def withMode (channel : Channel) (mode : String) : Channel :=
  { channel with
    toModeTraits := ModeTraits.read mode
    mode := mode
    stale := false
    published := some mode }

/-- Gives up the mode text. -/
def markStale (channel : Channel) : Channel :=
  { channel with stale := true, published := none }

/-- Whether a change cannot be worked into a mode text, because one of them has arguments and the
other might belong to them. -/
def entangled (mode change : String) : Bool :=
  change.toList.contains ' ' ||
    (mode.toList.contains ' ' && (change.toList.contains 'k' || change.toList.contains 'l'))

/-- Works a change into the mode text, or gives the text up. -/
def amendMode (channel : Channel) (change : String) : Channel :=
  if channel.stale then channel
  else if entangled channel.mode change then channel.markStale
  else
    let mode := mergeMode channel.mode change
    { channel with mode := mode, published := some mode }

/-- Puts up a flag or takes it down. -/
def withFlag (channel : Channel) (flag : ChannelFlag) (on : Bool) : Channel :=
  { channel with flags := channel.flags.set flag on }

def withTopic (channel : Channel) (topic : String) : Channel :=
  { channel with topic := some topic }

def withTopicInfo (channel : Channel) (setter : Hostmask) (time : Timestamp) : Channel :=
  { channel with topicSetter := some setter, topicAt := some time }

@[simp] theorem id_amendMode (channel : Channel) (change : String) :
    (channel.amendMode change).id = channel.id := by
  unfold amendMode
  split
  · rfl
  · split <;> rfl

@[simp] theorem name_amendMode (channel : Channel) (change : String) :
    (channel.amendMode change).name = channel.name := by
  unfold amendMode
  split
  · rfl
  · split <;> rfl

end Channel

end IrcClient
