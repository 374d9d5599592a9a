import IrcClient.Event
import IrcClient.Mode.Basic
import IrcClient.Store.Basic

/-!
# Applying mode changes

A line of mode changes is applied letter by letter, and each letter that has an effect gives an
event. Granting a privilege to a nick that is not known makes it a member of the channel. The mode
text of the channel is amended by the whole line at the end.
-/

namespace IrcClient

namespace ModeChange

/-- Grants or revokes a privilege, and shows whom it concerned. -/
def applyPrivilege (s : Store) (channel : ChannelId) (level : PrivilegeLevel) (nick : String)
    (adding : Bool) : Except ConsistencyFault (Store × UserSnapshot) :=
  let mask := Hostmask.ofNick nick
  if adding then
    let (s, user) := s.trackUser mask
    let s := s.grant level user channel
    .ok (s, (s.userSnapshot? user).getD (.detached mask))
  else match s.userId? nick with
    | some user => do
      let s ← s.revoke level user channel
      .ok (s, (s.userSnapshot? user).getD (.detached mask))
    | none => .ok (s, .detached mask)

/-- The events that tell of a channel, of which there are none if it is not known. -/
def eventsOf (s : Store) (channel : ChannelId) (f : ChannelSnapshot → Option Event) : List Event :=
  ((s.channelSnapshot? channel).bind f).toList

def apply (channel : ChannelId) (source : UserSnapshot) (s : Store) (change : ModeChange) :
    Except ConsistencyFault (Store × List Event) :=
  match change.kind.effect with
  | .privilege level =>
    match change.arg with
    | none => .ok (s, [])
    | some nick => do
      let (s, recipient) ← applyPrivilege s channel level nick change.adding
      .ok (s, eventsOf s channel fun c =>
        some (.privilegeChanged c source recipient level change.adding))
  | .key =>
    let s := s.modifyChannel channel fun c =>
      { c with key := if change.adding then change.arg else none }
    .ok (s, eventsOf s channel fun c =>
      if change.adding then change.arg.map (.keySet c source ·)
      else some (.keyRemoved c source change.arg))
  | .limit =>
    if change.adding then
      match change.arg.bind (Text.unsigned? 32) with
      | none => .ok (s, [])
      | some limit =>
        let s := s.modifyChannel channel fun c => { c with limit := some limit }
        .ok (s, eventsOf s channel fun c => some (.limitSet c source limit))
    else
      let s := s.modifyChannel channel fun c => { c with limit := none }
      .ok (s, eventsOf s channel fun c => some (.limitRemoved c source))
  | .ban =>
    .ok (s, eventsOf s channel fun c =>
      change.arg.map fun mask => .banChanged c source (.parse mask) change.adding)
  | .flag flag =>
    let s := s.modifyChannel channel fun c => c.withFlag flag change.adding
    .ok (s, eventsOf s channel fun c => some (.flagChanged c source flag change.adding))

/-- Applies letters in order, and gives their events in order. -/
def applyAll (channel : ChannelId) (source : UserSnapshot) :
    Store → List ModeChange → Except ConsistencyFault (Store × List Event)
  | s, [] => .ok (s, [])
  | s, change :: changes => do
    let (s, first) ← change.apply channel source s
    let (s, rest) ← applyAll channel source s changes
    .ok (s, first ++ rest)

end ModeChange

/-- The text of a mode string and its arguments. -/
def modeText (modes : String) (args : List String) : String :=
  args.foldl (fun text arg => text ++ " " ++ arg) modes

/-- Applies a line of mode changes to a channel. -/
def Store.applyModes (s : Store) (channel : ChannelId) (source : UserSnapshot) (modes : String)
    (args : List String) : Except ConsistencyFault (Store × List Event) := do
  let (s, events) ← ModeChange.applyAll channel source s (ModeChange.read modes args)
  .ok (s.modifyChannel channel fun c => c.amendMode (modeText modes args), events)

end IrcClient
