import IrcClient.Session.Basic

/-!
# Modes and topics

Changes of a channel's modes and of its topic, as they happen.
-/

namespace IrcClient.Session

/-- The modes of a channel or of a user change. -/
def onMode (s : Session) (source : Hostmask) (line : Line) : Handling :=
  match line.params with
  | target :: modes :: args =>
    let mode := String.intercalate " " (modes :: args)
    let s := s.onStore fun store => store.observe source
    let user := s.store.sourceSnapshot source
    if !s.store.isChannelName target then .sound (s, [.emit (.userModeChanged target user mode)])
    else match s.store.channelId? target with
      | none => .sound (s, unknown line)
      | some channel =>
        s.attempt (s.store.applyModes channel user modes args) fun (store, events) =>
          let summary := (store.channelSnapshot? channel).map fun c =>
            Event.modeChanged c user mode
          ({ s with store := store }, (events ++ summary.toList).map .emit)
  | _ => .sound (s, unknown line)

def onTopic (s : Session) (clock : Clock) (source : Hostmask) (line : Line) :
    Session × List Action :=
  match (line.param 0).bind s.store.channelId?, line.param 1 with
  | some channel, some topic =>
    let time := clock.timeOf line
    let oldTopic := (s.store.channels.get? channel).bind fun c => c.topic
    let s := s.onStore fun store => store.modifyChannel channel fun c =>
      (c.withTopic topic).withTopicInfo source time
    let event := (s.store.channelSnapshot? channel).map fun c =>
      Event.topic c oldTopic topic source time true
    (s, event.toList.map .emit)
  | _, _ => (s, unknown line)

end IrcClient.Session
