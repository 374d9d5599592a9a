import IrcClient.Store.Basic

/-!
# Asking for the mode of a channel

The mode is known or has to be waited for. Whoever waits watches the mode that the channel
publishes. The wait ends with the first mode seen, or without one once the channel is forgotten.
-/

namespace IrcClient

/-- Somebody who waits for the mode of a channel. -/
structure ModeWaiter where
  channel : ChannelId
  /-- What the channel published last. -/
  seen : Option String
  /-- Whether the channel is still known. -/
  live : Bool
  deriving DecidableEq, Repr

namespace ModeWaiter

/-- Looks at the channel again. The last thing that a forgotten channel published stays seen. -/
def refresh (store : Store) (waiter : ModeWaiter) : ModeWaiter :=
  match store.channels.get? waiter.channel with
  | some channel => { waiter with seen := channel.published }
  | none => { waiter with live := false }

/-- The answer, once the wait is over: a mode, or none because the channel is gone. -/
def answer? (waiter : ModeWaiter) : Option (Option String) :=
  match waiter.seen with
  | some mode => some (some mode)
  | none => if waiter.live then none else some none

end ModeWaiter

/-- The answer to the question for a mode. -/
inductive ModeQuery where
  | known (mode : String)
  | stale (waiter : ModeWaiter)
  deriving DecidableEq, Repr

/-- Asks for the mode of the channel that a name stands for. -/
def Store.modeQuery (s : Store) (name : String) : Option ModeQuery :=
  (s.channel? name).map fun channel =>
    if channel.stale then .stale ⟨channel.id, channel.published, true⟩ else .known channel.mode

end IrcClient
