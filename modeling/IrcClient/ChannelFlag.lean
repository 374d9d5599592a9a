/-!
# Channel flags

The channel modes without argument that the client keeps track of, and sets of them.
-/

namespace IrcClient

/-- A channel mode without argument. -/
inductive ChannelFlag where
  /-- Only privileged members may change the topic. -/
  | topicProtection
  /-- Only members may speak. -/
  | noExternalMessages
  | inviteOnly
  /-- Only members with voice may speak. -/
  | moderated
  | privateChannel
  | secretChannel
  deriving DecidableEq, Repr

namespace ChannelFlag

/-- All flags, in the order in which they are listed. -/
def all : List ChannelFlag :=
  [topicProtection, noExternalMessages, inviteOnly, moderated, privateChannel, secretChannel]

/-- The mode letter of a flag. -/
def letter : ChannelFlag → Char
  | topicProtection => 't'
  | noExternalMessages => 'n'
  | inviteOnly => 'i'
  | moderated => 'm'
  | privateChannel => 'p'
  | secretChannel => 's'

def ofLetter? (c : Char) : Option ChannelFlag :=
  all.find? fun flag => flag.letter == c

theorem ofLetter?_letter (flag : ChannelFlag) : ofLetter? flag.letter = some flag := by
  cases flag <;> rfl

end ChannelFlag

/-- A set of channel flags. -/
structure ChannelFlags where
  topicProtection : Bool := false
  noExternalMessages : Bool := false
  inviteOnly : Bool := false
  moderated : Bool := false
  privateChannel : Bool := false
  secretChannel : Bool := false
  deriving DecidableEq, Repr

namespace ChannelFlags

def none : ChannelFlags := {}

def contains (flags : ChannelFlags) : ChannelFlag → Bool
  | .topicProtection => flags.topicProtection
  | .noExternalMessages => flags.noExternalMessages
  | .inviteOnly => flags.inviteOnly
  | .moderated => flags.moderated
  | .privateChannel => flags.privateChannel
  | .secretChannel => flags.secretChannel

/-- Puts a flag into the set or takes it out. -/
def set (flags : ChannelFlags) (flag : ChannelFlag) (on : Bool) : ChannelFlags :=
  match flag with
  | .topicProtection => { flags with topicProtection := on }
  | .noExternalMessages => { flags with noExternalMessages := on }
  | .inviteOnly => { flags with inviteOnly := on }
  | .moderated => { flags with moderated := on }
  | .privateChannel => { flags with privateChannel := on }
  | .secretChannel => { flags with secretChannel := on }

/-- The flags of the set, in the order of all flags. -/
def toList (flags : ChannelFlags) : List ChannelFlag :=
  ChannelFlag.all.filter flags.contains

theorem contains_set (flags : ChannelFlags) (flag other : ChannelFlag) (on : Bool) :
    (flags.set flag on).contains other = if flag = other then on else flags.contains other := by
  cases flag <;> cases other <;> rfl

theorem ext_contains {a b : ChannelFlags} (h : ∀ flag, a.contains flag = b.contains flag) :
    a = b := by
  obtain ⟨a1, a2, a3, a4, a5, a6⟩ := a
  obtain ⟨b1, b2, b3, b4, b5, b6⟩ := b
  have h1 := h .topicProtection
  have h2 := h .noExternalMessages
  have h3 := h .inviteOnly
  have h4 := h .moderated
  have h5 := h .privateChannel
  have h6 := h .secretChannel
  simp only [contains] at h1 h2 h3 h4 h5 h6
  subst h1 h2 h3 h4 h5 h6
  rfl

end ChannelFlags

end IrcClient
