import IrcClient.Proofs.Session.Handle
import IrcClient.Proofs.Session.Report

/-!
# What a line leaves alone

What users do changes the store and perhaps the session's nick, and nothing else of the session. So the
replies that are being received are touched by numerics only, and only by those that belong to them.
-/

namespace IrcClient.Session

variable {s t : Session} {clock : Clock} {line : Line} {raw : String}

/-- A session of which at most the store and the nick have changed. -/
def Amends (s t : Session) : Prop := ∃ store nick, t = { s with store := store, nick := nick }

theorem amends_refl (s : Session) : s.Amends s := ⟨s.store, s.nick, rfl⟩

theorem amends_store (s : Session) (store : Store) : s.Amends { s with store := store } :=
  ⟨store, s.nick, rfl⟩

theorem amends_attempt {α : Type} {result : Except ConsistencyFault α}
    {k : α → Session × List Action} (hfault : s.Amends t) (hk : ∀ a, s.Amends (k a).1) :
    s.Amends (t.attempt result k).session := by
  cases result with
  | ok a => exact hk a
  | error fault => exact hfault

/-! ## Commands -/

theorem amends_onMessage (isNotice : Bool) (source : Hostmask) :
    s.Amends (s.onMessage clock isNotice source line).1 := by
  unfold onMessage
  split
  · rename_i target text _ _
    obtain ⟨store, user, hnoted⟩ := s.noteSpeaker_eq (s.channelOf? target) source
    dsimp only
    rw [hnoted]
    dsimp only
    split
    · split <;> exact amends_store s store
    · exact amends_store s store
  · exact amends_refl s

theorem onJoin_eq (s : Session) (source : Hostmask) (line : Line) :
    ∃ store, (s.onJoin source line).1 = { s with store := store } := by
  unfold onJoin
  split
  · exact ⟨s.store, rfl⟩
  · rename_i t channel asked hentered
    obtain ⟨name, -, hentered⟩ := Option.bind_eq_some_iff.mp hentered
    obtain ⟨⟨store, rfl⟩, -⟩ := enterChannel_eq hentered
    exact ⟨_, rfl⟩

theorem amends_onPart (source : Hostmask) : s.Amends (s.onPart source line).session := by
  unfold onPart
  split
  · dsimp only
    split
    · exact amends_attempt (amends_refl s) fun store => amends_store s store
    · exact amends_refl s
  · exact amends_refl s

theorem amends_onKick (source : Hostmask) : s.Amends (s.onKick source line).session := by
  unfold onKick
  split
  · dsimp only
    split
    · exact amends_store s _
    · exact amends_attempt (amends_store s _) fun store => amends_store s store
  · exact amends_refl s

theorem amends_onNick (source : Hostmask) : s.Amends (s.onNick source line).session := by
  unfold onNick
  split
  · exact amends_refl s
  · exact amends_attempt (amends_refl s) fun store => ⟨store, _, rfl⟩

theorem amends_onInvite (source : Hostmask) : s.Amends (s.onInvite source line).session := by
  unfold onInvite
  split
  · exact amends_refl s
  · dsimp only
    split
    · exact amends_attempt (amends_store s _) fun store => amends_store s store
    · exact amends_store s _

theorem amends_onMode (source : Hostmask) : s.Amends (s.onMode source line).session := by
  unfold onMode
  split
  · dsimp only
    split
    · exact amends_store s _
    · split
      · exact amends_store s _
      · exact amends_attempt (amends_store s _) fun changed => amends_store s changed.1
  · exact amends_refl s

theorem amends_onTopic (source : Hostmask) : s.Amends (s.onTopic clock source line).1 := by
  unfold onTopic
  split
  · exact amends_store s _
  · exact amends_refl s

/-- A line that is no numeric changes the store and the nick at most. -/
theorem amends_dispatch (hcommand : ∀ code, line.verb ≠ .numeric code) :
    s.Amends (s.dispatch clock line).session := by
  unfold dispatch
  split
  · rename_i code hverb
    exact absurd hverb (hcommand code)
  · exact amends_refl s
  · exact amends_refl s
  · exact amends_refl s
  · exact amends_refl s
  · split
    · exact amends_refl s
    · rename_i source _
      split
      · exact amends_onMessage false source
      · exact amends_onMessage true source
      · obtain ⟨store, heq⟩ := s.onJoin_eq source line
        exact ⟨store, s.nick, heq⟩
      · exact amends_onPart source
      · exact amends_attempt (amends_refl s) fun store => amends_store s store
      · exact amends_onKick source
      · exact amends_onNick source
      · exact amends_onMode source
      · exact amends_onTopic source
      · exact amends_onInvite source
      · exact amends_store s _
      · exact amends_refl s

/-- A line that is no numeric changes the store and the nick of a welcomed session at most. -/
theorem amends_handleLine (hregistered : s.isRegistered = true) (hparse : Line.parse raw = .ok line)
    (hcommand : ∀ code, line.verb ≠ .numeric code) (clock : Clock) :
    s.Amends (s.handleLine clock raw).1 := by
  by_cases hping : line.verb = .ping
  · simp only [handleLine, hparse, handle, hping, if_true]
    exact amends_refl s
  · obtain ⟨told, htold, -⟩ := (s.dispatch clock line).report_eq line
    rw [handleLine_eq_dispatch hregistered hparse hping, htold]
    exact amends_dispatch hcommand

/-! ## Numerics -/

/-- The numerics that bring a reply about a nick, and the one that ends it. -/
def whoisCodes : List Nat := [301, 307, 311, 312, 317, 318, 319, 330]

theorem numericEffect_of_mem {code : Nat} (hcode : code ∈ whoisCodes) (s : Session) (line : Line) :
    s.numericEffect code line = s.onWhois code line := by
  simp only [whoisCodes, List.mem_cons, List.not_mem_nil, or_false] at hcode
  rcases hcode with rfl | rfl | rfl | rfl | rfl | rfl | rfl | rfl <;> rfl

/-- Other numerics leave the replies alone. -/
theorem whois_numericEffect {code : Nat} (hother : code ∉ whoisCodes) (line : Line) :
    (s.numericEffect code line).1.whois = s.whois := by
  unfold numericEffect
  split
  · rfl
  · unfold onFeatures
    split <;> rfl
  · rfl
  · rfl
  · rfl
  · unfold onChannelMode
    split <;> rfl
  · unfold onCreationTime
    split <;> rfl
  · unfold onTopicText
    split <;> rfl
  · unfold onTopicSetter
    split <;> rfl
  · unfold onWho
    split
    · rfl
    · dsimp only
      split <;> rfl
  · unfold onListEnd
    split <;> rfl
  · unfold onNames
    split <;> rfl
  · unfold onListEnd
    split <;> rfl
  · rfl
  · rfl
  · rfl
  all_goals first | rfl | simp [whoisCodes] at hother

end IrcClient.Session
