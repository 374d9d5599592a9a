import IrcClient.Proofs.Session.Hearing
import IrcClient.Store.ModeQuery

/-!
# Mode texts and what is known beside them

A mode text that is not stale can be relied on: all that was heard of the mode since it was told has
been worked into it. The flags, the key and the limit of a channel are another record of the same news.
The two agree as long as letters are left in front of the arguments. A text that has run out of letters
keeps their arguments, which read like letters.
-/

namespace IrcClient.Session

variable {config : ClientConfig} {id : ChannelId} {s : Session} {past : List ModeNews}
  {channel : Channel}

namespace Heard

theorem publishes (h : Heard config id s past) (hchannel : s.store.channels.get? id = some channel) :
    channel.Publishes := by
  have hsame := h.sameModes hchannel
  have hpublishes := (Channel.publishes_new id "").foldl_hear past
  rwa [Channel.Publishes, ← hsame.published, ← hsame.stale, ← hsame.mode] at hpublishes

theorem fresh_iff (h : Heard config id s past) (hchannel : s.store.channels.get? id = some channel) :
    channel.stale = false ↔ ∃ told changes, Vouches past told changes := by
  rw [(h.sameModes hchannel).stale]
  exact Vouches.fresh_iff past id ""

theorem follows (h : Heard config id s past) (hchannel : s.store.channels.get? id = some channel)
    {told : String} {changes : List String} (hvouches : Vouches past told changes) :
    channel.Follows told changes := by
  have hsame := h.sameModes hchannel
  obtain ⟨hfresh, hmode, htraits⟩ := hvouches.follows (.new id "")
  exact ⟨hsame.stale.trans hfresh, hsame.mode.trans hmode, hsame.traits.trans htraits⟩

/-- A stale text becomes fresh with the reply that tells the whole mode, and with no other input. -/
theorem told_of_fresh (h : Heard config id s past) (hchannel : s.store.channels.get? id = some channel)
    (hstale : channel.stale = true) {input : Input} {after : Channel}
    (hafter : (s.receive input).store.channels.get? id = some after) (hfresh : after.stale = false) :
    s.newsOf input id = some (.told after.mode) := by
  have hnext := h.receive input
  rw [pastAfter, if_pos ((Table.contains_iff _ _).mpr ⟨after, hafter⟩)] at hnext
  have hsame := hnext.sameModes hafter
  rw [List.foldl_append] at hsame
  have hbefore : (past.foldl Channel.hear (.new id "")).stale = true :=
    (h.sameModes hchannel).stale.symm.trans hstale
  cases hnews : s.newsOf input id with
  | none =>
    rw [hnews] at hsame
    exact absurd (hsame.stale.symm.trans hfresh) (by simp [hbefore])
  | some news =>
    rw [hnews] at hsame
    cases news with
    | told mode =>
      rw [hsame.mode]
      rfl
    | changed modes args =>
      obtain ⟨hbefore', -⟩ := Channel.stale_hear_changed.mp (hsame.stale.symm.trans hfresh)
      exact absurd hbefore' (by simp [hbefore])

end Heard

/-! ## Texts that can be relied on -/

/-- Some inputs lead to a session, and whatever was heard on the way vouches for a mode of a channel. -/
def Attests (config : ClientConfig) (s : Session) (id : ChannelId) (mode : String) : Prop :=
  Reachable config s ∧ ∀ past, Heard config id s past →
    ∃ told changes, Vouches past told changes ∧ mode = changes.foldl mergeMode told

theorem attests_iff (hs : Reachable config s) {mode : String} :
    Attests config s id mode ↔
      ∃ channel, s.store.channels.get? id = some channel ∧ channel.stale = false ∧
        channel.mode = mode := by
  constructor
  · rintro ⟨-, hattests⟩
    obtain ⟨past, hpast⟩ := Heard.of_reachable hs id
    obtain ⟨told, changes, hvouches, rfl⟩ := hattests past hpast
    cases hchannel : s.store.channels.get? id with
    | none =>
      obtain ⟨⟨earlier, hpast'⟩, -⟩ := hvouches
      rw [hpast.eq_nil hchannel] at hpast'
      simp at hpast'
    | some channel =>
      obtain ⟨hfresh, hmode, -⟩ := hpast.follows hchannel hvouches
      exact ⟨channel, rfl, hfresh, hmode⟩
  · rintro ⟨channel, hchannel, hfresh, rfl⟩
    refine ⟨hs, fun past hpast => ?_⟩
    obtain ⟨told, changes, hvouches⟩ := (hpast.fresh_iff hchannel).mp hfresh
    exact ⟨told, changes, hvouches, (hpast.follows hchannel hvouches).mode⟩

theorem attests_of_published (hs : Reachable config s)
    (hchannel : s.store.channels.get? id = some channel) {mode : String}
    (hpublished : channel.published = some mode) : Attests config s id mode := by
  obtain ⟨past, hpast⟩ := Heard.of_reachable hs id
  have hpublishes := hpast.publishes hchannel
  rw [Channel.Publishes, hpublished] at hpublishes
  split at hpublishes
  · cases hpublishes
  · rename_i hfresh
    cases hpublishes
    exact (attests_iff hs).mpr ⟨channel, hchannel, Bool.eq_false_iff.mpr hfresh, rfl⟩

/-- A mode is known at once exactly if it can be relied on. -/
theorem modeQuery_eq_known_iff (hs : Reachable config s) {name mode : String} :
    s.store.modeQuery name = some (.known mode) ↔
      ∃ id, s.store.channelId? name = some id ∧ Attests config s id mode := by
  simp only [attests_iff hs, Store.modeQuery, Store.channel?, Option.map_eq_some_iff,
    Option.bind_eq_some_iff]
  constructor
  · rintro ⟨channel, ⟨id, hid, hchannel⟩, hanswer⟩
    split at hanswer
    · cases hanswer
    · rename_i hfresh
      cases hanswer
      exact ⟨id, hid, channel, hchannel, Bool.eq_false_iff.mpr hfresh, rfl⟩
  · rintro ⟨id, hid, channel, hchannel, hfresh, rfl⟩
    exact ⟨channel, ⟨id, hid, hchannel⟩, by rw [hfresh]; rfl⟩

/-! ## What the text says -/

/-- What is known beside a fresh text is what was told and changed letter by letter. The text says the
same, unless it begins with a space: then it says what its arguments say when read as letters, if it
has run out of letters, and what it was told is forgotten, if letters were added to such a text. -/
theorem traits_beside_text (h : Heard config id s past)
    (hchannel : s.store.channels.get? id = some channel) :
    (channel.stale = false ↔ ∃ told changes, Vouches past told changes) ∧
    ∀ told changes, Vouches past told changes →
      channel.toModeTraits = changes.foldl ModeTraits.after (ModeTraits.read told) ∧
      (told.toList.head? ≠ some ' ' →
        (ModeTraits.read channel.mode = channel.toModeTraits ↔
          (channel.mode.toList.head? = some ' ' → ModeTraits.read channel.mode = {}))) ∧
      (told.toList.head? = some ' ' →
        ModeTraits.read channel.mode =
          if channel.mode.toList.head? = some ' ' then ModeTraits.read told
          else changes.foldl ModeTraits.after {}) := by
  refine ⟨h.fresh_iff hchannel, fun told changes hvouches => ?_⟩
  obtain ⟨-, hmode, htraits⟩ := h.follows hchannel hvouches
  refine ⟨htraits, ?_, ?_⟩
  · intro htold
    rw [hmode, htraits, eq_comm]
    exact ModeText.foldl_after_eq_read_iff hvouches.2 htold
  · intro htold
    rw [hmode]
    exact ModeText.read_after_blank hvouches.2 htold

/-- A limited channel with a key is told whole, and then its flags change. -/
theorem traits_beside_text_limited :
    let clock : Clock := ⟨⟨0, 0⟩, ""⟩
    let config := { ClientConfig.standard "irc.example.net" "bot" with capEnabled := false }
    let inputs := [":irc 001 bot :Welcome", ":bot!b@h JOIN #c", ":irc 324 bot #c +nkl key 5",
      ":op!o@h MODE #c +m-n"].map (.line clock)
    ∃ channel, ((opened config).run inputs).store.channel? "#c" = some channel ∧
      channel.stale = false ∧ channel.mode = "+klm key 5" ∧
      ModeTraits.read channel.mode = channel.toModeTraits := by
  intro clock config inputs
  have hvouches : Vouches (pastAfterAll ⟨2⟩ (opened config) [] inputs) "+nkl key 5" ["+m-n"] :=
    ⟨⟨[], by decide +kernel⟩, by decide, trivial⟩
  have htext : (((opened config).run inputs).store.channel? "#c").map (·.mode) =
      some "+klm key 5" := by decide +kernel
  obtain ⟨channel, hchannel, hmode⟩ := Option.map_eq_some_iff.mp htext
  have hknown : ((opened config).run inputs).store.channels.get? ⟨2⟩ = some channel := by
    rw [← hchannel]
    decide +kernel
  obtain ⟨hfresh, hread⟩ := traits_beside_text (Heard.opened.run inputs) hknown
  obtain ⟨-, hagree, -⟩ := hread _ _ hvouches
  refine ⟨channel, hchannel, hfresh.mpr ⟨_, _, hvouches⟩, hmode, ?_⟩
  refine (hagree (by decide)).mpr fun hblank => absurd hblank ?_
  rw [hmode]
  decide

/-- The argument of a letter that is taken away is left in the text, which then reads like letters. -/
theorem argument_left_behind :
    let clock : Clock := ⟨⟨0, 0⟩, ""⟩
    let config := { ClientConfig.standard "irc.example.net" "bot" with capEnabled := false }
    let s := (opened config).run ([":irc 001 bot :Welcome", ":bot!b@h JOIN #c",
      ":irc 324 bot #c +L #spam", ":op!o@h MODE #c -L"].map (.line clock))
    ∃ channel, s.store.channel? "#c" = some channel ∧ channel.stale = false ∧
      channel.mode = " #spam" ∧ channel.toModeTraits = {} ∧
      ModeTraits.read channel.mode ≠ channel.toModeTraits := by
  refine ⟨_, rfl, ?_⟩
  decide +kernel

end IrcClient.Session
