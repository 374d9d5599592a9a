import Mathlib.Data.List.Induction
import IrcClient.Proofs.Mode.Apply
import IrcClient.Proofs.Mode.Text

/-!
# What a channel has heard about its mode

All that a channel knows of its mode, it knows from the news about it: the server told the whole mode,
or some modes changed. Its text can be relied on exactly if the whole mode was told, and no news since
then had to do with arguments that the text cannot be kept right for.
-/

namespace IrcClient

/-- What may be heard about the mode of a channel. -/
inductive ModeNews where
  /-- The whole mode was told. -/
  | told (mode : String)
  /-- Some modes changed, perhaps with arguments. -/
  | changed (modes : String) (args : List String)
  deriving DecidableEq, Repr

namespace Channel

variable {channel other : Channel} {news : ModeNews} {modes : String} {args : List String}

def amendTraits (channel : Channel) (changes : List ModeChange) : Channel :=
  { channel with toModeTraits := changes.foldl ModeTraits.amend channel.toModeTraits }

/-- A channel after some news about its mode. -/
def hear (channel : Channel) : ModeNews → Channel
  | .told mode => channel.withMode mode
  | .changed modes args =>
    (channel.amendTraits (ModeChange.read modes args)).amendMode (modeText modes args)

/-- Of two channels, the same is known about the mode. -/
structure SameModes (channel other : Channel) : Prop where
  traits : channel.toModeTraits = other.toModeTraits
  mode : channel.mode = other.mode
  stale : channel.stale = other.stale
  published : channel.published = other.published

theorem SameModes.refl (channel : Channel) : channel.SameModes channel := ⟨rfl, rfl, rfl, rfl⟩

theorem SameModes.trans {third : Channel} (h : channel.SameModes other)
    (h' : other.SameModes third) : channel.SameModes third :=
  ⟨h.traits.trans h'.traits, h.mode.trans h'.mode, h.stale.trans h'.stale,
    h.published.trans h'.published⟩

theorem SameModes.amendMode (h : channel.SameModes other) (change : String) :
    (channel.amendMode change).SameModes (other.amendMode change) := by
  unfold Channel.amendMode
  rw [h.stale, h.mode]
  split
  · exact h
  · split
    · exact ⟨h.traits, h.mode, rfl, rfl⟩
    · exact ⟨h.traits, rfl, rfl, rfl⟩

theorem SameModes.hear (h : channel.SameModes other) (news : ModeNews) :
    (channel.hear news).SameModes (other.hear news) := by
  cases news with
  | told mode => exact ⟨rfl, rfl, rfl, rfl⟩
  | changed modes args =>
    have hamended : (channel.amendTraits (ModeChange.read modes args)).SameModes
        (other.amendTraits (ModeChange.read modes args)) :=
      ⟨by simp only [amendTraits, h.traits], h.mode, h.stale, h.published⟩
    exact hamended.amendMode _

theorem SameModes.foldl_hear (h : channel.SameModes other) (past : List ModeNews) :
    (past.foldl Channel.hear channel).SameModes (past.foldl Channel.hear other) := by
  induction past generalizing channel other with
  | nil => exact h
  | cons news past ih => exact ih (h.hear news)

/-! ## Published texts -/

/-- A channel publishes its text, unless that is stale. -/
def Publishes (channel : Channel) : Prop :=
  channel.published = if channel.stale then none else some channel.mode

theorem publishes_new (id : ChannelId) (name : String) : (new id name).Publishes := rfl

theorem Publishes.amendMode (h : channel.Publishes) (change : String) :
    (channel.amendMode change).Publishes := by
  unfold Channel.amendMode
  split
  · exact h
  · rename_i hfresh
    split
    · rfl
    · simp [Publishes, hfresh]

theorem Publishes.hear (h : channel.Publishes) (news : ModeNews) : (channel.hear news).Publishes := by
  cases news with
  | told mode => rfl
  | changed modes args =>
    have hamended : (channel.amendTraits (ModeChange.read modes args)).Publishes := h
    exact hamended.amendMode _

theorem Publishes.foldl_hear (h : channel.Publishes) (past : List ModeNews) :
    (past.foldl Channel.hear channel).Publishes := by
  induction past generalizing channel with
  | nil => exact h
  | cons news past ih => exact ih (h.hear news)

/-! ## Fresh texts -/

theorem mem_modeText {c : Char} (h : c ∈ modes.toList) (args : List String) :
    c ∈ (modeText modes args).toList := by
  unfold modeText
  induction args generalizing modes with
  | nil => exact h
  | cons arg args ih =>
    apply ih
    simp [h]

theorem entangled_modeText {mode : String} :
    entangled mode (modeText modes args) = false ↔ args = [] ∧ entangled mode modes = false := by
  cases args with
  | nil => simp [modeText]
  | cons arg args =>
    have hjoined : ' ' ∈ (modes ++ " " ++ arg).toList := by simp
    have hspace : ' ' ∈ (modeText modes (arg :: args)).toList := mem_modeText hjoined args
    simp [entangled, hspace]

theorem stale_amendMode {change : String} :
    (channel.amendMode change).stale = false ↔
      channel.stale = false ∧ entangled channel.mode change = false := by
  unfold amendMode
  split
  · rename_i hstale
    simp [hstale]
  · rename_i hfresh
    split
    · rename_i hentangled
      simp [markStale, hentangled]
    · rename_i hfits
      simp [hfresh, hfits]

/-- A change leaves a text fresh only if it can be worked into it, which one with arguments cannot. -/
theorem stale_hear_changed :
    (channel.hear (.changed modes args)).stale = false ↔
      channel.stale = false ∧ args = [] ∧ entangled channel.mode modes = false := by
  rw [← entangled_modeText]
  exact stale_amendMode

theorem hear_changed (hfresh : channel.stale = false)
    (hfits : entangled channel.mode modes = false) :
    (channel.hear (.changed modes [])).mode = mergeMode channel.mode modes ∧
      (channel.hear (.changed modes [])).toModeTraits = channel.toModeTraits.after modes := by
  have hstale : ¬ (channel.amendTraits (ModeChange.read modes [])).stale = true := by
    simpa [amendTraits] using hfresh
  have hentangled : ¬ entangled (channel.amendTraits (ModeChange.read modes [])).mode
      (modeText modes []) = true := by
    simpa [amendTraits, modeText] using hfits
  rw [hear, Channel.amendMode, if_neg hstale, if_neg hentangled]
  exact ⟨rfl, rfl⟩

/-- What is known of a channel that has heard nothing but some changes since it was told the whole
mode. -/
structure Follows (channel : Channel) (told : String) (changes : List String) : Prop where
  fresh : channel.stale = false
  mode : channel.mode = changes.foldl mergeMode told
  traits : channel.toModeTraits = changes.foldl ModeTraits.after (ModeTraits.read told)

theorem follows_told (channel : Channel) (told : String) :
    (channel.hear (.told told)).Follows told [] :=
  ⟨rfl, rfl, rfl⟩

theorem Follows.hear {told : String} {changes : List String} (h : channel.Follows told changes)
    (hfits : entangled (changes.foldl mergeMode told) modes = false) :
    (channel.hear (.changed modes [])).Follows told (changes ++ [modes]) := by
  rw [← h.mode] at hfits
  obtain ⟨hmode, htraits⟩ := hear_changed h.fresh hfits
  refine ⟨stale_hear_changed.mpr ⟨h.fresh, rfl, hfits⟩, ?_, ?_⟩
  · rw [hmode, h.mode, List.foldl_append, List.foldl_cons, List.foldl_nil]
  · rw [htraits, h.traits, List.foldl_append, List.foldl_cons, List.foldl_nil]

end Channel

/-! ## Histories -/

/-- A history that ends with the whole mode told, and some changes that can be worked into its text one
after the other. -/
def Vouches (past : List ModeNews) (told : String) (changes : List String) : Prop :=
  (∃ earlier, past = earlier ++ .told told :: changes.map fun change => .changed change []) ∧
    ModeText.Fits told changes

namespace Vouches

variable {past : List ModeNews} {told : String} {changes : List String}

theorem follows (h : Vouches past told changes) (channel : Channel) :
    (past.foldl Channel.hear channel).Follows told changes := by
  obtain ⟨⟨earlier, rfl⟩, hfits⟩ := h
  rw [List.foldl_append, List.foldl_cons]
  generalize earlier.foldl Channel.hear channel = channel
  induction changes using List.reverseRecOn with
  | nil => exact Channel.follows_told channel told
  | append_singleton changes change ih =>
    obtain ⟨hfits, hlast⟩ := ModeText.fits_concat.mp hfits
    rw [List.map_append, List.foldl_append]
    exact (ih hfits).hear hlast

/-- A text is fresh exactly if its history vouches for it. -/
theorem fresh_iff (past : List ModeNews) (id : ChannelId) (name : String) :
    (past.foldl Channel.hear (.new id name)).stale = false ↔
      ∃ told changes, Vouches past told changes := by
  constructor
  · induction past using List.reverseRecOn with
    | nil => exact nofun
    | append_singleton past news ih =>
      rw [List.foldl_append, List.foldl_cons, List.foldl_nil]
      intro hafter
      cases news with
      | told mode => exact ⟨mode, [], ⟨past, rfl⟩, trivial⟩
      | changed modes args =>
        obtain ⟨hbefore, rfl, hfits⟩ := Channel.stale_hear_changed.mp hafter
        obtain ⟨told, changes, hvouches⟩ := ih hbefore
        rw [(hvouches.follows _).mode] at hfits
        obtain ⟨⟨earlier, rfl⟩, hchanges⟩ := hvouches
        refine ⟨told, changes ++ [modes], ⟨earlier, ?_⟩, ModeText.fits_concat.mpr ⟨hchanges, hfits⟩⟩
        simp
  · rintro ⟨told, changes, hvouches⟩
    exact (hvouches.follows _).fresh

end Vouches

/-! ## Stores -/

namespace Store

variable {s s' s₁ : Store} {news : ChannelId → Option ModeNews} {id : ChannelId}

/-- The channel of an id, or one of which nothing is known. -/
def lastKnown (s : Store) (id : ChannelId) : Channel := (s.channels.get? id).getD (.new id "")

/-- A store in place of another, after at most some news about the mode of each channel. Channels may
have been forgotten, and nothing is known about new ones. -/
def Hears (s s' : Store) (news : ChannelId → Option ModeNews) : Prop :=
  ∀ id channel, s'.channels.get? id = some channel →
    channel.SameModes ((news id).toList.foldl Channel.hear (s.lastKnown id))

/-- A store in place of another, without news about any mode. -/
def KeepsModes (s s' : Store) : Prop := s.Hears s' fun _ => none

theorem lastKnown_of_get? {channel : Channel} (h : s.channels.get? id = some channel) :
    s.lastKnown id = channel := by
  rw [lastKnown, h, Option.getD_some]

theorem keepsModes_of_subset
    (h : ∀ id channel, s'.channels.get? id = some channel → s.channels.get? id = some channel) :
    s.KeepsModes s' := by
  intro id channel hchannel
  rw [lastKnown_of_get? (h id channel hchannel)]
  exact .refl channel

theorem keepsModes_of_eq (h : s'.channels = s.channels) : s.KeepsModes s' :=
  keepsModes_of_subset fun _ _ hchannel => h ▸ hchannel

theorem Hears.of_channels (h : s₁.Hears s' news) (hchannels : s₁.channels = s.channels) :
    s.Hears s' news := by
  intro id channel hchannel
  have hhears := h id channel hchannel
  rwa [lastKnown, hchannels] at hhears

theorem Hears.with_channels (h : s.Hears s₁ news) (hchannels : s'.channels = s₁.channels) :
    s.Hears s' news :=
  fun id channel hchannel => h id channel (hchannels ▸ hchannel)

theorem hears_modifyChannel (id : ChannelId) {f : Channel → Channel}
    (hf : ∀ channel, (f channel).SameModes ((news id).toList.foldl Channel.hear channel))
    (hother : ∀ other, other ≠ id → news other = none) : s.Hears (s.modifyChannel id f) news := by
  intro other channel hchannel
  simp only [modifyChannel, Table.get?_modify] at hchannel
  split at hchannel
  · rename_i heq
    subst heq
    obtain ⟨before, hbefore, rfl⟩ := Option.map_eq_some_iff.mp hchannel
    rw [lastKnown_of_get? hbefore]
    exact hf before
  · rename_i hne
    rw [hother other (Ne.symm hne), lastKnown_of_get? hchannel]
    exact .refl channel

theorem keepsModes_modifyChannel (id : ChannelId) {f : Channel → Channel}
    (hf : ∀ channel, (f channel).SameModes channel) : s.KeepsModes (s.modifyChannel id f) :=
  hears_modifyChannel id hf fun _ _ => rfl

/-- A channel that becomes known has heard nothing. -/
theorem Grounded.keepsModes_trackChannel (h : s.Grounded) (name : String) :
    s.KeepsModes (s.trackChannel name).1 := by
  unfold Store.trackChannel
  split
  · exact keepsModes_of_eq rfl
  · intro id channel hchannel
    simp only [Table.get?_insert] at hchannel
    split at hchannel
    · rename_i hid
      cases hchannel
      have hblank : s.lastKnown id = .new id "" := by
        rw [lastKnown, ← hid, h.fresh_channel, Option.getD_none]
      rw [hblank]
      exact ⟨rfl, rfl, rfl, rfl⟩
    · rw [lastKnown_of_get? hchannel]
      exact .refl channel

theorem channels_grantAll (levels : List PrivilegeLevel) (user : UserId) (channel : ChannelId) :
    (s.grantAll levels user channel).channels = s.channels := by
  unfold grantAll
  induction levels generalizing s with
  | nil => rfl
  | cons level levels ih => rw [List.foldl_cons, ih, grant]

/-! ## Operations that may fail -/

theorem channels_collect (id : UserId) : (s.collect id).channels = s.channels := by
  unfold collect
  split <;> simp

theorem channels_foldl_collect (ids : List UserId) :
    (ids.foldl collect s).channels = s.channels := by
  induction ids generalizing s with
  | nil => rfl
  | cons id ids ih => rw [List.foldl_cons, ih, channels_collect]

theorem channels_settle {result : Except Disagreement Standing} (h : s.settle result = .ok s') :
    s'.channels = s.channels := by
  unfold settle at h
  split at h
  · cases h
    rfl
  · cases h

theorem channels_removeUser {user : UserId} (h : s.removeUser user = .ok s') :
    s'.channels = s.channels := by
  obtain ⟨settled, hsettled, h⟩ := ModeChange.bind_eq_ok_iff.mp h
  cases h
  have hchannels := channels_settle hsettled
  rwa [channels_forgetUser]

theorem channels_evictOther {user : UserId} {nick : String} (h : s.evictOther user nick = .ok s') :
    s'.channels = s.channels := by
  unfold evictOther at h
  split at h
  · split at h
    · cases h
      rfl
    · exact channels_removeUser h
  · cases h
    rfl

theorem channels_renameUser {user : UserId} {nick : String} (h : s.renameUser user nick = .ok s') :
    s'.channels = s.channels := by
  unfold renameUser at h
  split at h
  · cases h
    rfl
  · obtain ⟨cleared, hcleared, h⟩ := ModeChange.bind_eq_ok_iff.mp h
    cases h
    have hchannels := channels_evictOther hcleared
    exact hchannels

theorem channels_removeMember {user : UserId} (h : s.removeMember user id = .ok s') :
    s'.channels = s.channels := by
  obtain ⟨settled, hsettled, h⟩ := ModeChange.bind_eq_ok_iff.mp h
  cases h
  rw [channels_collect]
  exact channels_settle hsettled

theorem get?_channels_removeChannel (h : s.removeChannel id = .ok s') {other : ChannelId}
    {channel : Channel} (hchannel : s'.channels.get? other = some channel) :
    s.channels.get? other = some channel := by
  obtain ⟨settled, hsettled, h⟩ := ModeChange.bind_eq_ok_iff.mp h
  cases h
  rw [channels_foldl_collect] at hchannel
  rw [← channels_settle hsettled]
  unfold forgetChannel at hchannel
  split at hchannel
  · rw [Table.get?_erase] at hchannel
    split at hchannel
    · cases hchannel
    · exact hchannel
  · exact hchannel

/-! ## Changes of modes -/

section Modes

variable {source : UserSnapshot} {events : List Event}

theorem channels_applyPrivilege {level : PrivilegeLevel} {nick : String} {adding : Bool}
    {recipient : UserSnapshot}
    (h : ModeChange.applyPrivilege s id level nick adding = .ok (s', recipient)) :
    s'.channels = s.channels := by
  unfold ModeChange.applyPrivilege at h
  cases adding with
  | true =>
    cases h
    exact channels_trackUser _
  | false =>
    dsimp only at h
    split at h
    · contradiction
    · split at h
      · obtain ⟨revoked, hrevoked, h⟩ := ModeChange.bind_eq_ok_iff.mp h
        cases h
        exact channels_settle hrevoked
      · cases h
        rfl

/-- A letter of a change amends the traits of the channel, and of no other. -/
theorem get?_channels_apply {change : ModeChange} (h : change.apply id source s = .ok (s', events))
    (other : ChannelId) :
    s'.channels.get? other =
      if id = other then (s.channels.get? other).map (·.amendTraits [change])
      else s.channels.get? other := by
  -- Either the letter leaves all traits alone and no channel changes, or the channel is modified.
  have hkept (hamend : ∀ traits : ModeTraits, traits.amend change = traits)
      (hchannels : s'.channels = s.channels) : s'.channels.get? other =
        if id = other then (s.channels.get? other).map (·.amendTraits [change])
        else s.channels.get? other := by
    have hsame (channel : Channel) : channel.amendTraits [change] = channel := by
      simp [Channel.amendTraits, hamend]
    simp [hchannels, hsame]
  have hmodified {f : Channel → Channel} (hf : ∀ channel, f channel = channel.amendTraits [change])
      (hchannels : s'.channels = s.channels.modify id f) : s'.channels.get? other =
        if id = other then (s.channels.get? other).map (·.amendTraits [change])
        else s.channels.get? other := by
    rw [hchannels, Table.get?_modify, funext hf]
  unfold ModeChange.apply at h
  split at h
  · rename_i level heffect
    have hamend (traits : ModeTraits) : traits.amend change = traits := by
      simp only [ModeTraits.amend, heffect]
    split at h
    · cases h
      exact hkept hamend rfl
    · obtain ⟨⟨s₁, recipient⟩, happlied, h⟩ := ModeChange.bind_eq_ok_iff.mp h
      cases h
      exact hkept hamend (channels_applyPrivilege happlied)
  · rename_i heffect
    cases h
    exact hmodified (fun _ => by simp [Channel.amendTraits, ModeTraits.amend, heffect]) rfl
  · rename_i heffect
    split at h
    · rename_i hadding
      split at h
      · rename_i hlimit
        cases h
        exact hkept (fun _ => by simp [ModeTraits.amend, heffect, hadding, hlimit]) rfl
      · rename_i limit hlimit
        cases h
        exact hmodified (fun _ => by
          simp [Channel.amendTraits, ModeTraits.amend, heffect, hadding, hlimit]) rfl
    · rename_i hremoving
      cases h
      exact hmodified (fun _ => by
        simp [Channel.amendTraits, ModeTraits.amend, heffect, hremoving]) rfl
  · rename_i heffect
    cases h
    exact hkept (fun _ => by simp only [ModeTraits.amend, heffect]) rfl
  · rename_i flag heffect
    cases h
    exact hmodified (fun _ => by
      simp [Channel.amendTraits, ModeTraits.amend, heffect, Channel.withFlag]) rfl

theorem get?_channels_applyAll {changes : List ModeChange}
    (h : ModeChange.applyAll id source s changes = .ok (s', events)) (other : ChannelId) :
    s'.channels.get? other =
      if id = other then (s.channels.get? other).map (·.amendTraits changes)
      else s.channels.get? other := by
  induction changes generalizing s events with
  | nil =>
    cases h
    simp [Channel.amendTraits]
  | cons change changes ih =>
    obtain ⟨⟨s₁, first⟩, hfirst, h⟩ := ModeChange.bind_eq_ok_iff.mp h
    obtain ⟨⟨s₂, rest⟩, hrest, h⟩ := ModeChange.bind_eq_ok_iff.mp h
    cases h
    rw [ih hrest, get?_channels_apply hfirst]
    split
    · rw [Option.map_map]
      rfl
    · rfl

/-- A line of mode changes is news about one channel. -/
theorem hears_applyModes {modes : String} {args : List String}
    (h : s.applyModes id source modes args = .ok (s', events)) :
    s.Hears s' fun other => if id = other then some (.changed modes args) else none := by
  obtain ⟨⟨s₁, events₁⟩, happlied, h⟩ := ModeChange.bind_eq_ok_iff.mp h
  cases h
  have hchannels := get?_channels_applyAll happlied
  intro other channel hchannel
  simp only [modifyChannel, Table.get?_modify, hchannels] at hchannel
  split at hchannel
  · rename_i heq
    rw [Option.map_map] at hchannel
    obtain ⟨before, hbefore, rfl⟩ := Option.map_eq_some_iff.mp hchannel
    beta_reduce
    rw [if_pos heq, lastKnown_of_get? hbefore]
    exact .refl _
  · rename_i hne
    beta_reduce
    rw [if_neg hne, lastKnown_of_get? hchannel]
    exact .refl channel

end Modes

end Store

end IrcClient
