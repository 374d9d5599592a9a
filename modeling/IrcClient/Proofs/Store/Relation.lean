import IrcClient.Proofs.Store.Links

/-!
# Relations in both directions

A sound relation holds the same pairs in both directions. Each operation keeps that, changes exactly
the pairs it names, and finds nothing to fail at.
-/

namespace IrcClient.Relation

variable {r : Relation}

/-- Both directions are tidy and hold the same pairs. -/
structure Sound (r : Relation) : Prop where
  byUser : r.byUser.Tidy
  byChannel : r.byChannel.Tidy
  mirrored : ∀ user channel, r.byUser.has user channel = r.byChannel.has channel user

theorem contains_eq (user : UserId) (channel : ChannelId) :
    r.contains user channel = r.byUser.has user channel := rfl

theorem contains_insert (user user' : UserId) (channel channel' : ChannelId) :
    (r.insert user channel).contains user' channel' = true ↔
      (user' = user ∧ channel' = channel) ∨ r.contains user' channel' = true :=
  Links.has_link user user' channel channel'

namespace Sound

theorem empty : Relation.empty.Sound :=
  ⟨Links.Tidy.empty, Links.Tidy.empty, fun _ _ => rfl⟩

theorem has_byChannel (h : r.Sound) {user : UserId} {channel : ChannelId} :
    r.byChannel.has channel user = true ↔ r.contains user channel = true := by
  rw [← h.mirrored, contains_eq]

theorem mem_channelsOf {user : UserId} {channel : ChannelId} :
    channel ∈ r.channelsOf user ↔ r.contains user channel = true :=
  Links.has_iff.symm

theorem mem_usersOf (h : r.Sound) {user : UserId} {channel : ChannelId} :
    user ∈ r.usersOf channel ↔ r.contains user channel = true :=
  Links.has_iff.symm.trans h.has_byChannel

/-- A user is listed exactly while it has a pair. -/
theorem hasUser_iff (h : r.Sound) (user : UserId) :
    r.hasUser user = true ↔ ∃ channel, r.contains user channel = true :=
  h.byUser.contains_iff user

theorem disagreement?_eq_none (h : r.Sound) : r.disagreement? = none := by
  have hforward : (r.byUser.pairs.find? fun pair => !r.byChannel.has pair.2 pair.1) = none := by
    rw [List.find?_eq_none]
    rintro ⟨user, channel⟩ hpair
    simpa [← h.mirrored] using Links.mem_pairs.mp hpair
  have hbackward : (r.byChannel.pairs.find? fun pair => !r.byUser.has pair.2 pair.1) = none := by
    rw [List.find?_eq_none]
    rintro ⟨channel, user⟩ hpair
    simpa [h.mirrored] using Links.mem_pairs.mp hpair
  rw [disagreement?, hforward, hbackward]
  rfl

theorem insert (h : r.Sound) (user : UserId) (channel : ChannelId) :
    (r.insert user channel).Sound := by
  refine ⟨h.byUser.link user channel, h.byChannel.link channel user, ?_⟩
  intro user' channel'
  rw [Bool.eq_iff_iff, Relation.insert, Links.has_link, Links.has_link, h.mirrored]
  tauto

end Sound

/-- An operation that never fails on a sound relation and takes away exactly the pairs in `gone`. -/
def Drops (f : Relation → Except Pair Relation) (gone : UserId → ChannelId → Prop) : Prop :=
  ∀ r : Relation, r.Sound → ∃ r' : Relation, f r = .ok r' ∧ r'.Sound ∧
    ∀ user channel, r'.contains user channel = true ↔
      r.contains user channel = true ∧ ¬ gone user channel

theorem drops_remove (user : UserId) (channel : ChannelId) :
    Drops (fun r => r.remove user channel) fun user' channel' => user' = user ∧ channel' = channel := by
  intro r h
  refine ⟨⟨r.byUser.unlink user channel, r.byChannel.unlink channel user⟩, ?_, ?_, ?_⟩
  · exact if_pos (h.mirrored user channel)
  · refine ⟨h.byUser.unlink user channel, h.byChannel.unlink channel user, ?_⟩
    intro user' channel'
    rw [Bool.eq_iff_iff, Links.has_unlink, Links.has_unlink, h.mirrored]
    tauto
  · exact fun user' channel' => Links.has_unlink user user' channel channel'

theorem drops_removeUser (user : UserId) :
    Drops (fun r => r.removeUser user) fun user' _ => user' = user := by
  intro r h
  have hlinked : ∀ channel ∈ r.channelsOf user, r.byChannel.has channel user = true :=
    fun channel hchannel => h.has_byChannel.mpr (Sound.mem_channelsOf.mp hchannel)
  obtain ⟨byChannel, hok, htidy, hhas⟩ :=
    Links.unlinkAll_spec user (h.byUser.nodup_of user) h.byChannel hlinked
  refine ⟨⟨r.byUser.erase user, byChannel⟩, ?_, ⟨h.byUser.erase user, htidy, ?_⟩, ?_⟩
  · simp only [removeUser, channelsOf, hok]
  · intro user' channel'
    rw [Bool.eq_iff_iff, Links.has_erase, hhas, ← h.mirrored, ← Links.has_iff]
    constructor
    · rintro ⟨hpair, hne⟩
      exact ⟨hpair, fun hgone => hne hgone.2⟩
    · rintro ⟨hpair, hkept⟩
      exact ⟨hpair, fun heq => hkept ⟨heq ▸ hpair, heq⟩⟩
  · exact fun user' channel' => Links.has_erase user user' channel'

theorem drops_removeChannel (channel : ChannelId) :
    Drops (fun r => r.removeChannel channel) fun _ channel' => channel' = channel := by
  intro r h
  have hlinked : ∀ user ∈ r.usersOf channel, r.byUser.has user channel = true :=
    fun user huser => h.mem_usersOf.mp huser
  obtain ⟨byUser, hok, htidy, hhas⟩ :=
    Links.unlinkAll_spec channel (h.byChannel.nodup_of channel) h.byUser hlinked
  have hkept (user' : UserId) (channel' : ChannelId) :
      byUser.has user' channel' = true ↔ r.contains user' channel' = true ∧ channel' ≠ channel := by
    rw [hhas, ← Links.has_iff, h.has_byChannel, contains_eq]
    constructor
    · rintro ⟨hpair, hkeep⟩
      exact ⟨hpair, fun heq => hkeep ⟨heq ▸ hpair, heq⟩⟩
    · rintro ⟨hpair, hne⟩
      exact ⟨hpair, fun hgone => hne hgone.2⟩
  refine ⟨⟨byUser, r.byChannel.erase channel⟩, ?_, ⟨htidy, h.byChannel.erase channel, ?_⟩, hkept⟩
  · simp only [removeChannel, usersOf, hok]
  · intro user' channel'
    rw [Bool.eq_iff_iff, Links.has_erase, hkept, h.has_byChannel]

end IrcClient.Relation
