import IrcClient.Proofs.Store.Relation

/-!
# Memberships and privileges together

In sound relations whoever holds a privilege on a channel is on it. Operations that take pairs away
are told apart only by which pairs those are (`Sheds`).
-/

namespace IrcClient.Standing

variable {s s' : Standing}

/-- All six relations are sound, and privileges are held by members only. -/
structure Sound (s : Standing) : Prop where
  members : s.members.Sound
  levels : ∀ level, (s.levels.get level).Sound
  member_of_holds : ∀ {level user channel}, s.holds level user channel = true →
    s.members.contains user channel = true

/-- `s'` holds the pairs of `s` without those in `gone`, in every relation. -/
structure Sheds (s s' : Standing) (gone : UserId → ChannelId → Prop) : Prop where
  members : ∀ user channel, s'.members.contains user channel = true ↔
    s.members.contains user channel = true ∧ ¬ gone user channel
  holds : ∀ level user channel, s'.holds level user channel = true ↔
    s.holds level user channel = true ∧ ¬ gone user channel

namespace Sound

theorem empty : Standing.empty.Sound where
  members := Relation.Sound.empty
  levels level := by simpa [Standing.empty] using Relation.Sound.empty
  member_of_holds {level user channel} h := by
    simp [Standing.empty, holds, Relation.contains, Relation.empty, Links.has, Links.of] at h

/-- A user is in one of the relations exactly while it is on a channel. -/
theorem hasUser_iff (h : s.Sound) (user : UserId) :
    s.hasUser user = true ↔ ∃ channel, s.members.contains user channel = true := by
  rw [hasUser, Bool.or_eq_true, List.any_eq_true, h.members.hasUser_iff]
  constructor
  · rintro (hmember | ⟨level, -, hlevel⟩)
    · exact hmember
    · obtain ⟨channel, hholds⟩ := ((h.levels level).hasUser_iff user).mp hlevel
      exact ⟨channel, h.member_of_holds hholds⟩
  · exact Or.inl

theorem levelFault?_eq_none (h : s.Sound) (level : PrivilegeLevel) : s.levelFault? level = none := by
  have hholders : ((s.levels.get level).pairs.find? fun pair =>
      !s.members.contains pair.1 pair.2) = none := by
    rw [List.find?_eq_none]
    rintro ⟨user, channel⟩ hpair
    have hholds : s.holds level user channel = true := Links.mem_pairs.mp hpair
    simpa using h.member_of_holds hholds
  simp [levelFault?, (h.levels level).disagreement?_eq_none, hholders]

theorem fault?_eq_none (h : s.Sound) : s.fault? = none := by
  have hlevels : PrivilegeLevel.all.findSome? s.levelFault? = none := by
    rw [List.findSome?_eq_none_iff]
    exact fun level _ => h.levelFault?_eq_none level
  simp [fault?, h.members.disagreement?_eq_none, hlevels]

theorem join (h : s.Sound) (user : UserId) (channel : ChannelId) : (s.join user channel).Sound where
  members := h.members.insert user channel
  levels := h.levels
  member_of_holds hholds :=
    (Relation.contains_insert user _ channel _).mpr (Or.inr (h.member_of_holds hholds))

end Sound

theorem contains_join (user user' : UserId) (channel channel' : ChannelId) :
    (s.join user channel).members.contains user' channel' = true ↔
      (user' = user ∧ channel' = channel) ∨ s.members.contains user' channel' = true :=
  Relation.contains_insert user user' channel channel'

theorem contains_grant (level : PrivilegeLevel) (user user' : UserId) (channel channel' : ChannelId) :
    (s.grant level user channel).members.contains user' channel' = true ↔
      (user' = user ∧ channel' = channel) ∨ s.members.contains user' channel' = true :=
  Relation.contains_insert user user' channel channel'

theorem holds_grant (level level' : PrivilegeLevel) (user user' : UserId)
    (channel channel' : ChannelId) :
    (s.grant level user channel).holds level' user' channel' = true ↔
      (level' = level ∧ user' = user ∧ channel' = channel) ∨
        s.holds level' user' channel' = true := by
  rw [holds, grant, PerLevel.get_set]
  by_cases h : level = level'
  · subst h
    simp [Relation.contains_insert, holds]
  · simp [h, Ne.symm h, holds]

theorem Sound.grant (h : s.Sound) (level : PrivilegeLevel) (user : UserId) (channel : ChannelId) :
    (s.grant level user channel).Sound where
  members := h.members.insert user channel
  levels level' := by
    rw [Standing.grant, PerLevel.get_set]
    split
    · exact (h.levels level).insert user channel
    · exact h.levels level'
  member_of_holds {level' user' channel'} hholds := by
    rw [contains_grant]
    rcases (holds_grant level level' user user' channel channel').mp hholds with hnew | hold
    · exact Or.inl hnew.2
    · exact Or.inr (h.member_of_holds hold)

/-- What is left of sound relations after pairs have gone from all of them alike. -/
theorem Sheds.member_of_holds {gone : UserId → ChannelId → Prop} (hsheds : s.Sheds s' gone)
    (h : s.Sound) {level : PrivilegeLevel} {user : UserId} {channel : ChannelId}
    (hholds : s'.holds level user channel = true) : s'.members.contains user channel = true := by
  obtain ⟨hbefore, hkept⟩ := (hsheds.holds level user channel).mp hholds
  exact (hsheds.members user channel).mpr ⟨h.member_of_holds hbefore, hkept⟩

section Operations

variable {f : Relation → Except Pair Relation} {gone : UserId → ChannelId → Prop}

theorem onMembers_spec (hf : Relation.Drops f gone) (hmembers : s.members.Sound) :
    ∃ members, s.onMembers f = .ok { s with members := members } ∧ members.Sound ∧
      ∀ user channel, members.contains user channel = true ↔
        s.members.contains user channel = true ∧ ¬ gone user channel := by
  obtain ⟨members, hok, hsound, hcontains⟩ := hf s.members hmembers
  exact ⟨members, by simp only [onMembers, hok], hsound, hcontains⟩

theorem onLevel_spec (hf : Relation.Drops f gone) (level : PrivilegeLevel)
    (hlevels : ∀ level, (s.levels.get level).Sound) :
    ∃ levels, s.onLevel level f = .ok { s with levels := levels } ∧
      (∀ level', (levels.get level').Sound) ∧
      ∀ level' user channel, (levels.get level').contains user channel = true ↔
        s.holds level' user channel = true ∧ ¬ (level' = level ∧ gone user channel) := by
  obtain ⟨relation, hok, hsound, hcontains⟩ := hf (s.levels.get level) (hlevels level)
  refine ⟨s.levels.set level relation, by simp only [onLevel, hok], ?_, ?_⟩
  · intro level'
    rw [PerLevel.get_set]
    split
    · exact hsound
    · exact hlevels level'
  · intro level' user channel
    rw [PerLevel.get_set]
    by_cases h : level = level'
    · subst h
      simp [hcontains, holds]
    · simp [h, Ne.symm h, holds]

theorem foldlM_onLevel_spec (hf : Relation.Drops f gone) (order : List PrivilegeLevel)
    (hlevels : ∀ level, (s.levels.get level).Sound) :
    ∃ levels, order.foldlM (fun s level => s.onLevel level f) s = .ok { s with levels := levels } ∧
      (∀ level, (levels.get level).Sound) ∧
      ∀ level user channel, (levels.get level).contains user channel = true ↔
        s.holds level user channel = true ∧ ¬ (level ∈ order ∧ gone user channel) := by
  induction order generalizing s with
  | nil => exact ⟨s.levels, rfl, hlevels, by simp [holds]⟩
  | cons first order ih =>
    obtain ⟨next, hnext, hnextSound, hnextHolds⟩ := onLevel_spec hf first hlevels
    obtain ⟨levels, hrest, hsound, hholds⟩ := ih (s := { s with levels := next }) hnextSound
    refine ⟨levels, ?_, hsound, ?_⟩
    · rw [List.foldlM_cons, hnext]
      exact hrest
    · intro level user channel
      rw [hholds, holds, hnextHolds, List.mem_cons]
      tauto

theorem onLevels_spec (hf : Relation.Drops f gone) (hlevels : ∀ level, (s.levels.get level).Sound) :
    ∃ levels, s.onLevels f = .ok { s with levels := levels } ∧
      (∀ level, (levels.get level).Sound) ∧
      ∀ level user channel, (levels.get level).contains user channel = true ↔
        s.holds level user channel = true ∧ ¬ gone user channel := by
  obtain ⟨levels, hok, hsound, hholds⟩ := foldlM_onLevel_spec hf PrivilegeLevel.all hlevels
  exact ⟨levels, hok, hsound, by simpa [PrivilegeLevel.mem_all] using hholds⟩

end Operations

theorem leave_spec (h : s.Sound) (user : UserId) (channel : ChannelId) :
    ∃ s', s.leave user channel = .ok s' ∧ s'.Sound ∧
      s.Sheds s' fun user' channel' => user' = user ∧ channel' = channel := by
  obtain ⟨levels, hlevels, hlevelsSound, hholds⟩ :=
    onLevels_spec (Relation.drops_remove user channel) h.levels
  obtain ⟨members, hmembers, hmembersSound, hcontains⟩ :=
    onMembers_spec (s := { s with levels := levels }) (Relation.drops_remove user channel) h.members
  have hsheds : s.Sheds ⟨members, levels⟩ fun user' channel' => user' = user ∧ channel' = channel :=
    ⟨hcontains, hholds⟩
  refine ⟨⟨members, levels⟩, ?_, ⟨hmembersSound, hlevelsSound, hsheds.member_of_holds h⟩, hsheds⟩
  rw [leave, hlevels]
  exact hmembers

theorem removeUser_spec (h : s.Sound) (user : UserId) :
    ∃ s', s.removeUser user = .ok s' ∧ s'.Sound ∧ s.Sheds s' fun user' _ => user' = user := by
  obtain ⟨members, hmembers, hmembersSound, hcontains⟩ :=
    onMembers_spec (Relation.drops_removeUser user) h.members
  obtain ⟨levels, hlevels, hlevelsSound, hholds⟩ :=
    onLevels_spec (s := { s with members := members }) (Relation.drops_removeUser user) h.levels
  have hsheds : s.Sheds ⟨members, levels⟩ fun user' _ => user' = user := ⟨hcontains, hholds⟩
  refine ⟨⟨members, levels⟩, ?_, ⟨hmembersSound, hlevelsSound, hsheds.member_of_holds h⟩, hsheds⟩
  rw [removeUser, hmembers]
  exact hlevels

theorem removeChannel_spec (h : s.Sound) (channel : ChannelId) :
    ∃ s', s.removeChannel channel = .ok s' ∧ s'.Sound ∧
      s.Sheds s' fun _ channel' => channel' = channel := by
  obtain ⟨members, hmembers, hmembersSound, hcontains⟩ :=
    onMembers_spec (Relation.drops_removeChannel channel) h.members
  obtain ⟨levels, hlevels, hlevelsSound, hholds⟩ :=
    onLevels_spec (s := { s with members := members }) (Relation.drops_removeChannel channel) h.levels
  have hsheds : s.Sheds ⟨members, levels⟩ fun _ channel' => channel' = channel :=
    ⟨hcontains, hholds⟩
  refine ⟨⟨members, levels⟩, ?_, ⟨hmembersSound, hlevelsSound, hsheds.member_of_holds h⟩, hsheds⟩
  rw [removeChannel, hmembers]
  exact hlevels

/-- A revoked privilege goes from its own relation only. -/
theorem revoke_spec (h : s.Sound) (level : PrivilegeLevel) (user : UserId) (channel : ChannelId) :
    ∃ s', s.revoke level user channel = .ok s' ∧ s'.Sound ∧ s'.members = s.members ∧
      ∀ level' user' channel', s'.holds level' user' channel' = true ↔
        s.holds level' user' channel' = true ∧
          ¬ (level' = level ∧ user' = user ∧ channel' = channel) := by
  obtain ⟨levels, hok, hsound, hholds⟩ :=
    onLevel_spec (Relation.drops_remove user channel) level h.levels
  refine ⟨{ s with levels := levels }, hok, ⟨h.members, hsound, ?_⟩, rfl, hholds⟩
  intro level' user' channel' hafter
  exact h.member_of_holds ((hholds level' user' channel').mp hafter).1

end IrcClient.Standing
