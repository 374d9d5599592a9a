import IrcClient.Proofs.Store.Coherence

/-!
# The index of names

As long as the case mapping stays, whoever is known is found by name. So users and channels can be
spoken of by their names alone, and entries of others come and go without being noticed.
-/

namespace IrcClient.Store

variable {s s' s'' : Store}

/-- Whoever is known is found by name. -/
structure Indexed (s : Store) : Prop where
  nick_found : ∀ {id user}, s.users.get? id = some user →
    s.directory.nicks.get? (s.directory.key user.nick) = some id
  name_found : ∀ {id channel}, s.channels.get? id = some channel →
    s.directory.channels.get? (s.directory.key channel.name) = some id

theorem Indexed.initial : Store.initial.Indexed where
  nick_found h := by cases h
  name_found h := by cases h

/-- A store in place of another, in which every pair of a user and a channel still has its names.
Those without pairs may have come and gone. -/
structure Alike (s s' : Store) : Prop where
  grounded : s'.Grounded
  indexed : s'.Indexed
  standing : s'.standing = s.standing
  contacts : s'.contacts = s.contacts
  self : s'.selfId = s.selfId
  caseMapping : s'.directory.caseMapping = s.directory.caseMapping
  statusSymbols : s'.directory.statusSymbols = s.directory.statusSymbols
  nick : ∀ {user channel}, s.standing.members.contains user channel = true → ∀ key,
    s'.directory.nicks.get? key = some user ↔ s.directory.nicks.get? key = some user
  name : ∀ {user channel}, s.standing.members.contains user channel = true → ∀ key,
    s'.directory.channels.get? key = some channel ↔ s.directory.channels.get? key = some channel

theorem Alike.refl (h : s.Grounded) (hindexed : s.Indexed) : s.Alike s where
  grounded := h
  indexed := hindexed
  standing := rfl
  contacts := rfl
  self := rfl
  caseMapping := rfl
  statusSymbols := rfl
  nick _ _ := Iff.rfl
  name _ _ := Iff.rfl

theorem Alike.trans (hfirst : s.Alike s') (hsecond : s'.Alike s'') : s.Alike s'' where
  grounded := hsecond.grounded
  indexed := hsecond.indexed
  standing := hsecond.standing.trans hfirst.standing
  contacts := hsecond.contacts.trans hfirst.contacts
  self := hsecond.self.trans hfirst.self
  caseMapping := hsecond.caseMapping.trans hfirst.caseMapping
  statusSymbols := hsecond.statusSymbols.trans hfirst.statusSymbols
  nick hpair key := by
    rw [← hfirst.nick hpair key]
    rw [← hfirst.standing] at hpair
    exact hsecond.nick hpair key
  name hpair key := by
    rw [← hfirst.name hpair key]
    rw [← hfirst.standing] at hpair
    exact hsecond.name hpair key

/-! ## Users and channels become known -/

theorem Indexed.trackUser (h : s.Indexed) (seen : Hostmask) : (s.trackUser seen).1.Indexed := by
  unfold Store.trackUser
  split
  · refine ⟨?_, h.name_found⟩
    intro id user huser
    simp only [Store.modifyUser, Table.get?_modify] at huser ⊢
    split at huser
    · obtain ⟨old, hold, rfl⟩ := Option.map_eq_some_iff.mp huser
      rw [User.nick_absorb]
      exact h.nick_found hold
    · exact h.nick_found huser
  · rename_i hfree
    refine ⟨?_, h.name_found⟩
    intro id user huser
    simp only [Table.get?_insert] at huser
    simp only [Directory.enterNick, Table.get?_insert]
    split at huser
    · rename_i hid
      cases huser
      rw [hid]
      exact if_pos rfl
    · have hfound := h.nick_found huser
      rw [if_neg]
      · exact hfound
      · intro hkey
        change s.directory.key seen.nick = s.directory.key user.nick at hkey
        rw [Store.userId?, Directory.userId?, hkey, hfound] at hfree
        cases hfree

theorem Indexed.trackChannel (h : s.Indexed) (name : String) :
    (s.trackChannel name).1.Indexed := by
  unfold Store.trackChannel
  split
  · exact h
  · rename_i hfree
    refine ⟨h.nick_found, ?_⟩
    intro id channel hchannel
    simp only [Table.get?_insert] at hchannel
    simp only [Directory.enterChannel, Table.get?_insert]
    split at hchannel
    · rename_i hid
      cases hchannel
      rw [hid]
      exact if_pos rfl
    · have hfound := h.name_found hchannel
      rw [if_neg]
      · exact hfound
      · intro hkey
        change s.directory.key name = s.directory.key channel.name at hkey
        rw [Directory.exactChannel?, hkey, hfound] at hfree
        cases hfree

theorem Indexed.alike_trackUser (h : s.Indexed) (hgrounded : s.Grounded) (seen : Hostmask) :
    s.Alike (s.trackUser seen).1 := by
  have hindexed := h.trackUser seen
  have htracked := hgrounded.trackUser seen
  unfold Store.trackUser at hindexed htracked ⊢
  split
  · rename_i id hid
    rw [hid] at hindexed htracked
    exact { Alike.refl hgrounded h with grounded := htracked, indexed := hindexed }
  · rename_i hfree
    rw [hfree] at hindexed htracked
    refine { Alike.refl hgrounded h with
      grounded := htracked, indexed := hindexed, nick := ?_ }
    intro user channel hpair key
    obtain ⟨hknown, -⟩ := hgrounded.member_known hpair
    have hne : (⟨s.nextId⟩ : UserId) ≠ user := by
      rintro rfl
      simp [Table.contains, hgrounded.fresh_user] at hknown
    simp only [Directory.enterNick, Table.get?_insert]
    split
    · rename_i hkey
      rw [Store.userId?, Directory.userId?, hkey] at hfree
      simp [hfree, hne]
    · rfl

theorem Indexed.alike_trackChannel (h : s.Indexed) (hgrounded : s.Grounded) (name : String) :
    s.Alike (s.trackChannel name).1 := by
  have hindexed := h.trackChannel name
  have htracked := hgrounded.trackChannel name
  unfold Store.trackChannel at hindexed htracked ⊢
  split
  · exact Alike.refl hgrounded h
  · rename_i hfree
    rw [hfree] at hindexed htracked
    refine { Alike.refl hgrounded h with
      grounded := htracked, indexed := hindexed, name := ?_ }
    intro user channel hpair key
    obtain ⟨-, hknown⟩ := hgrounded.member_known hpair
    have hne : (⟨s.nextId⟩ : ChannelId) ≠ channel := by
      rintro rfl
      simp [Table.contains, hgrounded.fresh_channel] at hknown
    simp only [Directory.enterChannel, Table.get?_insert]
    split
    · rename_i hkey
      rw [Directory.exactChannel?, hkey] at hfree
      simp [hfree, hne]
    · rfl

/-! ## Users and channels are forgotten -/

theorem Indexed.forgetUser (h : s.Indexed) (hgrounded : s.Grounded) (id : UserId) :
    (s.forgetUser id).Indexed := by
  constructor
  · intro id' user huser
    rw [get?_users_forgetUser] at huser
    split at huser
    · cases huser
    · rename_i hne
      rw [hgrounded.get?_nicks_forgetUser, key_forgetUser]
      exact ⟨h.nick_found huser, Ne.symm hne⟩
  · intro id' channel hchannel
    rw [channels_forgetUser] at hchannel
    rw [names_forgetUser, key_forgetUser]
    exact h.name_found hchannel

theorem Indexed.alike_forgetUser (h : s.Indexed) (hgrounded : s.Grounded) {id : UserId}
    (hstray : ¬ s.Needed id) : s.Alike (s.forgetUser id) where
  grounded := hgrounded.forgetUser hstray
  indexed := h.forgetUser hgrounded id
  standing := standing_forgetUser id
  contacts := contacts_forgetUser id
  self := selfId_forgetUser id
  caseMapping := caseMapping_forgetUser id
  statusSymbols := statusSymbols_forgetUser id
  nick {user channel} hpair key := by
    rw [hgrounded.get?_nicks_forgetUser, and_iff_left]
    rintro rfl
    exact hstray (Or.inl ⟨channel, hpair⟩)
  name _ key := by rw [names_forgetUser]

theorem Indexed.alike_collect (h : s.Indexed) (hgrounded : s.Grounded) (id : UserId) :
    s.Alike (s.collect id) := by
  unfold Store.collect
  split
  · exact Alike.refl hgrounded h
  · rename_i hstray
    rw [isNeeded_iff hgrounded.standing] at hstray
    exact h.alike_forgetUser hgrounded hstray

theorem Indexed.alike_foldl_collect (h : s.Indexed) (hgrounded : s.Grounded) (ids : List UserId) :
    s.Alike (ids.foldl Store.collect s) := by
  induction ids generalizing s with
  | nil => exact Alike.refl hgrounded h
  | cons id ids ih =>
    have hfirst := h.alike_collect hgrounded id
    exact hfirst.trans (ih hfirst.indexed hfirst.grounded)

theorem Indexed.alike_forgetChannel (h : s.Indexed) (hgrounded : s.Grounded) {id : ChannelId}
    (hempty : ∀ user, s.standing.members.contains user id ≠ true) :
    s.Alike (s.forgetChannel id) := by
  have hground := hgrounded.forgetChannel hempty
  unfold Store.forgetChannel at hground ⊢
  split
  · rename_i gone hgone
    rw [hgone] at hground
    have hkept {key : String} {id' : ChannelId} (hne : id' ≠ id) :
        (s.directory.strikeChannel gone.name).channels.get? key = some id' ↔
          s.directory.channels.get? key = some id' := by
      simp only [Directory.strikeChannel, Table.get?_erase]
      split
      · rename_i hkey
        rw [← hkey, h.name_found hgone]
        simp [Ne.symm hne]
      · rfl
    refine { Alike.refl hgrounded h with
      grounded := hground, indexed := ⟨h.nick_found, ?_⟩, name := ?_ }
    · intro id' channel hchannel
      simp only [Table.get?_erase] at hchannel
      split at hchannel
      · cases hchannel
      · rename_i hne
        exact (hkept (Ne.symm hne)).mpr (h.name_found hchannel)
    · intro user channel hpair key
      apply hkept
      rintro rfl
      exact hempty user hpair
  · exact Alike.refl hgrounded h

end IrcClient.Store
