import IrcClient.Proofs.Store.Departure
import IrcClient.Proofs.Store.Upkeep

/-!
# A user takes another nick

Another user that has the nick is taken for an out-of-date entry and forgotten, whoever it is, before
the nick becomes the user's.
-/

namespace IrcClient.Store

variable {s s' : Store} {id : UserId} {nick : String}

/-- `s'` is `s` after a user has taken a nick, and the holder of the nick, if that was somebody else,
is gone. -/
structure Renames (s s' : Store) (id : UserId) (nick : String) : Prop where
  user : ∃ user, s.users.get? id = some user ∧ s'.users.get? id = some (user.withNick nick)
  others : ∀ {id' user}, id' ≠ id → (s'.users.get? id' = some user ↔
    s.users.get? id' = some user ∧ s.userId? nick ≠ some id')
  taken : s'.directory.nicks.get? (s.directory.key nick) = some id
  nicks : ∀ {key id'}, s.directory.key nick ≠ key → (s'.directory.nicks.get? key = some id' ↔
    s.directory.nicks.get? key = some id' ∧ id' ≠ id)
  channels : ∀ {id' channel}, s'.channels.get? id' = some channel ↔
    s.channels.get? id' = some channel
  names : ∀ {key id'}, s'.directory.channels.get? key = some id' ↔
    s.directory.channels.get? key = some id'
  members : ∀ {user channel}, s'.standing.members.contains user channel = true ↔
    s.standing.members.contains user channel = true ∧ (user = id ∨ s.userId? nick ≠ some user)
  self : ∀ {me}, s'.selfId = some me ↔ s.selfId = some me ∧ (me = id ∨ s.userId? nick ≠ some me)
  caseMapping : s'.directory.caseMapping = s.directory.caseMapping

theorem Renames.key (h : s.Renames s' id nick) (name : String) :
    s'.directory.key name = s.directory.key name := by
  rw [Directory.key, h.caseMapping, Directory.key]

/-- If everybody was found by nick, everybody who is left still is. -/
theorem Renames.nick_found (h : s.Renames s' id nick)
    (hfound : ∀ {id user}, s.users.get? id = some user →
      s.directory.nicks.get? (s.directory.key user.nick) = some id)
    {id' : UserId} {user : User} (huser : s'.users.get? id' = some user) :
    s'.directory.nicks.get? (s'.directory.key user.nick) = some id' := by
  rw [h.key]
  by_cases hid : id' = id
  · rw [hid] at huser ⊢
    obtain ⟨old, -, hrenamed⟩ := h.user
    rw [hrenamed] at huser
    cases huser
    exact h.taken
  · obtain ⟨hbefore, hkept⟩ := (h.others hid).mp huser
    have hentered := hfound hbefore
    have hother : s.directory.key nick ≠ s.directory.key user.nick := by
      intro heq
      rw [← heq] at hentered
      exact hkept hentered
    exact (h.nicks hother).mpr ⟨hentered, hid⟩

theorem Renames.indexed (h : s.Renames s' id nick) (hindexed : s.Indexed) : s'.Indexed := by
  constructor
  · exact h.nick_found hindexed.nick_found
  · intro id' channel hchannel
    rw [h.key, h.names]
    exact hindexed.name_found (h.channels.mp hchannel)

/-! ## What becomes of everybody -/

/-- Whether a user is in the way of another one that takes a nick. -/
def Displaced (s : Store) (id : UserId) (nick : String) (other : UserId) : Prop :=
  s.userId? nick = some other ∧ other ≠ id

theorem not_displaced_iff {other : UserId} :
    ¬ s.Displaced id nick other ↔ other = id ∨ s.userId? nick ≠ some other := by
  rw [Displaced, not_and_or, not_not, or_comm]

/-- Whoever was in the way of a nick is gone from `s'`, and everybody else is as in `s`. Of the user
that takes the nick only the relations, the mark of a contact and that of the client are spoken of. -/
structure Displaces (s s' : Store) (id : UserId) (nick : String) : Prop where
  others : ∀ {id' user}, id' ≠ id → (s'.users.get? id' = some user ↔
    s.users.get? id' = some user ∧ ¬ s.Displaced id nick id')
  standing : s.standing.Sheds s'.standing fun user _ => s.Displaced id nick user
  sound : s'.standing.Sound
  contacts : ∀ id', id' ∈ s'.contacts ↔ id' ∈ s.contacts ∧ ¬ s.Displaced id nick id'
  self : ∀ id', s'.selfId = some id' ↔ s.selfId = some id' ∧ ¬ s.Displaced id nick id'
  channels : ∀ id', s'.channels.get? id' = s.channels.get? id'
  names : ∀ key, s'.directory.channels.get? key = s.directory.channels.get? key
  caseMapping : s'.directory.caseMapping = s.directory.caseMapping
  statusSymbols : s'.directory.statusSymbols = s.directory.statusSymbols
  channelPrefixes : s'.channelPrefixes = s.channelPrefixes
  nextId : s'.nextId = s.nextId

/-- `s'` is `s` after a user has taken a nick. -/
structure TakesNick (s s' : Store) (id : UserId) (nick : String) : Prop
    extends s.Displaces s' id nick where
  user : ∃ user, s.users.get? id = some user ∧ s'.users.get? id = some (user.withNick nick)
  taken : s'.directory.nicks.get? (s.directory.key nick) = some id
  nicks : ∀ {key id'}, s.directory.key nick ≠ key → (s'.directory.nicks.get? key = some id' ↔
    s.directory.nicks.get? key = some id' ∧ id' ≠ id)

/-- Clearing the way for a nick takes nothing from the user itself. -/
theorem displaces_evictOther (hsound : s.standing.Sound) (hknown : s.NicksKnown) (id : UserId)
    (nick : String) :
    ∃ cleared, s.evictOther id nick = .ok cleared ∧ s.Displaces cleared id nick ∧
      cleared.users.get? id = s.users.get? id ∧
      ∀ {key id'}, cleared.directory.nicks.get? key = some id' ↔
        s.directory.nicks.get? key = some id' ∧ ¬ s.Displaced id nick id' := by
  rcases evictOther_spec hsound id nick with
    ⟨hok, hfree⟩ | ⟨holder, standing, hholder, hne, hok, hstanding, hsheds⟩
  · have hnobody (other : UserId) : ¬ s.Displaced id nick other :=
      fun hdisplaced => hdisplaced.2 (hfree other hdisplaced.1)
    refine ⟨s, hok, ?_, rfl, by simp [hnobody]⟩
    exact {
      others := by simp [hnobody]
      standing := ⟨by simp [hnobody], by simp [hnobody]⟩
      sound := hsound
      contacts := by simp [hnobody]
      self := by simp [hnobody]
      channels := fun _ => rfl
      names := fun _ => rfl
      caseMapping := rfl
      statusSymbols := rfl
      channelPrefixes := rfl
      nextId := rfl }
  · have hloses := hknown.loses_withoutUser hsheds
    have hgone (other : UserId) : s.Displaced id nick other ↔ other = holder := by
      simp only [Displaced, hholder, Option.some.injEq, eq_comm (a := holder)]
      exact and_iff_left_of_imp fun heq => heq ▸ hne
    have hforgets (other : UserId) :
        s.Forgets (s.withoutUser standing holder) (.quit holder) other ↔
          s.Displaced id nick other := (hgone other).symm
    have hquit (other : UserId) : Departure.quit holder ≠ .quit other ↔
        ¬ s.Displaced id nick other := by
      rw [hgone, ne_eq, Departure.quit.injEq, eq_comm]
    refine ⟨_, hok, ?_, ?_, ?_⟩
    · exact {
        others := fun _ => hloses.users.trans (and_congr_right fun _ => not_congr (hforgets _))
        standing := by
          simp only [hgone]
          exact hloses.standing
        sound := by rwa [standing_withoutUser]
        contacts := fun other => (hloses.contacts other).trans (and_congr_right fun _ => hquit other)
        self := fun other => (hloses.self other).trans (and_congr_right fun _ => hquit other)
        channels := fun _ => Option.ext fun _ => hloses.channels.trans (by simp)
        names := fun _ => Option.ext fun _ => hloses.names.trans (by simp)
        caseMapping := hloses.caseMapping
        statusSymbols := hloses.statusSymbols
        channelPrefixes := hloses.channelPrefixes
        nextId := hloses.nextId }
    · rw [withoutUser, get?_users_forgetUser, if_neg hne]
    · intro key other
      exact hloses.nicks.trans (and_congr_right fun _ => not_congr (hforgets other))

/-- The nick is entered for the user in place of the old one. -/
theorem Displaces.renamed {cleared : Store} (h : s.Displaces cleared id nick) (hknown : s.NicksKnown)
    {user : User} (huser : s.users.get? id = some user)
    (hkept : cleared.users.get? id = s.users.get? id)
    (hnicks : ∀ {key id'}, cleared.directory.nicks.get? key = some id' ↔
      s.directory.nicks.get? key = some id' ∧ ¬ s.Displaced id nick id') :
    s.TakesNick (cleared.renamed user id nick) id nick := by
  have hkey (name : String) : cleared.directory.key name = s.directory.key name := by
    rw [Directory.key, h.caseMapping, Directory.key]
  have hbearers : cleared.NicksKnown := by
    intro key id' hget
    obtain ⟨hbefore, hstays⟩ := hnicks.mp hget
    obtain ⟨bearer, hbearer, hnick⟩ := hknown hbefore
    refine ⟨bearer, ?_, by rw [hkey, hnick]⟩
    by_cases heq : id' = id
    · rw [heq, hkept, ← heq, hbearer]
    · exact (h.others heq).mpr ⟨hbearer, hstays⟩
  have hcleared : cleared.users.get? id = some user := by rw [hkept, huser]
  obtain ⟨nicks, hstruck⟩ := strikeNick_eq cleared.directory user.nick id
  refine { h with others := ?_, names := ?_, caseMapping := ?_, statusSymbols := ?_
                  user := ?_, taken := ?_, nicks := ?_ }
  · intro id' other hne
    simp only [Store.renamed, Table.get?_modify, if_neg (Ne.symm hne)]
    exact h.others hne
  · intro key
    simp only [Store.renamed, Directory.enterNick, names_strikeNick]
    exact h.names key
  · simp only [Store.renamed, Directory.enterNick, hstruck, h.caseMapping]
  · simp only [Store.renamed, Directory.enterNick, hstruck, h.statusSymbols]
  · exact ⟨user, huser, by simp [Store.renamed, Table.get?_modify, hcleared]⟩
  · simp only [Store.renamed, Directory.enterNick, key_strikeNick, hkey, Table.get?_insert, if_true]
  · intro key id' hother
    simp only [Store.renamed, Directory.enterNick, key_strikeNick, hkey, Table.get?_insert,
      if_neg hother]
    rw [hbearers.get?_strikeNick hcleared, hnicks, and_assoc, and_congr_right_iff]
    intro hget
    -- Whoever is in the way is found under the nick alone.
    have hstays : ¬ s.Displaced id nick id' :=
      fun hdisplaced => hother (hknown.key_unique hdisplaced.1 hget)
    exact and_iff_right hstays

/-- Names that lead to their bearers are all that it takes. -/
theorem takesNick_renameUser (hsound : s.standing.Sound) (hknown : s.NicksKnown) {user : User}
    (huser : s.users.get? id = some user) (nick : String) :
    ∃ s', s.renameUser id nick = .ok s' ∧ s.TakesNick s' id nick := by
  obtain ⟨cleared, hok, hdisplaces, hkept, hnicks⟩ := displaces_evictOther hsound hknown id nick
  exact ⟨_, renameUser_of_known huser hok, hdisplaces.renamed hknown huser hkept hnicks⟩

theorem TakesNick.renames (h : s.TakesNick s' id nick) : s.Renames s' id nick where
  user := h.user
  others {id' user} hne := by
    rw [h.others hne, not_displaced_iff, or_iff_right hne]
  taken := h.taken
  nicks := h.nicks
  channels {id' channel} := by rw [h.channels]
  names {key id'} := by rw [h.names]
  members {user channel} := by rw [h.standing.members, not_displaced_iff]
  self {me} := by rw [h.self, not_displaced_iff]
  caseMapping := h.caseMapping

theorem Coherent.renames_renameUser (h : s.Coherent) {user : User}
    (huser : s.users.get? id = some user) (nick : String) :
    ∃ s', s.renameUser id nick = .ok s' ∧ s.Renames s' id nick := by
  obtain ⟨s', hok, htakes⟩ := takesNick_renameUser h.standing h.toGrounded.nicksKnown huser nick
  exact ⟨s', hok, htakes.renames⟩

end IrcClient.Store
