import IrcClient.Proofs.Store.Numbering
import IrcClient.Proofs.Store.Renaming

/-!
# Renaming in a store that finds everybody

Every user of such a store is found by nick, and every nick in the index leads to a user who bears it.
There any user can take any nick, whether it is the same up to case, free, or held by another user. The
user keeps all but its nick, a former holder of the nick is gone, nobody else is touched, and everybody
who is left is found again.
-/

namespace IrcClient

/-- One of the six relations. -/
def Standing.named (s : Standing) : RelationName → Relation
  | .membership => s.members
  | .privilege level => s.levels.get level

theorem Standing.Sound.named {standing : Standing} (h : standing.Sound) (name : RelationName) :
    (standing.named name).Sound := by
  cases name with
  | membership => exact h.members
  | privilege level => exact h.levels level

theorem Standing.Sheds.named {standing standing' : Standing} {gone : UserId → ChannelId → Prop}
    (h : standing.Sheds standing' gone) (name : RelationName) (user : UserId) (channel : ChannelId) :
    (standing'.named name).contains user channel = true ↔
      (standing.named name).contains user channel = true ∧ ¬ gone user channel := by
  cases name with
  | membership => exact h.members user channel
  | privilege level => exact h.holds level user channel

namespace Store

variable {s s' : Store} {id : UserId} {nick : String}

/-! ## The index of nicks -/

/-- Everybody is found by nick, and nicks in the index lead to users who bear them. -/
structure NickIndexExact (s : Store) : Prop where
  found : ∀ {id user}, s.users.get? id = some user → s.userId? user.nick = some user.id
  known : s.NicksKnown

theorem nickIndexExact_iff (s : Store) : s.NickIndexExact ↔
    (∀ entry ∈ s.users.entries, s.userId? entry.2.nick = some entry.2.id) ∧
      ∀ entry ∈ s.directory.nicks.entries,
        ((s.users.get? entry.2).any fun user => s.directory.key user.nick = entry.1) = true := by
  constructor
  · intro h
    constructor
    · exact fun entry hentry => h.found ((Table.mem_entries_iff _ _ _).mp hentry)
    · intro entry hentry
      obtain ⟨user, huser, hnick⟩ := h.known ((Table.mem_entries_iff _ _ _).mp hentry)
      simp [huser, hnick]
  · rintro ⟨hfound, hknown⟩
    constructor
    · exact fun {id user} huser => hfound (id, user) ((Table.mem_entries_iff _ _ _).mpr huser)
    · intro key id hget
      have hbearer := hknown (key, id) ((Table.mem_entries_iff _ _ _).mpr hget)
      simpa [Option.any_eq_true] using hbearer

instance (s : Store) : Decidable s.NickIndexExact := decidable_of_iff _ s.nickIndexExact_iff.symm

/-! ## What stays of a user -/

/-- Whatever `s` has of a user apart from its record, `s'` has too. -/
structure KeepsTies (s s' : Store) (id : UserId) : Prop where
  contact : id ∈ s'.contacts ↔ id ∈ s.contacts
  self : s'.selfId = some id ↔ s.selfId = some id
  pairs : ∀ name channel,
    (s'.standing.named name).contains id channel = (s.standing.named name).contains id channel
  listed : ∀ name channel, id ∈ (s'.standing.named name).usersOf channel ↔
    id ∈ (s.standing.named name).usersOf channel

/-- Nothing is left of a user. -/
structure Absent (s : Store) (id : UserId) : Prop where
  unknown : s.users.get? id = none
  nameless : ∀ key, s.directory.nicks.get? key ≠ some id
  noContact : id ∉ s.contacts
  notSelf : s.selfId ≠ some id
  unrelated : ∀ name, (s.standing.named name).hasUser id = false
  unlisted : ∀ name channel, id ∉ (s.standing.named name).usersOf channel

theorem Displaces.keepsTies (h : s.Displaces s' id nick) (hsound : s.standing.Sound) {other : UserId}
    (hstays : ¬ s.Displaced id nick other) : s.KeepsTies s' other := by
  have hpairs (name : RelationName) (channel : ChannelId) :
      (s'.standing.named name).contains other channel =
        (s.standing.named name).contains other channel := by
    rw [Bool.eq_iff_iff, h.standing.named]
    exact and_iff_left hstays
  exact {
    contact := (h.contacts other).trans (and_iff_left hstays)
    self := (h.self other).trans (and_iff_left hstays)
    pairs := hpairs
    listed := fun name channel => by
      rw [(h.sound.named name).mem_usersOf, (hsound.named name).mem_usersOf, hpairs] }

theorem TakesNick.absent (h : s.TakesNick s' id nick) (hknown : s.NicksKnown) {holder : UserId}
    (hgone : s.Displaced id nick holder) : s'.Absent holder := by
  have hpairs (name : RelationName) (channel : ChannelId) :
      (s'.standing.named name).contains holder channel ≠ true :=
    fun hpair => ((h.standing.named name holder channel).mp hpair).2 hgone
  refine ⟨?_, ?_, fun hin => ((h.contacts holder).mp hin).2 hgone,
    fun hself => ((h.self holder).mp hself).2 hgone, ?_, ?_⟩
  · rw [Option.eq_none_iff_forall_ne_some]
    exact fun user huser => ((h.others hgone.2).mp huser).2 hgone
  · intro key hget
    by_cases hkey : s.directory.key nick = key
    · rw [← hkey, h.taken] at hget
      exact hgone.2 (Option.some.inj hget).symm
    · exact hkey (hknown.key_unique hgone.1 ((h.nicks hkey).mp hget).1)
  · intro name
    rw [← Bool.not_eq_true, (h.sound.named name).hasUser_iff]
    rintro ⟨channel, hpair⟩
    exact hpairs name channel hpair
  · intro name channel hlisted
    exact hpairs name channel ((h.sound.named name).mem_usersOf.mp hlisted)

theorem TakesNick.get?_nicks_other (h : s.TakesNick s' id nick) {other : UserId} (hne : other ≠ id)
    (hstays : ¬ s.Displaced id nick other) (key : String) :
    s'.directory.nicks.get? key = some other ↔ s.directory.nicks.get? key = some other := by
  by_cases hkey : s.directory.key nick = key
  · rw [← hkey, h.taken]
    constructor
    · exact fun heq => absurd (Option.some.inj heq).symm hne
    · exact fun hheld => absurd ⟨hheld, hne⟩ hstays
  · rw [h.nicks hkey]
    exact and_iff_left hne

/-! ## What stays of the index -/

theorem TakesNick.nicksKnown (h : s.TakesNick s' id nick) (hknown : s.NicksKnown) :
    s'.NicksKnown := by
  intro key id' hget
  by_cases hkey : s.directory.key nick = key
  · rw [← hkey, h.taken] at hget
    cases hget
    obtain ⟨user, -, huser⟩ := h.user
    exact ⟨_, huser, by rw [h.renames.key, ← hkey]; rfl⟩
  · obtain ⟨hbefore, hne⟩ := (h.nicks hkey).mp hget
    obtain ⟨user, huser, hnick⟩ := hknown hbefore
    have hstays : ¬ s.Displaced id nick id' := by
      intro hdisplaced
      exact hkey (hknown.key_unique hdisplaced.1 hbefore)
    exact ⟨user, (h.others hne).mpr ⟨huser, hstays⟩, by rw [h.renames.key, hnick]⟩

/-- Users keep their ids. -/
theorem TakesNick.id_eq (h : s.TakesNick s' id nick)
    (hids : ∀ {id user}, s.users.get? id = some user → user.id = id)
    {id' : UserId} {user : User} (huser : s'.users.get? id' = some user) : user.id = id' := by
  by_cases heq : id' = id
  · obtain ⟨old, hold, hrenamed⟩ := h.user
    rw [heq, hrenamed] at huser
    cases huser
    rw [heq, ← hids hold]
    rfl
  · exact hids ((h.others heq).mp huser).1

theorem TakesNick.nickIndexExact (h : s.TakesNick s' id nick) (hexact : s.NickIndexExact)
    (hids : ∀ {id user}, s.users.get? id = some user → user.id = id) : s'.NickIndexExact where
  found {id' user} huser := by
    have hentered {id : UserId} {user : User} (huser : s.users.get? id = some user) :
        s.directory.nicks.get? (s.directory.key user.nick) = some id := by
      have hfound := hexact.found huser
      rw [hids huser] at hfound
      exact hfound
    rw [h.id_eq hids huser]
    exact h.renames.nick_found hentered huser
  known := h.nicksKnown hexact.known

/-- Where nicks lead to exactly those who bear them, a user that is known takes any nick. It is found
under the new one, keeps its login, its host and all else, and is not found under the old one unless
both are the same. Another user that had the nick is gone altogether. Everybody else, all channels and
the settings are left alone, and nicks lead to exactly those who bear them again. -/
theorem renameUser_of_nickIndexExact {operations : List StoreOperation}
    (hreach : Store.initial.performAll operations = .ok s) (hexact : s.NickIndexExact) {user : User}
    (huser : s.users.get? id = some user) (nick : String) :
    ∃ s', s.renameUser id nick = .ok s' ∧ s'.NickIndexExact ∧ s'.userId? nick = some id ∧
      (s.directory.key user.nick ≠ s.directory.key nick → s'.userId? user.nick = none) ∧
      s'.users.get? id =
        some { user with hostmask := .ofParts nick user.hostmask.login user.hostmask.host } ∧
      s.KeepsTies s' id ∧
      (∀ holder, s.userId? nick = some holder → holder ≠ id → s'.Absent holder) ∧
      (∀ other, other ≠ id → s.userId? nick ≠ some other →
        s'.users.get? other = s.users.get? other ∧ s.KeepsTies s' other ∧
          ∀ key, s'.directory.nicks.get? key = some other ↔
            s.directory.nicks.get? key = some other) ∧
      (∀ channel, s'.channels.get? channel = s.channels.get? channel) ∧
      (∀ key, s'.directory.channels.get? key = s.directory.channels.get? key) ∧
      s'.directory.caseMapping = s.directory.caseMapping ∧
      s'.directory.statusSymbols = s.directory.statusSymbols ∧
      s'.channelPrefixes = s.channelPrefixes ∧ s'.nextId = s.nextId := by
  obtain ⟨reached, hok, hsound⟩ := performAll_spec (s := .initial) Standing.Sound.empty operations
  cases hreach.symm.trans hok
  have hnumbered := numbered_of_performAll hreach
  obtain ⟨s', hrename, htakes⟩ := takesNick_renameUser hsound hexact.known huser nick
  have hself : ¬ s.Displaced id nick id := fun hdisplaced => hdisplaced.2 rfl
  refine ⟨s', hrename, htakes.nickIndexExact hexact fun hget => (hnumbered.users hget).1, ?_, ?_, ?_,
    htakes.keepsTies hsound hself, ?_, ?_, htakes.channels, htakes.names, htakes.caseMapping,
    htakes.statusSymbols, htakes.channelPrefixes, htakes.nextId⟩
  · rw [userId?, Directory.userId?, htakes.renames.key, htakes.taken]
  · intro hchanged
    rw [userId?, Directory.userId?, htakes.renames.key, Option.eq_none_iff_forall_ne_some]
    intro other hget
    -- Only the user itself was found under its old nick.
    obtain ⟨hbefore, hother⟩ := (htakes.nicks (Ne.symm hchanged)).mp hget
    have hfound := hexact.found huser
    rw [(hnumbered.users huser).1] at hfound
    exact hother (Option.some.inj (hbefore.symm.trans hfound))
  · obtain ⟨old, hold, hrenamed⟩ := htakes.user
    cases huser.symm.trans hold
    exact hrenamed
  · exact fun holder hheld hne => htakes.absent hexact.known ⟨hheld, hne⟩
  · intro other hne hfree
    have hstays : ¬ s.Displaced id nick other := fun hdisplaced => hfree hdisplaced.1
    refine ⟨?_, htakes.keepsTies hsound hstays, htakes.get?_nicks_other hne hstays⟩
    apply Option.ext
    intro record
    rw [htakes.others hne]
    exact and_iff_left hstays

/-- The client is on a channel, of which another user is an operator, and both are contacts. -/
def clientAndOperator : List StoreOperation :=
  [.setCaseMapping .rfc1459, .trackUser (.ofNick "me[1]"), .setSelf ⟨1⟩,
    .trackUser (.parse "alice!al@host"), .trackChannel "#rust", .addMember ⟨1⟩ ⟨3⟩,
    .grant .op ⟨2⟩ ⟨3⟩, .addContact ⟨1⟩, .addContact ⟨2⟩]

/-- The operator takes a nick that is the client's up to case. -/
theorem renameUser_of_nickIndexExact_onto_client :
    ∃ s s', Store.initial.performAll clientAndOperator = .ok s ∧ s.NickIndexExact ∧
      s.renameUser ⟨2⟩ "ME\x7b1\x7d" = .ok s' ∧ s'.NickIndexExact ∧ s'.userId? "me[1]" = some ⟨2⟩ ∧
      s'.userId? "alice" = none ∧ s.KeepsTies s' ⟨2⟩ ∧ s'.Absent ⟨1⟩ := by
  have hstore : (match Store.initial.performAll clientAndOperator with
      | .ok s => decide (s.directory.caseMapping = .rfc1459 ∧ s.NickIndexExact ∧
          s.users.get? ⟨2⟩ = some (.new ⟨2⟩ (.parse "alice!al@host")) ∧
          s.userId? "ME\x7b1\x7d" = some ⟨1⟩)
      | .error _ => false) = true := by decide +kernel
  obtain ⟨s, hreach, -⟩ :=
    performAll_spec (s := .initial) Standing.Sound.empty clientAndOperator
  rw [hreach] at hstore
  obtain ⟨hmapping, hexact, hoperator, hheld⟩ := of_decide_eq_true hstore
  obtain ⟨s', hrename, hexact', hfound, hold, -, hties, hgone, -, -, -, hmapping', -⟩ :=
    renameUser_of_nickIndexExact hreach hexact hoperator "ME\x7b1\x7d"
  have hclient : s'.userId? "me[1]" = s'.userId? "ME\x7b1\x7d" := by
    apply userId?_eq_of_same
    rw [hmapping', hmapping]
    decide
  refine ⟨s, s', hreach, hexact, hrename, hexact', ?_, ?_, hties, hgone ⟨1⟩ hheld (by decide)⟩
  · rw [hclient, hfound]
  · apply hold
    rw [Directory.key, Directory.key, hmapping]
    decide +kernel

end Store

end IrcClient
