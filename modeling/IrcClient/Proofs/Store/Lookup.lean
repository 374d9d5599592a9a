import IrcClient.Proofs.CaseMapping
import IrcClient.Proofs.Store.Index
import IrcClient.Proofs.Store.Relisting

/-!
# Whether lookups find everybody

The index of names is edited entry by entry as users and channels come and go, and rebuilt as a whole
when the case mapping changes. The edits keep it complete. A rebuild does so only if no two names
have become the same: the entries go into a table, where the last one of a name counts.
-/

namespace IrcClient

namespace Table

variable {κ α : Type} [DecidableEq κ]

theorem exists_get?_ofList {entries : List (κ × α)} {k : κ} {v : α} (h : (k, v) ∈ entries) :
    ∃ v', (ofList entries).get? k = some v' := by
  have hfold : ∀ (entries : List (κ × α)) (t : Table κ α),
      (t.contains k = true ∨ ∃ v, (k, v) ∈ entries) →
        (entries.foldl (fun t entry => t.insert entry.1 entry.2) t).contains k = true := by
    intro entries
    induction entries with
    | nil => simp
    | cons entry entries ih =>
      intro t hknown
      apply ih
      rw [contains_insert]
      rcases hknown with hbefore | ⟨v, hmem⟩
      · exact Or.inl (Or.inr hbefore)
      · rcases List.mem_cons.mp hmem with rfl | hrest
        · exact Or.inl (Or.inl rfl)
        · exact Or.inr ⟨v, hrest⟩
  exact (contains_iff _ k).mp (hfold entries empty (Or.inr ⟨v, h⟩))

/-- A map of entries holds the only value that the entries have for a key. -/
theorem get?_ofList {entries : List (κ × α)} {k : κ} {v : α} (h : (k, v) ∈ entries)
    (honly : ∀ v', (k, v') ∈ entries → v' = v) : (ofList entries).get? k = some v := by
  obtain ⟨v', hget⟩ := exists_get?_ofList h
  rw [hget, honly v' (mem_of_get?_ofList hget)]

end Table

namespace Store

variable {s s' : Store}

/-- Every user is found by its nick, and every channel by its name. -/
structure Complete (s : Store) : Prop where
  users : ∀ user ∈ s.users.values, s.userId? user.nick = some user.id
  channels : ∀ channel ∈ s.channels.values, s.channelId? channel.name = some channel.id

theorem complete_def (s : Store) : s.Complete ↔
    (∀ user ∈ s.users.values, s.userId? user.nick = some user.id) ∧
      ∀ channel ∈ s.channels.values, s.channelId? channel.name = some channel.id :=
  ⟨fun h => ⟨h.users, h.channels⟩, fun h => ⟨h.1, h.2⟩⟩

instance (s : Store) : Decidable s.Complete := decidable_of_iff _ s.complete_def.symm

/-- No two users have nicks that are the same, and no two channels names. -/
structure Distinct (s : Store) : Prop where
  nicks : ∀ user ∈ s.users.values, ∀ other ∈ s.users.values,
    s.directory.caseMapping.same user.nick other.nick = true → user.id = other.id
  names : ∀ channel ∈ s.channels.values, ∀ other ∈ s.channels.values,
    s.directory.caseMapping.same channel.name other.name = true → channel.id = other.id

theorem distinct_def (s : Store) : s.Distinct ↔
    (∀ user ∈ s.users.values, ∀ other ∈ s.users.values,
      s.directory.caseMapping.same user.nick other.nick = true → user.id = other.id) ∧
    ∀ channel ∈ s.channels.values, ∀ other ∈ s.channels.values,
      s.directory.caseMapping.same channel.name other.name = true → channel.id = other.id :=
  ⟨fun h => ⟨h.nicks, h.names⟩, fun h => ⟨h.1, h.2⟩⟩

instance (s : Store) : Decidable s.Distinct := decidable_of_iff _ s.distinct_def.symm

theorem userId?_eq_of_same {nick nick' : String}
    (hsame : s.directory.caseMapping.same nick nick' = true) : s.userId? nick = s.userId? nick' := by
  rw [Store.userId?, Directory.userId?, Directory.key, (CaseMapping.same_iff _).mp hsame]
  rfl

theorem channelId?_of_exact {d : Directory} {name : String} {id : ChannelId}
    (hexact : d.exactChannel? name = some id) : d.channelId? name = some id := by
  refine Directory.resolve?_eq_some_iff.mpr ⟨[], name.toList, d.strips_nil _, ?_, ?_⟩
  · rw [String.ofList_toList, hexact]
  · exact fun _ _ _ hshort => absurd hshort (Nat.not_lt_zero _)

namespace Grounded

theorem mem_users_iff (h : s.Grounded) {user : User} :
    user ∈ s.users.values ↔ s.users.get? user.id = some user := by
  rw [Table.mem_values_iff]
  constructor
  · rintro ⟨id, hget⟩
    rw [(h.user_id hget).1, hget]
  · exact fun hget => ⟨user.id, hget⟩

theorem mem_channels_iff (h : s.Grounded) {channel : Channel} :
    channel ∈ s.channels.values ↔ s.channels.get? channel.id = some channel := by
  rw [Table.mem_values_iff]
  constructor
  · rintro ⟨id, hget⟩
    rw [(h.channel_id hget).1, hget]
  · exact fun hget => ⟨channel.id, hget⟩

/-- Nicks are the same if one of them leads to a user and the other to the same one. -/
theorem same_of_userId? (h : s.Grounded) {nick nick' : String} {id : UserId}
    (hid : s.userId? nick = some id) (hid' : s.userId? nick' = some id) :
    s.directory.caseMapping.same nick nick' = true :=
  (CaseMapping.same_iff _).mpr (h.nick_unique hid hid')

/-- A channel that some name stands for is in the index under its own name. -/
theorem name_found_of_channelId? (h : s.Grounded) {name : String} {id : ChannelId}
    {channel : Channel} (hfound : s.channelId? name = some id)
    (hchannel : s.channels.get? id = some channel) :
    s.directory.channels.get? (s.directory.key channel.name) = some id := by
  obtain ⟨front, rest, -, hexact, -⟩ := Directory.exists_of_resolve? hfound
  obtain ⟨found, hget, hname⟩ := h.name_known hexact
  rw [hchannel] at hget
  cases hget
  rw [hname]
  exact hexact

theorem complete_iff (h : s.Grounded) : s.Complete ↔ s.Indexed := by
  constructor
  · intro hcomplete
    constructor
    · intro id user huser
      obtain ⟨rfl, -⟩ := h.user_id huser
      exact hcomplete.users user (h.mem_users_iff.mpr huser)
    · intro id channel hchannel
      obtain ⟨rfl, -⟩ := h.channel_id hchannel
      have hfound := hcomplete.channels channel (h.mem_channels_iff.mpr hchannel)
      exact h.name_found_of_channelId? hfound hchannel
  · intro hindexed
    constructor
    · exact fun user huser => hindexed.nick_found (h.mem_users_iff.mp huser)
    · intro channel hchannel
      have hfound := hindexed.name_found (h.mem_channels_iff.mp hchannel)
      exact channelId?_of_exact hfound

end Grounded

/-! ## The order of the entries -/

theorem Relisted.coherent (hlisted : s.Relisted s') (h : s.Coherent) : s'.Coherent := by
  have husers := hlisted.get?_users
  have hchannels := hlisted.get?_channels
  obtain ⟨users, channels, rfl⟩ := hlisted.eq
  dsimp only at husers hchannels
  constructor
  · constructor
    · exact h.standing
    · intro user channel hpair
      simpa only [Table.contains, husers, hchannels] using h.member_known hpair
    · intro key id hkey
      simpa only [husers] using h.nick_known hkey
    · intro key id hkey
      simpa only [hchannels] using h.name_known hkey
    · intro id hid
      simpa only [Table.contains, husers] using h.contact_known id hid
    · intro id hid
      simpa only [Table.contains, husers] using h.self_known id hid
    · intro id user huser
      rw [husers] at huser
      exact h.user_id huser
    · intro id channel hchannel
      rw [hchannels] at hchannel
      exact h.channel_id hchannel
  · intro id hid
    apply h.needed id
    simpa only [Table.contains, husers] using hid

theorem Relisted.indexed (hlisted : s.Relisted s') (hindexed : s.Indexed) : s'.Indexed := by
  have husers := hlisted.get?_users
  have hchannels := hlisted.get?_channels
  obtain ⟨users, channels, rfl⟩ := hlisted.eq
  constructor
  · intro id user huser
    rw [husers] at huser
    exact hindexed.nick_found huser
  · intro id channel hchannel
    rw [hchannels] at hchannel
    exact hindexed.name_found hchannel

/-! ## A change of the case mapping -/

/-- In a complete index names that are the same lead to one user or channel. -/
theorem Indexed.distinct (hindexed : s.Indexed) (h : s.Grounded) : s.Distinct where
  nicks user huser other hother hsame := by
    have hfound := hindexed.nick_found (h.mem_users_iff.mp huser)
    have hfoundOther := hindexed.nick_found (h.mem_users_iff.mp hother)
    rw [Directory.key, s.directory.caseMapping.same_iff.mp hsame] at hfound
    exact Option.some.inj (hfound.symm.trans hfoundOther)
  names channel hchannel other hother hsame := by
    have hfound := hindexed.name_found (h.mem_channels_iff.mp hchannel)
    have hfoundOther := hindexed.name_found (h.mem_channels_iff.mp hother)
    rw [Directory.key, s.directory.caseMapping.same_iff.mp hsame] at hfound
    exact Option.some.inj (hfound.symm.trans hfoundOther)

theorem caseMapping_withCaseMapping (s : Store) (mapping : CaseMapping) :
    (s.withCaseMapping mapping).directory.caseMapping = mapping := by
  unfold withCaseMapping
  split
  · assumption
  · rfl

theorem statusSymbols_withCaseMapping (s : Store) (mapping : CaseMapping) :
    (s.withCaseMapping mapping).directory.statusSymbols = s.directory.statusSymbols := by
  unfold withCaseMapping
  split <;> rfl

theorem withCaseMapping_eq (s : Store) (mapping : CaseMapping) :
    ∃ directory, s.withCaseMapping mapping = { s with directory := directory } := by
  unfold withCaseMapping
  split
  · exact ⟨s.directory, rfl⟩
  · exact ⟨_, rfl⟩

/-- A rebuilt index leads from a nick to a user if nobody else's nick is the same. -/
theorem nick_found_withCaseMapping (h : s.Grounded) {mapping : CaseMapping}
    (hchange : s.directory.caseMapping ≠ mapping) {id : UserId} {user : User}
    (huser : s.users.get? id = some user)
    (honly : ∀ other ∈ s.users.values, mapping.normalize other.nick = mapping.normalize user.nick →
      other.id = id) :
    (s.withCaseMapping mapping).directory.nicks.get? (mapping.normalize user.nick) = some id := by
  obtain ⟨hid, -⟩ := h.user_id huser
  unfold withCaseMapping
  rw [if_neg hchange]
  apply Table.get?_ofList
  · simp only [List.map_map, List.mem_map, Function.comp, Prod.mk.injEq]
    exact ⟨user, (Table.mem_values_iff _ _).mpr ⟨id, huser⟩, rfl, hid⟩
  · intro id' hentry
    simp only [List.map_map, List.mem_map, Function.comp, Prod.mk.injEq] at hentry
    obtain ⟨other, hother, hkey, rfl⟩ := hentry
    exact honly other hother hkey

theorem name_found_withCaseMapping (h : s.Grounded) {mapping : CaseMapping}
    (hchange : s.directory.caseMapping ≠ mapping) {id : ChannelId} {channel : Channel}
    (hchannel : s.channels.get? id = some channel)
    (honly : ∀ other ∈ s.channels.values,
      mapping.normalize other.name = mapping.normalize channel.name → other.id = id) :
    (s.withCaseMapping mapping).directory.channels.get? (mapping.normalize channel.name) =
      some id := by
  obtain ⟨hid, -⟩ := h.channel_id hchannel
  unfold withCaseMapping
  rw [if_neg hchange]
  apply Table.get?_ofList
  · simp only [List.map_map, List.mem_map, Function.comp, Prod.mk.injEq]
    exact ⟨channel, (Table.mem_values_iff _ _).mpr ⟨id, hchannel⟩, rfl, hid⟩
  · intro id' hentry
    simp only [List.map_map, List.mem_map, Function.comp, Prod.mk.injEq] at hentry
    obtain ⟨other, hother, hkey, rfl⟩ := hentry
    exact honly other hother hkey

/-- A rebuilt index is complete if no two names have become the same. -/
theorem Distinct.indexed_withCaseMapping {mapping : CaseMapping}
    (hdistinct : (s.withCaseMapping mapping).Distinct) (h : s.Grounded)
    (hchange : s.directory.caseMapping ≠ mapping) : (s.withCaseMapping mapping).Indexed := by
  obtain ⟨hnicks, hnames⟩ := hdistinct
  have hmapping := s.caseMapping_withCaseMapping mapping
  obtain ⟨directory, heq⟩ := s.withCaseMapping_eq mapping
  rw [hmapping, heq] at hnicks hnames
  constructor
  · intro id user huser
    rw [Directory.key, hmapping]
    rw [heq] at huser
    apply nick_found_withCaseMapping h hchange huser
    intro other hother hkey
    rw [hnicks other hother user ((Table.mem_values_iff _ _).mpr ⟨id, huser⟩)
      (mapping.same_iff.mpr hkey), (h.user_id huser).1]
  · intro id channel hchannel
    rw [Directory.key, hmapping]
    rw [heq] at hchannel
    apply name_found_withCaseMapping h hchange hchannel
    intro other hother hkey
    rw [hnames other hother channel ((Table.mem_values_iff _ _).mpr ⟨id, hchannel⟩)
      (mapping.same_iff.mpr hkey), (h.channel_id hchannel).1]

end Store

end IrcClient
