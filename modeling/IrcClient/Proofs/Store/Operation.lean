import IrcClient.Proofs.Store.Effect
import IrcClient.Proofs.Store.Relisting

/-!
# Sequences of store operations

The operations that change a store, as data, so that whole sequences of them can be spoken of. Between
any two of them the tables may come to list their entries in other orders. From the empty store no
sequence of them ever fails, whatever ids it uses, and the relations stay sound.
-/

namespace IrcClient

/-- A change of a store. The ids may be of anybody, known, forgotten or never given out. -/
inductive StoreOperation where
  | trackUser (seen : Hostmask)
  | renameUser (id : UserId) (nick : String)
  | removeUser (id : UserId)
  | addContact (id : UserId)
  | removeContact (id : UserId)
  | setSelf (id : UserId)
  | trackChannel (name : String)
  | removeChannel (id : ChannelId)
  | addMember (user : UserId) (channel : ChannelId)
  | removeMember (user : UserId) (channel : ChannelId)
  | grant (level : PrivilegeLevel) (user : UserId) (channel : ChannelId)
  | revoke (level : PrivilegeLevel) (user : UserId) (channel : ChannelId)
  | setCaseMapping (mapping : CaseMapping)
  | setChannelPrefixes (prefixes : String)
  | setStatusSymbols (symbols : String)
  | clear
  /-- The tables come to be listed in other orders, on which nobody has any influence. -/
  | relist (users : Table UserId User) (channels : Table ChannelId Channel)
  deriving DecidableEq

/-- The six relations. -/
def Standing.relations (s : Standing) : List Relation :=
  s.members :: PrivilegeLevel.all.map s.levels.get

namespace Store

/-- The store after a change. -/
def perform (s : Store) : StoreOperation → Except ConsistencyFault Store
  | .trackUser seen => .ok (s.trackUser seen).1
  | .renameUser id nick => s.renameUser id nick
  | .removeUser id => s.removeUser id
  | .addContact id => .ok (s.addContact id)
  | .removeContact id => .ok (s.removeContact id)
  | .setSelf id => .ok (s.withSelf id)
  | .trackChannel name => .ok (s.trackChannel name).1
  | .removeChannel id => s.removeChannel id
  | .addMember user channel => .ok (s.addMember user channel)
  | .removeMember user channel => s.removeMember user channel
  | .grant level user channel => .ok (s.grant level user channel)
  | .revoke level user channel => s.revoke level user channel
  | .setCaseMapping mapping => .ok (s.withCaseMapping mapping)
  | .setChannelPrefixes prefixes => .ok (s.withChannelPrefixes prefixes)
  | .setStatusSymbols symbols => .ok (s.withStatusSymbols symbols)
  | .clear => .ok s.clear
  | .relist users channels => .ok (s.relist users channels)

/-- The store after several changes in order, or the first fault. -/
def performAll (s : Store) (operations : List StoreOperation) : Except ConsistencyFault Store :=
  operations.foldlM perform s

variable {s : Store}

theorem standing_withCaseMapping (mapping : CaseMapping) :
    (s.withCaseMapping mapping).standing = s.standing := by
  unfold withCaseMapping
  split <;> rfl

theorem standing_addContact (id : UserId) : (s.addContact id).standing = s.standing := by
  unfold addContact
  split <;> rfl

theorem standing_removeContact (id : UserId) : (s.removeContact id).standing = s.standing := by
  simp [removeContact]

theorem renameUser_standing (h : s.standing.Sound) (id : UserId) (nick : String) :
    ∃ s', s.renameUser id nick = .ok s' ∧ s'.standing.Sound := by
  cases hget : s.users.get? id with
  | none => exact ⟨s, renameUser_of_unknown hget nick, h⟩
  | some user =>
    rcases evictOther_spec h id nick with ⟨hok, -⟩ | ⟨holder, standing, -, -, hok, hsound, -⟩
    · exact ⟨s.renamed user id nick, renameUser_of_known hget hok, h⟩
    · refine ⟨_, renameUser_of_known hget hok, ?_⟩
      simpa [renamed, withoutUser] using hsound

/-- No operation fails on sound relations, and each leaves them sound. -/
theorem perform_spec (h : s.standing.Sound) (operation : StoreOperation) :
    ∃ s', s.perform operation = .ok s' ∧ s'.standing.Sound := by
  cases operation with
  | trackUser seen => exact ⟨_, rfl, by simpa using h⟩
  | renameUser id nick => exact renameUser_standing h id nick
  | removeUser id =>
    obtain ⟨standing, hok, hsound, -⟩ := removeUser_spec h id
    exact ⟨_, hok, by simpa [withoutUser] using hsound⟩
  | addContact id => exact ⟨_, rfl, by simpa [standing_addContact] using h⟩
  | removeContact id => exact ⟨_, rfl, by simpa [standing_removeContact] using h⟩
  | setSelf id => exact ⟨_, rfl, h⟩
  | trackChannel name => exact ⟨_, rfl, by simpa using h⟩
  | removeChannel id =>
    obtain ⟨standing, hok, hsound, -⟩ := removeChannel_spec h id
    exact ⟨_, hok, by simpa using hsound⟩
  | addMember user channel => exact ⟨_, rfl, h.join user channel⟩
  | removeMember user channel =>
    obtain ⟨standing, hok, hsound, -⟩ := removeMember_spec h user channel
    exact ⟨_, hok, by simpa using hsound⟩
  | grant level user channel => exact ⟨_, rfl, h.grant level user channel⟩
  | revoke level user channel =>
    obtain ⟨standing, hok, hsound, -⟩ := revoke_spec h level user channel
    exact ⟨_, hok, hsound⟩
  | setCaseMapping mapping => exact ⟨_, rfl, by simpa [standing_withCaseMapping] using h⟩
  | setChannelPrefixes prefixes => exact ⟨_, rfl, h⟩
  | setStatusSymbols symbols => exact ⟨_, rfl, h⟩
  | clear => exact ⟨_, rfl, Standing.Sound.empty⟩
  | relist users channels =>
    exact ⟨_, rfl, by rwa [(s.relisted_relist users channels).standing]⟩

theorem performAll_spec (h : s.standing.Sound) (operations : List StoreOperation) :
    ∃ s', s.performAll operations = .ok s' ∧ s'.standing.Sound := by
  induction operations generalizing s with
  | nil => exact ⟨s, rfl, h⟩
  | cons operation operations ih =>
    obtain ⟨next, hnext, hsound⟩ := perform_spec h operation
    obtain ⟨last, hlast, hlastSound⟩ := ih hsound
    refine ⟨last, ?_, hlastSound⟩
    rw [performAll, List.foldlM_cons, hnext]
    exact hlast

theorem verify_of_sound (h : s.standing.Sound) : s.verify = .ok () := by
  rw [verify, h.fault?_eq_none]

theorem sound_of_mem_relations {standing : Standing} (h : standing.Sound) {relation : Relation}
    (hmem : relation ∈ standing.relations) : relation.Sound := by
  rcases List.mem_cons.mp hmem with rfl | hlevel
  · exact h.members
  · obtain ⟨level, -, rfl⟩ := List.mem_map.mp hlevel
    exact h.levels level

/-- Every sequence of operations on an empty store succeeds throughout and leaves a store that
verifies. No direction of a relation ever keeps an empty entry, so a user is listed in a relation
exactly while it has a pair there. -/
theorem performAll_initial (operations : List StoreOperation) :
    ∃ s, Store.initial.performAll operations = .ok s ∧ s.verify = .ok () ∧
      ∀ relation ∈ s.standing.relations,
        (∀ user channels, relation.byUser.get? user = some channels → channels ≠ []) ∧
        (∀ channel users, relation.byChannel.get? channel = some users → users ≠ []) ∧
        ∀ user, relation.hasUser user = true ↔ ∃ channel, relation.contains user channel = true := by
  obtain ⟨s, hok, hsound⟩ := performAll_spec (s := Store.initial) Standing.Sound.empty operations
  refine ⟨s, hok, verify_of_sound hsound, ?_⟩
  intro relation hmem
  have hrelation := sound_of_mem_relations hsound hmem
  exact ⟨hrelation.byUser.nonempty, hrelation.byChannel.nonempty, hrelation.hasUser_iff⟩

end Store

end IrcClient
