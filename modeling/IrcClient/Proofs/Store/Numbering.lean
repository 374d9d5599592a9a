import IrcClient.Proofs.Store.Operation

/-!
# Ids and those who carry them

Every operation on a store goes on counting where the one before it stopped. Whoever is known after it
was known before under the same id, or has an id that was given out just now. So everybody is kept under
the id that it carries.
-/

namespace IrcClient

/-! ## Tables -/

section Tables

variable {kind : EntityKind} {α : Type} {idOf : α → Id kind} {t t' t'' : Table (Id kind) α}
  {low middle high : Nat}

/-- Whatever is in `t'` was in `t` with the same id, or has the id under which it is kept, and that is
one of those from `low` on and below `high`. -/
def Table.NumbersOn (idOf : α → Id kind) (t t' : Table (Id kind) α) (low high : Nat) : Prop :=
  ∀ ⦃id value⦄, t'.get? id = some value →
    (∃ old, t.get? id = some old ∧ idOf value = idOf old) ∨
      (idOf value = id ∧ low ≤ id.number ∧ id.number < high)

namespace Table.NumbersOn

theorem refl (idOf : α → Id kind) (t : Table (Id kind) α) (low high : Nat) :
    t.NumbersOn idOf t low high :=
  fun _ value hget => Or.inl ⟨value, hget, rfl⟩

theorem trans (hfirst : t.NumbersOn idOf t' low middle) (hsecond : t'.NumbersOn idOf t'' middle high)
    (hlow : low ≤ middle) (hhigh : middle ≤ high) : t.NumbersOn idOf t'' low high := by
  intro id value hget
  rcases hsecond hget with ⟨old, hold, hid⟩ | ⟨hid, hfrom, hbelow⟩
  · rw [hid]
    exact (hfirst hold).imp_right fun hnew =>
      ⟨hnew.1, hnew.2.1, Nat.lt_of_lt_of_le hnew.2.2 hhigh⟩
  · exact Or.inr ⟨hid, Nat.le_trans hlow hfrom, hbelow⟩

theorem insert (t : Table (Id kind) α) {number : Nat} {value : α} (hid : idOf value = ⟨number⟩) :
    t.NumbersOn idOf (t.insert ⟨number⟩ value) number (number + 1) := by
  intro id found hget
  rw [Table.get?_insert] at hget
  split at hget
  · rename_i heq
    cases hget
    rw [← heq]
    exact Or.inr ⟨hid, Nat.le_refl _, Nat.lt_succ_self _⟩
  · exact Or.inl ⟨found, hget, rfl⟩

theorem erase (t : Table (Id kind) α) (gone : Id kind) (low high : Nat) :
    t.NumbersOn idOf (t.erase gone) low high := by
  intro id value hget
  rw [Table.get?_erase] at hget
  split at hget
  · cases hget
  · exact Or.inl ⟨value, hget, rfl⟩

theorem modify (t : Table (Id kind) α) (changed : Id kind) {f : α → α}
    (hf : ∀ value, idOf (f value) = idOf value) (low high : Nat) :
    t.NumbersOn idOf (t.modify changed f) low high := by
  intro id value hget
  rw [Table.get?_modify] at hget
  split at hget
  · obtain ⟨old, hold, rfl⟩ := Option.map_eq_some_iff.mp hget
    exact Or.inl ⟨old, hold, hf old⟩
  · exact Or.inl ⟨value, hget, rfl⟩

theorem empty (t : Table (Id kind) α) (low high : Nat) : t.NumbersOn idOf .empty low high := by
  intro id value hget
  cases hget

end Table.NumbersOn

end Tables

namespace Store

variable {s s' s'' : Store}

/-- Whoever is known in `s'` was known in `s` under the same id, or has an id that was given out
since. -/
structure NumbersOn (s s' : Store) : Prop where
  nextId : s.nextId ≤ s'.nextId
  users : s.users.NumbersOn User.id s'.users s.nextId s'.nextId
  channels : s.channels.NumbersOn Channel.id s'.channels s.nextId s'.nextId

namespace NumbersOn

theorem of_eq (hnextId : s'.nextId = s.nextId) (husers : s'.users = s.users)
    (hchannels : s'.channels = s.channels) : s.NumbersOn s' where
  nextId := Nat.le_of_eq hnextId.symm
  users := by
    rw [husers]
    exact .refl ..
  channels := by
    rw [hchannels]
    exact .refl ..

theorem refl (s : Store) : s.NumbersOn s := of_eq rfl rfl rfl

theorem trans (hfirst : s.NumbersOn s') (hsecond : s'.NumbersOn s'') : s.NumbersOn s'' where
  nextId := Nat.le_trans hfirst.nextId hsecond.nextId
  users := hfirst.users.trans hsecond.users hfirst.nextId hsecond.nextId
  channels := hfirst.channels.trans hsecond.channels hfirst.nextId hsecond.nextId

end NumbersOn

/-! ## What the operations do -/

theorem numbersOn_modifyUser (id : UserId) {f : User → User} (hf : ∀ user, (f user).id = user.id) :
    s.NumbersOn (s.modifyUser id f) :=
  ⟨Nat.le_refl _, .modify s.users id hf _ _, .refl ..⟩

theorem numbersOn_trackUser (seen : Hostmask) : s.NumbersOn (s.trackUser seen).1 := by
  unfold trackUser
  split
  · exact numbersOn_modifyUser _ fun user => user.id_absorb seen
  · exact ⟨Nat.le_succ _, .insert s.users rfl, .refl ..⟩

theorem numbersOn_trackChannel (name : String) : s.NumbersOn (s.trackChannel name).1 := by
  unfold trackChannel
  split
  · exact .refl s
  · exact ⟨Nat.le_succ _, .refl .., .insert s.channels rfl⟩

theorem numbersOn_forgetUser (id : UserId) : s.NumbersOn (s.forgetUser id) := by
  unfold forgetUser
  split
  · exact ⟨Nat.le_refl _, .erase s.users id _ _, .refl ..⟩
  · exact .refl s

theorem numbersOn_collect (id : UserId) : s.NumbersOn (s.collect id) := by
  unfold collect
  split
  · exact .refl s
  · exact numbersOn_forgetUser id

theorem numbersOn_foldl_collect (ids : List UserId) : s.NumbersOn (ids.foldl collect s) := by
  induction ids generalizing s with
  | nil => exact .refl s
  | cons id ids ih => exact (numbersOn_collect id).trans ih

theorem numbersOn_forgetChannel (id : ChannelId) : s.NumbersOn (s.forgetChannel id) := by
  unfold forgetChannel
  split
  · exact ⟨Nat.le_refl _, .refl .., .erase s.channels id _ _⟩
  · exact .refl s

theorem numbersOn_withoutUser (standing : Standing) (id : UserId) :
    s.NumbersOn (s.withoutUser standing id) := by
  refine .trans ?_ (numbersOn_forgetUser id)
  exact .of_eq rfl rfl rfl

theorem numbersOn_renamed (user : User) (id : UserId) (nick : String) :
    s.NumbersOn (s.renamed user id nick) := by
  have hnamed := numbersOn_modifyUser (s := s) id (f := fun user => user.withNick nick) fun _ => rfl
  exact hnamed.trans (.of_eq rfl rfl rfl)

theorem Relisted.numbersOn (h : s.Relisted s') : s.NumbersOn s' where
  nextId := Nat.le_of_eq h.nextId.symm
  users id user hget := by
    rw [h.get?_users] at hget
    exact Or.inl ⟨user, hget, rfl⟩
  channels id channel hget := by
    rw [h.get?_channels] at hget
    exact Or.inl ⟨channel, hget, rfl⟩

/-- An operation on sound relations gives a store that goes on counting. -/
theorem numbersOn_perform (h : s.standing.Sound) (operation : StoreOperation) :
    ∃ s', s.perform operation = .ok s' ∧ s.NumbersOn s' := by
  cases operation with
  | trackUser seen => exact ⟨_, rfl, numbersOn_trackUser seen⟩
  | renameUser id nick =>
    cases hget : s.users.get? id with
    | none => exact ⟨s, renameUser_of_unknown hget nick, .refl s⟩
    | some user =>
      rcases evictOther_spec h id nick with ⟨hok, -⟩ | ⟨holder, standing, -, -, hok, -, -⟩
      · exact ⟨_, renameUser_of_known hget hok, numbersOn_renamed user id nick⟩
      · exact ⟨_, renameUser_of_known hget hok,
          (numbersOn_withoutUser standing holder).trans (numbersOn_renamed user id nick)⟩
  | removeUser id =>
    obtain ⟨standing, hok, -, -⟩ := removeUser_spec h id
    exact ⟨_, hok, numbersOn_withoutUser standing id⟩
  | addContact id =>
    refine ⟨_, rfl, ?_⟩
    unfold addContact
    split
    · exact .refl s
    · exact .of_eq rfl rfl rfl
  | removeContact id =>
    refine ⟨_, rfl, .trans ?_ (numbersOn_collect id)⟩
    exact .of_eq rfl rfl rfl
  | setSelf id => exact ⟨_, rfl, .of_eq rfl rfl rfl⟩
  | trackChannel name => exact ⟨_, rfl, numbersOn_trackChannel name⟩
  | removeChannel id =>
    obtain ⟨standing, hok, -, -⟩ := removeChannel_spec h id
    refine ⟨_, hok, .trans ?_ (numbersOn_foldl_collect _)⟩
    refine .trans ?_ (numbersOn_forgetChannel id)
    exact .of_eq rfl rfl rfl
  | addMember user channel => exact ⟨_, rfl, .of_eq rfl rfl rfl⟩
  | removeMember user channel =>
    obtain ⟨standing, hok, -, -⟩ := removeMember_spec h user channel
    refine ⟨_, hok, .trans ?_ (numbersOn_collect user)⟩
    exact .of_eq rfl rfl rfl
  | grant level user channel => exact ⟨_, rfl, .of_eq rfl rfl rfl⟩
  | revoke level user channel =>
    obtain ⟨standing, hok, -, -⟩ := revoke_spec h level user channel
    exact ⟨_, hok, .of_eq rfl rfl rfl⟩
  | setCaseMapping mapping =>
    refine ⟨_, rfl, ?_⟩
    unfold withCaseMapping
    split
    · exact .refl s
    · exact .of_eq rfl rfl rfl
  | setChannelPrefixes prefixes => exact ⟨_, rfl, .of_eq rfl rfl rfl⟩
  | setStatusSymbols symbols => exact ⟨_, rfl, .of_eq rfl rfl rfl⟩
  | clear => exact ⟨_, rfl, Nat.le_refl _, .empty .., .empty ..⟩
  | relist users channels => exact ⟨_, rfl, (s.relisted_relist users channels).numbersOn⟩

theorem numbersOn_performAll (h : s.standing.Sound) {operations : List StoreOperation}
    (hok : s.performAll operations = .ok s') : s.NumbersOn s' := by
  induction operations generalizing s with
  | nil =>
    cases hok
    exact .refl _
  | cons operation operations ih =>
    obtain ⟨next, hnext, hsound⟩ := perform_spec h operation
    obtain ⟨next', hnext', hnumbers⟩ := numbersOn_perform h operation
    cases hnext.symm.trans hnext'
    rw [performAll, List.foldlM_cons, hnext] at hok
    exact hnumbers.trans (ih hsound hok)

/-- Everybody is kept under the id that it carries, and every known id has been given out. -/
structure Numbered (s : Store) : Prop where
  users : ∀ {id user}, s.users.get? id = some user → user.id = id ∧ id.number < s.nextId
  channels : ∀ {id channel}, s.channels.get? id = some channel →
    channel.id = id ∧ id.number < s.nextId

theorem numbered_of_performAll {operations : List StoreOperation}
    (hok : Store.initial.performAll operations = .ok s) : s.Numbered := by
  have hnumbers := numbersOn_performAll Standing.Sound.empty hok
  constructor
  · intro id user huser
    rcases hnumbers.users huser with ⟨old, hold, -⟩ | ⟨hid, -, hlt⟩
    · cases hold
    · exact ⟨hid, hlt⟩
  · intro id channel hchannel
    rcases hnumbers.channels hchannel with ⟨old, hold, -⟩ | ⟨hid, -, hlt⟩
    · cases hold
    · exact ⟨hid, hlt⟩

end Store

end IrcClient
