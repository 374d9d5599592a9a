import IrcClient.Proofs.Store.NickIndex

/-!
# Ids are given once

Whatever operations are performed on a store, each newcomer gets an id with a higher number than all ids
given before, to users and to channels alike. So an id stands for one user or one channel for good:
whoever is forgotten is not known under its old id ever again, and nobody else is.
-/

namespace IrcClient.Store

variable {s s' s'' : Store}

/-! ## Names that lead to somebody -/

/-- Whatever name is in the index leads to a user or a channel that bears it. -/
structure IndexKnown (s : Store) : Prop where
  nicks : s.NicksKnown
  names : s.NamesKnown

namespace IndexKnown

theorem congr (h : s.IndexKnown) (hdirectory : s'.directory = s.directory)
    (husers : ∀ id, s'.users.get? id = s.users.get? id)
    (hchannels : ∀ id, s'.channels.get? id = s.channels.get? id) : s'.IndexKnown := by
  constructor
  · simpa only [NicksKnown, hdirectory, husers] using h.nicks
  · simpa only [NamesKnown, hdirectory, hchannels] using h.names

theorem trackUser (h : s.IndexKnown) (hfresh : s.users.get? ⟨s.nextId⟩ = none) (seen : Hostmask) :
    (s.trackUser seen).1.IndexKnown := by
  unfold Store.trackUser
  split
  · exact ⟨h.nicks.modifyUser _ fun user => user.nick_absorb seen, h.names⟩
  · exact ⟨h.nicks.enterUser hfresh seen, h.names⟩

theorem trackChannel (h : s.IndexKnown) (hfresh : s.channels.get? ⟨s.nextId⟩ = none) (name : String) :
    (s.trackChannel name).1.IndexKnown := by
  unfold Store.trackChannel
  split
  · exact h
  · exact ⟨h.nicks, h.names.enterChannel hfresh name⟩

theorem forgetUser (h : s.IndexKnown) (id : UserId) : (s.forgetUser id).IndexKnown :=
  ⟨h.nicks.forgetUser id, h.names.forgetUser id⟩

theorem collect (h : s.IndexKnown) (id : UserId) : (s.collect id).IndexKnown := by
  unfold Store.collect
  split
  · exact h
  · exact h.forgetUser id

theorem foldl_collect (h : s.IndexKnown) (ids : List UserId) :
    (ids.foldl Store.collect s).IndexKnown := by
  induction ids generalizing s with
  | nil => exact h
  | cons id ids ih => exact ih (h.collect id)

theorem forgetChannel (h : s.IndexKnown) (id : ChannelId) : (s.forgetChannel id).IndexKnown := by
  refine ⟨?_, h.names.forgetChannel id⟩
  unfold Store.forgetChannel
  split
  · exact h.nicks
  · exact h.nicks

theorem renameUser (h : s.IndexKnown) (hsound : s.standing.Sound) {id : UserId} {nick : String}
    (hok : s.renameUser id nick = .ok s') : s'.IndexKnown := by
  cases huser : s.users.get? id with
  | none =>
    cases (renameUser_of_unknown huser nick).symm.trans hok
    exact h
  | some user =>
    obtain ⟨renamed, hrename, htakes⟩ := takesNick_renameUser hsound h.nicks huser nick
    cases hrename.symm.trans hok
    refine ⟨htakes.nicksKnown h.nicks, ?_⟩
    intro key id' hget
    rw [htakes.names] at hget
    obtain ⟨channel, hchannel, hname⟩ := h.names hget
    exact ⟨channel, by rw [htakes.channels, hchannel], by rw [htakes.renames.key, hname]⟩

end IndexKnown

/-! ## Any operation -/

/-- The relations are sound, the index leads to those who are known, and everybody is kept under the id
that it carries. Any operation on any ids leaves a store so. -/
structure Filed (s : Store) : Prop where
  standing : s.standing.Sound
  index : s.IndexKnown
  numbered : s.Numbered

theorem Filed.initial : Store.initial.Filed where
  standing := Standing.Sound.empty
  index := ⟨fun _ _ h => (by cases h), fun _ _ h => (by cases h)⟩
  numbered := ⟨fun {_ _} h => (by cases h), fun {_ _} h => (by cases h)⟩

theorem Numbered.numbersOn (h : s.Numbered) (hnumbers : s.NumbersOn s') : s'.Numbered where
  users hget := by
    rcases hnumbers.users hget with ⟨old, hold, hid⟩ | ⟨hid, -, hlt⟩
    · rw [hid]
      exact ⟨(h.users hold).1, Nat.lt_of_lt_of_le (h.users hold).2 hnumbers.nextId⟩
    · exact ⟨hid, hlt⟩
  channels hget := by
    rcases hnumbers.channels hget with ⟨old, hold, hid⟩ | ⟨hid, -, hlt⟩
    · rw [hid]
      exact ⟨(h.channels hold).1, Nat.lt_of_lt_of_le (h.channels hold).2 hnumbers.nextId⟩
    · exact ⟨hid, hlt⟩

theorem Numbered.fresh_user (h : s.Numbered) : s.users.get? ⟨s.nextId⟩ = none :=
  Option.eq_none_iff_forall_ne_some.mpr fun _ hget => Nat.lt_irrefl _ (h.users hget).2

theorem Numbered.fresh_channel (h : s.Numbered) : s.channels.get? ⟨s.nextId⟩ = none :=
  Option.eq_none_iff_forall_ne_some.mpr fun _ hget => Nat.lt_irrefl _ (h.channels hget).2

theorem Filed.index_perform (h : s.Filed) {operation : StoreOperation}
    (hok : s.perform operation = .ok s') : s'.IndexKnown := by
  obtain ⟨hsound, hindex, hnumbered⟩ := h
  -- Relations and marks are no concern of the index.
  have hmarked (standing : Standing) (contacts : List UserId) (selfId : Option UserId) :
      IndexKnown { s with standing := standing, contacts := contacts, selfId := selfId } :=
    hindex.congr rfl (fun _ => rfl) fun _ => rfl
  cases operation with
  | trackUser seen =>
    cases hok
    exact hindex.trackUser hnumbered.fresh_user seen
  | renameUser id nick => exact hindex.renameUser hsound hok
  | removeUser id =>
    obtain ⟨standing, hremove, -, -⟩ := removeUser_spec hsound id
    cases hremove.symm.trans hok
    exact (hmarked ..).forgetUser id
  | addContact id =>
    cases hok
    unfold Store.addContact
    split
    · exact hindex
    · exact hmarked ..
  | removeContact id =>
    cases hok
    exact (hmarked ..).collect id
  | setSelf id =>
    cases hok
    exact hmarked ..
  | trackChannel name =>
    cases hok
    exact hindex.trackChannel hnumbered.fresh_channel name
  | removeChannel id =>
    obtain ⟨standing, hremove, -, -⟩ := removeChannel_spec hsound id
    cases hremove.symm.trans hok
    exact ((hmarked ..).forgetChannel id).foldl_collect _
  | addMember user channel =>
    cases hok
    exact hmarked ..
  | removeMember user channel =>
    obtain ⟨standing, hremove, -, -⟩ := removeMember_spec hsound user channel
    cases hremove.symm.trans hok
    exact (hmarked ..).collect user
  | grant level user channel =>
    cases hok
    exact hmarked ..
  | revoke level user channel =>
    obtain ⟨standing, hrevoke, -, -⟩ := revoke_spec hsound level user channel
    cases hrevoke.symm.trans hok
    exact hmarked ..
  | setCaseMapping mapping =>
    cases hok
    exact ⟨hindex.nicks.withCaseMapping (fun hget => (hnumbered.users hget).1) mapping,
      hindex.names.withCaseMapping (fun hget => (hnumbered.channels hget).1) mapping⟩
  | setChannelPrefixes prefixes =>
    cases hok
    exact hindex.congr rfl (fun _ => rfl) fun _ => rfl
  | setStatusSymbols symbols =>
    cases hok
    exact ⟨hindex.nicks, hindex.names⟩
  | clear =>
    cases hok
    exact ⟨fun _ _ hget => (by cases hget), fun _ _ hget => (by cases hget)⟩
  | relist users channels =>
    cases hok
    have hlisted := s.relisted_relist users channels
    exact hindex.congr hlisted.directory hlisted.get?_users hlisted.get?_channels

theorem Filed.perform (h : s.Filed) (operation : StoreOperation) :
    ∃ s', s.perform operation = .ok s' ∧ s'.Filed ∧ s.NumbersOn s' := by
  obtain ⟨next, hnext, hsound⟩ := perform_spec h.standing operation
  obtain ⟨next', hnext', hnumbers⟩ := numbersOn_perform h.standing operation
  cases hnext.symm.trans hnext'
  exact ⟨next, hnext, ⟨hsound, h.index_perform hnext, h.numbered.numbersOn hnumbers⟩, hnumbers⟩

theorem Filed.performAll (h : s.Filed) (operations : List StoreOperation) :
    ∃ s', s.performAll operations = .ok s' ∧ s'.Filed ∧ s.NumbersOn s' := by
  obtain ⟨last, hlast, -⟩ := performAll_spec h.standing operations
  refine ⟨last, hlast, ?_, numbersOn_performAll h.standing hlast⟩
  induction operations generalizing s with
  | nil =>
    cases hlast
    exact h
  | cons operation operations ih =>
    obtain ⟨next, hnext, hfiled, -⟩ := h.perform operation
    rw [Store.performAll, List.foldlM_cons, hnext] at hlast
    exact ih hfiled hlast

/-! ## Who is known under an id -/

/-- Whether a user or a channel is known under an id. -/
def knows (s : Store) : Sigma Id → Bool
  | ⟨.user, id⟩ => s.users.contains id
  | ⟨.channel, id⟩ => s.channels.contains id

/-- The id that an operation gives back, of somebody new or old. -/
def answer? (s : Store) : StoreOperation → Option (Sigma Id)
  | .trackUser seen => some ⟨.user, (s.trackUser seen).2⟩
  | .trackChannel name => some ⟨.channel, (s.trackChannel name).2⟩
  | _ => none

theorem Numbered.lt_of_knows (h : s.Numbered) {id : Sigma Id} (hknows : s.knows id = true) :
    id.2.number < s.nextId := by
  obtain ⟨kind, id⟩ := id
  cases kind with
  | user =>
    obtain ⟨user, huser⟩ := (Table.contains_iff _ _).mp hknows
    exact (h.users huser).2
  | channel =>
    obtain ⟨channel, hchannel⟩ := (Table.contains_iff _ _).mp hknows
    exact (h.channels hchannel).2

theorem NumbersOn.knows (h : s.NumbersOn s') {id : Sigma Id} (hknows : s'.knows id = true) :
    s.knows id = true ∨ s.nextId ≤ id.2.number ∧ id.2.number < s'.nextId := by
  obtain ⟨kind, id⟩ := id
  cases kind with
  | user =>
    obtain ⟨user, huser⟩ := (Table.contains_iff _ _).mp hknows
    rcases h.users huser with ⟨old, hold, -⟩ | ⟨-, hnew⟩
    · exact Or.inl ((Table.contains_iff _ _).mpr ⟨old, hold⟩)
    · exact Or.inr hnew
  | channel =>
    obtain ⟨channel, hchannel⟩ := (Table.contains_iff _ _).mp hknows
    rcases h.channels hchannel with ⟨old, hold, -⟩ | ⟨-, hnew⟩
    · exact Or.inl ((Table.contains_iff _ _).mpr ⟨old, hold⟩)
    · exact Or.inr hnew

/-- The id that an operation gives back is that of somebody who is known then. -/
theorem Filed.knows_answer (h : s.Filed) {operation : StoreOperation}
    (hok : s.perform operation = .ok s') {id : Sigma Id} (hanswer : s.answer? operation = some id) :
    s'.knows id = true := by
  obtain ⟨next, hnext, hfiled, -⟩ := h.perform operation
  cases hok.symm.trans hnext
  cases operation with
  | trackUser seen =>
    cases hanswer
    cases hok
    obtain ⟨user, huser, -⟩ := hfiled.index.nicks (userId?_trackUser seen)
    exact (Table.contains_iff _ _).mpr ⟨user, huser⟩
  | trackChannel name =>
    cases hanswer
    cases hok
    obtain ⟨channel, hchannel, -⟩ := hfiled.index.names (exactChannel?_trackChannel name)
    exact (Table.contains_iff _ _).mpr ⟨channel, hchannel⟩
  | _ => cases hanswer

/-! ## Newcomers -/

theorem nextId_renameUser (h : s.Filed) {id : UserId} {nick : String}
    (hok : s.renameUser id nick = .ok s') : s'.nextId = s.nextId := by
  cases huser : s.users.get? id with
  | none =>
    cases (renameUser_of_unknown huser nick).symm.trans hok
    rfl
  | some user =>
    obtain ⟨renamed, hrename, htakes⟩ := takesNick_renameUser h.standing h.index.nicks huser nick
    cases hrename.symm.trans hok
    exact htakes.nextId

/-- Ids are counted only by the operations that give one back. -/
theorem Filed.nextId_perform (h : s.Filed) {operation : StoreOperation}
    (hok : s.perform operation = .ok s') (hanswer : s.answer? operation = none) :
    s'.nextId = s.nextId := by
  cases operation with
  | trackUser seen => cases hanswer
  | trackChannel name => cases hanswer
  | renameUser id nick => exact nextId_renameUser h hok
  | removeUser id =>
    obtain ⟨standing, hremove, -, -⟩ := removeUser_spec h.standing id
    cases hremove.symm.trans hok
    exact nextId_forgetUser id
  | addContact id =>
    cases hok
    unfold Store.addContact
    split <;> rfl
  | removeContact id =>
    cases hok
    exact nextId_collect id
  | removeChannel id =>
    obtain ⟨standing, hremove, -, -⟩ := removeChannel_spec h.standing id
    cases hremove.symm.trans hok
    rw [nextId_foldl_collect, nextId_forgetChannel]
  | removeMember user channel =>
    obtain ⟨standing, hremove, -, -⟩ := removeMember_spec h.standing user channel
    cases hremove.symm.trans hok
    exact nextId_collect user
  | revoke level user channel =>
    obtain ⟨standing, hrevoke, -, -⟩ := revoke_spec h.standing level user channel
    cases hrevoke.symm.trans hok
    rfl
  | setCaseMapping mapping =>
    cases hok
    unfold Store.withCaseMapping
    split <;> rfl
  | relist users channels =>
    cases hok
    exact (s.relisted_relist users channels).nextId
  | _ =>
    cases hok
    rfl

theorem knows_trackUser {seen : Hostmask} {id : Sigma Id}
    (hknows : (s.trackUser seen).1.knows id = true) :
    s.knows id = true ∨ ⟨.user, (s.trackUser seen).2⟩ = id := by
  obtain ⟨kind, id⟩ := id
  unfold Store.trackUser at hknows ⊢
  split at hknows
  · cases kind with
    | user => exact Or.inl (by simpa [knows, modifyUser] using hknows)
    | channel => exact Or.inl hknows
  · cases kind with
    | user =>
      rw [knows, Table.contains_insert] at hknows
      exact hknows.symm.imp_right fun heq => by rw [heq]
    | channel => exact Or.inl hknows

theorem knows_trackChannel {name : String} {id : Sigma Id}
    (hknows : (s.trackChannel name).1.knows id = true) :
    s.knows id = true ∨ ⟨.channel, (s.trackChannel name).2⟩ = id := by
  obtain ⟨kind, id⟩ := id
  unfold Store.trackChannel at hknows ⊢
  split at hknows
  · exact Or.inl hknows
  · cases kind with
    | user => exact Or.inl hknows
    | channel =>
      rw [knows, Table.contains_insert] at hknows
      exact hknows.symm.imp_right fun heq => by rw [heq]

/-- Whoever becomes known by an operation is known under the id that the operation gives back. -/
theorem Filed.knows_perform (h : s.Filed) {operation : StoreOperation}
    (hok : s.perform operation = .ok s') {id : Sigma Id} (hknows : s'.knows id = true) :
    s.knows id = true ∨ s.answer? operation = some id := by
  cases hanswer : s.answer? operation with
  | none =>
    obtain ⟨next, hnext, -, hnumbers⟩ := h.perform operation
    cases hok.symm.trans hnext
    refine (hnumbers.knows hknows).imp_right fun hnew => ?_
    rw [h.nextId_perform hok hanswer] at hnew
    omega
  | some answer =>
    rw [Option.some.injEq]
    cases operation with
    | trackUser seen =>
      cases hok
      cases hanswer
      exact knows_trackUser hknows
    | trackChannel name =>
      cases hok
      cases hanswer
      exact knows_trackChannel hknows
    | _ => cases hanswer

/-- The id of somebody whom an operation makes known. -/
def newcomer? (s : Store) (operation : StoreOperation) : Option (Sigma Id) :=
  (s.answer? operation).filter fun id => !s.knows id

/-- The ids of all whom some operations make known, in order. -/
def newcomers (s : Store) : List StoreOperation → List (Sigma Id)
  | [] => []
  | operation :: operations =>
    (s.newcomer? operation).toList ++
      match s.perform operation with
      | .ok next => next.newcomers operations
      | .error _ => []

theorem newcomers_cons {operation : StoreOperation} (hok : s.perform operation = .ok s')
    (operations : List StoreOperation) :
    s.newcomers (operation :: operations) =
      (s.newcomer? operation).toList ++ s'.newcomers operations := by
  rw [newcomers, hok]

/-- A newcomer has an id that was not given before. -/
theorem Filed.number_newcomer (h : s.Filed) {operation : StoreOperation}
    (hok : s.perform operation = .ok s') {id : Sigma Id} (hnew : s.newcomer? operation = some id) :
    s.nextId ≤ id.2.number ∧ id.2.number < s'.nextId := by
  obtain ⟨next, hnext, -, hnumbers⟩ := h.perform operation
  cases hok.symm.trans hnext
  obtain ⟨hanswer, hunknown⟩ := Option.filter_eq_some_iff.mp hnew
  refine (hnumbers.knows (h.knows_answer hok hanswer)).resolve_left fun hknows => ?_
  simp [hknows] at hunknown

theorem Filed.nextId_le_of_mem_newcomers (h : s.Filed) {operations : List StoreOperation}
    {id : Sigma Id} (hmem : id ∈ s.newcomers operations) : s.nextId ≤ id.2.number := by
  induction operations generalizing s with
  | nil => cases hmem
  | cons operation operations ih =>
    obtain ⟨next, hnext, hfiled, hnumbers⟩ := h.perform operation
    rw [newcomers_cons hnext] at hmem
    rcases List.mem_append.mp hmem with hnew | hlater
    · exact (h.number_newcomer hnext (Option.mem_toList.mp hnew)).1
    · exact Nat.le_trans hnumbers.nextId (ih hfiled hlater)

/-- Newcomers get higher and higher numbers. -/
theorem Filed.pairwise_newcomers (h : s.Filed) (operations : List StoreOperation) :
    (s.newcomers operations).Pairwise fun old new => old.2.number < new.2.number := by
  induction operations generalizing s with
  | nil => exact List.Pairwise.nil
  | cons operation operations ih =>
    obtain ⟨next, hnext, hfiled, -⟩ := h.perform operation
    rw [newcomers_cons hnext]
    refine List.pairwise_append.mpr ⟨?_, ih hfiled, ?_⟩
    · cases s.newcomer? operation <;> simp
    · intro old hold new hnew
      have hlt := (h.number_newcomer hnext (Option.mem_toList.mp hold)).2
      exact Nat.lt_of_lt_of_le hlt (hfiled.nextId_le_of_mem_newcomers hnew)

/-- Whoever is known after some operations was known before or is one of the newcomers. -/
theorem Filed.mem_newcomers (h : s.Filed) {operations : List StoreOperation}
    (hok : s.performAll operations = .ok s') {id : Sigma Id} (hknows : s'.knows id = true) :
    s.knows id = true ∨ id ∈ s.newcomers operations := by
  induction operations generalizing s with
  | nil =>
    cases hok
    exact Or.inl hknows
  | cons operation operations ih =>
    obtain ⟨next, hnext, hfiled, -⟩ := h.perform operation
    rw [Store.performAll, List.foldlM_cons, hnext] at hok
    rw [newcomers_cons hnext, List.mem_append, Option.mem_toList]
    rcases ih hfiled hok with hearlier | hlater
    · cases hbefore : s.knows id with
      | true => exact Or.inl rfl
      | false =>
        have hanswer := (h.knows_perform hnext hearlier).resolve_left (by simp [hbefore])
        exact Or.inr (Or.inl (Option.filter_eq_some_iff.mpr ⟨hanswer, by simp [hbefore]⟩))
    · exact Or.inr (Or.inr hlater)

theorem performAll_append {first : List StoreOperation} (hfirst : s.performAll first = .ok s')
    (second : List StoreOperation) : s.performAll (first ++ second) = s'.performAll second := by
  rw [performAll, List.foldlM_append]
  change s.performAll first >>= _ = _
  rw [hfirst]
  rfl

/-- An id that is given back is that of somebody old, or of a newcomer. -/
theorem Filed.answer_mem_newcomers (h : s.Filed) {operations : List StoreOperation}
    (hok : s.performAll operations = .ok s') {operation : StoreOperation} {id : Sigma Id}
    (hanswer : s'.answer? operation = some id) :
    s.knows id = true ∨ id ∈ s.newcomers (operations ++ [operation]) := by
  obtain ⟨next, hnext, hfiled, -⟩ := h.performAll operations
  cases hok.symm.trans hnext
  obtain ⟨last, hlast, -, -⟩ := hfiled.perform operation
  have hall : s.performAll (operations ++ [operation]) = .ok last := by
    rw [performAll_append hok, Store.performAll, List.foldlM_cons, hlast]
    rfl
  exact h.mem_newcomers hall (hfiled.knows_answer hlast hanswer)

/-! ## All operations from the beginning -/

theorem knows_initial (id : Sigma Id) : Store.initial.knows id ≠ true := by
  obtain ⟨kind, id⟩ := id
  cases kind <;> exact Bool.false_ne_true

/-- Whoever was known and is known no more does not come back. -/
theorem NumbersOn.knows_not_again (hnumbered : s.Numbered) (hfirst : s.NumbersOn s')
    (hsecond : s'.NumbersOn s'') {id : Sigma Id} (hknown : s.knows id = true)
    (hgone : s'.knows id = false) : s''.knows id = false := by
  rw [← Bool.not_eq_true] at hgone ⊢
  intro hback
  have hlow := hnumbered.lt_of_knows hknown
  have hhigh := ((hsecond.knows hback).resolve_left hgone).1
  have hcounted := hfirst.nextId
  omega

/-- From the empty store on, every newcomer gets an id with a higher number than all who became known
before, users and channels alike. Nobody is known under any other id, and no other id is ever given back.
Whoever is known no more is not known under its id later either. Everybody is kept under the id that it
carries, in snapshots too. -/
theorem ids_given_once (first second third : List StoreOperation) :
    ∃ s s' s'', Store.initial.performAll first = .ok s ∧ s.performAll second = .ok s' ∧
      s'.performAll third = .ok s'' ∧
      ((Store.initial.newcomers (first ++ second ++ third)).Pairwise fun old new =>
        old.2.number < new.2.number) ∧
      (∀ id, s''.knows id = true → id ∈ Store.initial.newcomers (first ++ second ++ third)) ∧
      (∀ operation id, s''.answer? operation = some id →
        id ∈ Store.initial.newcomers (first ++ second ++ third ++ [operation])) ∧
      (∀ id, s.knows id = true → s'.knows id = false → s''.knows id = false) ∧
      (∀ id user, s''.users.get? id = some user → user.id = id) ∧
      (∀ id channel, s''.channels.get? id = some channel → channel.id = id) ∧
      (∀ id user, s''.snapshot.users.get? id = some user → user.id = some id) ∧
      ∀ id channel, s''.snapshot.channels.get? id = some channel → channel.id = id := by
  obtain ⟨s, hs, hfiled, -⟩ := Filed.initial.performAll first
  obtain ⟨s', hs', hfiled', hnumbers'⟩ := hfiled.performAll second
  obtain ⟨s'', hs'', hfiled'', hnumbers''⟩ := hfiled'.performAll third
  have hall : Store.initial.performAll (first ++ second ++ third) = .ok s'' := by
    rw [performAll_append ((performAll_append hs second).trans hs'), hs'']
  refine ⟨s, s', s'', hs, hs', hs'', Filed.initial.pairwise_newcomers _, ?_, ?_, ?_, ?_, ?_, ?_, ?_⟩
  · exact fun id hknows => (Filed.initial.mem_newcomers hall hknows).resolve_left (knows_initial id)
  · exact fun operation id hanswer =>
      (Filed.initial.answer_mem_newcomers hall hanswer).resolve_left (knows_initial id)
  · exact fun id hknown hgone => hnumbers'.knows_not_again hfiled.numbered hnumbers'' hknown hgone
  · exact fun id user huser => (hfiled''.numbered.users huser).1
  · exact fun id channel hchannel => (hfiled''.numbered.channels hchannel).1
  · intro id user huser
    rw [Store.snapshot, Table.get?_map] at huser
    obtain ⟨old, hold, rfl⟩ := Option.map_eq_some_iff.mp huser
    exact congrArg some (hfiled''.numbered.users hold).1
  · intro id channel hchannel
    rw [Store.snapshot, Table.get?_map] at hchannel
    obtain ⟨old, hold, rfl⟩ := Option.map_eq_some_iff.mp hchannel
    exact (hfiled''.numbered.channels hold).1

/-- A user comes back under the nick that it had, after everything was forgotten. -/
theorem ids_given_once_cleared :
    let first : List StoreOperation := [.trackUser (.ofNick "alice"), .trackChannel "#rust"]
    let third : List StoreOperation := [.trackChannel "#rust", .trackUser (.ofNick "ALICE")]
    Store.initial.newcomers (first ++ [.clear] ++ third) =
        [⟨.user, ⟨1⟩⟩, ⟨.channel, ⟨2⟩⟩, ⟨.channel, ⟨3⟩⟩, ⟨.user, ⟨4⟩⟩] ∧
      ∃ s s' s'', Store.initial.performAll first = .ok s ∧ s.performAll [.clear] = .ok s' ∧
        s'.performAll third = .ok s'' ∧ s.knows ⟨.user, ⟨1⟩⟩ = true ∧
        s''.userId? "alice" = some ⟨4⟩ ∧ s''.knows ⟨.user, ⟨1⟩⟩ = false := by
  intro first third
  obtain ⟨s, s', s'', hs, hs', hs'', -, -, -, hgone, -⟩ := ids_given_once first [.clear] third
  have hfirst : (match Store.initial.performAll first with
      | .ok s => s.knows ⟨.user, ⟨1⟩⟩
      | .error _ => false) = true := by decide +kernel
  have hall : (match Store.initial.performAll (first ++ [.clear] ++ third) with
      | .ok s => decide (s.userId? "alice" = some ⟨4⟩)
      | .error _ => false) = true := by decide +kernel
  rw [hs] at hfirst
  rw [performAll_append ((performAll_append hs [.clear]).trans hs'), hs''] at hall
  refine ⟨by decide +kernel, s, s', s'', hs, hs', hs'', hfirst, of_decide_eq_true hall, ?_⟩
  apply hgone ⟨.user, ⟨1⟩⟩ hfirst
  cases hs'
  rfl

end IrcClient.Store
