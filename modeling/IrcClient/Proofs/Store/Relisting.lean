import IrcClient.Store.Basic

/-!
# The order of the tables

A store lists its users and its channels in some order, and nothing is promised about it. Lookups do not
depend on it, but a change of the case mapping does: it goes through both lists, and of several names
that have become the same the last one counts. So between any two steps a store may turn into one that
lists the same users and the same channels in other orders.
-/

namespace IrcClient

/-- The order in which a table lists its entries means nothing to lookups. -/
theorem Table.get?_eq_of_perm {κ α : Type} [DecidableEq κ] {t t' : Table κ α}
    (h : t.entries.Perm t'.entries) (k : κ) : t'.get? k = t.get? k := by
  apply Option.ext
  intro v
  rw [← mem_entries_iff, ← mem_entries_iff, h.mem_iff]

namespace Store

variable {s s' s'' : Store}

/-- A store that lists the same users and the same channels in some order. Only the tables that a
change of the case mapping goes through are of interest here. -/
inductive Relisted (s : Store) : Store → Prop where
  | intro {users : Table UserId User} {channels : Table ChannelId Channel}
      (husers : s.users.entries.Perm users.entries)
      (hchannels : s.channels.entries.Perm channels.entries) :
      Relisted s { s with users := users, channels := channels }

namespace Relisted

theorem refl (s : Store) : s.Relisted s := .intro (.refl _) (.refl _)

theorem trans (h : s.Relisted s') (h' : s'.Relisted s'') : s.Relisted s'' := by
  obtain ⟨husers, hchannels⟩ := h
  obtain ⟨husers', hchannels'⟩ := h'
  exact .intro (husers.trans husers') (hchannels.trans hchannels')

theorem get?_users (h : s.Relisted s') (id : UserId) : s'.users.get? id = s.users.get? id := by
  obtain ⟨husers, -⟩ := h
  exact Table.get?_eq_of_perm husers id

theorem get?_channels (h : s.Relisted s') (id : ChannelId) :
    s'.channels.get? id = s.channels.get? id := by
  obtain ⟨-, hchannels⟩ := h
  exact Table.get?_eq_of_perm hchannels id

theorem directory (h : s.Relisted s') : s'.directory = s.directory := by
  obtain ⟨-, -⟩ := h
  rfl

theorem nextId (h : s.Relisted s') : s'.nextId = s.nextId := by
  obtain ⟨-, -⟩ := h
  rfl

theorem standing (h : s.Relisted s') : s'.standing = s.standing := by
  obtain ⟨-, -⟩ := h
  rfl

theorem eq (h : s.Relisted s') :
    ∃ users channels, s' = { s with users := users, channels := channels } := by
  obtain ⟨-, -⟩ := h
  exact ⟨_, _, rfl⟩

end Relisted

/-- The store with its users and its channels listed as the given tables list them. Tables with other
entries change nothing. -/
def relist (s : Store) (users : Table UserId User) (channels : Table ChannelId Channel) : Store :=
  if s.users.entries.Perm users.entries ∧ s.channels.entries.Perm channels.entries then
    { s with users := users, channels := channels }
  else s

theorem relisted_relist (s : Store) (users : Table UserId User) (channels : Table ChannelId Channel) :
    s.Relisted (s.relist users channels) := by
  unfold relist
  split
  · rename_i hperm
    exact .intro hperm.1 hperm.2
  · exact .refl s

end Store

end IrcClient
