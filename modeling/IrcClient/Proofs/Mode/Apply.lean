import IrcClient.Mode.Apply
import IrcClient.Proofs.Store.Upkeep

/-!
# What mode changes preserve

A letter of a line of mode changes modifies the channel, grants a privilege, which makes the nick a
known member of the channel, or revokes one. Whatever these three preserve holds after the line. Among
it is the coherence of the store: a nick that gains a privilege becomes known as a member, so that it
is no stray.
-/

namespace IrcClient

/-- A property that everything a letter can do with a channel preserves. -/
structure ModeInvariant (P : Store → Prop) (channel : ChannelId) : Prop where
  modifyChannel : ∀ {s : Store} {f : Channel → Channel}, P s →
    (∀ c, (f c).name = c.name ∧ (f c).id = c.id) → P (s.modifyChannel channel f)
  grant : ∀ {s : Store} (level : PrivilegeLevel) (nick : String), P s →
    P ((s.trackUser (.ofNick nick)).1.grant level (s.trackUser (.ofNick nick)).2 channel)
  revoke : ∀ {s : Store} (level : PrivilegeLevel) (user : UserId), P s →
    ∃ s', s.revoke level user channel = .ok s' ∧ P s'

namespace ModeInvariant

variable {P : Store → Prop} {s : Store} {channel : ChannelId}

theorem applyPrivilege (hP : ModeInvariant P channel) (h : P s) (level : PrivilegeLevel)
    (nick : String) (adding : Bool) :
    ∃ s' recipient, ModeChange.applyPrivilege s channel level nick adding = .ok (s', recipient) ∧
      P s' := by
  unfold ModeChange.applyPrivilege
  cases adding with
  | true => exact ⟨_, _, rfl, hP.grant level nick h⟩
  | false =>
    dsimp only
    cases s.userId? nick with
    | none => exact ⟨_, _, rfl, h⟩
    | some user =>
      obtain ⟨s', hok, hrevoked⟩ := hP.revoke level user h
      simp only [Bool.false_eq_true, if_false, hok]
      exact ⟨_, _, rfl, hrevoked⟩

theorem apply (hP : ModeInvariant P channel) (h : P s) (source : UserSnapshot)
    (change : ModeChange) :
    ∃ s' events, change.apply channel source s = .ok (s', events) ∧ P s' := by
  unfold ModeChange.apply
  cases change.kind.effect with
  | privilege level =>
    cases change.arg with
    | none => exact ⟨_, _, rfl, h⟩
    | some nick =>
      obtain ⟨s', recipient, hok, hstep⟩ := hP.applyPrivilege h level nick change.adding
      simp only [hok]
      exact ⟨_, _, rfl, hstep⟩
  | key => exact ⟨_, _, rfl, hP.modifyChannel h fun _ => ⟨rfl, rfl⟩⟩
  | limit =>
    dsimp only
    split
    · split
      · exact ⟨_, _, rfl, h⟩
      · exact ⟨_, _, rfl, hP.modifyChannel h fun _ => ⟨rfl, rfl⟩⟩
    · exact ⟨_, _, rfl, hP.modifyChannel h fun _ => ⟨rfl, rfl⟩⟩
  | ban => exact ⟨_, _, rfl, h⟩
  | flag flag => exact ⟨_, _, rfl, hP.modifyChannel h fun _ => ⟨rfl, rfl⟩⟩

theorem applyAll (hP : ModeInvariant P channel) (h : P s) (source : UserSnapshot)
    (changes : List ModeChange) :
    ∃ s' events, ModeChange.applyAll channel source s changes = .ok (s', events) ∧ P s' := by
  induction changes generalizing s with
  | nil => exact ⟨_, _, rfl, h⟩
  | cons change changes ih =>
    obtain ⟨s', first, hfirst, hstep⟩ := hP.apply h source change
    obtain ⟨s'', rest, hrest, hsteps⟩ := ih hstep
    refine ⟨s'', first ++ rest, ?_, hsteps⟩
    simp only [ModeChange.applyAll, hfirst, hrest, bind, Except.bind]

theorem applyModes (hP : ModeInvariant P channel) (h : P s) (source : UserSnapshot)
    (modes : String) (args : List String) :
    ∃ s' events, s.applyModes channel source modes args = .ok (s', events) ∧ P s' := by
  obtain ⟨s', events, hok, hstep⟩ := hP.applyAll h source (ModeChange.read modes args)
  have hamended := hP.modifyChannel hstep
    fun c => ⟨c.name_amendMode (modeText modes args), c.id_amendMode (modeText modes args)⟩
  refine ⟨_, events, ?_, hamended⟩
  simp only [Store.applyModes, hok]
  rfl

end ModeInvariant

namespace Store

variable {s : Store} {channel : ChannelId}

theorem modeInvariant_followsWith (s : Store) (channel : ChannelId) :
    ModeInvariant (fun s' => s.FollowsWith s' channel) channel where
  modifyChannel {s' _} h hf := by
    refine ⟨h.follows.trans (h.follows.coherent.modifyChannel channel hf), ?_⟩
    simpa [Store.modifyChannel] using h.known
  grant {s'} level nick h := by
    have hadmits := h.follows.coherent.trackUser (.ofNick nick)
    refine ⟨h.follows.trans (hadmits.grant level h.known), ?_⟩
    have hknown := h.known
    rw [← hadmits.channels] at hknown
    exact hknown
  revoke {s'} level user h := by
    have hcoherent := h.follows.coherent
    obtain ⟨standing, hok, hsound, hmembers, -⟩ :=
      revoke_spec hcoherent.standing level user channel
    exact ⟨_, hok, h.follows.trans (hcoherent.follows_withStanding hsound hmembers), h.known⟩

theorem Coherent.applyModes (h : s.Coherent) (hchannel : s.channels.contains channel = true)
    (source : UserSnapshot) (modes : String) (args : List String) :
    ∃ s' events, s.applyModes channel source modes args = .ok (s', events) ∧ s.Follows s' := by
  obtain ⟨s', events, hok, hstep⟩ :=
    (modeInvariant_followsWith s channel).applyModes (h.followsWith hchannel) source modes args
  exact ⟨s', events, hok, hstep.follows⟩

end Store

/-! ## What is told of mode changes -/

section Events

variable {s s' : Store} {channel : ChannelId} {source : UserSnapshot} {events : List Event}

/-- Whether an event tells of a single letter in a line of mode changes. -/
def Event.isLetter : Event → Bool
  | .privilegeChanged .. | .keySet .. | .keyRemoved .. | .limitSet .. | .limitRemoved ..
  | .banChanged .. | .flagChanged .. => true
  | _ => false

namespace ModeChange

theorem isLetter_eventsOf {f : ChannelSnapshot → Option Event}
    (hf : ∀ c event, f c = some event → event.isLetter = true) :
    ∀ event ∈ eventsOf s channel f, event.isLetter = true := by
  intro event hmem
  obtain ⟨c, -, hc⟩ := Option.bind_eq_some_iff.mp (Option.mem_toList.mp hmem)
  exact hf c event hc

theorem bind_eq_ok_iff {ε α β : Type} {x : Except ε α} {f : α → Except ε β} {b : β} :
    x >>= f = .ok b ↔ ∃ a, x = .ok a ∧ f a = .ok b := by
  cases x <;> simp [bind, Except.bind]

theorem isLetter_apply {change : ModeChange}
    (h : change.apply channel source s = .ok (s', events)) :
    ∀ event ∈ events, event.isLetter = true := by
  unfold ModeChange.apply at h
  split at h
  · split at h
    · cases h
      exact List.forall_mem_nil _
    · obtain ⟨⟨s₁, recipient⟩, -, h⟩ := bind_eq_ok_iff.mp h
      cases h
      exact isLetter_eventsOf fun c event hevent => by cases hevent; rfl
  · cases h
    refine isLetter_eventsOf fun c event hevent => ?_
    split at hevent
    · obtain ⟨key, -, rfl⟩ := Option.map_eq_some_iff.mp hevent
      rfl
    · cases hevent
      rfl
  · split at h
    · split at h
      · cases h
        exact List.forall_mem_nil _
      · cases h
        exact isLetter_eventsOf fun c event hevent => by cases hevent; rfl
    · cases h
      exact isLetter_eventsOf fun c event hevent => by cases hevent; rfl
  · cases h
    refine isLetter_eventsOf fun c event hevent => ?_
    obtain ⟨mask, -, rfl⟩ := Option.map_eq_some_iff.mp hevent
    rfl
  · cases h
    exact isLetter_eventsOf fun c event hevent => by cases hevent; rfl

theorem isLetter_applyAll {changes : List ModeChange}
    (h : applyAll channel source s changes = .ok (s', events)) :
    ∀ event ∈ events, event.isLetter = true := by
  induction changes generalizing s events with
  | nil =>
    cases h
    exact List.forall_mem_nil _
  | cons change changes ih =>
    obtain ⟨⟨s₁, first⟩, hfirst, h⟩ := bind_eq_ok_iff.mp h
    obtain ⟨⟨s₂, rest⟩, hrest, h⟩ := bind_eq_ok_iff.mp h
    cases h
    exact List.forall_mem_append.mpr ⟨isLetter_apply hfirst, ih hrest⟩

end ModeChange

/-- A line of mode changes is told letter by letter. -/
theorem Store.isLetter_applyModes {modes : String} {args : List String}
    (h : s.applyModes channel source modes args = .ok (s', events)) :
    ∀ event ∈ events, event.isLetter = true := by
  obtain ⟨⟨s₁, events₁⟩, happlied, h⟩ := ModeChange.bind_eq_ok_iff.mp h
  cases h
  exact ModeChange.isLetter_applyAll happlied

end Events

end IrcClient
