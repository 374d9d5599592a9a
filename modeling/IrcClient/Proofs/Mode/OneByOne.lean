import IrcClient.Proofs.Mode.Singles

/-!
# Mode changes one by one

A line of mode changes does what its letters do when each comes on a line of its own. What a letter does
to the store has nothing to do with the mode text of the channel, and the text of a line is worked into
that at its end. So lines of single letters can be taken for the letters of the whole line, and then for
the changes of the text.
-/

namespace IrcClient

/-! ## Outcomes -/

section SameOutcome

variable {ε α β γ δ : Type} {R : α → β → Prop} {Q : γ → δ → Prop} {x : Except ε α}
  {y : Except ε β}

/-- Two computations fail alike, or both give results, which are related. -/
def SameOutcome (R : α → β → Prop) : Except ε α → Except ε β → Prop
  | .ok a, .ok b => R a b
  | .error e, .error e' => e = e'
  | _, _ => False

theorem SameOutcome.refl {R : α → α → Prop} (hR : ∀ a, R a a) (x : Except ε α) : SameOutcome R x x := by
  cases x with
  | error fault => exact rfl
  | ok a => exact hR a

theorem SameOutcome.bind {f : α → Except ε γ} {g : β → Except ε δ} (h : SameOutcome R x y)
    (hfg : ∀ a b, R a b → SameOutcome Q (f a) (g b)) : SameOutcome Q (x >>= f) (y >>= g) := by
  cases x <;> cases y
  · exact h
  · exact h.elim
  · exact h.elim
  · exact hfg _ _ h

theorem SameOutcome.trans {y' : Except ε γ} {S : β → γ → Prop} {T : α → γ → Prop}
    (h : SameOutcome R x y) (h' : SameOutcome S y y') (hT : ∀ a b c, R a b → S b c → T a c) :
    SameOutcome T x y' := by
  cases x <;> cases y <;> cases y'
  all_goals first
    | exact h.elim
    | exact h'.elim
    | exact Eq.trans h h'
    | exact hT _ _ _ h h'

theorem SameOutcome.of_ok (h : SameOutcome R x y) {a : α} (hx : x = .ok a) :
    ∃ b, y = .ok b ∧ R a b := by
  subst hx
  cases y with
  | error fault => exact h.elim
  | ok b => exact ⟨b, rfl, h⟩

end SameOutcome

/-! ## What is told without the mode text -/

/-- A channel as shown, without what is said of its mode text. -/
def ChannelSnapshot.untold (c : ChannelSnapshot) : ChannelSnapshot :=
  { c with mode := "", stale := true }

/-- An event of a mode letter, without what it shows of the mode text of the channel. -/
def Event.untold : Event → Event
  | .privilegeChanged c user recipient level granted =>
    .privilegeChanged c.untold user recipient level granted
  | .keySet c user key => .keySet c.untold user key
  | .keyRemoved c user key => .keyRemoved c.untold user key
  | .limitSet c user limit => .limitSet c.untold user limit
  | .limitRemoved c user => .limitRemoved c.untold user
  | .banChanged c user mask added => .banChanged c.untold user mask added
  | .flagChanged c user flag added => .flagChanged c.untold user flag added
  | event => event

/-- A channel with something else known of its mode. -/
def Channel.withTraits (amend : ModeTraits → ModeTraits) (c : Channel) : Channel :=
  { c with toModeTraits := amend c.toModeTraits }

/-- A change of a channel that concerns its mode text only, and takes no heed of what else is known of
its mode. -/
structure TextChange (f : Channel → Channel) : Prop where
  shown : ∀ c, (f c).snapshot.untold = c.snapshot.untold
  commutes : ∀ amend c, f (c.withTraits amend) = (f c).withTraits amend

namespace TextChange

variable {f : Channel → Channel}

theorem name (hf : TextChange f) (c : Channel) : (f c).name = c.name :=
  congrArg (·.name) (hf.shown c)

theorem amendMode (change : String) : TextChange (·.amendMode change) where
  shown c := by
    unfold Channel.amendMode
    split
    · rfl
    · split <;> rfl
  commutes amend c := by
    unfold Channel.amendMode Channel.withTraits
    dsimp only
    split
    · rfl
    · split <;> rfl

end TextChange

/-! ## Stores -/

section Beside

variable {channel : ChannelId} {source : UserSnapshot} {f g : Channel → Channel}

theorem Store.modifyChannel_id (s : Store) (channel : ChannelId) : s.modifyChannel channel id = s := by
  simp only [Store.modifyChannel, Table.modify_id]

theorem Store.modifyChannel_modifyChannel (s : Store) (channel : ChannelId) (f g : Channel → Channel) :
    (s.modifyChannel channel f).modifyChannel channel g = s.modifyChannel channel (g ∘ f) := by
  simp only [Store.modifyChannel, Table.modify_modify]

/-- A result beside one in which a channel was changed further. The same is told, but for what shows the
change. -/
structure Beside (channel : ChannelId) (f : Channel → Channel) (r r' : Store × List Event) : Prop where
  store : r'.1 = r.1.modifyChannel channel f
  events : r'.2.map Event.untold = r.2.map Event.untold

/-- What is told of a channel is the same whatever its mode text is. -/
theorem events_beside (hf : TextChange f) (s : Store) {tell : ChannelSnapshot → Option Event}
    (htell : ∀ c, (tell c).map Event.untold = (tell c.untold).map Event.untold) :
    (ModeChange.eventsOf (s.modifyChannel channel f) channel tell).map Event.untold =
      (ModeChange.eventsOf s channel tell).map Event.untold := by
  have hsnapshot : (s.modifyChannel channel f).channelSnapshot? channel =
      (s.channels.get? channel).map fun c => (f c).snapshot := by
    simp only [Store.channelSnapshot?, Store.modifyChannel, Table.get?_modify, if_pos, Option.map_map]
    rfl
  rw [ModeChange.eventsOf, hsnapshot, ModeChange.eventsOf, Store.channelSnapshot?]
  cases s.channels.get? channel with
  | none => rfl
  | some c =>
    have hsame := (htell (f c).snapshot).trans ((hf.shown c).symm ▸ (htell c.snapshot).symm)
    simpa [Option.toList_map] using congrArg Option.toList hsame

theorem trackUser_beside (s : Store) (seen : Hostmask) :
    (s.modifyChannel channel f).trackUser seen =
      ((s.trackUser seen).1.modifyChannel channel f, (s.trackUser seen).2) := by
  have hlookup : (s.modifyChannel channel f).userId? seen.nick = s.userId? seen.nick := rfl
  unfold Store.trackUser
  rw [hlookup]
  split <;> rfl

theorem settle_beside (hf : TextChange f) (s : Store) (result : Except Disagreement Standing) :
    SameOutcome (fun s s' => s' = s.modifyChannel channel f) (s.settle result)
      ((s.modifyChannel channel f).settle result) := by
  cases result with
  | ok standing => exact rfl
  | error d =>
    simp only [Store.settle, SameOutcome, Store.report, Store.modifyChannel, Table.get?_modify]
    split
    · simp only [Option.map_map, Function.comp_def, hf.name]
    · rfl

theorem applyPrivilege_beside (hf : TextChange f) (s : Store) (level : PrivilegeLevel) (nick : String)
    (adding : Bool) :
    SameOutcome (fun r r' => r'.1 = r.1.modifyChannel channel f ∧ r'.2 = r.2)
      (ModeChange.applyPrivilege s channel level nick adding)
      (ModeChange.applyPrivilege (s.modifyChannel channel f) channel level nick adding) := by
  unfold ModeChange.applyPrivilege
  cases adding with
  | true =>
    simp only [trackUser_beside, if_true]
    exact ⟨rfl, rfl⟩
  | false =>
    have hlookup : (s.modifyChannel channel f).userId? nick = s.userId? nick := rfl
    simp only [Bool.false_eq_true, if_false, hlookup]
    cases s.userId? nick with
    | none => exact ⟨rfl, rfl⟩
    | some user =>
      refine (settle_beside hf s (s.standing.revoke level user channel)).bind ?_
      rintro s₁ s₂ rfl
      exact ⟨rfl, rfl⟩

/-- What is known of the mode of a channel may change before or after its text. -/
theorem modifyChannel_beside (hf : TextChange f) (s : Store) (amend : ModeTraits → ModeTraits) :
    (s.modifyChannel channel f).modifyChannel channel (Channel.withTraits amend) =
      (s.modifyChannel channel (Channel.withTraits amend)).modifyChannel channel f := by
  have hcommute : Channel.withTraits amend ∘ f = f ∘ Channel.withTraits amend :=
    funext fun c => (hf.commutes amend c).symm
  rw [Store.modifyChannel_modifyChannel, Store.modifyChannel_modifyChannel, hcommute]

/-- A letter that changes what is known of the mode, and tells of it. -/
theorem traits_beside (hf : TextChange f) (s : Store) (amend : ModeTraits → ModeTraits)
    {tell : ChannelSnapshot → Option Event}
    (htell : ∀ c, (tell c).map Event.untold = (tell c.untold).map Event.untold) :
    Beside channel f
      (s.modifyChannel channel (Channel.withTraits amend), ModeChange.eventsOf
        (s.modifyChannel channel (Channel.withTraits amend)) channel tell)
      ((s.modifyChannel channel f).modifyChannel channel (Channel.withTraits amend), ModeChange.eventsOf
        ((s.modifyChannel channel f).modifyChannel channel (Channel.withTraits amend)) channel tell) := by
  rw [modifyChannel_beside hf]
  exact ⟨rfl, events_beside hf _ htell⟩

theorem apply_beside (hf : TextChange f) (s : Store) (change : ModeChange) :
    SameOutcome (Beside channel f) (change.apply channel source s)
      (change.apply channel source (s.modifyChannel channel f)) := by
  unfold ModeChange.apply
  cases change.kind.effect with
  | privilege level =>
    cases change.arg with
    | none => exact ⟨rfl, rfl⟩
    | some nick =>
      refine (applyPrivilege_beside hf s level nick change.adding).bind ?_
      rintro ⟨s₁, recipient⟩ ⟨s₂, recipient'⟩ ⟨hstore, hrecipient⟩
      cases hstore
      cases hrecipient
      exact ⟨rfl, events_beside hf s₁ fun _ => rfl⟩
  | key =>
    refine traits_beside hf s
      (fun traits => { traits with key := if change.adding then change.arg else none }) fun c => ?_
    cases change.adding <;> cases change.arg <;> rfl
  | limit =>
    dsimp only
    split
    · split
      · exact ⟨rfl, rfl⟩
      · rename_i limit _
        exact traits_beside hf s (fun traits => { traits with limit := some limit }) fun _ => rfl
    · exact traits_beside hf s (fun traits => { traits with limit := none }) fun _ => rfl
  | ban =>
    refine ⟨rfl, events_beside hf s fun c => ?_⟩
    cases change.arg <;> rfl
  | flag flag =>
    exact traits_beside hf s
      (fun traits => { traits with flags := traits.flags.set flag change.adding }) fun _ => rfl

theorem applyAll_beside (channel : ChannelId) (source : UserSnapshot) (hf : TextChange f) (s : Store)
    (changes : List ModeChange) :
    SameOutcome (Beside channel f) (ModeChange.applyAll channel source s changes)
      (ModeChange.applyAll channel source (s.modifyChannel channel f) changes) := by
  induction changes generalizing s with
  | nil => exact ⟨rfl, rfl⟩
  | cons change changes ih =>
    refine (apply_beside hf s change).bind ?_
    rintro ⟨s₁, first⟩ ⟨s₂, first'⟩ ⟨hstore, hfirst⟩
    cases hstore
    refine (ih s₁).bind ?_
    rintro ⟨s₃, rest⟩ ⟨s₄, rest'⟩ ⟨hstores, hrest⟩
    exact ⟨hstores, by simp only [List.map_append, hfirst, hrest]⟩

theorem applyAll_append (s : Store) (changes later : List ModeChange) :
    ModeChange.applyAll channel source s (changes ++ later) =
      (do
        let (s₁, first) ← ModeChange.applyAll channel source s changes
        let (s₂, rest) ← ModeChange.applyAll channel source s₁ later
        .ok (s₂, first ++ rest)) := by
  induction changes generalizing s with
  | nil =>
    simp only [List.nil_append, ModeChange.applyAll, bind, Except.bind]
    cases ModeChange.applyAll channel source s later <;> rfl
  | cons change changes ih =>
    simp only [List.cons_append, ModeChange.applyAll, ih, bind, Except.bind]
    cases change.apply channel source s with
    | error fault => rfl
    | ok first =>
      dsimp only
      cases ModeChange.applyAll channel source first.1 changes with
      | error fault => rfl
      | ok second =>
        dsimp only
        cases ModeChange.applyAll channel source second.1 later with
        | error fault => rfl
        | ok third => simp only [List.append_assoc]

end Beside

/-! ## Lines -/

/-- Applies lines of mode changes to a channel one after the other. -/
def Store.applyLines (channel : ChannelId) (source : UserSnapshot) :
    Store → List ModeLine → Except ConsistencyFault (Store × List Event)
  | s, [] => .ok (s, [])
  | s, line :: lines => do
    let (s, first) ← s.applyModes channel source line.modes line.args
    let (s, rest) ← applyLines channel source s lines
    .ok (s, first ++ rest)

/-- Two results differ in the mode text of one channel at most, and in that only if it is stale; and
the same is told of the changes but for the mode texts. -/
structure SameButText (channel : ChannelId) (r r' : Store × List Event) : Prop where
  store : r.1.modifyChannel channel Channel.settled = r'.1.modifyChannel channel Channel.settled
  events : r.2.map Event.untold = r'.2.map Event.untold

namespace Beside

variable {channel : ChannelId} {f g : Channel → Channel} {r r' r'' : Store × List Event}

theorem trans (h : Beside channel f r r') (h' : Beside channel g r' r'') :
    Beside channel (g ∘ f) r r'' where
  store := by rw [h'.store, h.store, Store.modifyChannel_modifyChannel]
  events := h'.events.trans h.events

theorem append_events (h : Beside channel f r r') (first : List Event) :
    Beside channel f (r.1, first ++ r.2) (r'.1, first ++ r'.2) where
  store := h.store
  events := by rw [List.map_append, List.map_append, h.events]

end Beside

namespace Store

variable {channel : ChannelId} {source : UserSnapshot}

theorem applyLines_cons (s : Store) (line : ModeLine) (lines : List ModeLine) :
    s.applyLines channel source (line :: lines) = (do
      let (s₁, first) ← ModeChange.applyAll channel source s line.changes
      let (s₂, rest) ← (s₁.modifyChannel channel (·.amendMode line.text)).applyLines channel source lines
      .ok (s₂, first ++ rest)) := by
  simp only [applyLines, applyModes, bind_assoc]
  rfl

/-- Lines do what their letters do, and then amend the mode text one after the other. -/
theorem applyLines_beside (s : Store) (lines : List ModeLine) :
    SameOutcome (Beside channel fun c => (lines.map ModeLine.text).foldl Channel.amendMode c)
      (ModeChange.applyAll channel source s (lines.flatMap ModeLine.changes))
      (s.applyLines channel source lines) := by
  induction lines generalizing s with
  | nil => exact ⟨(s.modifyChannel_id channel).symm, rfl⟩
  | cons line lines ih =>
    rw [List.flatMap_cons, applyAll_append, applyLines_cons]
    refine (SameOutcome.refl (R := Eq) (fun _ => rfl) _).bind ?_
    rintro ⟨s₁, first⟩ _ rfl
    have hchanges := applyAll_beside channel source (TextChange.amendMode line.text) s₁
      (lines.flatMap ModeLine.changes)
    have hlines := ih (s₁.modifyChannel channel (·.amendMode line.text))
    refine (hchanges.trans hlines fun _ _ _ => Beside.trans).bind ?_
    rintro ⟨s₂, rest⟩ ⟨s₃, rest'⟩ h
    exact h.append_events first

/-- A line does the same as its letters do one by one: both go through, or both fail alike. On a coherent
store that knows the channel they go through. -/
theorem applyModes_one_by_one {line : ModeLine} (hletter : line.HasLetter) (hargs : line.UsesArgs)
    (s : Store) (channel : ChannelId) (source : UserSnapshot) :
    SameOutcome (SameButText channel) (s.applyModes channel source line.modes line.args)
        (s.applyLines channel source line.singles) ∧
      (s.Coherent → s.channels.contains channel = true →
        ∃ r r', s.applyModes channel source line.modes line.args = .ok r ∧
          s.applyLines channel source line.singles = .ok r' ∧ SameButText channel r r') := by
  have hlines : SameOutcome _ _ (s.applyLines channel source line.singles) :=
    s.applyLines_beside line.singles
  rw [ModeLine.flatMap_changes_singles] at hlines
  have hsame : SameOutcome (SameButText channel) (s.applyModes channel source line.modes line.args)
      (s.applyLines channel source line.singles >>= pure) := by
    refine hlines.bind fun r r' h => ⟨?_, h.events.symm⟩
    rw [h.store, modifyChannel_modifyChannel, modifyChannel_modifyChannel]
    exact congrArg (r.1.modifyChannel channel ·)
      (funext fun c => (c.settled_foldl_singles hletter hargs).symm)
  rw [bind_pure] at hsame
  refine ⟨hsame, fun hcoherent hchannel => ?_⟩
  obtain ⟨s', events, hok, -⟩ := hcoherent.applyModes hchannel source line.modes line.args
  obtain ⟨r', hok', halike⟩ := hsame.of_ok hok
  exact ⟨_, r', hok, hok', halike⟩

/-- A channel of which the server has told the mode, and nobody is known to be on it. -/
def untended : Store :=
  (initial.trackChannel "#c").1.modifyChannel (initial.trackChannel "#c").2 (·.withMode "+nt")

theorem applyModes_one_by_one_untended :
    let line : ModeLine := ⟨"+o-tX", ["alice"]⟩
    let channel := (initial.trackChannel "#c").2
    let source := UserSnapshot.detached (.ofNick "bob")
    line.HasLetter ∧ line.UsesArgs ∧ untended.Coherent ∧ untended.channels.contains channel = true ∧
      line.singles = [⟨"+o", ["alice"]⟩, ⟨"-t", []⟩, ⟨"-X", []⟩] ∧
      ∃ r r', untended.applyModes channel source line.modes line.args = .ok r ∧
        untended.applyLines channel source line.singles = .ok r' ∧ SameButText channel r r' ∧
        r.2.length = 2 := by
  intro line channel source
  have hletter : line.HasLetter := by decide
  have hargs : line.UsesArgs := by decide
  have hcoherent : untended.Coherent :=
    have hnamed (c : Channel) : (c.withMode "+nt").name = c.name ∧ (c.withMode "+nt").id = c.id :=
      ⟨rfl, rfl⟩
    ((Coherent.initial.trackChannel "#c").coherent.modifyChannel _ hnamed).coherent
  have hknown : untended.channels.contains channel = true := by decide
  obtain ⟨r, r', hok, hok', hsame⟩ :=
    (untended.applyModes_one_by_one hletter hargs channel source).2 hcoherent hknown
  refine ⟨hletter, hargs, hcoherent, hknown, by decide, r, r', hok, hok', hsame, ?_⟩
  have htold : (untended.applyModes channel source line.modes line.args).map (·.2.length) = .ok 2 := by
    decide
  rw [hok] at htold
  exact Except.ok.inj htold

end Store

end IrcClient
