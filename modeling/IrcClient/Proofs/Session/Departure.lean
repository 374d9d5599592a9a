import IrcClient.Proofs.Session.Handle
import IrcClient.Proofs.Session.Reach
import IrcClient.Proofs.Store.Departure
import IrcClient.Proofs.Store.Growth

/-!
# Departures

Parts, kicks and quits. Their events carry the store as it was just before, and the store afterwards
is that one without exactly what has left. Which departure a line is depends on whom it names: the
client's own part closes the channel, its own quit means nothing to the store, and so does the
departure of somebody who is not known.
-/

namespace IrcClient

/-- The store that an event of a departure carries. -/
def Event.before? : Event → Option StoreSnapshot
  | .parted before _ _ _ => some before
  | .quit before _ _ => some before
  | .kicked before _ _ _ _ => some before
  | _ => none

/-- Whether a snapshot answers all questions by name as a store does. -/
structure StoreSnapshot.Shows (before : StoreSnapshot) (s : Store) : Prop where
  user : ∀ nick, before.user? nick = (s.user? nick).map User.snapshot
  channel : ∀ name, before.channel? name = (s.channel? name).map Channel.snapshot
  isMember : ∀ nick name, before.isMember nick name = true ↔
    ∃ user channel, s.userId? nick = some user ∧ s.channelId? name = some channel ∧
      s.isMember user channel = true
  hasPrivilege : ∀ level nick name, before.hasPrivilege level nick name = true ↔
    ∃ user channel, s.userId? nick = some user ∧ s.channelId? name = some channel ∧
      s.standing.holds level user channel = true
  membersOf : ∀ name, before.membersOf name =
    ((s.channelId? name).elim [] s.membersOf).map User.snapshot
  channelsOf : ∀ nick, before.channelsOf nick =
    ((s.userId? nick).elim [] s.channelsOf).map Channel.snapshot
  holdersOf : ∀ level name, before.holdersOf level name =
    ((s.channelId? name).elim [] (s.holdersOf level)).map User.snapshot
  isContact : ∀ nick, before.isContact nick = true ↔
    ∃ user, s.userId? nick = some user ∧ user ∈ s.contacts

namespace Store

theorem filterMap_snapshot_users (s : Store) (ids : List UserId) :
    ids.filterMap s.snapshot.users.get? = (ids.filterMap s.users.get?).map User.snapshot := by
  have hget : s.snapshot.users.get? = fun id => (s.users.get? id).map User.snapshot :=
    funext fun id => s.users.get?_map User.snapshot id
  rw [List.map_filterMap, hget]

theorem filterMap_snapshot_channels (s : Store) (ids : List ChannelId) :
    ids.filterMap s.snapshot.channels.get? =
      (ids.filterMap s.channels.get?).map Channel.snapshot := by
  have hget : s.snapshot.channels.get? = fun id => (s.channels.get? id).map Channel.snapshot :=
    funext fun id => s.channels.get?_map Channel.snapshot id
  rw [List.map_filterMap, hget]

theorem pair?_snapshot_eq_some_iff (s : Store) {nick name : String} {user : UserId}
    {channel : ChannelId} : s.snapshot.pair? nick name = some (user, channel) ↔
      s.userId? nick = some user ∧ s.channelId? name = some channel := by
  have hnick : s.snapshot.directory.userId? nick = s.userId? nick := rfl
  have hname : s.snapshot.directory.channelId? name = s.channelId? name := rfl
  rw [StoreSnapshot.pair?, hnick, hname]
  cases s.userId? nick <;> cases s.channelId? name <;> simp

/-- A snapshot shows the store it was taken of. -/
theorem shows_snapshot (s : Store) : s.snapshot.Shows s where
  user nick := by
    change (s.userId? nick).bind s.snapshot.users.get? = ((s.userId? nick).bind s.users.get?).map _
    cases s.userId? nick with
    | none => rfl
    | some id => exact s.users.get?_map User.snapshot id
  channel name := by
    change (s.channelId? name).bind s.snapshot.channels.get? =
      ((s.channelId? name).bind s.channels.get?).map _
    cases s.channelId? name with
    | none => rfl
    | some id => exact s.channels.get?_map Channel.snapshot id
  isMember nick name := by
    simp only [← and_assoc, ← s.pair?_snapshot_eq_some_iff, StoreSnapshot.isMember]
    cases s.snapshot.pair? nick name with
    | none => simp
    | some pair =>
      obtain ⟨user, channel⟩ := pair
      simp [Store.snapshot, Store.isMember]
  hasPrivilege level nick name := by
    simp only [← and_assoc, ← s.pair?_snapshot_eq_some_iff, StoreSnapshot.hasPrivilege]
    cases s.snapshot.pair? nick name with
    | none => simp
    | some pair =>
      obtain ⟨user, channel⟩ := pair
      simp [Store.snapshot]
  membersOf name := by
    have hname : s.snapshot.directory.channelId? name = s.channelId? name := rfl
    rw [StoreSnapshot.membersOf, hname]
    cases s.channelId? name with
    | none => rfl
    | some id => exact s.filterMap_snapshot_users _
  channelsOf nick := by
    have hnick : s.snapshot.directory.userId? nick = s.userId? nick := rfl
    rw [StoreSnapshot.channelsOf, hnick]
    cases s.userId? nick with
    | none => rfl
    | some id => exact s.filterMap_snapshot_channels _
  holdersOf level name := by
    have hname : s.snapshot.directory.channelId? name = s.channelId? name := rfl
    rw [StoreSnapshot.holdersOf, hname]
    cases s.channelId? name with
    | none => rfl
    | some id => exact s.filterMap_snapshot_users _
  isContact nick := by
    have hnick : s.snapshot.directory.userId? nick = s.userId? nick := rfl
    rw [StoreSnapshot.isContact, hnick]
    cases s.userId? nick <;> simp [Store.snapshot]

theorem observe_eq (s : Store) (source : Hostmask) :
    ∃ users, s.observe source = { s with users := users } := by
  unfold observe
  split
  · exact ⟨_, rfl⟩
  · exact ⟨s.users, rfl⟩

theorem Grounded.grows_observe {s : Store} (h : s.Grounded) (source : Hostmask) :
    s.Grows (s.observe source) := by
  unfold observe
  split
  · exact h.grows_modifyUser _ fun user => ⟨user.nick_absorb source, user.id_absorb source⟩
  · exact Grows.refl h

end Store

namespace Session

variable {s s' : Session} {line : Line} {base : Store} {d : Departure}

/-- The nick of the user who is gone by a line. -/
def leaver? (line : Line) : Option String :=
  if line.verb = .kick then line.param 1 else line.sourceNick

/-- The store that somebody departs from. A kick first shows the login and the host of its source. -/
def departedFrom (s : Store) (line : Line) : Store :=
  match line.verb, line.source with
  | .kick, some source => s.observe source
  | _, _ => s

/-- What the departure that a line tells of is to the client. -/
def departureOf (s : Store) (line : Line) : Departure :=
  match (leaver? line).bind s.userId? with
  | none => .nobody
  | some user =>
    if line.verb = .quit then if s.isSelf user then .nobody else .quit user
    else match (line.param 0).bind s.channelId? with
      | none => .nobody
      | some channel => if s.isSelf user then .close channel else .leave user channel

/-- Whether a line takes the client off a channel: its own part, or a kick of it. -/
structure Expels (s : Session) (line : Line) (channel : ChannelId) : Prop where
  verb : line.verb = .part ∨ line.verb = .kick
  user : ∃ nick me, leaver? line = some nick ∧ s.store.userId? nick = some me ∧
    s.store.selfId = some me
  channel : (line.param 0).bind s.store.channelId? = some channel

theorem leaver?_of_kick (hverb : line.verb = .kick) : leaver? line = line.param 1 :=
  if_pos hverb

theorem leaver?_of_source {source : Hostmask} (hverb : line.verb ≠ .kick)
    (hsource : line.source = some source) : leaver? line = some source.nick := by
  rw [leaver?, if_neg hverb, Line.sourceNick, hsource]
  rfl

theorem departureOf_of_unknown {store : Store}
    (hleaver : (leaver? line).bind store.userId? = none) : departureOf store line = .nobody := by
  simp only [departureOf, hleaver]

theorem departureOf_of_quit {store : Store} {user : UserId} (hverb : line.verb = .quit)
    (hleaver : (leaver? line).bind store.userId? = some user) :
    departureOf store line = if store.isSelf user then .nobody else .quit user := by
  simp only [departureOf, hleaver, if_pos hverb]

theorem departureOf_of_channel {store : Store} {user : UserId} {channel : ChannelId}
    (hverb : line.verb ≠ .quit) (hleaver : (leaver? line).bind store.userId? = some user)
    (hchannel : (line.param 0).bind store.channelId? = some channel) :
    departureOf store line = if store.isSelf user then .close channel else .leave user channel := by
  simp only [departureOf, hleaver, hchannel, if_neg hverb]

/-- The client itself neither quits nor leaves a channel that stays open. -/
theorem departureOf_spares {store : Store} {me : UserId} (hself : store.selfId = some me) :
    departureOf store line ≠ .quit me ∧ ∀ channel, departureOf store line ≠ .leave me channel := by
  have hother {user : UserId} : ¬ store.isSelf user = true → user ≠ me := by
    rintro hne rfl
    exact hne (by simp [Store.isSelf, hself])
  unfold departureOf
  split
  · simp
  · rename_i user _
    split
    · split
      · simp
      · rename_i hne
        simp [hother hne]
    · split
      · simp
      · split
        · simp
        · rename_i hne
          simp [hother hne]

theorem expels_of_close {channel : ChannelId} (hverb : line.verb ∈ [.part, .quit, .kick])
    (hclose : departureOf s.store line = .close channel) : s.Expels line channel := by
  unfold departureOf at hclose
  split at hclose
  · cases hclose
  · rename_i user hleaver
    obtain ⟨nick, hnick, huser⟩ := Option.bind_eq_some_iff.mp hleaver
    split at hclose
    · split at hclose <;> cases hclose
    · rename_i hquit
      split at hclose
      · cases hclose
      · rename_i channel' hchannel
        split at hclose
        · rename_i hself
          cases hclose
          refine ⟨?_, ⟨nick, user, hnick, huser, by simpa [Store.isSelf] using hself⟩, hchannel⟩
          simpa [hquit] using hverb
        · cases hclose

theorem departureOf_observe (store : Store) (source : Hostmask) (line : Line) :
    departureOf (store.observe source) line = departureOf store line := by
  obtain ⟨users, heq⟩ := store.observe_eq source
  rw [heq]
  rfl

/-! ## The handlers -/

theorem loses_takeOff {store : Store} (h : store.Coherent) {name : String} {channel : ChannelId}
    (hchannel : store.channelId? name = some channel) (user : UserId) :
    ∃ store', takeOff store user channel = .ok store' ∧
      store.Loses store' (if store.isSelf user then .close channel else .leave user channel) := by
  unfold takeOff
  split
  · have hknown := h.toGrounded.channelId?_known hchannel
    obtain ⟨known, hget⟩ := (Table.contains_iff _ _).mp hknown
    exact h.loses_removeChannel hget (h.toGrounded.name_found_of_channelId? hchannel hget)
  · exact h.loses_removeMember user channel

/-- A line of a departure takes away from a store what the departure is, or nothing at all. Only the
former is told of, with that store. -/
structure Departs (s : Session) (line : Line) (h : Handling) (base : Store) (d : Departure) :
    Prop where
  grows : s.store.Grows base
  loses : base.Loses h.session.store d
  nick : h.session.nick = s.nick
  departure : d = .nobody ∨ d = departureOf s.store line
  told : ∀ {event before}, .emit event ∈ h.actions → event.before? = some before →
    base = departedFrom s.store line ∧ before = base.snapshot ∧ d = departureOf s.store line

theorem departs_unknown (hgrows : s.store.Grows base) (line : Line) :
    s.Departs line (.sound ({ s with store := base }, unknown line)) base .nobody where
  grows := hgrows
  loses := base.loses_nobody
  nick := rfl
  departure := Or.inl rfl
  told {event before} hevent hbefore := by
    simp only [Handling.sound, unknown, List.mem_singleton, Action.emit.injEq] at hevent
    rw [hevent] at hbefore
    cases hbefore

theorem departs_attempt {base store : Store} {result : Except ConsistencyFault Store}
    (hok : result = .ok store) (hgrows : s.store.Grows base)
    (hdeparted : base = departedFrom s.store line)
    (hloses : base.Loses store (departureOf s.store line)) {event : Event}
    (hbefore : event.before? = some base.snapshot) :
    s.Departs line (s'.attempt result fun store => ({ s with store := store }, [.emit event])) base
      (departureOf s.store line) := by
  rw [hok]
  refine ⟨hgrows, hloses, rfl, Or.inr rfl, ?_⟩
  intro event' before hevent hbefore'
  simp only [attempt, Handling.sound, List.mem_singleton, Action.emit.injEq] at hevent
  rw [hevent, hbefore] at hbefore'
  exact ⟨hdeparted, (Option.some.inj hbefore').symm, rfl⟩

theorem departs_onPart (h : s.store.Coherent) {source : Hostmask} (hverb : line.verb = .part)
    (hsource : line.source = some source) :
    ∃ base d, s.Departs line (s.onPart source line) base d := by
  have hleaver : leaver? line = some source.nick := leaver?_of_source (by simp [hverb]) hsource
  unfold onPart
  split
  · rename_i channel user hchannel huser
    dsimp only
    split
    · obtain ⟨name, hname, hfound⟩ := Option.bind_eq_some_iff.mp hchannel
      obtain ⟨store, hok, hloses⟩ := loses_takeOff h hfound user
      have hd := departureOf_of_channel (by simp [hverb]) (by rwa [hleaver]) hchannel
      have hdeparted : s.store = departedFrom s.store line := by simp only [departedFrom, hverb]
      rw [← hd] at hloses
      exact ⟨_, _, departs_attempt hok (.refl h.toGrounded) hdeparted hloses rfl⟩
    · exact ⟨_, _, departs_unknown (.refl h.toGrounded) line⟩
  · exact ⟨_, _, departs_unknown (.refl h.toGrounded) line⟩

theorem departs_onQuit (h : s.store.Coherent) {source : Hostmask} (hverb : line.verb = .quit)
    (hsource : line.source = some source) :
    ∃ base d, s.Departs line (s.onQuit source line) base d := by
  have hleaver : leaver? line = some source.nick := leaver?_of_source (by simp [hverb]) hsource
  have hdeparted : s.store = departedFrom s.store line := by simp only [departedFrom, hverb]
  have hdismissed : ∃ store, dismiss s.store (s.store.userId? source.nick) = .ok store ∧
      s.store.Loses store (departureOf s.store line) := by
    cases huser : s.store.userId? source.nick with
    | none =>
      rw [departureOf_of_unknown (by rwa [hleaver])]
      exact ⟨_, rfl, s.store.loses_nobody⟩
    | some user =>
      rw [departureOf_of_quit hverb (by rwa [hleaver])]
      unfold dismiss
      dsimp only
      split
      · exact ⟨_, rfl, s.store.loses_nobody⟩
      · exact h.toGrounded.loses_removeUser user
  obtain ⟨store, hok, hloses⟩ := hdismissed
  exact ⟨_, _, departs_attempt hok (.refl h.toGrounded) hdeparted hloses rfl⟩

theorem departs_onKick (h : s.store.Coherent) {source : Hostmask} (hverb : line.verb = .kick)
    (hsource : line.source = some source) :
    ∃ base d, s.Departs line (s.onKick source line) base d := by
  have hgrows := h.toGrounded.grows_observe source
  have hobserved := (h.observe source).coherent
  have hdeparted : s.store.observe source = departedFrom s.store line := by
    simp only [departedFrom, hverb, hsource]
  unfold onKick
  split
  · rename_i channel nick hchannel hnick
    have hleaver : leaver? line = some nick := (leaver?_of_kick hverb).trans hnick
    have hlookup : (s.store.observe source).channelId? = s.store.channelId? := by
      obtain ⟨users, heq⟩ := s.store.observe_eq source
      rw [heq]
      rfl
    rw [← hlookup] at hchannel
    dsimp only
    split
    · exact ⟨_, _, departs_unknown hgrows line⟩
    · split
      · rename_i user huser
        obtain ⟨name, -, hfound⟩ := Option.bind_eq_some_iff.mp hchannel
        obtain ⟨store, hok, hloses⟩ := loses_takeOff hobserved hfound user
        rw [← departureOf_of_channel (by simp [hverb]) (by rwa [hleaver]) hchannel,
          departureOf_observe] at hloses
        exact ⟨_, _, departs_attempt hok hgrows hdeparted hloses rfl⟩
      · rename_i huser
        have hd : departureOf (s.store.observe source) line = .nobody :=
          departureOf_of_unknown (by rwa [hleaver])
        rw [departureOf_observe] at hd
        have hloses := (s.store.observe source).loses_nobody
        rw [← hd] at hloses
        exact ⟨_, _, departs_attempt rfl hgrows hdeparted hloses rfl⟩
  · exact ⟨_, _, departs_unknown (.refl h.toGrounded) line⟩

theorem departs_dispatch (h : s.store.Coherent) (clock : Clock)
    (hverb : line.verb ∈ [.part, .quit, .kick]) :
    ∃ base d, s.Departs line (s.dispatch clock line) base d := by
  cases hsource : line.source with
  | none =>
    have hunknown : s.dispatch clock line = .sound (s, unknown line) := by
      simp only [List.mem_cons, List.not_mem_nil, or_false] at hverb
      rcases hverb with hverb | hverb | hverb <;> simp only [dispatch, hverb, hsource]
    rw [hunknown]
    exact ⟨_, _, departs_unknown (.refl h.toGrounded) line⟩
  | some source =>
    simp only [List.mem_cons, List.not_mem_nil, or_false] at hverb
    rcases hverb with hverb | hverb | hverb <;> simp only [dispatch, hverb, hsource]
    · exact departs_onPart h hverb hsource
    · exact departs_onQuit h hverb hsource
    · exact departs_onKick h hverb hsource

/-! ## Lines -/

theorem before?_of_mem_perform {request : RegistrationAction} {event : Event}
    (hevent : .emit event ∈ s.perform request) : event.before? = none := by
  cases request with
  | nickTaken used next =>
    simp only [perform, List.mem_singleton, Action.emit.injEq] at hevent
    rw [hevent]
    rfl
  | send command => simp [perform, sendNow] at hevent
  | upgradeTls => simp [perform] at hevent
  | complete nick => simp [perform] at hevent
  | fail error => simp [perform] at hevent

theorem before?_of_mem_connect {nick : String} {event : Event}
    (hevent : .emit event ∈ (s.connect nick).2) : event.before? = none := by
  have hconnected : event = .connected := by simpa [connect, send] using hevent
  rw [hconnected]
  rfl

/-- The registration tells of no departure. -/
theorem before?_of_mem_register {event : Event}
    (hevent : .emit event ∈ (s.register line).2.1) : event.before? = none := by
  have hperformed {s : Session} {requests : List RegistrationAction}
      (hmem : .emit event ∈ requests.flatMap s.perform) : event.before? = none := by
    obtain ⟨request, -, hrequest⟩ := List.mem_flatMap.mp hmem
    exact before?_of_mem_perform hrequest
  unfold register at hevent
  split at hevent
  · dsimp only at hevent
    split at hevent
    · exact hperformed hevent
    · split at hevent
      · rcases List.mem_append.mp hevent with hfirst | hconnected
        · exact hperformed hfirst
        · exact before?_of_mem_connect hconnected
      · exact hperformed hevent
  · cases hevent

/-- The event of a part, a kick or a quit shows the store that somebody departed from, and what is
known afterwards is known there, less exactly what the departure takes away. -/
theorem departure_exact {config : ClientConfig} (hs : Reachable config s) (clock : Clock)
    {raw : String} (hparse : Line.parse raw = .ok line) (hverb : line.verb ∈ [.part, .quit, .kick])
    {event : Event} {before : StoreSnapshot} (hevent : .emit event ∈ (s.handleLine clock raw).2)
    (hbefore : event.before? = some before) :
    before.Shows (departedFrom s.store line) ∧
      (departedFrom s.store line).Loses (s.handleLine clock raw).1.store
        (departureOf s.store line) := by
  rw [hs.sound.handleLine_eq clock hparse] at hevent ⊢
  have hping : line.verb ≠ .ping := by
    rintro hping
    simp [hping] at hverb
  have hregisters := s.registers_register line
  have hcoherent := (hs.sound.register line).coherent
  have hquiet : ∀ {event}, .emit event ∈ (s.register line).2.1 → event.before? = none :=
    before?_of_mem_register
  unfold handle at hevent ⊢
  rw [if_neg hping] at hevent ⊢
  generalize s.register line = registered at hevent hregisters hcoherent hquiet ⊢
  obtain ⟨t, first, failed⟩ := registered
  cases hregisters with
  | connected _ hnumeric =>
    obtain ⟨code, hnumeric⟩ := hnumeric
    simp [hnumeric] at hverb
  | passed hstore _ _ =>
    dsimp only at hevent hstore hcoherent hquiet ⊢
    split at hevent
    · rw [hquiet hevent] at hbefore
      cases hbefore
    · rename_i hfailed
      rw [if_neg hfailed]
      obtain ⟨base, d, hdeparts⟩ := departs_dispatch hcoherent clock hverb
      rcases List.mem_append.mp hevent with hfirst | htold
      · rw [hquiet hfirst] at hbefore
        cases hbefore
      · obtain ⟨rfl, rfl, rfl⟩ := hdeparts.told htold hbefore
        rw [← hstore]
        exact ⟨(departedFrom t.store line).shows_snapshot, hdeparts.loses⟩

/-- Somebody leaves the only channel that it shares with the client. -/
theorem departure_exact_part :
    let clock : Clock := ⟨⟨0, 0⟩, ""⟩
    let s := (opened { ClientConfig.standard "irc.example.net" "bot" with capEnabled := false }).run
      ([":irc 001 bot :Welcome", ":bot!b@h JOIN #c", ":eve!e@h JOIN #c"].map (.line clock))
    ∃ before : StoreSnapshot, before.Shows s.store ∧
      s.store.Loses (s.handleLine clock ":eve!e@h PART #c").1.store (.leave ⟨3⟩ ⟨2⟩) := by
  intro clock s
  let line : Line := ⟨":eve!e@h PART #c", [], some (.parse "eve!e@h"), "PART", ["#c"]⟩
  have hs := reachable_run
    { ClientConfig.standard "irc.example.net" "bot" with capEnabled := false }
    ([":irc 001 bot :Welcome", ":bot!b@h JOIN #c", ":eve!e@h JOIN #c"].map (.line clock))
  have hparse : Line.parse ":eve!e@h PART #c" =
      .ok ⟨":eve!e@h PART #c", [], some (.parse "eve!e@h"), "PART", ["#c"]⟩ := rfl
  have hverb : line.verb = .part := by decide +kernel
  have hdeparted : departedFrom s.store line = s.store := by simp only [departedFrom, hverb]
  have hdeparture : departureOf s.store line = .leave ⟨3⟩ ⟨2⟩ := by decide +kernel
  have htold : (s.handleLine clock ":eve!e@h PART #c").2.any (fun
      | .emit event => event.before?.isSome
      | _ => false) = true := by decide +kernel
  change Reachable _ s at hs
  change Line.parse _ = .ok line at hparse
  clear_value s line
  obtain ⟨action, hmem, hevent⟩ := List.any_eq_true.mp htold
  cases action with
  | emit event =>
    obtain ⟨before, hbefore⟩ := Option.isSome_iff_exists.mp hevent
    have hexact := departure_exact hs clock hparse (by simp [hverb]) hmem hbefore
    rw [hdeparture, hdeparted] at hexact
    exact ⟨before, hexact⟩
  | _ => cases hevent

end Session

end IrcClient
