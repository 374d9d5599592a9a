import IrcClient.Proofs.Session.Handle
import IrcClient.Proofs.Session.Reach
import IrcClient.Proofs.Store.Hearing

/-!
# What a session hears about modes

Two kinds of lines are news about the mode of a channel: the reply that tells the whole mode, and the
changes that somebody makes. Every other line leaves the modes of all channels alone, and so a channel
knows of its mode what the news about it since it became known add up to.
-/

namespace IrcClient

namespace Session

variable {s t : Session} {clock : Clock} {line : Line} {id : ChannelId}

/-- Whether a line is of one of the two kinds that may be news about a mode. -/
def IsNews (line : Line) : Prop := line.verb = .mode ∨ line.verb = .numeric 324

instance (line : Line) : Decidable (IsNews line) := inferInstanceAs (Decidable (_ ∨ _))

theorem IsNews.passes (h : IsNews line) : line.Passes :=
  h.imp_right fun hverb => ⟨324, hverb, by decide, by decide⟩

/-! ## News -/

/-- What a line tells a session about the mode of a channel: the whole mode in a reply that names the
channel, or changes that somebody makes to what is a channel name and stands for the channel. -/
def modeNews? (s : Session) (line : Line) (id : ChannelId) : Option ModeNews :=
  match line.verb with
  | .numeric 324 =>
    if s.tracked? line 1 = some id then
      some (.told (String.intercalate " " (line.params.drop 2)))
    else none
  | .mode =>
    match line.source, line.params with
    | some _, target :: modes :: args =>
      if s.store.isChannelName target = true ∧ s.store.channelId? target = some id then
        some (.changed modes args)
      else none
    | _, _ => none
  | _ => none

theorem modeNews?_of_not_isNews (h : ¬ IsNews line) : s.modeNews? line = fun _ => none := by
  funext id
  unfold modeNews?
  split
  · rename_i hverb
    exact absurd (Or.inr hverb) h
  · rename_i hverb
    exact absurd (Or.inl hverb) h
  · rfl

/-- What an input tells a session about the mode of a channel. -/
def newsOf (s : Session) : Input → ChannelId → Option ModeNews
  | .line _ raw => fun id =>
    match Line.parse raw with
    | .ok line => s.modeNews? line id
    | .error _ => none
  | .disconnect _ => fun _ => none

/-! ## Handlers that leave modes alone -/

variable {news : ChannelId → Option ModeNews}

theorem hears_attempt {α : Type} {store : Store} {result : Except ConsistencyFault α}
    {k : α → Session × List Action} (hfault : store.Hears t.store news)
    (hk : ∀ a, result = .ok a → store.Hears (k a).1.store news) :
    store.Hears (t.attempt result k).session.store news := by
  cases hresult : result with
  | ok a => exact hk a hresult
  | error fault => exact hfault

theorem channels_observe (store : Store) (source : Hostmask) :
    (store.observe source).channels = store.channels := by
  unfold Store.observe
  split <;> rfl

theorem channels_noteSpeaker (channel : Option ChannelId) (source : Hostmask) :
    (s.noteSpeaker channel source).1.store.channels = s.store.channels := by
  unfold noteSpeaker
  split
  · exact channels_observe s.store source
  · unfold meet
    split
    · rfl
    · dsimp only
      unfold Store.addContact
      split <;> simp

theorem keepsModes_onMessage (isNotice : Bool) (source : Hostmask) :
    s.store.KeepsModes (s.onMessage clock isNotice source line).1.store := by
  unfold onMessage
  split
  · rename_i target text _ _
    have hnoted := channels_noteSpeaker (s := s) (s.channelOf? target) source
    dsimp only
    split
    · split <;> exact Store.keepsModes_of_eq hnoted
    · exact Store.keepsModes_of_eq hnoted
  · exact Store.keepsModes_of_eq rfl

/-- A channel becomes known by a join, and nothing has been heard of it. -/
theorem keepsModes_onJoin (h : s.store.Coherent) (source : Hostmask) (line : Line) :
    s.store.KeepsModes (s.onJoin source line).1.store := by
  unfold onJoin
  split
  · exact Store.keepsModes_of_eq rfl
  · rename_i t channel asked hentered
    have hchannels : (((t.store.trackUser source).1.modifyUser (t.store.trackUser source).2
        (joinDetails line)).addMember (t.store.trackUser source).2 channel).channels =
          t.store.channels := Store.channels_trackUser source
    obtain ⟨name, -, hentered⟩ := Option.bind_eq_some_iff.mp hentered
    unfold enterChannel at hentered
    split at hentered
    · cases hentered
      exact (h.toGrounded.keepsModes_trackChannel name).with_channels hchannels
    · obtain ⟨id, -, heq⟩ := Option.map_eq_some_iff.mp hentered
      cases heq
      exact Store.keepsModes_of_eq hchannels

theorem keepsModes_takeOff {store store' : Store} {user : UserId} {channel : ChannelId}
    (h : takeOff store user channel = .ok store') : store.KeepsModes store' := by
  unfold takeOff at h
  split at h
  · exact Store.keepsModes_of_subset fun _ _ => Store.get?_channels_removeChannel h
  · exact Store.keepsModes_of_eq (Store.channels_removeMember h)

theorem keepsModes_onPart (source : Hostmask) (line : Line) :
    s.store.KeepsModes (s.onPart source line).session.store := by
  have hunchanged : s.store.KeepsModes s.store := Store.keepsModes_of_eq rfl
  unfold onPart
  split
  · dsimp only
    split
    · exact hears_attempt hunchanged fun store hok => keepsModes_takeOff hok
    · exact hunchanged
  · exact hunchanged

theorem keepsModes_onQuit (source : Hostmask) (line : Line) :
    s.store.KeepsModes (s.onQuit source line).session.store := by
  refine hears_attempt (Store.keepsModes_of_eq rfl) fun store hok => ?_
  unfold dismiss at hok
  split at hok
  · split at hok
    · cases hok
      exact Store.keepsModes_of_eq rfl
    · exact Store.keepsModes_of_eq (Store.channels_removeUser hok)
  · cases hok
    exact Store.keepsModes_of_eq rfl

theorem keepsModes_onKick (source : Hostmask) (line : Line) :
    s.store.KeepsModes (s.onKick source line).session.store := by
  unfold onKick
  split
  · rename_i channel nick _ _
    have hobserved : s.store.KeepsModes (s.store.observe source) :=
      Store.keepsModes_of_eq (channels_observe s.store source)
    dsimp only
    split
    · exact hobserved
    · refine hears_attempt hobserved fun store hok => ?_
      split at hok
      · exact (keepsModes_takeOff hok).of_channels (channels_observe s.store source)
      · cases hok
        exact hobserved
  · exact Store.keepsModes_of_eq rfl

theorem keepsModes_onNick (source : Hostmask) (line : Line) :
    s.store.KeepsModes (s.onNick source line).session.store := by
  unfold onNick
  split
  · exact Store.keepsModes_of_eq rfl
  · refine hears_attempt (Store.keepsModes_of_eq rfl) fun store hok => ?_
    split at hok
    · exact Store.keepsModes_of_eq (Store.channels_renameUser hok)
    · cases hok
      exact Store.keepsModes_of_eq rfl

theorem keepsModes_onInvite (source : Hostmask) (line : Line) :
    s.store.KeepsModes (s.onInvite source line).session.store := by
  unfold onInvite
  split
  · exact Store.keepsModes_of_eq rfl
  · have htracked : (s.store.trackUser source).1.channels = s.store.channels :=
      Store.channels_trackUser source
    dsimp only
    split
    · refine hears_attempt (Store.keepsModes_of_eq htracked) fun store hok => ?_
      exact Store.keepsModes_of_eq ((Store.channels_removeUser hok).trans htracked)
    · exact Store.keepsModes_of_eq htracked

theorem keepsModes_onAway (source : Hostmask) (line : Line) :
    s.store.KeepsModes (s.onAway source line).store := by
  apply Store.keepsModes_of_eq
  simp only [onAway, onStore]
  split <;> exact channels_observe s.store source

theorem keepsModes_onTopic (source : Hostmask) (line : Line) :
    s.store.KeepsModes (s.onTopic clock source line).1.store := by
  unfold onTopic
  split
  · exact Store.keepsModes_modifyChannel _ fun _ => ⟨rfl, rfl, rfl, rfl⟩
  · exact Store.keepsModes_of_eq rfl

/-! ## Numerics -/

theorem channels_onFeatures (line : Line) :
    (s.onFeatures line).1.store.channels = s.store.channels := by
  unfold onFeatures
  split
  · rfl
  · rename_i features _
    obtain ⟨directory, hmapped⟩ := s.store.withCaseMapping_eq (s.info.withFeatures features).caseMapping
    have hmapping : (if features.caseMapping?.isSome then
        s.store.withCaseMapping (s.info.withFeatures features).caseMapping else s.store).channels =
          s.store.channels := by
      split
      · rw [hmapped]
      · rfl
    dsimp only
    cases features.channelTypes? with
    | none => split <;> exact hmapping
    | some prefixes => split <;> exact hmapping

theorem channels_onWho (line : Line) : (s.onWho line).store.channels = s.store.channels := by
  unfold onWho
  split
  · rfl
  · rename_i entry _
    have htracked := Store.channels_trackUser (s := s.store)
      (.ofParts entry.nick (some entry.login) (some entry.host))
    dsimp only
    cases s.tracked? line 1 with
    | none => cases s.store.userId? entry.nick <;> rfl
    | some channel =>
      cases s.store.userId? entry.nick with
      | none => exact (Store.channels_grantAll _ _ _).trans htracked
      | some id => exact Store.channels_grantAll _ _ _

theorem channels_addName (info : ServerInfo) (channel : ChannelId) (store : Store)
    (entry : List Char) : (addName info channel store entry).channels = store.channels := by
  unfold addName
  dsimp only
  split
  · rfl
  · exact (Store.channels_grantAll _ _ _).trans (Store.channels_trackUser _)

theorem channels_onNames (line : Line) : (s.onNames line).store.channels = s.store.channels := by
  unfold onNames
  split
  · rename_i channel names _ _
    simp only [onStore]
    generalize Text.words names.toList = entries
    generalize s.store = store
    induction entries generalizing store with
    | nil => rfl
    | cons entry entries ih => exact (ih _).trans (channels_addName s.info channel store entry)
  · rfl

theorem channels_onWhois (code : Nat) (line : Line) :
    (s.onWhois code line).1.store.channels = s.store.channels := by
  unfold onWhois
  split
  · rfl
  · dsimp only
    split
    · rfl
    · rfl
    · dsimp only
      split <;> rfl

/-- Of all numerics, one tells the mode of a channel. -/
theorem keepsModes_numericEffect {code : Nat} (hcode : code ≠ 324) (line : Line) :
    s.store.KeepsModes (s.numericEffect code line).1.store := by
  have hunchanged : s.store.KeepsModes s.store := Store.keepsModes_of_eq rfl
  unfold numericEffect
  split
  · exact hunchanged
  · exact Store.keepsModes_of_eq (channels_onFeatures line)
  · exact hunchanged
  · exact hunchanged
  · exact hunchanged
  · contradiction
  · unfold onCreationTime
    split
    · exact Store.keepsModes_modifyChannel _ fun _ => ⟨rfl, rfl, rfl, rfl⟩
    · exact hunchanged
  · unfold onTopicText
    split
    · exact Store.keepsModes_modifyChannel _ fun _ => ⟨rfl, rfl, rfl, rfl⟩
    · exact hunchanged
  · unfold onTopicSetter
    split
    · exact Store.keepsModes_modifyChannel _ fun _ => ⟨rfl, rfl, rfl, rfl⟩
    · exact hunchanged
  · exact Store.keepsModes_of_eq (channels_onWho line)
  · unfold onListEnd
    split <;> exact hunchanged
  · exact Store.keepsModes_of_eq (channels_onNames line)
  · unfold onListEnd
    split <;> exact hunchanged
  · exact hunchanged
  · exact hunchanged
  · exact hunchanged
  all_goals first | exact Store.keepsModes_of_eq (channels_onWhois _ line) | exact hunchanged

theorem hears_onChannelMode (hverb : line.verb = .numeric 324) :
    s.store.Hears (s.onChannelMode line).1.store (s.modeNews? line) := by
  have hnews : s.modeNews? line = fun id =>
      if s.tracked? line 1 = some id then
        some (.told (String.intercalate " " (line.params.drop 2)))
      else none := by
    funext id
    simp only [modeNews?, hverb]
  rw [hnews]
  unfold onChannelMode
  split
  · rename_i channel htracked
    refine Store.hears_modifyChannel channel (fun c => ?_) (fun other hother => ?_)
    · rw [if_pos htracked]
      exact .refl _
    · rw [htracked, if_neg]
      exact fun heq => hother (Option.some.inj heq).symm
  · rename_i hnone
    simp only [hnone, reduceCtorEq, if_false]
    exact Store.keepsModes_of_eq rfl

/-- Changes of what is no channel name, or stands for no known channel, are no news. -/
theorem hears_onMode (h : s.store.Coherent) (hverb : line.verb = .mode) {source : Hostmask}
    (hsource : line.source = some source) :
    s.store.Hears (s.onMode source line).session.store (s.modeNews? line) := by
  have hchannels := channels_observe s.store source
  have hdirectory : (s.store.observe source).directory = s.store.directory ∧
      (s.store.observe source).channelPrefixes = s.store.channelPrefixes := by
    unfold Store.observe
    split <;> exact ⟨rfl, rfl⟩
  have hname (target : String) :
      (s.store.observe source).isChannelName target = s.store.isChannelName target := by
    rw [Store.isChannelName, Store.isChannelName, hdirectory.1, hdirectory.2]
  have hid (target : String) :
      (s.store.observe source).channelId? target = s.store.channelId? target := by
    rw [Store.channelId?, Store.channelId?, hdirectory.1]
  unfold onMode
  split
  · rename_i target modes args hparams
    have hnews : s.modeNews? line = fun id =>
        if s.store.isChannelName target = true ∧ s.store.channelId? target = some id then
          some (.changed modes args)
        else none := by
      funext id
      rw [modeNews?, hverb, hsource, hparams]
    rw [hnews]
    simp only [onStore, hname, hid]
    split
    · rename_i hother
      simp only [Bool.not_eq_true', Bool.eq_false_iff] at hother
      simp only [hother]
      exact Store.keepsModes_of_eq hchannels
    · rename_i hchannel
      simp only [Bool.not_eq_true', Bool.not_eq_false] at hchannel
      split
      · rename_i hnone
        simp only [hnone, reduceCtorEq, and_false, if_false]
        exact Store.keepsModes_of_eq hchannels
      · rename_i channel hsome
        rw [← hid] at hsome
        have hcoherent := (h.observe source).coherent
        have hknown := hcoherent.toGrounded.channelId?_known hsome
        obtain ⟨store, events, hok, -⟩ := hcoherent.applyModes hknown
          ((s.store.observe source).sourceSnapshot source) modes args
        simp only [attempt, hok, hchannel, ← hid, hsome, true_and, Option.some.injEq]
        exact (Store.hears_applyModes hok).of_channels hchannels
  · rename_i hparams
    have hnews : s.modeNews? line = fun _ => none := by
      funext id
      rw [modeNews?, hverb, hsource]
      dsimp only
      split
      · rename_i htarget
        exact absurd htarget (hparams _ _ _)
      · rfl
    rw [hnews]
    exact Store.keepsModes_of_eq rfl

/-! ## Lines -/

theorem hears_dispatch (h : s.store.Coherent) (clock : Clock) (line : Line) :
    s.store.Hears (s.dispatch clock line).session.store (s.modeNews? line) := by
  by_cases hnews : IsNews line
  · rcases hnews with hverb | hverb
    · cases hsource : line.source with
      | none =>
        have hnone : s.modeNews? line = fun _ => none := by
          funext id
          simp only [modeNews?, hverb, hsource]
        simp only [dispatch, hverb, hsource, hnone]
        exact Store.keepsModes_of_eq rfl
      | some source =>
        simp only [dispatch, hverb, hsource]
        exact hears_onMode h hverb hsource
    · simp only [dispatch, hverb]
      exact hears_onChannelMode hverb
  · rw [modeNews?_of_not_isNews hnews]
    have hunchanged : s.store.KeepsModes s.store := Store.keepsModes_of_eq rfl
    simp only [IsNews, not_or] at hnews
    unfold dispatch
    cases hsource : line.source with
    | none =>
      cases hverb : line.verb with
      | numeric code => exact keepsModes_numericEffect (fun heq => hnews.2 (heq ▸ hverb)) line
      | _ => exact hunchanged
    | some source =>
      cases hverb : line.verb with
      | numeric code => exact keepsModes_numericEffect (fun heq => hnews.2 (heq ▸ hverb)) line
      | privmsg => exact keepsModes_onMessage false source
      | notice => exact keepsModes_onMessage true source
      | join => exact keepsModes_onJoin h source line
      | part => exact keepsModes_onPart source line
      | quit => exact keepsModes_onQuit source line
      | kick => exact keepsModes_onKick source line
      | nick => exact keepsModes_onNick source line
      | mode => exact absurd hverb hnews.1
      | topic => exact keepsModes_onTopic source line
      | invite => exact keepsModes_onInvite source line
      | away => exact keepsModes_onAway source line
      | _ => exact hunchanged

theorem channels_register (s : Session) (line : Line) :
    (s.register line).1.store.channels = s.store.channels := by
  cases s.registers_register line with
  | passed hstore => rw [hstore]
  | connected _ _ hstore =>
    rw [hstore]
    exact Store.channels_trackUser _

theorem hears_handle (hs : s.Sound) (clock : Clock) (line : Line) :
    s.store.Hears (s.handle clock line).session.store (s.modeNews? line) := by
  by_cases hnews : IsNews line
  · have hping : line.verb ≠ .ping := by
      rcases hnews with hverb | hverb <;> simp [hverb]
    obtain ⟨registration, first, hregister⟩ := s.register_of_passes hnews.passes
    rw [handle, if_neg hping, hregister]
    exact hears_dispatch (s := { s with registration := registration }) hs.coherent clock line
  · have hregister := channels_register s line
    have hdispatch := hears_dispatch (hs.register line).coherent clock line
    rw [modeNews?_of_not_isNews hnews] at hdispatch ⊢
    unfold handle
    split
    · exact Store.keepsModes_of_eq rfl
    · dsimp only
      split
      · exact Store.keepsModes_of_eq hregister
      · exact hdispatch.of_channels hregister

/-- Of the modes of channels, a session knows after an input what it knew before and the news. -/
theorem hears_receive (hs : s.Sound) (input : Input) :
    s.store.Hears (s.receive input).store (s.newsOf input) := by
  cases input with
  | line clock raw =>
    unfold receive newsOf handleLine
    dsimp only
    cases hparse : Line.parse raw with
    | error error => cases error <;> exact Store.keepsModes_of_eq rfl
    | ok line =>
      have hfault := (hs.handle clock line).1
      simp only [Handling.report, hfault]
      exact hears_handle hs clock line
  | disconnect error =>
    unfold receive disconnect
    dsimp only
    split
    · exact Store.keepsModes_of_eq rfl
    · exact Store.keepsModes_of_subset fun _ _ hchannel => by cases hchannel

/-! ## Runs -/

/-- What has been heard about the mode of a channel once an input is received. -/
def pastAfter (s : Session) (id : ChannelId) (past : List ModeNews) (input : Input) : List ModeNews :=
  if (s.receive input).store.channels.contains id then past ++ (s.newsOf input id).toList else []

/-- What has been heard about the mode of a channel since it became known, where some inputs lead. Of a
channel that is not known nothing has been heard. -/
inductive Heard (config : ClientConfig) (id : ChannelId) : Session → List ModeNews → Prop where
  | opened : Heard config id (opened config) []
  | receive {s : Session} {past : List ModeNews} (h : Heard config id s past) (input : Input) :
      Heard config id (s.receive input) (s.pastAfter id past input)
  | relist {s : Session} {past : List ModeNews} {store : Store} (h : Heard config id s past)
      (hlisted : s.store.Relisted store) : Heard config id { s with store := store } past

/-- What has been heard about the mode of a channel after a run. -/
def pastAfterAll (id : ChannelId) : Session → List ModeNews → List Input → List ModeNews
  | _, past, [] => past
  | s, past, input :: inputs => pastAfterAll id (s.receive input) (s.pastAfter id past input) inputs

namespace Heard

variable {config : ClientConfig} {past : List ModeNews} {channel : Channel}

theorem reachable (h : Heard config id s past) : Reachable config s := by
  induction h with
  | opened => exact .refl
  | receive _ input ih => exact ih.receive input trivial
  | relist _ hlisted ih => exact ih.relist hlisted

/-- There is a history of every channel wherever inputs lead. -/
theorem of_reachable (h : Reachable config s) (id : ChannelId) : ∃ past, Heard config id s past := by
  induction h with
  | refl => exact ⟨[], .opened⟩
  | receive _ input _ ih =>
    obtain ⟨past, hpast⟩ := ih
    exact ⟨_, hpast.receive input⟩
  | relist _ hlisted ih =>
    obtain ⟨past, hpast⟩ := ih
    exact ⟨past, hpast.relist hlisted⟩

theorem run (h : Heard config id s past) (inputs : List Input) :
    Heard config id (s.run inputs) (pastAfterAll id s past inputs) := by
  induction inputs generalizing s past with
  | nil => exact h
  | cons input inputs ih => exact ih (h.receive input)

theorem eq_nil (h : Heard config id s past) (hunknown : s.store.channels.get? id = none) :
    past = [] := by
  induction h with
  | opened => rfl
  | receive _ input _ =>
    rw [pastAfter, if_neg]
    rw [Table.contains, hunknown]
    exact Bool.false_ne_true
  | relist _ hlisted ih => exact ih ((hlisted.get?_channels id).symm.trans hunknown)

/-- A channel knows of its mode what it has heard since it became known. -/
theorem sameModes (h : Heard config id s past) (hchannel : s.store.channels.get? id = some channel) :
    channel.SameModes (past.foldl Channel.hear (.new id "")) := by
  induction h generalizing channel with
  | opened => cases hchannel
  | @receive s past h input ih =>
    have hknown : (s.receive input).store.channels.contains id = true :=
      (Table.contains_iff _ _).mpr ⟨channel, hchannel⟩
    have hhears := hears_receive h.reachable.sound input id channel hchannel
    rw [pastAfter, if_pos hknown, List.foldl_append]
    refine hhears.trans (Channel.SameModes.foldl_hear ?_ _)
    cases hbefore : s.store.channels.get? id with
    | some before =>
      rw [Store.lastKnown_of_get? hbefore]
      exact ih hbefore
    | none =>
      rw [h.eq_nil hbefore, Store.lastKnown, hbefore]
      exact .refl _
  | relist _ hlisted ih => exact ih ((hlisted.get?_channels id).symm.trans hchannel)

end Heard

end Session

end IrcClient
