import Mathlib.Data.List.TakeWhile
import IrcClient.Proofs.Session.Handle
import IrcClient.Proofs.Session.Reach
import IrcClient.Proofs.Session.Report

/-!
# No line goes unnoticed

Whatever the server says, the application is told of it or the connection is given up. Only a few kinds
of lines are dealt with in silence. Every handler looks things up before it tells of them, and what it
tells of is found because the store is coherent.
-/

namespace IrcClient

theorem Store.channelSnapshot?_of_known {store : Store} {id : ChannelId}
    (h : store.channels.contains id = true) : ∃ channel, store.channelSnapshot? id = some channel := by
  obtain ⟨channel, hchannel⟩ := (Table.contains_iff _ _).mp h
  exact ⟨channel.snapshot, by rw [Store.channelSnapshot?, hchannel, Option.map_some]⟩

theorem Store.userSnapshot?_of_known {store : Store} {id : UserId}
    (h : store.users.contains id = true) : ∃ user, store.userSnapshot? id = some user := by
  obtain ⟨user, huser⟩ := (Table.contains_iff _ _).mp h
  exact ⟨user.snapshot, by rw [Store.userSnapshot?, huser, Option.map_some]⟩

/-- Whether a line is dealt with in silence: it was meant for the registration, answers a ping, or says
that somebody is away. -/
def Line.isQuiet (line : Line) : Bool :=
  match line.verb with
  | .pong | .cap | .authenticate => true
  | .away => line.source.isSome
  | _ => false

/-- A line is refused as empty only if it is blank. -/
theorem Line.blank_of_parse_eq_empty {raw : String} (h : Line.parse raw = .error .empty) :
    raw.toList.all Text.isBlank = true := by
  let isBreak (c : Char) : Bool := c == '\r' || c == '\n'
  have htext : (Text.trimEnd isBreak raw.toList).all Text.isBlank = true := by
    unfold parse at h
    dsimp only at h
    split at h
    · assumption
    · split at h <;> cases h
  have hend : (raw.toList.reverse.takeWhile isBreak).all Text.isBlank = true := by
    rw [List.all_eq_true]
    intro c hc
    have hbreak : isBreak c = true := List.mem_takeWhile_imp hc
    rcases Bool.or_eq_true_iff.mp hbreak with hcr | hlf
    · exact eq_of_beq hcr ▸ (by decide)
    · exact eq_of_beq hlf ▸ (by decide)
  have hwhole : raw.toList = Text.trimEnd isBreak raw.toList ++
      (raw.toList.reverse.takeWhile isBreak).reverse := by
    rw [Text.trimEnd, ← List.reverse_append, List.takeWhile_append_dropWhile, List.reverse_reverse]
  rw [hwhole, List.all_append, List.all_reverse, htext, hend, Bool.and_true]

/-- Whether an action lets the application know something: it is an event, or the end. -/
def Action.tells : Action → Bool
  | .emit _ | .fail _ => true
  | _ => false

namespace Session

variable {s t : Session} {clock : Clock} {line : Line} {raw : String}

/-- Something is told. -/
def Tells (actions : List Action) : Prop := ∃ action ∈ actions, action.tells = true

theorem tells_event {actions : List Action} {event : Event} (h : .emit event ∈ actions) :
    Tells actions :=
  ⟨_, h, rfl⟩

theorem tells_events {events : List Event} (h : events ≠ []) : Tells (events.map .emit) := by
  obtain ⟨event, hevent⟩ := List.exists_mem_of_ne_nil events h
  exact tells_event (List.mem_map_of_mem hevent)

/-- A line was handled by telling something, or it found a fault, which is told in the end. -/
def Handling.Told (h : Handling) : Prop := h.fault = none → Tells h.actions

theorem Handling.Told.after {h : Handling} (htold : h.Told) (first : List Action) :
    (h.after first).Told := by
  intro hfault
  obtain ⟨action, hmem, htells⟩ := htold hfault
  exact ⟨action, List.mem_append_right first hmem, htells⟩

theorem Handling.Told.report {h : Handling} (htold : h.Told) (line : Line) :
    Tells (h.report line).2 := by
  unfold Handling.report
  split
  · rename_i hfault
    exact htold hfault
  · exact tells_event (List.mem_append_right _ (List.mem_singleton_self _))

theorem told_event {event : Event} : (Handling.sound (s, [.emit event])).Told :=
  fun _ => tells_event (List.mem_singleton_self _)

theorem told_attempt {α : Type} {result : Except ConsistencyFault α}
    {k : α → Session × List Action} (hk : ∀ a, result = .ok a → Tells (k a).2) :
    (s.attempt result k).Told := by
  cases hresult : result with
  | ok a => exact fun _ => hk a hresult
  | error fault => exact nofun

/-! ## Commands -/

theorem told_onMessage (isNotice : Bool) (source : Hostmask) :
    (Handling.sound (s.onMessage clock isNotice source line)).Told := by
  cases htarget : line.param 0 with
  | none =>
    rw [onMessage, htarget]
    exact told_event
  | some target =>
    cases htext : line.param 1 with
    | none =>
      rw [onMessage, htarget, htext]
      exact told_event
    | some text =>
      obtain ⟨store, event, -, hmessage⟩ := s.onMessage_eq clock isNotice source htarget htext
      rw [hmessage]
      exact fun _ => tells_event (List.mem_append_right _ (List.mem_singleton_self _))

/-- The channel of a join is known afterwards, and so is the user. -/
theorem told_onJoin (h : s.store.Coherent) (source : Hostmask) (line : Line) :
    (Handling.sound (s.onJoin source line)).Told := by
  unfold onJoin
  split
  · exact told_event
  · rename_i t channel asked hentered
    obtain ⟨name, -, hentered⟩ := Option.bind_eq_some_iff.mp hentered
    obtain ⟨hfollows, -, hchannel⟩ := enterChannel_spec h hentered
    have hadmits := hfollows.coherent.trackUser source
    have hdetailed := hadmits.modifyUser (t.store.trackUser source).2 (joinDetails_spec line)
    rw [← hdetailed.channels] at hchannel
    obtain ⟨joined, hjoined⟩ := Store.channelSnapshot?_of_known hchannel
    obtain ⟨user, huser⟩ := Store.userSnapshot?_of_known hdetailed.known
    dsimp only
    split
    · exact fun _ => tells_event (List.mem_append_right _ (List.mem_singleton_self _))
    · rename_i hmissing
      exact absurd huser (hmissing joined user hjoined)

theorem told_onPart (source : Hostmask) (line : Line) : (s.onPart source line).Told := by
  unfold onPart
  split
  · dsimp only
    split
    · exact told_attempt fun _ _ => tells_event (List.mem_singleton_self _)
    · exact told_event
  · exact told_event

theorem told_onQuit (source : Hostmask) (line : Line) : (s.onQuit source line).Told :=
  told_attempt fun _ _ => tells_event (List.mem_singleton_self _)

theorem told_onKick (source : Hostmask) (line : Line) : (s.onKick source line).Told := by
  unfold onKick
  split
  · dsimp only
    split
    · exact told_event
    · exact told_attempt fun _ _ => tells_event (List.mem_singleton_self _)
  · exact told_event

theorem told_onNick (source : Hostmask) (line : Line) : (s.onNick source line).Told := by
  unfold onNick
  split
  · exact told_event
  · exact told_attempt fun _ _ => tells_event (List.mem_singleton_self _)

theorem told_onInvite (source : Hostmask) (line : Line) : (s.onInvite source line).Told := by
  unfold onInvite
  split
  · exact told_event
  · dsimp only
    split
    · exact fun _ => tells_event (List.mem_cons_self)
    · exact told_event

/-- A channel stays known while its modes change. -/
theorem told_onMode (h : s.store.Coherent) (source : Hostmask) (line : Line) :
    (s.onMode source line).Told := by
  unfold onMode
  split
  · rename_i target modes args _
    have hobserved := (h.observe source).coherent
    dsimp only
    split
    · exact told_event
    · split
      · exact told_event
      · rename_i channel hchannel
        have hknown := hobserved.toGrounded.channelId?_known hchannel
        obtain ⟨store, events, hok, hkept⟩ :=
          (Store.modeInvariant_followsWith _ channel).applyModes (hobserved.followsWith hknown)
            ((s.onStore fun store => store.observe source).store.sourceSnapshot source) modes args
        obtain ⟨changed, hchanged⟩ := Store.channelSnapshot?_of_known hkept.known
        refine told_attempt fun result hresult => ?_
        cases hok.symm.trans hresult
        apply tells_events
        simp [hchanged]
  · exact told_event

theorem told_onTopic (h : s.store.Coherent) (source : Hostmask) (line : Line) :
    (Handling.sound (s.onTopic clock source line)).Told := by
  unfold onTopic
  split
  · rename_i channel topic hchannel _
    obtain ⟨name, -, hname⟩ := Option.bind_eq_some_iff.mp hchannel
    have hknown := h.toGrounded.channelId?_known hname
    have hmodified : (s.store.modifyChannel channel fun c =>
        (c.withTopic topic).withTopicInfo source (clock.timeOf line)).channels.contains channel =
          true :=
      (Table.contains_modify _ _ _ _).trans hknown
    obtain ⟨changed, hchanged⟩ := Store.channelSnapshot?_of_known hmodified
    refine fun _ => tells_events ?_
    simp [onStore, hchanged]
  · exact told_event

theorem tells_onNumeric (code : Nat) (line : Line) : Tells (s.onNumeric code line).2 :=
  tells_event (List.mem_append_right _ (List.mem_singleton_self _))

/-! ## Lines -/

theorem told_dispatch (h : s.store.Coherent) (clock : Clock) (hloud : line.isQuiet = false) :
    (s.dispatch clock line).Told := by
  unfold dispatch
  split
  · exact fun _ => tells_onNumeric _ line
  · exact told_event
  · rename_i hverb
    simp [Line.isQuiet, hverb] at hloud
  · rename_i hverb
    simp [Line.isQuiet, hverb] at hloud
  · rename_i hverb
    simp [Line.isQuiet, hverb] at hloud
  · split
    · exact told_event
    · rename_i source hsource
      split
      · exact told_onMessage false source
      · exact told_onMessage true source
      · exact told_onJoin h source line
      · exact told_onPart source line
      · exact told_onQuit source line
      · exact told_onKick source line
      · exact told_onNick source line
      · exact told_onMode h source line
      · exact told_onTopic h source line
      · exact told_onInvite source line
      · rename_i hverb
        simp [Line.isQuiet, hverb, hsource] at hloud
      · exact told_event

/-- A registration that fails gives the connection up. -/
theorem tells_of_failed (hfailed : (s.register line).2.2 = true) : Tells (s.register line).2.1 := by
  unfold register at hfailed ⊢
  split at hfailed
  · rename_i hphase
    rw [if_pos hphase]
    dsimp only at hfailed ⊢
    split at hfailed
    · rename_i hfail
      rw [if_pos hfail]
      obtain ⟨request, hmem, hrequest⟩ := List.any_eq_true.mp hfail
      cases request with
      | fail error =>
        refine ⟨.fail (.registration error), List.mem_flatMap.mpr ⟨_, hmem, ?_⟩, rfl⟩
        exact List.mem_singleton_self _
      | _ => cases hrequest
    · split at hfailed <;> cases hfailed
  · cases hfailed

theorem told_handle (hs : s.Sound) (clock : Clock) (hloud : line.isQuiet = false) :
    (s.handle clock line).Told := by
  unfold handle
  split
  · exact fun _ => tells_event (List.mem_append_right _ (List.mem_singleton_self _))
  · dsimp only
    split
    · rename_i hfailed
      exact fun _ => tells_of_failed hfailed
    · exact (told_dispatch (hs.register line).coherent clock hloud).after _

theorem tells_handleLine (hs : s.Sound) (clock : Clock) (hpresent : raw.toList.all Text.isBlank = false)
    (hloud : ∀ line, Line.parse raw = .ok line → line.isQuiet = false) :
    Tells (s.handleLine clock raw).2 := by
  unfold handleLine
  split
  · rename_i line hparse
    exact (told_handle hs clock (hloud line hparse)).report line
  · rename_i hempty
    rw [Line.blank_of_parse_eq_empty hempty] at hpresent
    cases hpresent
  · exact tells_event (List.mem_singleton_self _)

/-! ## Numerics -/

/-- Nothing is told as a numeric. -/
def Spares (actions : List Action) : Prop :=
  ∀ code params raw, .emit (.serverResponse code params raw) ∉ actions

theorem spares_nil : Spares [] := fun _ _ _ => List.not_mem_nil

theorem spares_event {event : Event}
    (hevent : ∀ code params raw, event ≠ .serverResponse code params raw) :
    Spares [.emit event] := by
  intro code params raw hmem
  exact hevent code params raw (Action.emit.inj (List.mem_singleton.mp hmem)).symm

/-- What a numeric gives rise to is never told as a numeric itself. -/
theorem spares_numericEffect (code : Nat) (line : Line) : Spares (s.numericEffect code line).2 := by
  by_cases hcode : code ∈ listingCodes
  · rcases mem_listingCodes_iff.mp hcode with rfl | rfl | rfl | rfl | rfl | rfl
    · exact spares_nil
    · exact spares_nil
    · exact spares_event nofun
    · exact spares_nil
    · exact spares_nil
    · exact spares_event nofun
  · obtain ⟨events, hevents, hplain⟩ := s.snd_numericEffect hcode line
    intro code' params raw hmem
    rw [hevents] at hmem
    obtain ⟨event, hevent, heq⟩ := List.mem_map.mp hmem
    cases heq
    exact nomatch hplain _ hevent

/-- After the welcome a numeric is told of as such once, when whatever it gave rise to has been told. -/
theorem numeric_told_last (hs : s.Sound) (hregistered : s.isRegistered = true) (clock : Clock)
    (hparse : Line.parse raw = .ok line) {code : Nat} (hcode : line.numeric = some code) :
    ∃ earlier, (s.handleLine clock raw).2 =
        earlier ++ [.emit (.serverResponse code line.params line.raw)] ∧ Spares earlier := by
  refine ⟨(s.numericEffect code line).2, ?_, spares_numericEffect code line⟩
  have hverb := Line.verb_of_numeric hcode
  have hdispatch : s.dispatch clock line = .sound (s.onNumeric code line) := by
    simp only [dispatch, hverb]
  have hhandle : s.handle clock line = (Handling.sound (s.onNumeric code line)).after [] := by
    rw [handle, if_neg (by simp [hverb]), register_of_isRegistered hregistered]
    exact congrArg (Handling.after []) hdispatch
  rw [hs.handleLine_eq clock hparse, hhandle]
  rfl

/-- No line is dropped without a word unless it is blank or of a few kinds. After the welcome every
numeric is told of as such exactly once, and that comes last. -/
theorem tells_of_every_line {config : ClientConfig} (h : Reachable config s) (clock : Clock)
    (raw : String) :
    (raw.toList.all Text.isBlank = false →
      (∀ line, Line.parse raw = .ok line → line.isQuiet = false) →
      ∃ action ∈ (s.handleLine clock raw).2, action.tells = true) ∧
    (s.isRegistered = true → ∀ line code, Line.parse raw = .ok line → line.numeric = some code →
      ∃ earlier, (s.handleLine clock raw).2 =
          earlier ++ [.emit (.serverResponse code line.params line.raw)] ∧
        ∀ code' params' raw', .emit (.serverResponse code' params' raw') ∉ earlier) := by
  refine ⟨tells_handleLine h.sound clock, ?_⟩
  intro hregistered line code hparse hcode
  exact numeric_told_last h.sound hregistered clock hparse hcode

/-- A change of modes that says nothing, and a numeric that gives rise to nothing else. -/
theorem tells_of_every_line_welcomed :
    let clock : Clock := ⟨⟨0, 0⟩, ""⟩
    let s := (opened { ClientConfig.standard "irc.example.net" "bot" with capEnabled := false }).run
      [.line clock ":irc 001 bot :Welcome"]
    (∃ action ∈ (s.handleLine clock ":eve!e@h MODE").2, action.tells = true) ∧
      ∃ earlier, (s.handleLine clock ":irc 401 bot eve").2 =
        earlier ++ [.emit (.serverResponse 401 ["bot", "eve"] ":irc 401 bot eve")] := by
  intro clock s
  have hs := reachable_run
    { ClientConfig.standard "irc.example.net" "bot" with capEnabled := false }
    [.line clock ":irc 001 bot :Welcome"]
  have hmode : Line.parse ":eve!e@h MODE" =
      .ok ⟨":eve!e@h MODE", [], some (.parse "eve!e@h"), "MODE", []⟩ := rfl
  have hnumeric : Line.parse ":irc 401 bot eve" =
      .ok ⟨":irc 401 bot eve", [], some (.parse "irc"), "401", ["bot", "eve"]⟩ := rfl
  refine ⟨(tells_of_every_line hs clock ":eve!e@h MODE").1 (by decide) ?_, ?_⟩
  · intro line hparse
    cases hmode.symm.trans hparse
    decide
  · obtain ⟨earlier, htold, -⟩ := (tells_of_every_line hs clock ":irc 401 bot eve").2
      (by decide +kernel) _ 401 hnumeric (by decide)
    exact ⟨earlier, htold⟩

end Session

end IrcClient
