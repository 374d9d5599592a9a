import IrcClient.Proofs.Connection.Race
import IrcClient.Proofs.Session.Connect

/-!
# The end of a connection

A connection ends because the application shuts it down, because the server is gone, or because a worker
meets an error, perhaps all at once. The reader settles on one reason and tells of the end once, when
the store is empty and nothing more can be sent. If it tells of no error, there was none for it to
tell of.
-/

namespace IrcClient

/-- A store that knows nobody and nothing. -/
structure Store.Bare (s : Store) : Prop where
  users : s.users = .empty
  channels : s.channels = .empty
  nicks : s.directory.nicks = .empty
  names : s.directory.channels = .empty
  standing : s.standing = .empty
  contacts : s.contacts = []
  selfId : s.selfId = none

theorem Store.bare_clear (s : Store) : s.clear.Bare := ⟨rfl, rfl, rfl, rfl, rfl, rfl, rfl⟩

theorem Table.eq_empty_of_perm {κ α : Type} {t : Table κ α}
    (h : (empty : Table κ α).entries.Perm t.entries) : t = .empty := by
  obtain ⟨entries, hnodup⟩ := t
  cases List.nil_perm.mp h
  rfl

/-- Nothing is listed in one order only. -/
theorem Store.Relisted.bare {s s' : Store} (hlisted : s.Relisted s') (h : s.Bare) : s'.Bare := by
  obtain ⟨husers, hchannels⟩ := hlisted
  rw [h.users] at husers
  rw [h.channels] at hchannels
  exact { h with
    users := Table.eq_empty_of_perm husers
    channels := Table.eq_empty_of_perm hchannels }

theorem Session.Relisted.ended {s s' : Session} (h : s.Relisted s') : s'.ended = s.ended := by
  rw [h.others]

/-- Whether the reader has told both workers to stop. -/
def ReaderPhase.hasHalted : ReaderPhase → Bool
  | closing _ | ending _ | parting _ | stopped => true
  | _ => false

instance ReaderPhase.decidableEqStopped : (phase : ReaderPhase) → Decidable (phase = .stopped)
  | stopped => .isTrue rfl
  | reading _ | performing _ | writing .. | leaving _ | halting _ | closing _ | ending _ | parting _ =>
    .isFalse nofun

namespace Connection

variable {past moments longer : List Connection} {c d : Connection} {text : String}
  {error : Option String}

/-! ## Reasons -/

/-- A worker gives up over an error. -/
def GaveUp (c : Connection) : Worker → String → Prop
  | .reader, text => c.reader = .leaving (some text)
  | .writer, text => c.writer = .failing text

/-- Among some moments is one at which a worker met an error and gave up over it. -/
def Failed (moments : List Connection) (text : String) : Prop :=
  ∃ earlier c d worker, earlier ++ [c, d] <+: moments ∧ c.Fault worker text ∧ d.GaveUp worker text

/-- Among some moments is one at which the application told the connection to stop, before anybody else
did. -/
def ShutDown (moments : List Connection) : Prop :=
  ∃ earlier c, earlier ++ [c, c.shutdown] <+: moments ∧ c.stopping = false

/-- The server has welcomed the client and is gone, and the reader waits for a line in vain. -/
structure Deserted (c : Connection) : Prop where
  reading : ∃ silence, c.reader = .reading silence
  gone : c.serverOpen = false
  dry : c.source.IsDry
  welcomed : c.session.isRegistered = true

/-- Among some moments is one at which the reader came to the end of what the server had to say. -/
def RanDry (moments : List Connection) : Prop :=
  ∃ earlier c d, earlier ++ [c, d] <+: moments ∧ c.Deserted ∧ d.reader = .leaving none

/-- Among some moments is one at which the reader, having given up without an error after a shutdown or
at the end of what the server had to say, found that the writer had met none either. -/
def EndedInOrder (moments : List Connection) : Prop :=
  ∃ earlier c d, earlier ++ [c, d] <+: moments ∧ c.reader = .leaving none ∧ c.failure = none ∧
    d.reader = .halting none ∧ (ShutDown (earlier ++ [c]) ∨ RanDry (earlier ++ [c]))

/-- An error, or none, is the reason why a connection ended at one of some moments. -/
def IsReason (moments : List Connection) : Option String → Prop
  | some text => Failed moments text
  | none => EndedInOrder moments

theorem Failed.mono (h : Failed moments text) (hlonger : moments <+: longer) : Failed longer text := by
  obtain ⟨earlier, c, d, worker, hmoments, hfault⟩ := h
  exact ⟨earlier, c, d, worker, hmoments.trans hlonger, hfault⟩

theorem ShutDown.mono (h : ShutDown moments) (hlonger : moments <+: longer) : ShutDown longer := by
  obtain ⟨earlier, c, hmoments, hfirst⟩ := h
  exact ⟨earlier, c, hmoments.trans hlonger, hfirst⟩

theorem RanDry.mono (h : RanDry moments) (hlonger : moments <+: longer) : RanDry longer := by
  obtain ⟨earlier, c, d, hmoments, hdeserted⟩ := h
  exact ⟨earlier, c, d, hmoments.trans hlonger, hdeserted⟩

theorem IsReason.mono (h : IsReason moments error) (hlonger : moments <+: longer) :
    IsReason longer error := by
  cases error with
  | some text => exact Failed.mono h hlonger
  | none =>
    obtain ⟨earlier, c, d, hmoments, hquiet⟩ := h
    exact ⟨earlier, c, d, hmoments.trans hlonger, hquiet⟩

theorem failed_last {worker : Worker} (hfault : c.Fault worker text) (hgaveUp : d.GaveUp worker text) :
    Failed (past ++ [c] ++ [d]) text :=
  ⟨past, c, d, worker, by simp, hfault, hgaveUp⟩

theorem ranDry_last (hdeserted : c.Deserted) (hleaving : d.reader = .leaving none) :
    RanDry (past ++ [c] ++ [d]) :=
  ⟨past, c, d, by simp, hdeserted, hleaving⟩

/-! ## What has been told -/

/-- The end is not told, and neither is that there will be no more events. -/
def Untold (events : List (Nat × Option Event)) : Prop :=
  ∀ entry ∈ events, ∃ event, entry.2 = some event ∧ ∀ error, event ≠ .disconnected error

/-- From one of some moments on, with just these events told, the store is empty and the connection is
told to stop. -/
def Emptied (moments : List Connection) (events : List (Nat × Option Event)) : Prop :=
  ∃ earlier c since, moments = earlier ++ c :: since ∧ c.events = events ∧
    ∀ moment ∈ c :: since, moment.session.store.Bare ∧ moment.stopping = true

theorem Emptied.later {events : List (Nat × Option Event)} (h : Emptied moments events)
    (hbare : d.session.store.Bare) (hstopping : d.stopping = true) :
    Emptied (moments ++ [d]) events := by
  obtain ⟨earlier, c, since, rfl, hevents, hempty⟩ := h
  refine ⟨earlier, c, since ++ [d], by simp, hevents, ?_⟩
  rw [← List.cons_append, List.forall_mem_append, List.forall_mem_singleton]
  exact ⟨hempty, hbare, hstopping⟩

/-- The session goes on, and its end is not told. -/
structure Ongoing (c : Connection) : Prop where
  ended : c.session.ended = false
  untold : Untold c.events

/-- What holds while the reader is about something. -/
def Stage (moments : List Connection) (c : Connection) : ReaderPhase → Prop
  | .reading _ => c.Ongoing
  | .performing actions | .writing _ actions =>
    c.Ongoing ∧ ∀ error, .emit (.disconnected error) ∉ actions
  | .leaving (some text) => c.Ongoing ∧ Failed moments text
  | .leaving none => c.Ongoing ∧ (c.stopping = true ∨ RanDry moments)
  | .halting error | .closing error | .ending error => c.Ongoing ∧ IsReason moments error
  | .parting event =>
    ∃ error, event = some (.disconnected error) ∧ IsReason moments error ∧ Untold c.events ∧
      c.session.store.Bare ∧ Emptied moments c.events
  | .stopped =>
    ∃ before time error,
      c.events = before ++ [(time, some (.disconnected error)), (time, none)] ∧
      IsReason moments error ∧ Untold before ∧ c.session.store.Bare ∧ Emptied moments before

/-- All that a worker has found out or done in view of the end has its reason in what happened. -/
structure Accounted (moments : List Connection) (c : Connection) : Prop where
  failing : ∀ text, c.writer = .failing text → Failed moments text
  failure : ∀ text, c.failure = some text → Failed moments text
  halting : c.writer = .halting → c.failure ≠ none
  stopping : c.stopping = true → c.failure ≠ none ∨ ShutDown moments ∨ c.reader.hasHalted = true
  halted : c.reader.hasHalted = true → c.stopping = true
  stage : Stage moments c c.reader

/-! ## What the reader and the others do -/

theorem ongoing_of_leaving (h : Stage moments c (.leaving error)) : c.Ongoing := by
  cases error with
  | none => exact h.1
  | some text => exact h.1

/-- Who meets an error that ends the connection has not begun to end it. -/
theorem Stage.ongoing_of_fault (h : Stage moments c c.reader) (hfault : c.Fault .reader text) :
    c.Ongoing ∧ c.reader.hasHalted = false := by
  cases hfault with
  | refused hreader | unqueued hreader | unwritten hreader | unencrypted hreader =>
    rw [hreader] at h ⊢
    exact ⟨h.1, rfl⟩
  | cutOff hreader =>
    rw [hreader] at h ⊢
    exact ⟨h, rfl⟩

theorem endSession_of_ongoing (h : c.Ongoing) (error : Option String) :
    c.endSession error =
      { c.withSession { c.session with
          ended := true, store := c.session.store.clear, whois := .empty } with
        reader := .parting (some (.disconnected error)) } := by
  simp [Connection.endSession, Session.disconnect, h.ended]

/-- What others do leaves the stage that the reader has come to. -/
theorem Stage.later {phase : ReaderPhase} (h : Stage moments c phase)
    (hsession : c.session.Relisted d.session) (hevents : d.events = c.events)
    (hstopping : c.stopping = true → d.stopping = true)
    (hhalted : phase.hasHalted = true → c.stopping = true) : Stage (moments ++ [d]) d phase := by
  have hlonger : moments <+: moments ++ [d] := List.prefix_append _ _
  have hongoing (h : c.Ongoing) : d.Ongoing := ⟨hsession.ended.trans h.ended, hevents ▸ h.untold⟩
  unfold Stage at h ⊢
  split at h
  · exact hongoing h
  · exact ⟨hongoing h.1, h.2⟩
  · exact ⟨hongoing h.1, h.2⟩
  · exact ⟨hongoing h.1, h.2.mono hlonger⟩
  · exact ⟨hongoing h.1, h.2.imp hstopping (RanDry.mono · hlonger)⟩
  · exact ⟨hongoing h.1, h.2.mono hlonger⟩
  · exact ⟨hongoing h.1, h.2.mono hlonger⟩
  · exact ⟨hongoing h.1, h.2.mono hlonger⟩
  · obtain ⟨error, hevent, hreason, huntold, hbare, hemptied⟩ := h
    have hbare' := hsession.store.bare hbare
    refine ⟨error, hevent, hreason.mono hlonger, hevents ▸ huntold, hbare', ?_⟩
    rw [hevents]
    exact hemptied.later hbare' (hstopping (hhalted rfl))
  · obtain ⟨before, time, error, htold, hreason, huntold, hbare, hemptied⟩ := h
    have hbare' := hsession.store.bare hbare
    exact ⟨before, time, error, hevents ▸ htold, hreason.mono hlonger, huntold, hbare',
      hemptied.later hbare' (hstopping (hhalted rfl))⟩

namespace Accounted

/-- What the reader does before and after it tells both workers to stop. -/
theorem read_on (h : Accounted moments c) (hwriter : d.writer = c.writer)
    (hfailure : d.failure = c.failure) (hstopping : d.stopping = c.stopping)
    (hhalted : d.reader.hasHalted = c.reader.hasHalted) (hstage : Stage (moments ++ [d]) d d.reader) :
    Accounted (moments ++ [d]) d := by
  have hlonger : moments <+: moments ++ [d] := List.prefix_append _ _
  refine ⟨?_, ?_, ?_, ?_, ?_, hstage⟩
  · rw [hwriter]
    exact fun text hfailing => (h.failing text hfailing).mono hlonger
  · rw [hfailure]
    exact fun text hfailed => (h.failure text hfailed).mono hlonger
  · rw [hwriter, hfailure]
    exact h.halting
  · rw [hstopping, hfailure, hhalted]
    exact fun hstopped => (h.stopping hstopped).imp_right (.imp_left (ShutDown.mono · hlonger))
  · rw [hhalted, hstopping]
    exact h.halted

/-- What others do, as long as the connection is told to stop for a reason. -/
theorem of_others (h : Accounted moments c) (hreader : d.reader = c.reader)
    (hsession : c.session.Relisted d.session) (hevents : d.events = c.events)
    (hfailing : ∀ text, d.writer = .failing text → Failed (moments ++ [d]) text)
    (hfailure : ∀ text, d.failure = some text → Failed (moments ++ [d]) text)
    (hhalting : d.writer = .halting → d.failure ≠ none)
    (hrose : c.stopping = true → d.stopping = true)
    (hstopping : d.stopping = true →
      d.failure ≠ none ∨ ShutDown (moments ++ [d]) ∨ c.reader.hasHalted = true) :
    Accounted (moments ++ [d]) d := by
  refine ⟨hfailing, hfailure, hhalting, ?_, ?_, ?_⟩
  · rw [hreader]
    exact hstopping
  · rw [hreader]
    exact fun hhalted => hrose (h.halted hhalted)
  · rw [hreader]
    exact h.stage.later hsession hevents hrose h.halted

theorem shutdown (h : Accounted (past ++ [c]) c) :
    Accounted (past ++ [c] ++ [c.shutdown]) c.shutdown := by
  have hlonger : past ++ [c] <+: past ++ [c] ++ [c.shutdown] := List.prefix_append _ _
  refine h.of_others rfl (.refl _) rfl (fun text hfailing => (h.failing text hfailing).mono hlonger)
    (fun text hfailed => (h.failure text hfailed).mono hlonger) h.halting (fun _ => rfl) fun _ => ?_
  cases hstopping : c.stopping with
  | false => exact .inr (.inl ⟨past, c, by simp, hstopping⟩)
  | true => exact (h.stopping hstopping).imp_right (.imp_left (ShutDown.mono · hlonger))

theorem aside (h : Accounted moments c) (haside : c.Aside d) : Accounted (moments ++ [d]) d :=
  h.read_on haside.writer haside.failure haside.stopping (haside.reader ▸ rfl) <|
    haside.reader ▸ h.stage.later haside.session haside.events (haside.stopping ▸ id) h.halted

theorem writerAct (h : Accounted (past ++ [c]) c) (hact : c.WriterAct d) :
    Accounted (past ++ [c] ++ [d]) d := by
  have hlonger : past ++ [c] <+: past ++ [c] ++ [d] := List.prefix_append _ _
  have hfailure (text : String) (hfailed : c.failure = some text) :
      Failed (past ++ [c] ++ [d]) text :=
    (h.failure text hfailed).mono hlonger
  have hstopping (hstopped : c.stopping = true) :
      c.failure ≠ none ∨ ShutDown (past ++ [c] ++ [d]) ∨ c.reader.hasHalted = true :=
    (h.stopping hstopped).imp_right (.imp_left (ShutDown.mono · hlonger))
  cases hact with
  | wait lock =>
    have hfailing (text : String) (hwriter : c.writer = .failing text) :=
      (h.failing text hwriter).mono hlonger
    exact h.of_others rfl (.refl _) rfl hfailing hfailure h.halting id hstopping
  | fail hwriter hfault lock =>
    refine h.of_others rfl (.refl _) rfl ?_ hfailure nofun id hstopping
    rintro text ⟨⟩
    exact failed_last hfault rfl
  | @record error hwriter =>
    refine h.of_others rfl (.refl _) rfl nofun ?_ (by simp) id fun _ => .inl (by simp)
    intro text hfailed
    replace hfailed : (c.failure <|> some error) = some text := hfailed
    rw [Option.orElse_eq_orElse, Option.orElse_eq_or, Option.or_eq_some_iff] at hfailed
    rcases hfailed with hfirst | ⟨-, hnew⟩
    · exact hfailure text hfirst
    · cases hnew
      exact (h.failing error hwriter).mono hlonger
  | halt hwriter =>
    exact h.of_others rfl (.refl _) rfl nofun hfailure nofun (fun _ => rfl) fun _ => .inl (h.halting hwriter)
  | obey | take | lock | write | rest | go =>
    exact h.of_others rfl (.refl _) rfl nofun hfailure nofun id hstopping

/-- What the reader settles on is a reason. -/
theorem isReason_of_look (h : Accounted (past ++ [c]) c) (hreader : c.reader = .leaving error)
    (hlooked : d.reader = .halting (error <|> c.failure)) :
    IsReason (past ++ [c] ++ [d]) (error <|> c.failure) := by
  have hlonger : past ++ [c] <+: past ++ [c] ++ [d] := List.prefix_append _ _
  have hstage : Stage (past ++ [c]) c (.leaving error) := hreader ▸ h.stage
  cases error with
  | some text => exact Failed.mono hstage.2 hlonger
  | none =>
    cases hfailure : c.failure with
    | some text => exact (h.failure text hfailure).mono hlonger
    | none =>
      rw [hfailure] at hlooked
      refine ⟨past, c, d, by simp, hreader, hfailure, hlooked, ?_⟩
      rcases hstage.2 with hstopping | hdry
      · rcases h.stopping hstopping with hfailed | hshut | hhalted
        · exact absurd hfailure hfailed
        · exact .inl hshut
        · rw [hreader] at hhalted
          cases hhalted
      · exact .inr hdry

theorem readerAct (h : Accounted (past ++ [c]) c) (hact : c.ReaderAct d) :
    Accounted (past ++ [c] ++ [d]) d := by
  have hlonger : past ++ [c] <+: past ++ [c] ++ [d] := List.prefix_append _ _
  have hstage {phase : ReaderPhase} (hreader : c.reader = phase) :
      Stage (past ++ [c]) c phase :=
    hreader ▸ h.stage
  cases hact with
  | wait lock => exact h.read_on rfl rfl rfl rfl (h.stage.later (.refl _) rfl id h.halted)
  | listen hreader source timers silence' =>
    have hongoing : c.Ongoing := hstage hreader
    exact h.read_on rfl rfl rfl (hreader ▸ rfl) (show Ongoing _ from { hongoing with })
  | hear hreader source line =>
    have hongoing : c.Ongoing := hstage hreader
    have hlasting := c.session.lasting_handleLine c.clock line
    refine h.read_on rfl rfl rfl (hreader ▸ rfl) ⟨⟨?_, hongoing.untold⟩, ?_⟩
    · exact (congrArg Prod.snd hlasting).trans hongoing.ended
    · exact c.session.disconnected_not_mem_handleLine c.clock line
  | runDry hreader hgone hdry hwelcomed source =>
    have hongoing : c.Ongoing := hstage hreader
    have hdeserted : c.Deserted := ⟨⟨_, hreader⟩, hgone, hdry, hwelcomed⟩
    exact h.read_on rfl rfl rfl (hreader ▸ rfl)
      ⟨{ hongoing with }, .inr (ranDry_last hdeserted rfl)⟩
  | obey hreader hstopping =>
    have hongoing : c.Ongoing := hstage hreader
    exact h.read_on rfl rfl rfl (hreader ▸ rfl) ⟨{ hongoing with }, .inl hstopping⟩
  | listenAgain hreader =>
    obtain ⟨hongoing, -⟩ := hstage hreader
    exact h.read_on rfl rfl rfl (hreader ▸ rfl) (show Ongoing _ from { hongoing with })
  | queue hreader =>
    obtain ⟨hongoing, hrequests⟩ := hstage hreader
    refine h.read_on rfl rfl rfl (hreader ▸ rfl) ⟨{ hongoing with }, fun error hmem => ?_⟩
    exact hrequests error (List.mem_cons_of_mem _ hmem)
  | lock hreader lock =>
    obtain ⟨hongoing, hrequests⟩ := hstage hreader
    refine h.read_on rfl rfl rfl (hreader ▸ rfl) ⟨{ hongoing with }, fun error hmem => ?_⟩
    exact hrequests error (List.mem_cons_of_mem _ hmem)
  | write hreader lock =>
    obtain ⟨hongoing, hrequests⟩ := hstage hreader
    exact h.read_on rfl rfl rfl (hreader ▸ rfl) ⟨{ hongoing with }, hrequests⟩
  | encrypt hreader source lock =>
    obtain ⟨hongoing, hrequests⟩ := hstage hreader
    refine h.read_on rfl rfl rfl (hreader ▸ rfl) ⟨{ hongoing with }, fun error hmem => ?_⟩
    exact hrequests error (List.mem_cons_of_mem _ hmem)
  | @tell event actions hreader =>
    obtain ⟨⟨hended, huntold⟩, hrequests⟩ := hstage hreader
    refine h.read_on rfl rfl rfl (hreader ▸ rfl) ⟨⟨hended, ?_⟩, fun error hmem => ?_⟩
    · refine List.forall_mem_append.mpr ⟨huntold, List.forall_mem_singleton.mpr ⟨event, rfl, ?_⟩⟩
      rintro error rfl
      exact hrequests error List.mem_cons_self
    · exact hrequests error (List.mem_cons_of_mem _ hmem)
  | fail hfault source lock =>
    obtain ⟨hongoing, hhalted⟩ := h.stage.ongoing_of_fault hfault
    exact h.read_on rfl rfl rfl hhalted.symm ⟨{ hongoing with }, failed_last hfault rfl⟩
  | failShut hfault lock =>
    obtain ⟨hongoing, hhalted⟩ := h.stage.ongoing_of_fault hfault
    exact h.read_on rfl rfl rfl hhalted.symm ⟨{ hongoing with }, failed_last hfault rfl⟩
  | look hreader =>
    have hongoing : c.Ongoing := ongoing_of_leaving (hstage hreader)
    exact h.read_on rfl rfl rfl (hreader ▸ rfl)
      ⟨{ hongoing with }, h.isReason_of_look hreader rfl⟩
  | halt hreader =>
    obtain ⟨hongoing, hreason⟩ := hstage hreader
    refine ⟨?_, ?_, h.halting, fun _ => .inr (.inr rfl), fun _ => rfl,
      ⟨{ hongoing with }, hreason.mono hlonger⟩⟩
    · exact fun text hfailing => (h.failing text hfailing).mono hlonger
    · exact fun text hfailed => (h.failure text hfailed).mono hlonger
  | close hreader lock =>
    obtain ⟨hongoing, hreason⟩ := hstage hreader
    exact h.read_on rfl rfl rfl (hreader ▸ rfl) ⟨{ hongoing with }, hreason.mono hlonger⟩
  | @endSession error hreader =>
    obtain ⟨hongoing, hreason⟩ := hstage hreader
    have hstopping := h.halted (hreader ▸ rfl)
    rw [endSession_of_ongoing hongoing]
    refine h.read_on rfl rfl rfl (hreader ▸ rfl) ⟨error, rfl, hreason.mono ?_, hongoing.untold,
      c.session.store.bare_clear, past ++ [c], _, [], rfl, rfl, ?_⟩
    · exact List.prefix_append _ _
    · exact List.forall_mem_singleton.mpr ⟨c.session.store.bare_clear, hstopping⟩
  | part hreader =>
    obtain ⟨error, rfl, hreason, huntold, hbare, hemptied⟩ := hstage hreader
    have hstopping := h.halted (hreader ▸ rfl)
    exact h.read_on rfl rfl rfl (hreader ▸ rfl) ⟨c.events, c.now, error, by simp [part],
      hreason.mono hlonger, huntold, hbare, hemptied.later hbare hstopping⟩

theorem act (h : Accounted (past ++ [c]) c) (hact : c.Act d) :
    Accounted (past ++ [c] ++ [d]) d := by
  cases hact with
  | reader hact => exact h.readerAct hact
  | writer hact => exact h.writerAct hact
  | shutdown => exact h.shutdown
  | ping hreader line =>
    have hongoing : c.Ongoing := (hreader ▸ h.stage : Stage (past ++ [c]) c (.reading _))
    refine h.read_on rfl rfl rfl (hreader ▸ rfl) ⟨{ hongoing with }, ?_⟩
    simp
  | aside haside => exact h.aside haside

theorem of_interleaving {config : ClientConfig} {clock : Clock} {handshake : Except String Unit}
    {codec : LineCodec} (h : Interleaving (opened config clock handshake codec) past c) :
    Accounted (past ++ [c]) c := by
  induction h with
  | start =>
    refine ⟨nofun, nofun, nofun, nofun, nofun, ⟨rfl, List.forall_mem_nil _⟩, ?_⟩
    simp [Session.perform, Session.sendNow]
  | race _ hrace ih => exact ih.act hrace.act

end Accounted

/-! ## After the end -/

theorem Fault.ne_stopped (h : c.Fault .reader text) : c.reader ≠ .stopped := by
  cases h with
  | refused hreader | unqueued hreader | unwritten hreader | unencrypted hreader | cutOff hreader =>
    rw [hreader]
    exact nofun

/-- Once the reader is gone, nothing more is told, the session stays as it is up to the order of its
tables, and the connection stays told to stop. -/
structure Rests (c d : Connection) : Prop where
  reader : d.reader = c.reader
  session : c.session.Relisted d.session
  events : d.events = c.events
  stopping : c.stopping = true → d.stopping = true

theorem Act.rests (h : c.Act d) (hstopped : c.reader = .stopped) : c.Rests d := by
  cases h with
  | reader hact =>
    cases hact with
    | wait lock => exact ⟨rfl, .refl _, rfl, id⟩
    | fail hfault | failShut hfault => exact absurd hstopped hfault.ne_stopped
    | listen hreader | hear hreader | runDry hreader | obey hreader | listenAgain hreader
    | queue hreader | lock hreader | write hreader | encrypt hreader | tell hreader | look hreader
    | halt hreader | close hreader | endSession hreader | part hreader =>
      rw [hstopped] at hreader
      cases hreader
  | writer hact =>
    cases hact with
    | halt => exact ⟨rfl, .refl _, rfl, fun _ => rfl⟩
    | _ => exact ⟨rfl, .refl _, rfl, id⟩
  | shutdown => exact ⟨rfl, .refl _, rfl, fun _ => rfl⟩
  | ping hreader =>
    rw [hstopped] at hreader
    cases hreader
  | aside h => exact ⟨h.reader, h.session, h.events, fun hstopping => h.stopping.trans hstopping⟩

theorem Interleaving.rests (h : Interleaving c past d) (hstopped : c.reader = .stopped) :
    c.Rests d := by
  induction h with
  | start => exact ⟨rfl, .refl _, rfl, id⟩
  | race _ hrace ih =>
    have hrests := hrace.act.rests (ih.reader.trans hstopped)
    exact ⟨hrests.reader.trans ih.reader, ih.session.trans hrests.session,
      hrests.events.trans ih.events, fun hstopping => hrests.stopping (ih.stopping hstopping)⟩

theorem send_of_stopping (h : c.stopping = true) (command : Command) :
    c.send command = .error .disconnected := by
  rw [send, if_pos h]

/-- Nobody is known any more, and nothing can be sent. -/
structure Over (c : Connection) : Prop where
  bare : c.session.store.Bare
  unsent : ∀ command, c.send command = .error .disconnected

/-- The end of the session is told once, as the last of all events. From before that on the connection
is over. The end is told without an error only after a shutdown, or if the server had nothing more to
say after the welcome, and if the writer had met no error; else it is told with an error that ended the
connection. -/
def ToldOnce (past : List Connection) (c : Connection) : Prop :=
  ∃ before time error,
    c.events = before ++ [(time, some (.disconnected error)), (time, none)] ∧
    Untold before ∧ IsReason (past ++ [c]) error ∧
    ∃ earlier d since, past ++ [c] = earlier ++ d :: since ∧ d.events = before ∧
      ∀ moment ∈ d :: since, moment.Over

theorem Accounted.toldOnce (h : Accounted (past ++ [c]) c) (hstopped : c.reader = .stopped) :
    ToldOnce past c := by
  have hstage : Stage (past ++ [c]) c .stopped := hstopped ▸ h.stage
  obtain ⟨before, time, error, htold, hreason, huntold, -, hemptied⟩ := hstage
  obtain ⟨earlier, d, since, hmoments, hevents, hempty⟩ := hemptied
  refine ⟨before, time, error, htold, huntold, hreason, earlier, d, since, hmoments, hevents, ?_⟩
  exact fun moment hmem => ⟨(hempty moment hmem).1, send_of_stopping (hempty moment hmem).2⟩

/-- Nothing changes after the end. -/
theorem Accounted.over_later (h : Accounted moments c) (hstopped : c.reader = .stopped)
    (hlater : Interleaving c past d) : d.events = c.events ∧ d.Over := by
  have hstopping : c.stopping = true := h.halted (hstopped ▸ rfl)
  have hstage : Stage moments c .stopped := hstopped ▸ h.stage
  obtain ⟨before, time, error, -, -, -, hbare, -⟩ := hstage
  have hrests := hlater.rests hstopped
  exact ⟨hrests.events, hrests.session.store.bare hbare, send_of_stopping (hrests.stopping hstopping)⟩

/-- However everybody goes on side by side, a connection whose reader is gone has told the end of its
session once, and is over. So it is with every connection that is opened and used until its reader is
gone, whatever is done with it then. -/
theorem end_told_once (config : ClientConfig) (clock : Clock) (handshake : Except String Unit) :
    (∀ codec past c, Interleaving (opened config clock handshake codec) past c →
      c.reader = .stopped →
        ToldOnce past c ∧ ∀ since d, Interleaving c since d → d.events = c.events ∧ d.Over) ∧
    ∀ c uses, openWith config clock handshake = .ok c → (c.used uses).reader = .stopped →
      (∃ codec past, Interleaving (opened config clock handshake codec) past (c.used uses) ∧
        ToldOnce past (c.used uses)) ∧
      ∀ later, ((c.used uses).used later).events = (c.used uses).events ∧
        ((c.used uses).used later).Over := by
  refine ⟨fun codec past c hrun hstopped => ?_, fun c uses hopen hstopped => ?_⟩
  · have haccounted := Accounted.of_interleaving hrun
    exact ⟨haccounted.toldOnce hstopped, fun since d => haccounted.over_later hstopped⟩
  · obtain ⟨codec, past, hrun⟩ := exists_interleaving_opened hopen uses
    have haccounted := Accounted.of_interleaving hrun
    refine ⟨⟨codec, past, hrun, haccounted.toldOnce hstopped⟩, fun later => ?_⟩
    obtain ⟨since, hlater⟩ := exists_interleaving_used (c.used uses) later
    exact haccounted.over_later hstopped hlater

/-- A connection is shut down before the welcome, another one loses its server while the writer has a
line to write, and one is opened, shut down and left to itself. -/
theorem end_told_once_shut_down_or_broken :
    let config := { ClientConfig.standard "irc.example.net" "bot" with capEnabled := false }
    let first := opened config ⟨⟨0, 0⟩, ""⟩ (.error "") .initial
    let read (c : Connection) : Connection := (fun c => c.step turnLength .reader)^[12] c
    let write (c : Connection) : Connection := (fun c => c.step turnLength .writer)^[6] c
    let shut := read (read first).shutdown
    let broken := read (write ((read first).hangUp.enqueue "PRIVMSG #c :a"))
    let left := first.settle.used [.shutdown]
    shut.events = [(0, some (.disconnected none)), (0, none)] ∧
      (∃ past, Interleaving first past shut ∧ EndedInOrder (past ++ [shut])) ∧
      broken.events =
        [(0, some (.disconnected (some "io error: broken pipe"))), (0, none)] ∧
      (∃ past, Interleaving first past broken ∧
        Failed (past ++ [broken]) "io error: broken pipe") ∧
      openWith config ⟨⟨0, 0⟩, ""⟩ (.error "") = .ok first.settle ∧
      left.events = [(0, some (.disconnected none)), (0, none)] ∧ ∀ later, (left.used later).Over := by
  intro config first read write shut broken left
  have hreads (c : Connection) : Relation.ReflTransGen Race c (read c) :=
    (leads_steps c turnLength .reader 12).races
  have hwrites (c : Connection) : Relation.ReflTransGen Race c (write c) :=
    (leads_steps c turnLength .writer 6).races
  have hshut : shut.events = [(0, some (.disconnected none)), (0, none)] := by decide +kernel
  have hbroken : broken.events =
      [(0, some (.disconnected (some "io error: broken pipe"))), (0, none)] := by decide +kernel
  -- The last event but one tells the error for which there is a reason.
  have hlast {before : List (Nat × Option Event)} {time : Nat} {told error : Option String}
      (h : [(0, some (.disconnected told)), (0, none)] =
        before ++ [(time, some (.disconnected error)), (time, none)]) : error = told := by
    have hends := List.append_inj_right' (show [] ++ _ = _ from h) rfl
    cases hends
    rfl
  have hopen : openWith config ⟨⟨0, 0⟩, ""⟩ (.error "") = .ok first.settle :=
    openWith_of_ofLabel (by decide +kernel)
  obtain ⟨hleft, hevents⟩ :
      left.reader = .stopped ∧ left.events = [(0, some (.disconnected none)), (0, none)] :=
    settle_used_spec (n := 30)
      (P := fun c => c.reader = .stopped ∧ c.events = [(0, some (.disconnected none)), (0, none)])
      (by decide +kernel)
  obtain ⟨-, hover⟩ := (end_told_once config _ _).2 _ [.shutdown] hopen hleft
  refine ⟨hshut, ?_, hbroken, ?_, hopen, hevents, fun later => (hover later).2⟩
  · obtain ⟨past, hrun⟩ := exists_interleaving <|
      (hreads first).trans <| .head (.move .shutdown) (hreads _)
    obtain ⟨⟨before, time, error, htold, -, hreason, -⟩, -⟩ :=
      (end_told_once config _ _).1 _ past _ hrun (by decide +kernel)
    cases hlast (hshut.symm.trans htold)
    exact ⟨past, hrun, hreason⟩
  · obtain ⟨past, hrun⟩ := exists_interleaving <|
      (hreads first).trans <| .head (.move .hangUp) <| .head (.enqueue (by decide +kernel) "PRIVMSG #c :a") <|
        (hwrites _).trans (hreads _)
    obtain ⟨⟨before, time, error, htold, -, hreason, -⟩, -⟩ :=
      (end_told_once config _ _).1 _ past _ hrun (by decide +kernel)
    cases hlast (hbroken.symm.trans htold)
    exact ⟨past, hrun, hreason⟩

end Connection

end IrcClient
