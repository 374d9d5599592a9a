import IrcClient.Proofs.Connection.Race
import IrcClient.Proofs.Session.Modes

/-!
# Answers to those who ask for a mode

Whoever asks for the mode of a channel may have to wait. Meanwhile the session goes on, and the channel
publishes its mode, withdraws it or is forgotten. If the answer is a mode in the end, the channel has
had it at some moment since the question, and all that it had heard by then vouched for it.
-/

namespace IrcClient

namespace ModeWaiter

@[simp] theorem channel_refresh (store : Store) (waiter : ModeWaiter) :
    (waiter.refresh store).channel = waiter.channel := by
  unfold refresh
  split <;> rfl

theorem seen_of_answer? {waiter : ModeWaiter} {mode : String}
    (h : waiter.answer? = some (some mode)) : waiter.seen = some mode := by
  unfold answer? at h
  split at h
  · rename_i seen hseen
    cases h
    exact hseen
  · split at h <;> cases h

end ModeWaiter

namespace Connection

variable {config : ClientConfig} {c d : Connection}

/-! ## What moves do to those who wait -/

/-- What those who wait for a mode go by, they themselves, and what was answered. -/
def attendance (c : Connection) :
    Session × List ModeCall × List (Nat × String × Except ClientError String) :=
  (c.session, c.calls, c.modes)

theorem attendance_write {entry : WireEntry} (h : c.write entry = .ok d) :
    d.attendance = c.attendance := by
  unfold write at h
  split at h
  · cases h
  · split at h
    · cases h
    · cases h
      rfl

theorem attendance_startTls (h : c.startTls = .ok d) : d.attendance = c.attendance := by
  unfold startTls at h
  split at h
  · cases h
  · split at h
    · cases h
    · split at h
      · cases h
      · cases h
        rfl

theorem attendance_startSilence (c : Connection) : c.startSilence.attendance = c.attendance := by
  unfold startSilence
  split <;> rfl

theorem attendance_proceed {actions : List Action} {result : Except ClientError Connection}
    (h : ∀ d, result = .ok d → d.attendance = c.attendance) :
    (c.proceed actions result).attendance = c.attendance := by
  cases result with
  | ok d => exact h d rfl
  | error error => rfl

theorem attendance_upgrade (c : Connection) (actions : List Action) :
    (c.upgrade actions).attendance = c.attendance := by
  unfold upgrade
  split
  · rename_i d hstarted
    have hkept := attendance_startTls hstarted
    exact hkept
  · rfl

theorem attendance_foldl_enqueue (c : Connection) (lines : List String) :
    (lines.foldl enqueue c).attendance = c.attendance := by
  induction lines generalizing c with
  | nil => rfl
  | cons line lines ih => exact ih (c.enqueue line)

theorem attendance_send {command : Command} (h : c.send command = .ok d) :
    d.attendance = c.attendance := by
  unfold send at h
  split at h
  · cases h
  · cases h
    exact c.attendance_foldl_enqueue _

theorem attendance_receive {bytes : List UInt8} (h : c.receive bytes = .ok d) :
    d.attendance = c.attendance := by
  rw [eq_of_receive h]
  rfl

theorem attendance_writerStep (c : Connection) (left : Nat) :
    (c.writerStep left).connection.attendance = c.attendance := by
  unfold writerStep
  split
  · split
    · rfl
    · split <;> rfl
  · unfold withLock
    split
    · rfl
    · split <;> rfl
  · split
    · rfl
    · split
      · rename_i d hwrite
        have hwritten := attendance_write hwrite
        exact hwritten
      · rfl
  · split
    · rfl
    · split
      · rfl
      · split <;> rfl
  · rfl
  · rfl
  · rfl
  · rfl

/-- What moves do to those who wait: nothing, or the session goes on and they learn of it, or they
look, or somebody else asks, or tables are listed anew. -/
inductive Attends (c : Connection) : Connection → Prop where
  | spared {d : Connection} (h : d.attendance = c.attendance) : Attends c d
  | heard {d : Connection} (input : Session.Input)
      (h : d.attendance = (c.withSession (c.session.receive input)).attendance) : Attends c d
  | looked : Attends c c.look
  | asked (name : String) : Attends c (c.askMode name)
  | relisted {session : Session} (h : c.session.Relisted session) :
      Attends c { c with session := session }

theorem attends_withLock {worker : Worker} {left : Nat} {go : Connection → Connection}
    (h : ∀ lock, c.Attends (go { c with lock := lock })) :
    c.Attends (c.withLock worker left go).connection := by
  unfold withLock
  split
  · exact .spared rfl
  · split
    · exact h _
    · exact .spared rfl

theorem attends_readStep (c : Connection) (left : Nat) : c.Attends (c.readStep left).connection := by
  unfold readStep
  split
  · rename_i line _ source _
    exact .heard (.line c.clock line) rfl
  · rename_i source _
    split
    · exact .spared (attendance_startSilence { c with source := source })
    · exact .spared (attendance_startSilence { c with source := source })
    · split
      · rename_i line source _
        exact .heard (.line c.clock line) rfl
      · exact .spared rfl

theorem attends_performStep (c : Connection) (left : Nat) (action : Action) (actions : List Action) :
    c.Attends (c.performStep left action actions).connection := by
  unfold performStep
  split
  · refine .spared (attendance_proceed fun d hd => ?_)
    split at hd
    · cases hd
    · cases hd
      rfl
  · exact attends_withLock fun lock => .spared rfl
  · exact attends_withLock fun lock => .spared (attendance_upgrade { c with lock := lock } _)
  · exact .spared rfl
  · exact .spared rfl

theorem attends_readerStep (c : Connection) (left : Nat) :
    c.Attends (c.readerStep left).connection := by
  unfold readerStep
  split
  · split
    · exact .spared rfl
    · split
      · exact .spared rfl
      · exact c.attends_readStep left
  · exact .spared rfl
  · exact c.attends_performStep left _ _
  · split
    · exact .spared rfl
    · exact .spared (attendance_proceed (c := c) fun d hd => attendance_write hd)
  · exact .spared rfl
  · exact .spared rfl
  · exact attends_withLock fun lock => .spared rfl
  · rename_i error _
    exact .heard (.disconnect error) rfl
  · exact .spared rfl
  · exact .spared rfl

theorem Move.attends (h : Move c d) : c.Attends d := by
  cases h with
  | step left worker =>
    cases worker with
    | reader => exact c.attends_readerStep left
    | writer => exact .spared (c.attendance_writerStep left)
  | look => exact .looked
  | checkSilence =>
    refine .spared ?_
    unfold Connection.checkSilence
    split
    · split <;> rfl
    · rfl
  | send h => exact .spared (attendance_send h)
  | writeNow h => exact .spared (attendance_write h)
  | askMode name => exact .asked name
  | receive h => exact .spared (attendance_receive h)
  | pass | tick | shutdown | hangUp => exact .spared rfl
  | relist h => exact .relisted h

theorem Race.attends (h : Race c d) : c.Attends d := by
  cases h with
  | move h => exact h.attends
  | readOn _ left => exact c.attends_readStep left
  | takeOn => exact .spared rfl
  | enqueue => exact .spared rfl

theorem mem_calls_withSession {session : Session} {call : ModeCall} :
    call ∈ (c.withSession session).calls ↔ call ∈ c.calls.map (ModeCall.refresh session.store) := by
  simp only [withSession, List.partition_eq_filter_filter, List.mem_append, List.mem_filter,
    Function.comp_apply, Bool.not_eq_true']
  cases call.woken <;> simp

/-! ## Questions and answers -/

section Questions

variable {moments since : List Connection} {id : ChannelId} {name mode : String} {call : ModeCall}

/-- Somebody asked for the mode of what a name stood for at that moment, and these are the moments of a
run since then. -/
def Asked (moments : List Connection) (name : String) (id : ChannelId) (since : List Connection) :
    Prop :=
  ∃ earlier c later, moments = earlier ++ since ∧ since = c :: c.askMode name :: later ∧
    c.session.store.channelId? name = some id

/-- The mode of a channel could be relied on at one of some moments. -/
def Had (config : ClientConfig) (since : List Connection) (id : ChannelId) (mode : String) : Prop :=
  ∃ c ∈ since, Session.Attests config c.session id mode

/-- Somebody who asked waits, and has seen no other modes than the channel had since. -/
def Waits (config : ClientConfig) (moments : List Connection) (call : ModeCall) : Prop :=
  ∃ since, Asked moments call.asked call.waiter.channel since ∧
    ∀ mode, call.waiter.seen = some mode → Had config since call.waiter.channel mode

/-- A mode is right for the name that was asked for: what the name stood for when somebody asked has
had the mode at that moment or since. -/
def Answers (config : ClientConfig) (moments : List Connection) (name mode : String) : Prop :=
  ∃ id since, Asked moments name id since ∧ Had config since id mode

theorem Asked.later (h : Asked moments name id since) (d : Connection) :
    Asked (moments ++ [d]) name id (since ++ [d]) := by
  obtain ⟨earlier, c, later, rfl, rfl, hid⟩ := h
  exact ⟨earlier, c, later ++ [d], by simp, by simp, hid⟩

theorem Had.later (h : Had config since id mode) (d : Connection) :
    Had config (since ++ [d]) id mode := by
  obtain ⟨c, hc, hattests⟩ := h
  exact ⟨c, List.mem_append_left _ hc, hattests⟩

theorem Waits.later (h : Waits config moments call) (d : Connection) :
    Waits config (moments ++ [d]) call := by
  obtain ⟨since, hasked, hseen⟩ := h
  exact ⟨since ++ [d], hasked.later d, fun mode hmode => (hseen mode hmode).later d⟩

/-- Who waits looks at a channel that is known, or keeps what the channel published last. -/
theorem Waits.refresh (h : Waits config moments call) (hd : Session.Reachable config d.session) :
    Waits config (moments ++ [d]) (call.refresh d.session.store) := by
  obtain ⟨since, hasked, hseen⟩ := h
  refine ⟨since ++ [d], ?_, ?_⟩
  · simpa [ModeCall.refresh] using hasked.later d
  · intro mode hmode
    simp only [ModeCall.refresh, ModeWaiter.channel_refresh] at hmode ⊢
    unfold ModeWaiter.refresh at hmode
    split at hmode
    · rename_i channel hchannel
      exact ⟨d, List.mem_append_right _ (List.mem_singleton_self d),
        Session.attests_of_published hd hchannel hmode⟩
    · exact (hseen mode hmode).later d

theorem Waits.answers (h : Waits config moments call)
    (hanswer : call.waiter.answer? = some (some mode)) : Answers config moments call.asked mode := by
  obtain ⟨since, hasked, hseen⟩ := h
  exact ⟨_, since, hasked, hseen mode (ModeWaiter.seen_of_answer? hanswer)⟩

theorem Answers.later (h : Answers config moments name mode) (d : Connection) :
    Answers config (moments ++ [d]) name mode := by
  obtain ⟨id, since, hasked, hhad⟩ := h
  exact ⟨id, since ++ [d], hasked.later d, hhad.later d⟩

theorem asked_askMode (past : List Connection) (hid : c.session.store.channelId? name = some id) :
    Asked (past ++ [c] ++ [c.askMode name]) name id [c, c.askMode name] :=
  ⟨past, c, [], List.append_assoc .., rfl, hid⟩

/-- To ask for a mode that is not known is to wait for it. -/
theorem waits_askMode (past : List Connection) (hc : Session.Reachable config c.session)
    {waiter : ModeWaiter} (hstale : c.session.store.modeQuery name = some (.stale waiter))
    (woken : Bool) : Waits config (past ++ [c] ++ [c.askMode name]) ⟨name, waiter, woken⟩ := by
  obtain ⟨channel, hfound, hanswer⟩ := Option.map_eq_some_iff.mp hstale
  obtain ⟨id, hid, hchannel⟩ := Option.bind_eq_some_iff.mp hfound
  obtain ⟨rfl, -⟩ := hc.sound.coherent.toGrounded.channel_id hchannel
  split at hanswer
  · cases hanswer
    refine ⟨_, asked_askMode past hid, fun mode hseen => ⟨c, List.mem_cons_self, ?_⟩⟩
    exact Session.attests_of_published hc hchannel hseen
  · cases hanswer

end Questions

/-! ## Runs -/

/-- Whoever waits has asked, and whoever was answered with a mode got a right one. -/
structure Watched (config : ClientConfig) (moments : List Connection) (c : Connection) : Prop where
  session : Session.Reachable config c.session
  calls : ∀ call ∈ c.calls, Waits config moments call
  modes : ∀ time name mode, (time, name, .ok mode) ∈ c.modes → Answers config moments name mode

namespace Watched

variable {moments past : List Connection}

theorem later (h : Watched config moments c) (d : Connection) : Watched config (moments ++ [d]) c where
  session := h.session
  calls call hmem := (h.calls call hmem).later d
  modes time name mode hmem := (h.modes time name mode hmem).later d

theorem of_attendance (h : Watched config moments c) (heq : d.attendance = c.attendance) :
    Watched config moments d := by
  obtain ⟨hsession, hcalls, hmodes⟩ := by simpa only [attendance, Prod.mk.injEq] using heq
  refine ⟨?_, ?_, ?_⟩
  · rw [hsession]
    exact h.session
  · rw [hcalls]
    exact h.calls
  · rw [hmodes]
    exact h.modes

theorem answer (h : Watched config moments c) {name : String} {result : Except ClientError String}
    (hresult : ∀ mode, result = .ok mode → Answers config moments name mode) :
    Watched config moments (c.answer name result) where
  session := h.session
  calls := h.calls
  modes time other mode hmem := by
    rcases List.mem_append.mp hmem with hbefore | hnew
    · exact h.modes time other mode hbefore
    · cases List.mem_singleton.mp hnew
      exact hresult mode rfl

theorem with_call (h : Watched config moments c) {call : ModeCall}
    (hcall : Waits config moments call) :
    Watched config moments { c with calls := c.calls ++ [call] } where
  session := h.session
  calls := List.forall_mem_append.mpr ⟨h.calls, List.forall_mem_singleton.mpr hcall⟩
  modes := h.modes

theorem answerCalls {calls : List ModeCall} (h : Watched config moments c)
    (hcalls : ∀ call ∈ calls, Waits config moments call) :
    Watched config moments (c.answerCalls calls) := by
  induction calls generalizing c with
  | nil => exact h
  | cons call calls ih =>
    obtain ⟨hcall, hcalls⟩ := List.forall_mem_cons.mp hcalls
    unfold Connection.answerCalls
    split
    · exact ih (h.with_call hcall) hcalls
    · rename_i mode hanswer
      refine ih (h.answer fun seen hseen => ?_) hcalls
      cases hseen
      exact hcall.answers hanswer
    · exact ih (h.answer fun _ => nofun) hcalls

theorem look (h : Watched config moments c) : Watched config moments c.look :=
  answerCalls (c := { c with calls := [] }) ⟨h.session, nofun, h.modes⟩ h.calls

theorem hear (h : Watched config moments c) {input : Session.Input}
    (heq : d.attendance = (c.withSession (c.session.receive input)).attendance) :
    Watched config (moments ++ [d]) d := by
  obtain ⟨hsession, hcalls, hmodes⟩ := by simpa only [attendance, Prod.mk.injEq] using heq
  replace hsession : d.session = c.session.receive input := hsession
  have hd : Session.Reachable config d.session := by
    rw [hsession]
    exact h.session.receive input trivial
  refine ⟨hd, ?_, ?_⟩
  · intro call hmem
    rw [hcalls, mem_calls_withSession, ← hsession] at hmem
    obtain ⟨before, hbefore, rfl⟩ := List.mem_map.mp hmem
    exact (h.calls before hbefore).refresh hd
  · intro time name mode hmem
    rw [hmodes] at hmem
    exact (h.modes time name mode hmem).later d

theorem askMode (h : Watched config (past ++ [c]) c) (name : String) :
    Watched config (past ++ [c] ++ [c.askMode name]) (c.askMode name) := by
  have hlater := h.later (c.askMode name)
  have hanswers {mode : String} (hknown : c.session.store.modeQuery name = some (.known mode)) :
      Answers config (past ++ [c] ++ [c.askMode name]) name mode := by
    obtain ⟨id, hid, hattests⟩ := (Session.modeQuery_eq_known_iff h.session).mp hknown
    exact ⟨id, _, asked_askMode past hid, c, List.mem_cons_self, hattests⟩
  have hwaits {waiter : ModeWaiter}
      (hstale : c.session.store.modeQuery name = some (.stale waiter)) :
      Waits config (past ++ [c] ++ [c.askMode name]) ⟨name, waiter, false⟩ :=
    waits_askMode past h.session hstale false
  generalize past ++ [c] ++ [c.askMode name] = moments at hlater hanswers hwaits ⊢
  unfold Connection.askMode
  split
  · exact hlater.answer fun _ => nofun
  · rename_i mode hknown
    refine hlater.answer fun answered hanswered => ?_
    cases hanswered
    exact hanswers hknown
  · rename_i waiter hstale
    split
    · rename_i d hsent
      exact (hlater.of_attendance (attendance_send hsent)).with_call (hwaits hstale)
    · exact hlater.answer fun _ => nofun

theorem relist (h : Watched config moments c) {session : Session} (hlisted : c.session.Relisted session) :
    Watched config moments { c with session := session } where
  session := by
    rw [hlisted.others]
    exact h.session.relist hlisted.store
  calls := h.calls
  modes := h.modes

theorem race (h : Watched config (past ++ [c]) c) (hrace : Race c d) :
    Watched config (past ++ [c] ++ [d]) d := by
  cases hrace.attends with
  | spared heq => exact (h.later d).of_attendance heq
  | heard input heq => exact h.hear heq
  | looked => exact (h.later c.look).look
  | asked name => exact h.askMode name
  | relisted hlisted => exact (h.later _).relist hlisted

theorem of_interleaving {clock : Clock} {handshake : Except String Unit} {codec : LineCodec}
    (h : Interleaving (opened config clock handshake codec) past c) :
    Watched config (past ++ [c]) c := by
  induction h with
  | start => exact ⟨.refl, nofun, nofun⟩
  | race _ hrace ih => exact ih.race hrace

end Watched

/-- A mode text can be relied on unless it is stale. A channel publishes it exactly then, it is what
the server told last with the changes since, and it was told anew if it was stale before. Only such a
text is known to those who ask, and who has to wait gets only such a text that there was since the
question, however everybody goes on side by side. So it is with every connection that is opened and
used. -/
theorem modes_vouched (config : ClientConfig) :
    (∀ id s past channel, Session.Heard config id s past →
      s.store.channels.get? id = some channel →
        channel.published = (if channel.stale then none else some channel.mode) ∧
        (channel.stale = false ↔ ∃ told changes, Vouches past told changes) ∧
        (∀ told changes, Vouches past told changes → channel.mode = changes.foldl mergeMode told) ∧
        ∀ input after, (s.receive input).store.channels.get? id = some after →
          channel.stale = true → after.stale = false →
          s.newsOf input id = some (.told after.mode)) ∧
    (∀ s name mode, Session.Reachable config s →
      (s.store.modeQuery name = some (.known mode) ↔
        ∃ id, s.store.channelId? name = some id ∧ Session.Attests config s id mode)) ∧
    (∀ clock handshake codec past c, Interleaving (opened config clock handshake codec) past c →
      ∀ time name mode, (time, name, .ok mode) ∈ c.modes → Answers config (past ++ [c]) name mode) ∧
    ∀ clock handshake c uses, openWith config clock handshake = .ok c →
      ∃ codec past, Interleaving (opened config clock handshake codec) past (c.used uses) ∧
        ∀ time name mode, (time, name, .ok mode) ∈ (c.used uses).modes →
          Answers config (past ++ [c.used uses]) name mode := by
  refine ⟨fun id s past channel h hchannel => ⟨?_, ?_, ?_, ?_⟩, ?_, ?_, ?_⟩
  · exact h.publishes hchannel
  · exact h.fresh_iff hchannel
  · exact fun told changes hvouches => (h.follows hchannel hvouches).mode
  · exact fun input after hafter hstale hfresh => h.told_of_fresh hchannel hstale hafter hfresh
  · exact fun s name mode hs => Session.modeQuery_eq_known_iff hs
  · exact fun clock handshake codec past c h => (Watched.of_interleaving h).modes
  · intro clock handshake c uses hopen
    obtain ⟨codec, past, hrun⟩ := exists_interleaving_opened hopen uses
    exact ⟨codec, past, hrun, (Watched.of_interleaving hrun).modes⟩

/-- A mode is told and changes, and somebody asks for a mode before it is told. The same is done with a
connection that was opened. -/
theorem modes_vouched_asked :
    let clock : Clock := ⟨⟨0, 0⟩, ""⟩
    let config := { ClientConfig.standard "irc.example.net" "bot" with capEnabled := false }
    let joining := [":irc 001 bot :Welcome", ":bot!b@h JOIN #c"].map (Session.Input.line clock)
    let telling := Session.Input.line clock ":irc 324 bot #c +nt"
    let inputs := joining ++ [telling, .line clock ":op!o@h MODE #c +m"]
    let joined := (Session.opened config).run joining
    let s := (Session.opened config).run inputs
    let say (text : String) (c : Connection) : Connection :=
      { c with source := c.source.receive text.toUTF8.toList }
    let read (c : Connection) : Connection := (fun c => c.step turnLength .reader)^[20] c
    let c := read (say ":irc 001 bot :Welcome\r\n:bot!b@h JOIN #c\r\n"
      (opened config clock (.error "") .initial))
    let d := (read (say ":irc 324 bot #c +nt\r\n" (c.askMode "#c"))).look
    let e := (opened config clock (.error "") .initial).settle
    let uses : List Use := [.receive ":irc 001 bot :Welcome\r\n:bot!b@h JOIN #c\r\n".toUTF8.toList, .askMode "#c",
      .receive ":irc 324 bot #c +nt\r\n".toUTF8.toList]
    (∃ channel, s.store.channels.get? ⟨2⟩ = some channel ∧ channel.stale = false ∧
      channel.published = some "+ntm") ∧
    joined.newsOf telling ⟨2⟩ = some (.told "+nt") ∧
    s.store.modeQuery "#c" = some (.known "+ntm") ∧ Session.Attests config s ⟨2⟩ "+ntm" ∧
    (0, "#c", .ok "+nt") ∈ d.modes ∧
    (∃ past, Interleaving (opened config clock (.error "") .initial) past d ∧
      Answers config (past ++ [d]) "#c" "+nt") ∧
    openWith config clock (.error "") = .ok e ∧
    (0, "#c", .ok "+nt") ∈ (e.used uses).modes ∧
    ∃ codec past, Interleaving (opened config clock (.error "") codec) past (e.used uses) ∧
      Answers config (past ++ [e.used uses]) "#c" "+nt" := by
  intro clock config joining telling inputs joined s say read c d e uses
  obtain ⟨htext, hknown, hanswered, hused⟩ := modes_vouched config
  have hopen : openWith config clock (.error "") = .ok e := openWith_of_ofLabel (by decide +kernel)
  have hmode : (0, "#c", .ok "+nt") ∈ (e.used uses).modes :=
    settle_used_spec (n := 30) (P := fun c => (0, "#c", .ok "+nt") ∈ c.modes) (by decide +kernel)
  refine ⟨?_, ?_, ?_, ?_, ?_, ?_, hopen, hmode, ?_⟩
  · have hvouches :
        Vouches (Session.pastAfterAll ⟨2⟩ (Session.opened config) [] inputs) "+nt" ["+m"] :=
      ⟨⟨[], by decide +kernel⟩, by decide, trivial⟩
    obtain ⟨channel, hchannel⟩ : ∃ channel, s.store.channels.get? ⟨2⟩ = some channel :=
      (Table.contains_iff _ _).mp (by decide +kernel)
    obtain ⟨hpublished, hfresh, hmode, -⟩ :=
      htext ⟨2⟩ s _ channel (Session.Heard.opened.run inputs) hchannel
    have hfresh := hfresh.mpr ⟨_, _, hvouches⟩
    refine ⟨channel, hchannel, hfresh, ?_⟩
    rw [hpublished, hfresh, hmode _ _ hvouches]
    decide
  · obtain ⟨channel, hchannel, hstale⟩ := Option.map_eq_some_iff.mp
      (show (joined.store.channels.get? ⟨2⟩).map (·.stale) = some true by decide +kernel)
    obtain ⟨after, hafter, hfresh⟩ := Option.map_eq_some_iff.mp
      (show ((joined.receive telling).store.channels.get? ⟨2⟩).map (fun c => (c.stale, c.mode)) =
        some (false, "+nt") by decide +kernel)
    obtain ⟨hfresh, hmode⟩ := Prod.mk.inj hfresh
    rw [← hmode]
    exact (htext ⟨2⟩ joined _ channel (Session.Heard.opened.run joining) hchannel).2.2.2 telling after
      hafter hstale hfresh
  · decide +kernel
  · obtain ⟨id, hid, hattests⟩ := (hknown s "#c" "+ntm" (Session.reachable_run config inputs)).mp
      (by decide +kernel)
    cases (show s.store.channelId? "#c" = some ⟨2⟩ by decide +kernel).symm.trans hid
    exact hattests
  · decide +kernel
  · have hleads : Leads (opened config clock (.error "") .initial) d :=
      .head (move_receive (by decide +kernel)) <| (leads_steps _ turnLength .reader 20).trans <|
        .head (.askMode "#c") <| .head (move_receive (by decide +kernel)) <|
          (leads_steps _ turnLength .reader 20).tail .look
    obtain ⟨past, hrun⟩ := exists_interleaving hleads.races
    exact ⟨past, hrun, hanswered clock _ _ past d hrun 0 "#c" "+nt" (by decide +kernel)⟩
  · obtain ⟨codec, past, hrun, hmodes⟩ := hused clock _ e uses hopen
    exact ⟨codec, past, hrun, hmodes 0 "#c" "+nt" hmode⟩

/-- A change that nobody makes, and a change of what is no channel name, are passed over, and the text
stays fresh without them. -/
theorem changes_passed_over :
    let clock : Clock := ⟨⟨0, 0⟩, ""⟩
    let config := { ClientConfig.standard "irc.example.net" "bot" with capEnabled := false }
    let s := (Session.opened config).run ([":irc 001 bot :Welcome", ":bot!b@h JOIN #c",
      ":bot!b@h JOIN !c", ":irc 324 bot #c +nt", ":irc 324 bot !c +nt", "MODE #c +m",
      ":op!o@h MODE !c +m"].map (.line clock))
    (s.store.channel? "#c").map (fun c => (c.stale, c.mode)) = some (false, "+nt") ∧
      (s.store.channel? "!c").map (fun c => (c.stale, c.mode)) = some (false, "+nt") ∧
      mergeMode "+nt" "+m" = "+ntm" := by
  decide +kernel

end Connection

end IrcClient
