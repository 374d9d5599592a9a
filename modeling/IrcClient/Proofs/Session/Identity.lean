import IrcClient.Proofs.Session.Course

/-!
# The session knows itself

The client's own identity is kept twice: as a nick, and as the user that is the client. They stay
together as long as nobody else is given the nick. The server can do so in two ways: it lets another
tracked user take the nick, upon which the client's own user is forgotten as out of date; or it
changes the case mapping so that the nick means another user, or not the client any more.
-/

namespace IrcClient.Session

variable {s t : Session} {line : Line} {raw : String}

/-- Whether the session's nick leads to the user that is the client. -/
def Identified (s : Session) : Prop :=
  ∃ me, s.store.selfId = some me ∧ s.store.userId? s.nick = some me

/-- Whether a line gives the session's nick to a tracked user that is not the client. -/
def usurpedBy (s : Session) (raw : String) : Bool :=
  match Line.parse raw with
  | .ok line =>
    line.verb == .nick &&
      match line.sourceNick.bind s.store.userId?, line.param 0 with
      | some id, some nick => !s.store.isSelf id && s.store.directory.caseMapping.same nick s.nick
      | _, _ => false
  | .error _ => false

/-- Whether of all tracked users exactly the client has a nick that is the session's. -/
def Unmistaken (s : Session) : Prop :=
  ∀ user ∈ s.store.users.values,
    s.store.directory.caseMapping.same user.nick s.nick = s.store.isSelf user.id

instance (s : Session) : Decidable s.Unmistaken := inferInstanceAs (Decidable (∀ _ ∈ _, _))

/-- Whether an input leaves no doubt who the client is: the session goes on, and once it is welcomed,
its nick is not given to anybody else and means the client alone after a change of the case mapping. -/
def StaysClear (s : Session) (input : Input) (t : Session) : Prop :=
  match input with
  | .line _ raw => (s.isRegistered = true → s.usurpedBy raw = false) ∧
      (t.isRegistered = true →
        t.store.directory.caseMapping = s.store.directory.caseMapping ∨ t.Unmistaken)
  | .disconnect _ => False

instance (s : Session) (input : Input) (t : Session) : Decidable (s.StaysClear input t) :=
  match input with
  | .line _ _ => inferInstanceAs (Decidable (_ ∧ _))
  | .disconnect _ => inferInstanceAs (Decidable False)

/-- Another user that takes a nick takes none that is the session's. -/
theorem same_of_not_usurped (hparse : Line.parse raw = .ok line) {source : Hostmask}
    {nick : String} {id : UserId} (hverb : line.verb = .nick) (hsource : line.source = some source)
    (hparam : line.param 0 = some nick) (hid : s.store.userId? source.nick = some id)
    (husurped : s.usurpedBy raw = false) (hother : s.store.isSelf id = false) :
    s.store.directory.caseMapping.same nick s.nick = false := by
  simpa only [usurpedBy, hparse, hverb, Line.sourceNick, hsource, Option.map_some,
    Option.bind_some, hid, hparam, beq_self_eq_true, Bool.true_and, hother, Bool.not_false]
    using husurped

theorem Identified.selfUser? (h : s.Identified) (hgrounded : s.store.Grounded) :
    ∃ user, s.store.selfUser? = some user ∧
      s.store.directory.caseMapping.same user.nick s.nick = true := by
  obtain ⟨me, hself, hfound⟩ := h
  obtain ⟨user, huser, hnick⟩ := hgrounded.nick_known hfound
  refine ⟨user, ?_, (CaseMapping.same_iff _).mpr hnick⟩
  rw [Store.selfUser?, hself]
  exact huser

theorem Identified.of_grows (h : s.Identified) (hgrows : s.store.Grows t.store)
    (hnick : t.nick = s.nick) : t.Identified := by
  obtain ⟨me, hself, hfound⟩ := h
  exact ⟨me, by rw [hgrows.self, hself], by rw [hnick]; exact hgrows.userId? hfound⟩

/-- When users take nicks, the client keeps its own or takes the new one in both places. -/
theorem Identified.of_renames (h : s.Identified) (hgrounded : s.store.Grounded)
    {source : Hostmask} {nick : String} {id : UserId} (hid : s.store.userId? source.nick = some id)
    (hrenames : s.store.Renames t.store id nick)
    (hnick : t.nick =
      if s.store.directory.caseMapping.same source.nick s.nick then nick else s.nick)
    (hclear : s.store.isSelf id = false →
      s.store.directory.caseMapping.same nick s.nick = false) : t.Identified := by
  obtain ⟨me, hself, hfound⟩ := h
  by_cases hown : s.store.directory.caseMapping.same source.nick s.nick = true
  · have hme : id = me := by
      rw [Store.userId?_eq_of_same hown, hfound] at hid
      exact (Option.some.inj hid).symm
    rw [if_pos hown] at hnick
    refine ⟨me, hrenames.self.mpr ⟨hself, Or.inl hme.symm⟩, ?_⟩
    rw [hnick, Store.userId?, Directory.userId?, hrenames.key, ← hme]
    exact hrenames.taken
  · have hother : me ≠ id := by
      rintro rfl
      exact hown (hgrounded.same_of_userId? hid hfound)
    have hfree : s.store.directory.caseMapping.same nick s.nick = false := by
      apply hclear
      simp [Store.isSelf, hself, hother]
    rw [if_neg hown] at hnick
    refine ⟨me, hrenames.self.mpr ⟨hself, Or.inr ?_⟩, ?_⟩
    · intro hheld
      rw [hgrounded.same_of_userId? hheld hfound] at hfree
      cases hfree
    · rw [hnick, Store.userId?, Directory.userId?, hrenames.key, hrenames.nicks]
      · exact ⟨hfound, hother⟩
      · intro heq
        rw [(CaseMapping.same_iff _).mpr heq] at hfree
        cases hfree

theorem Identified.nick_of_overheard (h : s.Identified) {source : Hostmask} {nick : String}
    (hid : s.store.userId? source.nick = none) (hnick : t.nick =
      if s.store.directory.caseMapping.same source.nick s.nick then nick else s.nick) :
    t.nick = s.nick := by
  obtain ⟨me, -, hfound⟩ := h
  rw [hnick, if_neg]
  intro hown
  rw [Store.userId?_eq_of_same hown, hfound] at hid
  cases hid

/-- A changed mapping under which nobody but the client has the session's nick. -/
theorem Identified.of_remapped (h : s.Identified) (hgrounded : s.store.Grounded)
    {mapping : CaseMapping} (hchange : s.store.directory.caseMapping ≠ mapping)
    (hgrows : (s.store.withCaseMapping mapping).Grows t.store) (hnick : t.nick = s.nick)
    (hclear : t.Unmistaken) : t.Identified := by
  obtain ⟨me, hself, hfound⟩ := h
  obtain ⟨user, huser, -⟩ := hgrounded.nick_known hfound
  obtain ⟨directory, heq⟩ := s.store.withCaseMapping_eq mapping
  have hmapping : t.store.directory.caseMapping = mapping :=
    hgrows.caseMapping.trans (s.store.caseMapping_withCaseMapping mapping)
  have hself' : t.store.selfId = some me := by rw [hgrows.self, heq, hself]
  have hmeans {id : UserId} {other : User} (hother : s.store.users.get? id = some other) :
      mapping.normalize other.nick = mapping.normalize s.nick ↔ id = me := by
    have hbefore : (s.store.withCaseMapping mapping).users.get? id = some other := by rw [heq, hother]
    obtain ⟨other', hother', hkept⟩ := hgrows.user_kept hbefore
    have hclear := hclear other' ((Table.mem_values_iff _ _).mpr ⟨id, hother'⟩)
    rw [hmapping, hkept, hnick, (hgrows.grounded.user_id hother').1, Store.isSelf, hself'] at hclear
    rw [← mapping.same_iff, hclear, beq_iff_eq, Option.some.injEq, eq_comm]
  refine ⟨me, hself', ?_⟩
  apply hgrows.userId?
  rw [Store.userId?, Directory.userId?, Directory.key, Store.caseMapping_withCaseMapping, hnick,
    ← (hmeans huser).mpr rfl]
  apply Store.nick_found_withCaseMapping hgrounded hchange huser
  intro other hother hsame
  rw [(hmeans huser).mpr rfl] at hsame
  exact (hmeans (hgrounded.mem_users_iff.mp hother)).mp hsame

theorem Course.identified (h : s.Course line t) (hs : s.store.Coherent) (hidentified : s.Identified)
    (hparse : Line.parse raw = .ok line) (husurped : s.usurpedBy raw = false)
    (hclear : t.store.directory.caseMapping = s.store.directory.caseMapping ∨ t.Unmistaken) :
    t.Identified := by
  have hgrounded := hs.toGrounded
  cases h with
  | learnt hlearns => exact hidentified.of_grows hlearns.grows hlearns.nick
  | @joined source name user _ _ _ _ hnick hgrows =>
    obtain ⟨me, hself, hfound⟩ := hidentified
    rw [← Store.userId?_trackChannel name] at hfound
    refine ⟨me, ?_, by rw [hnick]; exact hgrows.userId? hfound⟩
    rw [hgrows.self, Store.selfId_trackChannel, hself]
  | departed hnick hgrows hloses hspares =>
    obtain ⟨me, hself, hfound⟩ := hidentified
    have hquit := (hspares me hself).1
    have hself' := hgrows.self.trans hself
    refine ⟨me, (hloses.self me).mpr ⟨hself', hquit⟩, ?_⟩
    rw [hnick]
    exact hloses.userId?_iff.mpr
      ⟨hgrows.userId? hfound, Store.not_forgets_self hself' hquit⟩
  | renamed hverb hsource hparam hid hrenames hnick =>
    exact hidentified.of_renames hgrounded hid hrenames hnick
      (same_of_not_usurped hparse hverb hsource hparam hid husurped)
  | overheard _ hid hstore hnick =>
    have hnick := hidentified.nick_of_overheard hid hnick
    obtain ⟨me, hself, hfound⟩ := hidentified
    exact ⟨me, by rw [hstore, hself], by rw [hstore, hnick, hfound]⟩
  | @remapped mapping hnick hgrows =>
    by_cases hchange : s.store.directory.caseMapping = mapping
    · rw [Store.withCaseMapping, if_pos hchange] at hgrows
      exact hidentified.of_grows hgrows hnick
    · have hmapping := hgrows.caseMapping.trans (s.store.caseMapping_withCaseMapping mapping)
      have hclear := hclear.resolve_left fun hsame => hchange (hsame.symm.trans hmapping)
      exact hidentified.of_remapped hgrounded hchange hgrows hnick hclear

theorem exists_of_usurpedBy (h : s.usurpedBy raw = true) :
    ∃ line source nick id, Line.parse raw = .ok line ∧ line.verb = .nick ∧
      line.source = some source ∧ line.param 0 = some nick ∧
      s.store.userId? source.nick = some id ∧ s.store.isSelf id = false ∧
      s.store.directory.caseMapping.same nick s.nick = true := by
  unfold usurpedBy at h
  split at h
  · rename_i line hparse
    simp only [Bool.and_eq_true, beq_iff_eq] at h
    obtain ⟨hverb, hgiven⟩ := h
    split at hgiven
    · rename_i id nick hid hparam
      simp only [Bool.and_eq_true, Bool.not_eq_true'] at hgiven
      obtain ⟨sourceNick, hsourceNick, hid⟩ := Option.bind_eq_some_iff.mp hid
      obtain ⟨source, hsource, rfl⟩ := Option.map_eq_some_iff.mp hsourceNick
      exact ⟨line, source, nick, id, hparse, hverb, hsource, hparam, hid, hgiven.1, hgiven.2⟩
    · cases hgiven
  · cases h

theorem usurpedBy_of_verb (hparse : Line.parse raw = .ok line) (hverb : line.verb ≠ .nick) :
    s.usurpedBy raw = false := by
  simp only [usurpedBy, hparse, beq_eq_false_iff_ne.mpr hverb, Bool.false_and]

theorem usurpedBy_of_eq (hstore : t.store = s.store) (hnick : t.nick = s.nick) (raw : String) :
    t.usurpedBy raw = s.usurpedBy raw := by
  simp only [usurpedBy, hstore, hnick]

/-- The welcome makes the client known under the nick that it gives. -/
theorem Registers.identified (h : s.Registers line t) (hregistered : t.isRegistered = true)
    (hs : s.isRegistered = true → s.Identified) : t.Identified := by
  cases h with
  | passed hstore hnick hkept =>
    obtain ⟨me, hself, hfound⟩ := hs (hkept.symm.trans hregistered)
    exact ⟨me, by rw [hstore, hself], by rw [hstore, hnick, hfound]⟩
  | connected _ _ hstore =>
    refine ⟨(s.store.trackUser (.ofNick t.nick)).2, by rw [hstore]; rfl, ?_⟩
    rw [hstore]
    exact Store.userId?_trackUser (.ofNick t.nick)

theorem Registers.usurpedBy (h : s.Registers line t) (hparse : Line.parse raw = .ok line)
    (hregistered : t.isRegistered = true)
    (husurped : s.isRegistered = true → s.usurpedBy raw = false) : t.usurpedBy raw = false := by
  cases h with
  | passed hstore hnick hkept =>
    rw [usurpedBy_of_eq hstore hnick, husurped (hkept.symm.trans hregistered)]
  | connected _ hverb =>
    obtain ⟨code, hverb⟩ := hverb
    exact usurpedBy_of_verb hparse (by simp [hverb])

theorem Sound.identified_receive (hs : s.Sound) (hidentified : s.isRegistered = true → s.Identified)
    {input : Input} (hclear : s.StaysClear input (s.receive input)) :
    (s.receive input).isRegistered = true → (s.receive input).Identified := by
  cases input with
  | disconnect error => exact hclear.elim
  | line clock raw =>
    obtain ⟨husurped, hmapping⟩ := hclear
    intro hregistered
    rcases hs.line_cases clock raw with heq | ⟨line, hparse, hcourse, hkept⟩
    · rw [Session.receive, heq] at hregistered ⊢
      exact hidentified hregistered
    · have hregisters := s.registers_register line
      have hwelcomed := hkept.symm.trans hregistered
      have hmapping := hmapping hregistered
      rw [← hregisters.caseMapping] at hmapping
      exact hcourse.identified (hs.register line).coherent
        (hregisters.identified hwelcomed hidentified) hparse
        (hregisters.usurpedBy hparse hwelcomed husurped) hmapping

/-- The user that holds the session's nick is taken for out of date, although it is the client. -/
theorem selfUser?_of_usurped (hs : s.Sound) (hregistered : s.isRegistered = true)
    (hidentified : s.Identified) (clock : Clock) (husurped : s.usurpedBy raw = true) :
    (s.handleLine clock raw).1.store.selfUser? = none := by
  obtain ⟨me, hself, hfound⟩ := hidentified
  obtain ⟨line, source, nick, id, hparse, hverb, hsource, hparam, hid, hother, hsame⟩ :=
    exists_of_usurpedBy husurped
  have hcoherent := hs.coherent
  obtain ⟨user, huser⟩ := (Table.contains_iff _ _).mp (hcoherent.toGrounded.userId?_known hid)
  obtain ⟨store, hok, hrenames⟩ := hcoherent.renames_renameUser huser nick
  have hhandled : (s.handleLine clock raw).1.store = store := by
    rw [hs.handleLine_eq clock hparse, handle, if_neg (by simp [hverb]),
      register_of_isRegistered hregistered]
    simp [dispatch, hverb, hsource, onNick, hparam, hid, hok, attempt, Handling.sound,
      Handling.after]
  have hgone : store.selfId = none := by
    rw [Option.eq_none_iff_forall_ne_some]
    intro me' hkept
    obtain ⟨hbefore, hreason⟩ := hrenames.self.mp hkept
    rcases hreason with rfl | hfree
    · simp [Store.isSelf, hbefore] at hother
    · rw [Store.userId?_eq_of_same hsame, hfound, ← hself, hbefore] at hfree
      exact hfree rfl
  rw [hhandled, Store.selfUser?, hgone]
  rfl

/-- From the welcome on the session has its own user, whose nick is the session's, until a line gives
this nick to another tracked user; the session loses its own user then. A change of the case mapping
must leave it clear whom the nick means. -/
theorem self_until_usurped {config : ClientConfig} (hs : (opened config).Reaches StaysClear s)
    (hregistered : s.isRegistered = true) :
    (∃ user, s.store.selfUser? = some user ∧
      s.store.directory.caseMapping.same user.nick s.nick = true) ∧
    ∀ clock raw, s.usurpedBy raw = true →
      (s.handleLine clock raw).1.store.selfUser? = none := by
  have hsound := hs.sound (sound_opened config)
  have hopened : (opened config).isRegistered = true → (opened config).Identified :=
    fun hwelcomed => by cases hwelcomed
  have hidentified : s.isRegistered = true → s.Identified := by
    refine hs.maintains (P := fun s => s.isRegistered = true → s.Identified) (sound_opened config)
      (fun _ _ ht hclear hbefore => ht.identified_receive hbefore hclear) ?_ hopened
    intro t store hlisted hbefore
    obtain ⟨users, channels, rfl⟩ := hlisted.eq
    exact hbefore
  refine ⟨(hidentified hregistered).selfUser? hsound.coherent.toGrounded, ?_⟩
  intro clock raw husurped
  exact selfUser?_of_usurped hsound hregistered (hidentified hregistered) clock husurped

/-- The client gives up its nick, which somebody else then takes, until the same happens to its new
one. -/
theorem self_until_usurped_renamed :
    let clock : Clock := ⟨⟨0, 0⟩, ""⟩
    let s := (opened { ClientConfig.standard "irc.example.net" "bot" with capEnabled := false }).run
      ([":irc 001 bot :Welcome", ":bot!b@h JOIN #c", ":eve!e@h JOIN #c", ":bot!b@h NICK tob",
        ":eve!e@h NICK bot"].map (.line clock))
    (∃ user, s.store.selfUser? = some user ∧
      s.store.directory.caseMapping.same user.nick s.nick = true) ∧
    (s.handleLine clock ":bot!e@h NICK TOB").1.store.selfUser? = none := by
  intro clock s
  have hclear := self_until_usurped (s := s) (reaches_run (by decide +kernel)) (by decide +kernel)
  exact ⟨hclear.1, hclear.2 clock _ (by decide +kernel)⟩

/-- Somebody takes the nick of the client, which loses itself and stays connected. -/
theorem self_lost_run :
    let s := (opened { ClientConfig.standard "irc.example.net" "bot" with capEnabled := false }).run
      ([":irc 001 bot :Welcome", ":bot!b@h JOIN #c", ":eve!e@h JOIN #c", ":eve!e@h NICK bot"].map
        (.line ⟨⟨0, 0⟩, ""⟩))
    s.isRegistered = true ∧ s.ended = false ∧ s.store.selfUser? = none := by
  decide +kernel

end IrcClient.Session
