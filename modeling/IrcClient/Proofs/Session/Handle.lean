import IrcClient.Proofs.Session.Coherence

/-!
# The way of a line through a session

A line is shown to the registration, which may be the welcome that makes the client's own user known,
and is then handled by what it is about.
-/

namespace IrcClient

theorem Line.verb_of_numeric {line : Line} {code : Nat} (h : line.numeric = some code) :
    line.verb = .numeric code := by
  rw [Line.numeric] at h
  simp only [Line.verb, Verb.ofCommand, h]

/-! ## Lines that a registration lets pass -/

/-- Whether a line is no concern of a registration that is under way: it changes modes, or it replies
to a question about users and channels. -/
def Line.Passes (line : Line) : Prop :=
  line.verb = .mode ∨ ∃ code, line.verb = .numeric code ∧ 256 ≤ code ∧ code < 375

theorem Line.Passes.numeric {line : Line} (h : line.Passes) {code : Nat}
    (hnumeric : line.numeric = some code) : 256 ≤ code ∧ code < 375 := by
  have hverb := Line.verb_of_numeric hnumeric
  rcases h with h | ⟨_, h, hrange⟩
  · cases hverb.symm.trans h
  · cases hverb.symm.trans h
    exact hrange

theorem Handler.outcome_of_passes {line : Line} (h : line.Passes) (handler : Handler) :
    ∃ done, (handler.step (.other line)).outcome = .ok done := by
  cases handler with
  | enable cap tolerant => exact ⟨false, rfl⟩
  | tls tolerant requested =>
    unfold Handler.step Handler.stepTls
    dsimp only
    split
    · exact ⟨false, rfl⟩
    · split
      · exact ⟨true, rfl⟩
      · rename_i hrefused
        have hrange := h.numeric hrefused
        omega
      · exact ⟨false, rfl⟩
  | sasl account password tolerant state =>
    unfold Handler.step Handler.stepSasl
    dsimp only
    split
    · split <;> exact ⟨false, rfl⟩
    · split
      · exact ⟨true, rfl⟩
      · rename_i code _ hnumeric
        have hrange := h.numeric hnumeric
        have haccepted : loginRefused code = false := by
          simp only [loginRefused, Bool.or_eq_false_iff, beq_eq_false_iff_ne]
          omega
        rw [haccepted]
        exact ⟨false, rfl⟩
      · exact ⟨false, rfl⟩

theorem Registration.send_of_mem_consult {H : Type} [CapHandler H] {enabled : List String}
    {prompt : Prompt} {seats : List (Seat H)}
    (h : ∀ handler : H, ∃ done, (CapHandler.step handler enabled prompt).outcome = .ok done)
    {action : RegistrationAction} (hmem : action ∈ (consult enabled prompt seats).2) :
    ∃ command, action = .send command := by
  induction seats with
  | nil => cases hmem
  | cons seat seats ih =>
    unfold consult at hmem
    split at hmem
    · exact ih hmem
    · obtain ⟨done, hdone⟩ := h seat.handler
      dsimp only at hmem
      rw [hdone] at hmem
      rcases List.mem_append.mp hmem with hsent | hrest
      · obtain ⟨command, -, rfl⟩ := List.mem_map.mp hsent
        exact ⟨command, rfl⟩
      · exact ih hrest

namespace Session

variable {s t : Session} {line : Line} {raw : String}

theorem send_of_mem_feed {registration : Registration Handler} (hpasses : line.Passes)
    {action : RegistrationAction} (hmem : action ∈ (registration.feed line).2) :
    ∃ command, action = .send command := by
  have hcue : Cue.ofLine registration.config line = .other := by
    rcases hpasses with hverb | ⟨code, hverb, hlow, hhigh⟩
    · rw [Cue.ofLine, hverb]
    · have hwelcome : Cue.isWelcome code = false := by
        simp [Cue.isWelcome]
        omega
      have hrefusal : Cue.isCapRefusal code line.params = false := by
        simp [Cue.isCapRefusal]
        omega
      rw [Cue.ofLine, hverb]
      simp only [hwelcome, hrefusal, Bool.and_false, Bool.false_eq_true, if_false]
      rw [if_neg (by omega), if_neg (by omega), if_neg (by omega), if_neg (by omega)]
  unfold Registration.feed at hmem
  rw [hcue] at hmem
  split at hmem
  · cases hmem
  · rcases Registration.mem_of_mem_endNegotiation hmem with hoffered | hend
    · refine Registration.send_of_mem_consult (fun handler => ?_) hoffered
      exact Handler.outcome_of_passes hpasses handler
    · exact ⟨.capEnd, hend⟩

/-- Such a line neither completes nor ends a registration that is under way. -/
theorem register_of_passes (s : Session) (hpasses : line.Passes) :
    ∃ registration first,
      s.register line = ({ s with registration := registration }, first, false) := by
  unfold register
  split
  · have hfail : (s.registration.feed line).2.any RegistrationAction.isFail = false := by
      rw [List.any_eq_false]
      intro request hmem
      obtain ⟨command, rfl⟩ := send_of_mem_feed hpasses hmem
      simp [RegistrationAction.isFail]
    have hcomplete : (s.registration.feed line).2.findSome? completedAs? = none := by
      rw [List.findSome?_eq_none_iff]
      intro request hmem
      obtain ⟨command, rfl⟩ := send_of_mem_feed hpasses hmem
      rfl
    simp only [hfail, hcomplete]
    exact ⟨_, _, rfl⟩
  · exact ⟨s.registration, [], rfl⟩

/-! ## What a line does in the registration -/

/-- What a line does to a session in the registration: nothing that users and channels have to do
with, or it is the welcome. -/
inductive Registers (s : Session) (line : Line) (t : Session) : Prop where
  | passed (hstore : t.store = s.store) (hnick : t.nick = s.nick)
      (hregistered : t.isRegistered = s.isRegistered)
  | connected (hphase : s.registration.phase = .waiting)
      (hverb : ∃ code, line.verb = .numeric code)
      (hstore : t.store = (s.store.trackUser (.ofNick t.nick)).1.withSelf
        (s.store.trackUser (.ofNick t.nick)).2)

theorem registers_register (s : Session) (line : Line) : s.Registers line (s.register line).1 := by
  unfold register
  split
  · rename_i hphase
    by_cases hwelcomed : (s.registration.feed line).1.phase = .welcomed
    · obtain ⟨hverb, nick, hrequests⟩ := Registration.feed_of_welcome hphase hwelcomed
      simp only [hrequests]
      exact .connected hphase hverb rfl
    · have hregistered :
          ((s.registration.feed line).1.phase == .welcomed) = s.isRegistered := by
        rw [isRegistered, hphase, beq_eq_false_iff_ne.mpr hwelcomed]
        rfl
      dsimp only
      split
      · exact .passed rfl rfl hregistered
      · split
        · rename_i nick hnick
          obtain ⟨request, hmem, hrequest⟩ := List.exists_of_findSome?_eq_some hnick
          rw [completedAs?_eq_some hrequest] at hmem
          exact absurd (Registration.phase_of_complete_mem_feed hmem) hwelcomed
        · exact .passed rfl rfl hregistered
  · exact .passed rfl rfl rfl

theorem Registers.caseMapping (h : s.Registers line t) :
    t.store.directory.caseMapping = s.store.directory.caseMapping := by
  cases h with
  | passed hstore => rw [hstore]
  | connected _ _ hstore =>
    obtain ⟨nextId, nicks, users, htracked⟩ := Store.trackUser_eq (s := s.store) (.ofNick t.nick)
    rw [hstore, Store.withSelf, htracked]

/-- After the welcome the registration lets every line pass. -/
theorem register_of_isRegistered (hregistered : s.isRegistered = true) (line : Line) :
    s.register line = (s, [], false) := by
  rw [register, if_neg]
  intro hwaiting
  simp [isRegistered, hwaiting] at hregistered

/-- After the welcome a line is handled by what it is about alone. -/
theorem handleLine_eq_dispatch (hregistered : s.isRegistered = true)
    (hparse : Line.parse raw = .ok line) (hping : line.verb ≠ .ping) (clock : Clock) :
    s.handleLine clock raw = (s.dispatch clock line).report line := by
  simp only [handleLine, hparse, handle, if_neg hping, register_of_isRegistered hregistered,
    Bool.false_eq_true, if_false, Handling.after, List.nil_append]

theorem handleLine_of_numeric (hregistered : s.isRegistered = true)
    (hparse : Line.parse raw = .ok line) {code : Nat} (hverb : line.verb = .numeric code)
    (clock : Clock) : s.handleLine clock raw = s.onNumeric code line := by
  rw [handleLine_eq_dispatch hregistered hparse (by simp [hverb]), dispatch, hverb]
  rfl

theorem Sound.handleLine_eq (hs : s.Sound) (clock : Clock) (hparse : Line.parse raw = .ok line) :
    s.handleLine clock raw = ((s.handle clock line).session, (s.handle clock line).actions) := by
  obtain ⟨hfault, -⟩ := hs.handle clock line
  simp only [handleLine, hparse, Handling.report, hfault]

end Session

end IrcClient
