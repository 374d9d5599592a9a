import IrcClient.Proofs.Session.Course

/-!
# Whoever is tracked is found

As long as no two tracked nicks and no two tracked channel names are the same after a change of the
case mapping, everybody is found by name. Where a change makes names the same, the index keeps one
user or channel of each and the others are not found any more, although they stay known.
-/

namespace IrcClient.Session

variable {s t : Session} {line : Line}

/-- Whether an input leaves the case mapping alone, or no two tracked nicks and no two tracked channel
names are the same after it. -/
def KeepsApart (s : Session) (_ : Input) (t : Session) : Prop :=
  t.store.directory.caseMapping = s.store.directory.caseMapping ∨ t.store.Distinct

instance (s : Session) (input : Input) (t : Session) : Decidable (s.KeepsApart input t) :=
  inferInstanceAs (Decidable (_ ∨ _))

theorem Course.indexed (h : s.Course line t) (hgrounded : s.store.Grounded)
    (hindexed : s.store.Indexed)
    (hapart : t.store.directory.caseMapping = s.store.directory.caseMapping ∨ t.store.Distinct) :
    t.store.Indexed := by
  cases h with
  | learnt hlearns => exact hlearns.grows.indexed hindexed
  | joined _ _ _ _ _ hgrows => exact hgrows.indexed (hindexed.trackChannel _)
  | departed _ hgrows hloses => exact hloses.indexed (hgrows.indexed hindexed)
  | renamed _ _ _ _ hrenames => exact hrenames.indexed hindexed
  | overheard _ _ hstore =>
    rw [hstore]
    exact hindexed
  | @remapped mapping _ hgrows =>
    have hmapping := hgrows.caseMapping
    rw [Store.caseMapping_withCaseMapping] at hmapping
    apply hgrows.indexed
    by_cases hchange : s.store.directory.caseMapping = mapping
    · rw [Store.withCaseMapping, if_pos hchange]
      exact hindexed
    · have hdistinct : t.store.Distinct := by
        rcases hapart with hsame | hdistinct
        · exact absurd (hsame.symm.trans hmapping) hchange
        · exact hdistinct
      exact (hgrows.distinct (hgrounded.withCaseMapping mapping) hdistinct).indexed_withCaseMapping
        hgrounded hchange

theorem Registers.indexed (h : s.Registers line t) (hindexed : s.store.Indexed) :
    t.store.Indexed := by
  cases h with
  | passed hstore =>
    rw [hstore]
    exact hindexed
  | connected _ _ hstore =>
    rw [hstore]
    have htracked := hindexed.trackUser (.ofNick t.nick)
    exact ⟨htracked.nick_found, htracked.name_found⟩

theorem Sound.indexed_receive (hs : s.Sound) (hindexed : s.store.Indexed) {input : Input}
    (hapart : s.KeepsApart input (s.receive input)) : (s.receive input).store.Indexed := by
  cases input with
  | line clock raw =>
    rcases hs.line_cases clock raw with heq | ⟨line, -, hcourse, -⟩
    · rw [Session.receive, heq]
      exact hindexed
    · have hregisters := s.registers_register line
      apply hcourse.indexed (hs.register line).coherent.toGrounded (hregisters.indexed hindexed)
      rw [hregisters.caseMapping]
      exact hapart
  | disconnect error =>
    simp only [Session.receive, Session.disconnect]
    split
    · exact hindexed
    · exact ⟨fun huser => (by cases huser), fun hchannel => (by cases hchannel)⟩

/-- Whatever lines come, and whatever order the tables are in, everybody is found by name as long as
no change of the case mapping makes two tracked names the same, and not after one that does. -/
theorem found_while_apart {config : ClientConfig} (hs : (opened config).Reaches KeepsApart s) :
    s.store.Complete ∧
      ∀ input, (s.receive input).store.Complete ↔ s.KeepsApart input (s.receive input) := by
  have hsound := hs.sound (sound_opened config)
  have hopened : (opened config).store.Indexed :=
    ⟨Store.Indexed.initial.nick_found, Store.Indexed.initial.name_found⟩
  have hindexed := hs.maintains (P := fun s => s.store.Indexed) (sound_opened config)
    (fun _ _ ht hapart hbefore => ht.indexed_receive hbefore hapart)
    (fun _ _ hlisted hbefore => hlisted.indexed hbefore) hopened
  refine ⟨hsound.coherent.toGrounded.complete_iff.mpr hindexed, ?_⟩
  intro input
  have hnext := (hsound.receive input).coherent.toGrounded
  rw [hnext.complete_iff]
  exact ⟨fun h => Or.inr (h.distinct hnext), fun h => hsound.indexed_receive hindexed h⟩

/-- Two nicks that only one of the mappings tells apart, but are never tracked at the same time. -/
theorem found_while_apart_remapped :
    ((opened { ClientConfig.standard "irc.example.net" "bot" with capEnabled := false }).run
      ([":irc 001 bot :Welcome", ":bot!b@h JOIN #c",
        ":irc 005 bot CASEMAPPING=ascii :are supported by this server", ":a[!a@h JOIN #c",
        ":a[!a@h QUIT", ":a\x7b!a@h JOIN #c",
        ":irc 005 bot CASEMAPPING=rfc1459 :are supported by this server"].map
          (.line ⟨⟨0, 0⟩, ""⟩))).store.Complete :=
  (found_while_apart (reaches_run (by decide +kernel))).1

/-- Two nicks that were told apart become the same while both are tracked. -/
theorem not_complete_run :
    ¬ ((opened { ClientConfig.standard "irc.example.net" "bot" with capEnabled := false }).run
      ([":irc 001 bot :Welcome", ":bot!b@h JOIN #c",
        ":irc 005 bot CASEMAPPING=ascii :are supported by this server", ":a[!a@h JOIN #c",
        ":a\x7b!a@h JOIN #c",
        ":irc 005 bot CASEMAPPING=rfc1459 :are supported by this server"].map
          (.line ⟨⟨0, 0⟩, ""⟩))).store.Complete := by
  decide +kernel

end IrcClient.Session
