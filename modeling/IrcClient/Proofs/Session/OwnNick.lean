import IrcClient.Proofs.Session.Identity

/-!
# The client's own nick, compared and looked up

Whether a nick is the client's is found out by comparing it, and whose it is by looking it up. Both go
by the lower form alone. So nicks that are told apart by one are told apart by the other, and where the
session knows itself, the nicks that it takes for its own are those that lead to its own user.
-/

namespace IrcClient.Session

variable {s : Session} {a b nick : String}

theorem isOwnNick_iff (s : Session) (nick : String) : s.isOwnNick nick = true ↔
    s.store.directory.key nick = s.store.directory.key s.nick ∨
      ∃ me, s.store.selfUser? = some me ∧
        s.store.directory.key nick = s.store.directory.key me.nick := by
  simp only [isOwnNick, Directory.key, Bool.or_eq_true, CaseMapping.same_iff]
  refine or_congr_right ?_
  cases s.store.selfUser? with
  | none => simp
  | some me =>
    simp only [CaseMapping.same_iff, Option.some.injEq, exists_eq_left']
    exact eq_comm

theorem isOwnNick_eq_of_key_eq (h : s.store.directory.key a = s.store.directory.key b) :
    s.isOwnNick a = s.isOwnNick b := by
  rw [Bool.eq_iff_iff, isOwnNick_iff, isOwnNick_iff, h]

/-- A nick that the session takes for its own leads wherever one of the two nicks of the client
leads. -/
theorem userId?_of_isOwnNick (hown : s.isOwnNick nick = true) :
    s.store.userId? nick = s.store.userId? s.nick ∨
      ∃ me, s.store.selfUser? = some me ∧ s.store.userId? nick = s.store.userId? me.nick := by
  unfold Store.userId? Directory.userId?
  rcases (s.isOwnNick_iff nick).mp hown with hnick | ⟨me, hme, hnick⟩
  · exact Or.inl (by rw [hnick])
  · exact Or.inr ⟨me, hme, by rw [hnick]⟩

theorem Identified.isOwnNick_iff_found (h : s.Identified) (hknown : s.store.NicksKnown)
    (nick : String) : s.isOwnNick nick = true ↔ s.store.userId? nick = s.store.selfId := by
  obtain ⟨me, hself, hfound⟩ := h
  rw [hself]
  constructor
  · intro hown
    rcases userId?_of_isOwnNick hown with hnick | ⟨user, huser, hnick⟩
    · rw [hnick, hfound]
    · rw [Store.selfUser?, hself, Option.bind_some] at huser
      rw [hnick, ← hfound, Store.userId?, Store.userId?, Directory.userId?, Directory.userId?,
        hknown.key_eq hfound huser]
  · exact fun hget => (s.isOwnNick_iff nick).mpr (Or.inl (hknown.key_unique hget hfound))

/-- Names are compared as they are indexed: under every mapping two names are the same exactly if they
have the same lower form. This form is its own and as long as the name in bytes, and a broader mapping
tells apart no names that a narrower one does not. So in every store names that are the same lead to
the same user, and no session takes just one of them for its own. Where nicks lead to those who bear
them, nicks of one user are both its own or neither is; and if the session knows itself, its own nicks
are those that lead to its own user. -/
theorem compared_as_indexed (m : CaseMapping) :
    (∀ a b, m.same a b = true ↔ m.normalize a = m.normalize b) ∧
      (∀ a, m.normalize (m.normalize a) = m.normalize a ∧
        (m.normalize a).utf8ByteSize = a.utf8ByteSize) ∧
      (∀ a b, CaseMapping.ascii.same a b = true → CaseMapping.strictRfc1459.same a b = true) ∧
      (∀ a b, CaseMapping.strictRfc1459.same a b = true → CaseMapping.rfc1459.same a b = true) ∧
      (∀ store : Store, store.directory.caseMapping = m → ∀ a b, m.same a b = true →
        store.userId? a = store.userId? b) ∧
      ∀ s : Session, s.store.directory.caseMapping = m →
        (∀ a b, m.same a b = true → s.isOwnNick a = s.isOwnNick b) ∧
        (∀ nick, s.isOwnNick nick = true → s.store.userId? nick = s.store.userId? s.nick ∨
          ∃ me, s.store.selfUser? = some me ∧ s.store.userId? nick = s.store.userId? me.nick) ∧
        (s.store.NicksKnown →
          (∀ a b id, s.store.userId? a = some id → s.store.userId? b = some id →
            s.isOwnNick a = s.isOwnNick b) ∧
          (s.Identified → ∀ nick,
            s.isOwnNick nick = true ↔ s.store.userId? nick = s.store.selfId)) := by
  refine ⟨fun a b => m.same_iff, ?_, ?_, ?_, ?_, ?_⟩
  · exact fun a => ⟨CaseMapping.normalize_normalize (Nat.le_refl _) a, m.utf8ByteSize_normalize a⟩
  · exact fun a b => CaseMapping.same_of_breadth_le (by decide)
  · exact fun a b => CaseMapping.same_of_breadth_le (by decide)
  · rintro store rfl a b hsame
    exact Store.userId?_eq_of_same hsame
  · rintro s rfl
    refine ⟨?_, fun nick hown => userId?_of_isOwnNick hown, fun hknown => ⟨?_, ?_⟩⟩
    · exact fun a b hsame => isOwnNick_eq_of_key_eq ((CaseMapping.same_iff _).mp hsame)
    · exact fun a b id ha hb => isOwnNick_eq_of_key_eq (hknown.key_unique ha hb)
    · exact fun hidentified nick => hidentified.isOwnNick_iff_found hknown nick

/-- A session that has been welcomed under a nick that it is then asked about in capitals. -/
theorem compared_as_indexed_welcomed :
    let config := { ClientConfig.standard "irc.example.net" "me[1]" with capEnabled := false }
    let s := (opened config).run [.line ⟨⟨0, 0⟩, ""⟩ ":irc 001 me[1] :Welcome"]
    CaseMapping.rfc1459.same "me[1]" "ME\x7b1\x7d" = true ∧ s.store.NicksKnown ∧ s.Identified ∧
      s.isOwnNick "ME\x7b1\x7d" = s.isOwnNick "me[1]" ∧ s.isOwnNick "me[1]" = true ∧
      s.store.userId? "ME\x7b1\x7d" = s.store.selfId := by
  intro config s
  have hmapping : s.store.directory.caseMapping = .rfc1459 := by decide +kernel
  have hsame : CaseMapping.rfc1459.same "me[1]" "ME\x7b1\x7d" = true := by decide +kernel
  have hknown : s.store.NicksKnown := (reachable_run config _).sound.coherent.toGrounded.nicksKnown
  have hself : s.store.selfId = some ⟨1⟩ ∧ s.store.userId? s.nick = some ⟨1⟩ := by decide +kernel
  have hown : s.isOwnNick "me[1]" = true := by decide +kernel
  obtain ⟨-, -, -, -, hlookup, hsession⟩ := compared_as_indexed .rfc1459
  obtain ⟨hcompared, -, hfound⟩ := hsession s hmapping
  have hidentified : s.Identified := ⟨⟨1⟩, hself⟩
  refine ⟨hsame, hknown, hidentified, (hcompared _ _ hsame).symm, hown, ?_⟩
  rw [← hlookup s.store hmapping _ _ hsame]
  exact ((hfound hknown).2 hidentified "me[1]").mp hown

end IrcClient.Session
