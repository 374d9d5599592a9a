import IrcClient.Store.User

/-!
# Taking identities apart and putting them together

The raw text of an identity that was read is the rendering of its parts. A rendering is read back as the
parts it was made of, as long as no part has the separator in it that ends the part. Whatever is learnt
about a user later, its raw text goes on saying what the parts say.
-/

namespace IrcClient

namespace Hostmask

/-! ## Texts with a part that may be missing -/

/-- A text is a front and, behind the first mark if there is one, a rest. -/
structure Splits (mark : Char) (cs front : List Char) (rest : Option (List Char)) : Prop where
  eq : cs = front ++ rest.elim [] (mark :: ·)
  clear : mark ∉ front

theorem splits_none_iff {mark : Char} {cs front : List Char} :
    Splits mark cs front none ↔ Text.cutAt mark cs = none ∧ front = cs := by
  rw [Text.cutAt_eq_none_iff]
  constructor
  · rintro ⟨rfl, hclear⟩
    simpa using hclear
  · rintro ⟨hclear, rfl⟩
    exact ⟨by simp, hclear⟩

theorem splits_some_iff {mark : Char} {cs front rest : List Char} :
    Splits mark cs front (some rest) ↔ Text.cutAt mark cs = some (front, rest) := by
  rw [Text.cutAt_eq_some_iff]
  exact ⟨fun h => ⟨h.eq, h.clear⟩, fun h => ⟨h.1, h.2⟩⟩

/-! ## Reading an identity -/

/-- The host is split off first, and then the login. -/
theorem splits_parse (text : String) : ∃ masked,
    Splits '@' (parse text).raw.toList masked ((parse text).host.map String.toList) ∧
      Splits '!' masked (parse text).nick.toList ((parse text).login.map String.toList) := by
  unfold parse
  dsimp only
  cases hhost : Text.cutAt '@' (Text.stripHead ':' text.toList) with
  | none =>
    refine ⟨Text.stripHead ':' text.toList, ?_, ?_⟩
    · simpa [splits_none_iff] using hhost
    · cases hlogin : Text.cutAt '!' (Text.stripHead ':' text.toList) with
      | none => simpa [splits_none_iff] using hlogin
      | some parts => simpa [splits_some_iff] using hlogin
  | some parts =>
    refine ⟨parts.1, ?_, ?_⟩
    · simpa [splits_some_iff] using hhost
    · cases hlogin : Text.cutAt '!' parts.1 with
      | none => simpa [splits_none_iff] using hlogin
      | some parts => simpa [splits_some_iff] using hlogin

theorem parse_of_splits {text nick : String} {login host : Option String} {masked : List Char}
    (hcolon : text.toList.head? ≠ some ':')
    (hhost : Splits '@' text.toList masked (host.map String.toList))
    (hlogin : Splits '!' masked nick.toList (login.map String.toList)) :
    parse text = ⟨text, nick, login, host⟩ := by
  unfold parse
  rw [Text.stripHead_of_head?_ne hcolon]
  cases host with
  | none =>
    obtain ⟨hcut, rfl⟩ := splits_none_iff.mp hhost
    cases login with
    | none =>
      obtain ⟨hcut', hnick⟩ := splits_none_iff.mp hlogin
      obtain rfl := String.toList_inj.mp hnick
      simp [hcut, hcut']
    | some login => simp [hcut, splits_some_iff.mp hlogin]
  | some host =>
    have hcut := splits_some_iff.mp hhost
    cases login with
    | none =>
      obtain ⟨hcut', rfl⟩ := splits_none_iff.mp hlogin
      simp [hcut, hcut']
    | some login => simp [hcut, splits_some_iff.mp hlogin]

/-- Only a colon in front is not part of an identity. -/
theorem raw_parse (text : String) :
    text.toList = ':' :: (parse text).raw.toList ∨
      text.toList.head? ≠ some ':' ∧ (parse text).raw = text := by
  have hraw : (parse text).raw = String.ofList (Text.stripHead ':' text.toList) := rfl
  by_cases hcolon : text.toList.head? = some ':'
  · obtain ⟨cs, hcs⟩ := List.head?_eq_some_iff.mp hcolon
    left
    simp [hraw, hcs, Text.stripHead, Text.stripHead?]
  · right
    exact ⟨hcolon, by rw [hraw, Text.stripHead_of_head?_ne hcolon, String.ofList_toList]⟩

/-! ## Writing an identity -/

/-- The raw text of an identity says what its parts say. -/
def Faithful (m : Hostmask) : Prop := m.raw = render m.nick m.login m.host

theorem faithful_ofParts (nick : String) (login host : Option String) :
    (ofParts nick login host).Faithful := rfl

theorem toList_render (nick : String) (login host : Option String) :
    (render nick login host).toList =
      nick.toList ++ (login.map String.toList).elim [] ('!' :: ·) ++
        (host.map String.toList).elim [] ('@' :: ·) := by
  cases login <;> cases host <;> simp [render]

theorem faithful_parse (text : String) : (parse text).Faithful := by
  obtain ⟨masked, hhost, hlogin⟩ := splits_parse text
  rw [Faithful, ← String.toList_inj, toList_render, hhost.eq, hlogin.eq]

/-- Identities that were read agree if and only if they were written alike. -/
theorem agrees_parse_iff (text other : String) :
    (parse text).agrees (parse other) = true ↔ (parse text).raw = (parse other).raw := by
  constructor
  · intro hagree
    simp only [agrees, Bool.and_eq_true, beq_iff_eq] at hagree
    obtain ⟨⟨hnick, hlogin⟩, hhost⟩ := hagree
    rw [faithful_parse text, faithful_parse other, hnick, hlogin, hhost]
  · intro hraw
    have hstrip : Text.stripHead ':' text.toList = Text.stripHead ':' other.toList :=
      String.ofList_injective hraw
    simp [agrees, parse, hstrip]

/-- Identities are read back as they were written. -/
theorem parts_render {nick : String} {login : Option String} (host : Option String)
    (hcolon : nick.toList.head? ≠ some ':') (hbang : '!' ∉ nick.toList) (hat : '@' ∉ nick.toList)
    (hlogin : ∀ text, login = some text → '@' ∉ text.toList) :
    parse (render nick login host) = ofParts nick login host := by
  refine parse_of_splits ?_ ⟨toList_render nick login host, ?_⟩ ⟨rfl, hbang⟩
  · rw [toList_render]
    cases hnick : nick.toList with
    | nil => cases login <;> cases host <;> simp
    | cons c cs => simpa [hnick] using hcolon
  · cases login with
    | none => simpa using hat
    | some login => simpa using ⟨hat, hlogin login rfl⟩

end Hostmask

/-! ## Users -/

/-- What may be learnt about the identity of a user. -/
inductive IdentityChange where
  | seen (hostmask : Hostmask)
  | nick (nick : String)
  | login (login : String)
  | host (host : String)

namespace User

/-- A user after something was learnt about its identity. -/
def learn (user : User) : IdentityChange → User
  | .seen hostmask => user.absorb hostmask
  | .nick nick => user.withNick nick
  | .login login => user.withLogin login
  | .host host => user.withHost host

theorem faithful_learn {user : User} (h : user.hostmask.Faithful) (change : IdentityChange) :
    (user.learn change).hostmask.Faithful := by
  cases change with
  | seen hostmask =>
    simp only [learn, absorb]
    split
    · exact h
    · exact Hostmask.faithful_ofParts ..
  | nick nick => exact Hostmask.faithful_ofParts ..
  | login login => exact Hostmask.faithful_ofParts ..
  | host host => exact Hostmask.faithful_ofParts ..

theorem faithful_foldl_learn {user : User} (h : user.hostmask.Faithful)
    (changes : List IdentityChange) : (changes.foldl learn user).hostmask.Faithful := by
  induction changes generalizing user with
  | nil => exact h
  | cons change changes ih => exact ih (faithful_learn h change)

end User

namespace Hostmask

/-- An identity that is read is not altered by taking it apart and putting it together again, so two of
them agree if and only if their raw texts do. One that is put together of parts without the separators
that would end them early is read back as these parts. Whatever is learnt about a user whose identity was
read or put together, its raw text is the rendering of its parts. -/
theorem reads_as_written :
    (∀ text : String,
      (ofParts (parse text).nick (parse text).login (parse text).host).raw = (parse text).raw ∧
        (text.toList = ':' :: (parse text).raw.toList ∨
          text.toList.head? ≠ some ':' ∧ (parse text).raw = text)) ∧
      (∀ text other, (parse text).agrees (parse other) = true ↔
        (parse text).raw = (parse other).raw) ∧
      (∀ nick login host, nick.toList.head? ≠ some ':' → '!' ∉ nick.toList → '@' ∉ nick.toList →
        (∀ text, login = some text → '@' ∉ text.toList) →
          parse (ofParts nick login host).raw = ofParts nick login host) ∧
      ∀ (id : UserId) (m : Hostmask) (changes : List IdentityChange),
        (∃ text, m = parse text) ∨ (∃ nick login host, m = ofParts nick login host) →
          (changes.foldl User.learn (.new id m)).hostmask.Faithful := by
  refine ⟨fun text => ⟨(faithful_parse text).symm, raw_parse text⟩, agrees_parse_iff, ?_, ?_⟩
  · intro nick login host hcolon hbang hat hlogin
    exact parts_render host hcolon hbang hat hlogin
  · intro id m changes hm
    apply User.faithful_foldl_learn
    rcases hm with ⟨text, rfl⟩ | ⟨nick, login, host, rfl⟩
    · exact faithful_parse text
    · exact faithful_ofParts nick login host

/-- Parts with separators in them that end nothing, and a user who is seen again and renamed. -/
theorem reads_as_written_separators :
    parse "a!b!c@d!e@f" = ofParts "a" (some "b!c") (some "d!e@f") ∧
      parse "@:@!" = ofParts "" none (some ":@!") ∧
      ([.seen (parse "alice!al@host"), .nick "bob@", .seen (parse "x@h!@")].foldl User.learn
        (.new ⟨1⟩ (parse ":!l"))).hostmask.raw = "bob@!al@h!@" := by
  obtain ⟨-, -, hback, hlearn⟩ := reads_as_written
  refine ⟨?_, ?_, ?_⟩
  · exact hback "a" (some "b!c") (some "d!e@f") (by decide) (by decide) (by decide) (by simp)
  · exact hback "" none (some ":@!") (by decide) (by decide) (by decide) (by simp)
  · have hfaithful := hlearn ⟨1⟩ (parse ":!l")
      [.seen (parse "alice!al@host"), .nick "bob@", .seen (parse "x@h!@")] (Or.inl ⟨_, rfl⟩)
    rw [hfaithful]
    decide +kernel

end Hostmask

end IrcClient
