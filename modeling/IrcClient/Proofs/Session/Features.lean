import IrcClient.Proofs.Isupport
import IrcClient.Proofs.Session.Handle
import IrcClient.Proofs.Session.Run
import IrcClient.Proofs.Store.Lookup
import Mathlib.Data.List.Forall2

/-!
# Features in several lines

Every line of feature tokens is applied on its own, by what it says and by what was said before. How
a server cuts its tokens into lines makes no difference all the same, as long as it does not repeat a
key.
-/

namespace IrcClient

/-- What a session goes by that a server settles with feature tokens. -/
@[ext]
structure Settings where
  info : ServerInfo
  caseMapping : CaseMapping
  channelPrefixes : String
  statusSymbols : String
  deriving DecidableEq

namespace Settings

/-- The settings after the tokens of one line. -/
def announced (t : Settings) (features : Isupport) : Settings where
  info := t.info.withFeatures features
  caseMapping :=
    if features.caseMapping?.isSome then (t.info.withFeatures features).caseMapping
    else t.caseMapping
  channelPrefixes := features.channelTypes?.getD t.channelPrefixes
  statusSymbols :=
    if features.status?.isSome || features.statusMessage?.isSome then
      (t.info.withFeatures features).targetSymbols
    else t.statusSymbols

variable {first second : Isupport}

/-- A line that says nothing about the case mapping leaves it as it was. -/
theorem caseMapping_announced_append (h : first.Apart second) (t : Settings) :
    (t.announced (first ++ second)).caseMapping =
      ((t.announced first).announced second).caseMapping := by
  simp only [announced, ServerInfo.withFeatures_append h, h.caseMapping?_append]
  cases hsecond : second.caseMapping? with
  | some name => simp
  | none =>
    have hkept : ((t.info.withFeatures first).withFeatures second).caseMapping =
        (t.info.withFeatures first).caseMapping := by
      simp [ServerInfo.withFeatures, hsecond]
    simp [hkept]

/-- The symbols in front of channel names depend on two keys, which may come in different lines. -/
theorem statusSymbols_announced_append (h : first.Apart second) (t : Settings) :
    (t.announced (first ++ second)).statusSymbols =
      ((t.announced first).announced second).statusSymbols := by
  simp only [announced, ServerInfo.withFeatures_append h, h.status?_append, h.statusMessage?_append,
    Option.isSome_or]
  by_cases hsecond : (second.status?.isSome || second.statusMessage?.isSome) = true
  · have hboth : ((second.status?.isSome || first.status?.isSome) ||
        (second.statusMessage?.isSome || first.statusMessage?.isSome)) = true := by
      simp only [Bool.or_eq_true] at hsecond ⊢
      exact hsecond.imp .inl .inl
    rw [if_pos hsecond, if_pos hboth]
  · rw [if_neg hsecond]
    simp only [Bool.or_eq_true, not_or, Bool.not_eq_true, Option.isSome_eq_false_iff,
      Option.isNone_iff_eq_none] at hsecond
    obtain ⟨hstatus, hmessage⟩ := hsecond
    have hkept : ((t.info.withFeatures first).withFeatures second).targetSymbols =
        (t.info.withFeatures first).targetSymbols := by
      simp [ServerInfo.withFeatures, ServerInfo.targetSymbols, hstatus, hmessage]
    simp [hstatus, hmessage, hkept]

/-- Tokens on two lines settle what they would settle on one. -/
theorem announced_append (h : first.Apart second) (t : Settings) :
    t.announced (first ++ second) = (t.announced first).announced second := by
  have hprefixes : (t.announced (first ++ second)).channelPrefixes =
      ((t.announced first).announced second).channelPrefixes := by
    simp [announced, h.channelTypes?_append]
  exact Settings.ext (ServerInfo.withFeatures_append h t.info) (caseMapping_announced_append h t)
    hprefixes (statusSymbols_announced_append h t)

theorem announced_nothing (t : Settings) : t.announced (Isupport.ofTokens []) = t := by
  have hinfo : t.info.withFeatures (Isupport.ofTokens []) = t.info := by
    have hentries : t.info.withFeatures (Isupport.ofTokens []) =
        { t.info with features := t.info.features ++ [] } := rfl
    rw [hentries, List.append_nil]
  exact Settings.ext hinfo rfl rfl rfl

end Settings

/-! ## Cutting the tokens -/

/-- Whether no key comes twice among some tokens, in any case. -/
def DistinctKeys (tokens : List String) : Prop :=
  tokens.Pairwise fun a b =>
    Text.sameIgnoringCase (Isupport.parseToken a).1 (Isupport.parseToken b).1 = false

instance (tokens : List String) : Decidable (DistinctKeys tokens) :=
  inferInstanceAs (Decidable (tokens.Pairwise _))

theorem DistinctKeys.apart {first second : List String} (h : DistinctKeys (first ++ second)) :
    (Isupport.ofTokens first).Apart (Isupport.ofTokens second) := by
  have hapart := (List.pairwise_append.mp h).2.2
  intro a ha b hb
  obtain ⟨x, hx, rfl⟩ := List.mem_map.mp ha
  obtain ⟨y, hy, rfl⟩ := List.mem_map.mp hb
  exact hapart x (List.mem_of_mem_filter hx) y (List.mem_of_mem_filter hy)

/-- Lines of tokens settle one after the other what one line with all of them would. -/
theorem Settings.foldl_announced {groups : List (List String)} (h : DistinctKeys groups.flatten)
    (t : Settings) :
    groups.foldl (fun t group => t.announced (Isupport.ofTokens group)) t =
      t.announced (Isupport.ofTokens groups.flatten) := by
  induction groups generalizing t with
  | nil => exact t.announced_nothing.symm
  | cons group groups ih =>
    have hrest : DistinctKeys groups.flatten := (List.pairwise_append.mp h).2.1
    rw [List.foldl_cons, ih hrest, ← announced_append h.apart, ← Isupport.ofTokens_append]
    rfl

/-! ## Sessions -/

/-- Whether a line announces just these tokens. The recipient stands in front of them, and a remark
with a space in it behind them. -/
structure Line.Announces (line : Line) (tokens : List String) : Prop where
  verb : line.verb = .numeric 5
  params : ∃ recipient remark,
    line.params = recipient :: (tokens ++ [remark]) ∧ ' ' ∈ remark.toList

/-- Whether a text is read as such a line. -/
def Announcement (raw : String) (tokens : List String) : Prop :=
  ∃ line, Line.parse raw = .ok line ∧ line.Announces tokens

theorem Line.Announces.ofReply? {line : Line} {tokens : List String} (h : line.Announces tokens) :
    Isupport.ofReply? line.params = some (Isupport.ofTokens tokens) := by
  obtain ⟨recipient, remark, hparams, hspace⟩ := h.params
  simp [hparams, Isupport.ofReply?, Isupport.dropRemark, hspace]

namespace Session

variable {s : Session} {line : Line} {tokens : List String}

/-- What a session goes by at the moment. -/
def settings (s : Session) : Settings :=
  ⟨s.info, s.store.directory.caseMapping, s.store.channelPrefixes, s.store.directory.statusSymbols⟩

theorem settings_onFeatures (h : line.Announces tokens) :
    (s.onFeatures line).1.settings = s.settings.announced (Isupport.ofTokens tokens) := by
  unfold onFeatures
  rw [h.ofReply?]
  generalize Isupport.ofTokens tokens = features
  dsimp only [settings, Settings.announced]
  generalize s.info.withFeatures features = info
  have hprefixes (mapping : CaseMapping) :
      (s.store.withCaseMapping mapping).channelPrefixes = s.store.channelPrefixes := by
    obtain ⟨directory, heq⟩ := s.store.withCaseMapping_eq mapping
    rw [heq]
  have hmapping := s.store.caseMapping_withCaseMapping info.caseMapping
  have hsymbols := s.store.statusSymbols_withCaseMapping info.caseMapping
  -- Each of the three is set on its own, or left as it is.
  cases features.caseMapping?.isSome <;> cases features.channelTypes? <;>
    cases (features.status?.isSome || features.statusMessage?.isSome) <;>
    simp [Store.withChannelPrefixes, Store.withStatusSymbols, hprefixes, hmapping, hsymbols]

theorem settings_connect (s : Session) (nick : String) :
    (s.connect nick).1.settings = s.settings := by
  obtain ⟨nextId, nicks, users, htracked⟩ := Store.trackUser_eq (s := s.store) (.ofNick nick)
  simp only [connect, settings, htracked, Store.withSelf]

/-- The line is let pass by the registration, or it is the welcome. -/
theorem register_of_announces (h : line.Announces tokens) :
    ∃ t first, s.register line = (t, first, false) ∧ t.settings = s.settings := by
  by_cases hphase : s.registration.phase = .waiting
  · have hfeed := Registration.feed_of_welcomes hphase ⟨5, h.verb, by decide⟩
    rw [register, if_pos hphase, hfeed]
    exact ⟨_, _, rfl, settings_connect _ _⟩
  · rw [register, if_neg hphase]
    exact ⟨s, [], rfl, rfl⟩

/-- Whatever else it does, a line of tokens settles what the tokens say. -/
theorem settings_handleLine {raw : String} (h : Announcement raw tokens) (s : Session)
    (clock : Clock) :
    (s.handleLine clock raw).1.settings = s.settings.announced (Isupport.ofTokens tokens) := by
  obtain ⟨line, hparse, hannounces⟩ := h
  obtain ⟨t, first, hregister, hkept⟩ := s.register_of_announces hannounces
  have hping : line.verb ≠ .ping := by simp [hannounces.verb]
  have hline : (s.handleLine clock raw).1 = (t.onFeatures line).1 := by
    simp only [handleLine, hparse, handle, if_neg hping, hregister]
    simp only [dispatch, hannounces.verb]
    rfl
  rw [hline, settings_onFeatures hannounces, hkept]

theorem settings_run {inputs : List (Clock × String)} {groups : List (List String)}
    (h : List.Forall₂ (fun input tokens => Announcement input.2 tokens) inputs groups)
    (s : Session) :
    (s.run (inputs.map fun input => .line input.1 input.2)).settings =
      groups.foldl (fun t tokens => t.announced (Isupport.ofTokens tokens)) s.settings := by
  induction h generalizing s with
  | nil => rfl
  | @cons input tokens inputs groups hfirst _ ih =>
    rw [List.foldl_cons, ← settings_handleLine hfirst s input.1, ← ih]
    rfl

/-- However a server cuts its feature tokens into lines, a session comes to know the same of it, and
goes by the same case mapping, channel types and status symbols, as if all had come in one line. -/
theorem features_cut_anywhere (s : Session) {tokens : List String} (hkeys : DistinctKeys tokens)
    {whole : String} (hwhole : Announcement whole tokens) {groups : List (List String)}
    (hcut : groups.flatten = tokens) {inputs : List (Clock × String)}
    (hparts : List.Forall₂ (fun input group => Announcement input.2 group) inputs groups)
    (clock : Clock) :
    (s.run (inputs.map fun input => .line input.1 input.2)).settings =
      (s.handleLine clock whole).1.settings := by
  subst hcut
  rw [settings_run hparts, settings_handleLine hwhole, Settings.foldl_announced hkeys]

/-- The status symbols come before the ranks, a line says nothing, and the first line is the
welcome. -/
theorem features_cut_anywhere_in_three :
    let clock : Clock := ⟨⟨0, 0⟩, ""⟩
    let s := opened (ClientConfig.standard "irc.example.net" "bot")
    let t := s.run [.line clock ":irc 005 bot STATUSMSG=@ CASEMAPPING=ascii :are known",
      .line clock ":irc 005 bot :are known",
      .line clock ":irc 005 bot PREFIX=(ov)@+ EXCEPTS :are known"]
    t.settings = (s.handleLine clock
        ":irc 005 bot STATUSMSG=@ CASEMAPPING=ascii PREFIX=(ov)@+ EXCEPTS :are known").1.settings ∧
      t.info = {
        caseMapping := .ascii
        statusMessage := some "@"
        statusSymbols := [('@', some .op), ('+', some .voice)]
        features := [("STATUSMSG", some "@"), ("CASEMAPPING", some "ascii"),
          ("PREFIX", some "(ov)@+"), ("EXCEPTS", none)] } ∧
      t.store.directory.caseMapping = .ascii ∧ t.store.channelPrefixes = "#&" ∧
      t.store.directory.statusSymbols = "@" := by
  intro clock s t
  have hannouncement {raw : String} {line : Line} {tokens : List String}
      (hparse : Line.parse raw = .ok line) (hverb : line.verb = .numeric 5)
      (hparams : line.params = "bot" :: (tokens ++ ["are known"])) : Announcement raw tokens :=
    ⟨line, hparse, hverb, "bot", "are known", hparams, by decide⟩
  have hwhole : Announcement
      ":irc 005 bot STATUSMSG=@ CASEMAPPING=ascii PREFIX=(ov)@+ EXCEPTS :are known"
      ["STATUSMSG=@", "CASEMAPPING=ascii", "PREFIX=(ov)@+", "EXCEPTS"] :=
    hannouncement rfl rfl rfl
  have hfirst : Announcement ":irc 005 bot STATUSMSG=@ CASEMAPPING=ascii :are known"
      ["STATUSMSG=@", "CASEMAPPING=ascii"] :=
    hannouncement rfl rfl rfl
  have hsecond : Announcement ":irc 005 bot :are known" [] := hannouncement rfl rfl rfl
  have hthird : Announcement ":irc 005 bot PREFIX=(ov)@+ EXCEPTS :are known"
      ["PREFIX=(ov)@+", "EXCEPTS"] :=
    hannouncement rfl rfl rfl
  have hparts : List.Forall₂ (fun input group => Announcement input.2 group)
      [(clock, _), (clock, _), (clock, _)] _ :=
    .cons hfirst (.cons hsecond (.cons hthird .nil))
  exact ⟨features_cut_anywhere s (by decide) hwhole rfl hparts clock, by decide +kernel⟩

end Session

end IrcClient
