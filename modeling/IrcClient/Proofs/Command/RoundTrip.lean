import IrcClient.Proofs.Line.Written

/-!
# Commands are read back as they were meant

The line of a command is parsed to the verb and the parameters that the command stands for, as long as
the parameters that are written without a colon can do without one.
-/

namespace IrcClient.Command

/-- The verb and the parameters that a command stands for. Modes with their arguments and ready-made
lines are texts of their own. -/
def form? : Command → Option (String × List String)
  | .pass secret => some ("PASS", [secret])
  | .nick name => some ("NICK", [name])
  | .user username realname => some ("USER", [username, "0", "*", realname])
  | .webIrc secret gateway host ip => some ("WEBIRC", [secret, gateway, host, ip])
  | .capList => some ("CAP", ["LS", "302"])
  | .capRequest caps => some ("CAP", ["REQ", spaced caps])
  | .capEnd => some ("CAP", ["END"])
  | .authenticate payload => some ("AUTHENTICATE", [payload])
  | .startTls => some ("STARTTLS", [])
  | .quit reason => some ("QUIT", reason.toList)
  | .join channel key => some ("JOIN", channel :: key.toList)
  | .part channel reason => some ("PART", channel :: reason.toList)
  | .mode target none => some ("MODE", [target])
  | .mode _ (some _) => none
  | .kick channel name reason => some ("KICK", channel :: name :: reason.toList)
  | .topic channel text => some ("TOPIC", channel :: text.toList)
  | .invite name channel => some ("INVITE", [name, channel])
  | .privmsg target text => some ("PRIVMSG", [target, text])
  | .notice target text => some ("NOTICE", [target, text])
  | .ctcp target verb args => some ("PRIVMSG", [target, Ctcp.encode verb args])
  | .ctcpReply target verb args => some ("NOTICE", [target, Ctcp.encode verb args])
  | .action target text => some ("PRIVMSG", [target, Ctcp.encode "ACTION" (some text)])
  | .who mask => some ("WHO", [mask])
  | .whois name => some ("WHOIS", [name])
  | .list channel => some ("LIST", channel.toList)
  | .away message => some ("AWAY", message.toList)
  | .ping token => some ("PING", [token])
  | .pong token => some ("PONG", [token])
  | .raw _ => none

/-- The parameters that never get a colon: all but the last, and the target whose modes are asked
for. -/
def bare : Command → List String
  | .mode target none => [target]
  | command => ((command.form?.map Prod.snd).getD []).dropLast

/-! ## Parameters on a line -/

theorem needsColon_eq_false_iff {param : String} :
    needsColon param = false ↔ Line.IsMiddle param.toList := by
  unfold needsColon
  split
  · rename_i hempty
    simpa using fun h : Line.IsMiddle param.toList => h.nonempty hempty
  · rename_i c cs hcons
    rw [hcons]
    constructor
    · intro h
      simp only [Bool.or_eq_false_iff, beq_eq_false_iff_ne, List.contains_eq_mem,
        decide_eq_false_iff_not] at h
      exact ⟨List.cons_ne_nil c cs, h.2, fun hcolon => h.1 (Option.some.inj hcolon)⟩
    · intro h
      have hcolon : c ≠ ':' := fun heq => h.plain (congrArg some heq)
      simpa [hcolon] using h.spaceless

theorem toList_leading (verb : String) (params : List String) :
    (leading verb params).toList =
      verb.toList ++ (params.map String.toList).flatMap (' ' :: ·) := by
  unfold leading
  induction params generalizing verb with
  | nil => simp
  | cons param params ih => simp [ih]

theorem plain_eq (verb : String) (middle : List String) (last : String) :
    plain verb middle last =
      if needsColon last then freeform verb middle last else leading verb (middle ++ [last]) := by
  unfold plain freeform
  split
  · rfl
  · rw [leading, leading, List.foldl_append, List.foldl_cons, List.foldl_nil]

/-! ## Reading what was written -/

/-- A verb as it is reported: ASCII letters and digits in upper case. -/
structure IsVerb (verb : String) : Prop where
  nonempty : verb.toList ≠ []
  alphanum : ∀ c ∈ verb.toList, c.isAlphanum = true
  upper : verb.toList.map Char.toUpper = verb.toList

instance (verb : String) : Decidable (IsVerb verb) :=
  decidable_of_iff (verb.toList ≠ [] ∧ verb.toList.all Char.isAlphanum = true ∧
      verb.toList.map Char.toUpper = verb.toList)
    ⟨fun h => ⟨h.1, List.all_eq_true.mp h.2.1, h.2.2⟩,
      fun h => ⟨h.nonempty, List.all_eq_true.mpr h.alphanum, h.upper⟩⟩

/-- A line without tags and source. -/
def lineOf (raw verb : String) (params : List String) : Line :=
  { raw := raw, tags := [], source := none, command := verb, params := params }

variable {verb : String}

theorem IsVerb.unbroken (hverb : IsVerb verb) : LineFormatter.Unbroken verb.toList :=
  ⟨fun hmem => absurd (hverb.alphanum _ hmem) (by decide),
    fun hmem => absurd (hverb.alphanum _ hmem) (by decide)⟩

theorem unbroken_written {params : List String}
    (h : ∀ param ∈ params, LineFormatter.Unbroken param.toList) :
    LineFormatter.Unbroken ((params.map String.toList).flatMap (' ' :: ·)) := by
  simp only [LineFormatter.Unbroken, List.mem_flatMap, List.mem_map, List.mem_cons]
  constructor
  · rintro ⟨-, ⟨param, hparam, rfl⟩, hspace | hmem⟩
    · exact absurd hspace (by decide)
    · exact (h param hparam).1 hmem
  · rintro ⟨-, ⟨param, hparam, rfl⟩, hspace | hmem⟩
    · exact absurd hspace (by decide)
    · exact (h param hparam).2 hmem

theorem parse_leading (hverb : IsVerb verb) {params : List String}
    (hparams : ∀ param ∈ params, Line.IsMiddle param.toList)
    (hunbroken : ∀ param ∈ params, LineFormatter.Unbroken param.toList) :
    Line.parse (leading verb params) = .ok (lineOf (leading verb params) verb params) := by
  have hline := toList_leading verb params
  have hrest : Line.Begins ((params.map String.toList).flatMap (' ' :: ·)) := by
    simpa using Line.begins_written (Or.inl rfl) (params.map String.toList)
  have hsplit : Line.splitParams ((params.map String.toList).flatMap (' ' :: ·)) =
      params.map String.toList := by
    simpa [Line.splitParams] using
      Line.splitParams_written (Or.inl rfl) (List.forall_mem_map.mpr hparams)
  have hwhole : LineFormatter.Unbroken (leading verb params).toList := by
    rw [hline, LineFormatter.unbroken_append]
    exact ⟨hverb.unbroken, unbroken_written hunbroken⟩
  rw [Line.parse_command hrest hverb.nonempty hverb.alphanum hline hwhole, hverb.upper, hsplit]
  simp [lineOf]

theorem parse_freeform (hverb : IsVerb verb) {middle : List String} {text : String}
    (hmiddle : ∀ param ∈ middle, Line.IsMiddle param.toList)
    (hunbroken : ∀ param ∈ middle ++ [text], LineFormatter.Unbroken param.toList) :
    Line.parse (freeform verb middle text) =
      .ok (lineOf (freeform verb middle text) verb (middle ++ [text])) := by
  have htext : Line.Begins (' ' :: ':' :: text.toList) := Or.inr rfl
  have hline : (freeform verb middle text).toList = verb.toList ++
      ((middle.map String.toList).flatMap (' ' :: ·) ++ ' ' :: ':' :: text.toList) := by
    simp [freeform, toList_leading]
  have hrest := Line.begins_written htext (middle.map String.toList)
  have hsplit : Line.splitParams
      ((middle.map String.toList).flatMap (' ' :: ·) ++ ' ' :: ':' :: text.toList) =
      (middle ++ [text]).map String.toList := by
    rw [Line.splitParams_written htext (List.forall_mem_map.mpr hmiddle), Line.splitParams_trailing,
      List.map_append, List.map_singleton]
  have hwhole : LineFormatter.Unbroken (freeform verb middle text).toList := by
    obtain ⟨hmiddle, htext⟩ := List.forall_mem_append.mp hunbroken
    rw [hline, LineFormatter.unbroken_append, LineFormatter.unbroken_append]
    refine ⟨hverb.unbroken, unbroken_written hmiddle, ?_⟩
    simpa [LineFormatter.Unbroken] using htext text (List.mem_singleton_self text)
  rw [Line.parse_command hrest hverb.nonempty hverb.alphanum hline hwhole, hverb.upper, hsplit]
  simp [lineOf]

theorem parse_plain (hverb : IsVerb verb) {middle : List String} {last : String}
    (hmiddle : ∀ param ∈ middle, Line.IsMiddle param.toList)
    (hunbroken : ∀ param ∈ middle ++ [last], LineFormatter.Unbroken param.toList) :
    Line.parse (plain verb middle last) =
      .ok (lineOf (plain verb middle last) verb (middle ++ [last])) := by
  rw [plain_eq]
  split
  · exact parse_freeform hverb hmiddle hunbroken
  · rename_i hcolon
    have hlast : Line.IsMiddle last.toList :=
      needsColon_eq_false_iff.mp (Bool.eq_false_iff.mpr hcolon)
    refine parse_leading hverb (List.forall_mem_append.mpr ⟨hmiddle, ?_⟩) hunbroken
    exact List.forall_mem_singleton.mpr hlast

/-- The ways in which a command is written, with the parameters that are bare. -/
inductive Writing (line verb : String) : List String → List String → Prop where
  | leading {params : List String} (hline : line = leading verb params) :
      Writing line verb params params
  | plain {middle : List String} {last : String} (hline : line = plain verb middle last) :
      Writing line verb middle (middle ++ [last])
  | freeform {middle : List String} {last : String} (hline : line = freeform verb middle last) :
      Writing line verb middle (middle ++ [last])

theorem writing_render {command : Command} {params : List String}
    (hform : command.form? = some (verb, params)) :
    IsVerb verb ∧ Writing command.render verb command.bare params := by
  cases command with
  | pass | nick | webIrc | authenticate | invite | who | whois | ping | pong =>
    obtain ⟨rfl, rfl⟩ := Prod.mk.inj (Option.some.inj hform)
    exact ⟨by decide, .plain rfl⟩
  | user | capRequest | privmsg | notice | ctcp | ctcpReply | action =>
    obtain ⟨rfl, rfl⟩ := Prod.mk.inj (Option.some.inj hform)
    exact ⟨by decide, .freeform rfl⟩
  | capList =>
    obtain ⟨rfl, rfl⟩ := Prod.mk.inj (Option.some.inj hform)
    exact ⟨by decide, .plain (by decide)⟩
  | capEnd =>
    obtain ⟨rfl, rfl⟩ := Prod.mk.inj (Option.some.inj hform)
    exact ⟨by decide, .plain (by decide)⟩
  | startTls =>
    obtain ⟨rfl, rfl⟩ := Prod.mk.inj (Option.some.inj hform)
    exact ⟨by decide, .leading rfl⟩
  | join _ key =>
    obtain ⟨rfl, rfl⟩ := Prod.mk.inj (Option.some.inj hform)
    cases key with
    | none => exact ⟨by decide, .plain rfl⟩
    | some _ => exact ⟨by decide, .plain rfl⟩
  | list channel =>
    obtain ⟨rfl, rfl⟩ := Prod.mk.inj (Option.some.inj hform)
    cases channel with
    | none => exact ⟨by decide, .leading rfl⟩
    | some _ => exact ⟨by decide, .plain rfl⟩
  | part _ reason | kick _ _ reason | topic _ reason =>
    obtain ⟨rfl, rfl⟩ := Prod.mk.inj (Option.some.inj hform)
    cases reason with
    | none => exact ⟨by decide, .plain rfl⟩
    | some _ => exact ⟨by decide, .freeform rfl⟩
  | quit reason | away reason =>
    obtain ⟨rfl, rfl⟩ := Prod.mk.inj (Option.some.inj hform)
    cases reason with
    | none => exact ⟨by decide, .leading rfl⟩
    | some _ => exact ⟨by decide, .freeform rfl⟩
  | mode target modes =>
    cases modes with
    | none =>
      obtain ⟨rfl, rfl⟩ := Prod.mk.inj (Option.some.inj hform)
      exact ⟨by decide, .leading rfl⟩
    | some modes => cases hform
  | raw => cases hform

theorem form?_isSome {command : Command}
    (hmodes : ∀ target modes, command ≠ .mode target (some modes))
    (hraw : ∀ line, command ≠ .raw line) : ∃ verb params, command.form? = some (verb, params) := by
  cases command with
  | mode target modes =>
    cases modes with
    | none => exact ⟨_, _, rfl⟩
    | some modes => exact absurd rfl (hmodes target modes)
  | raw line => exact absurd rfl (hraw line)
  | _ => exact ⟨_, _, rfl⟩

/-- The line of a command is read back to the verb and the parameters that it stands for, whatever its
last parameter is. Only the target whose modes are asked for gets no colon though it is the last. -/
theorem parse_render {command : Command}
    (hmodes : ∀ target modes, command ≠ .mode target (some modes))
    (hraw : ∀ line, command ≠ .raw line)
    (hbare : ∀ param ∈ command.bare, Line.IsMiddle param.toList) :
    ∃ verb params, command.form? = some (verb, params) ∧
      ((∀ param ∈ params, LineFormatter.Unbroken param.toList) →
        Line.parse command.render = .ok (lineOf command.render verb params)) := by
  obtain ⟨verb, params, hform⟩ := form?_isSome hmodes hraw
  refine ⟨verb, params, hform, ?_⟩
  intro hunbroken
  obtain ⟨hverb, hwriting⟩ := writing_render hform
  generalize command.render = line at hwriting ⊢
  generalize command.bare = middle at hwriting hbare
  cases hwriting with
  | leading hline => exact hline ▸ parse_leading hverb hbare hunbroken
  | plain hline => exact hline ▸ parse_plain hverb hbare hunbroken
  | freeform hline => exact hline ▸ parse_freeform hverb hbare hunbroken

/-- A kick whose reason starts with a colon and holds spaces. -/
theorem parse_render_kick :
    (∀ target modes, Command.kick "#c" "eve" (some ": go now") ≠ .mode target (some modes)) ∧
      (∀ line, Command.kick "#c" "eve" (some ": go now") ≠ .raw line) ∧
      (∀ param ∈ (Command.kick "#c" "eve" (some ": go now")).bare, Line.IsMiddle param.toList) ∧
      Line.parse "KICK #c eve :: go now" =
        .ok (lineOf "KICK #c eve :: go now" "KICK" ["#c", "eve", ": go now"]) := by
  have hbare : ∀ param ∈ (Command.kick "#c" "eve" (some ": go now")).bare,
      Line.IsMiddle param.toList := by decide
  refine ⟨by simp, by simp, hbare, ?_⟩
  obtain ⟨verb, params, hform, hparse⟩ := parse_render (by simp) (by simp) hbare
  obtain ⟨rfl, rfl⟩ := Prod.mk.inj (Option.some.inj hform)
  exact hparse (by decide)

/-- A target with a space is read back as two parameters, though it is the last one. -/
theorem spaced_mode_target :
    (Command.mode "#a b" none).form? = some ("MODE", ["#a b"]) ∧
      LineFormatter.Unbroken "#a b".toList ∧
      Line.parse (Command.mode "#a b" none).render =
        .ok (lineOf "MODE #a b" "MODE" ["#a", "b"]) ∧
      Line.parse (Command.mode "#a b" none).render ≠
        .ok (lineOf "MODE #a b" "MODE" ["#a b"]) := by
  decide

end IrcClient.Command
