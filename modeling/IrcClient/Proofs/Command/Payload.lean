import IrcClient.Proofs.Command.Length
import IrcClient.Proofs.Command.RoundTrip
import IrcClient.Proofs.Ctcp

/-!
# Payloads within the limit

A payload goes out in one line, which is cut off where it is too long. Then the delimiter at its end
is lost, and what arrives is an ordinary message, unless the cut comes right behind a delimiter among
the arguments.
-/

namespace IrcClient

/-- A payload and the message that it goes out in. -/
structure Wrapping where
  word : String
  target : String
  verb : String
  args : Option String

/-- What a command sends to another client. -/
def Command.wrapping? : Command → Option Wrapping
  | .ctcp target verb args => some ⟨"PRIVMSG", target, verb, args⟩
  | .ctcpReply target verb args => some ⟨"NOTICE", target, verb, args⟩
  | .action target text => some ⟨"PRIVMSG", target, "ACTION", some text⟩
  | _ => none

namespace Wrapping

open LineFormatter Text

/-- A target and a verb that can be told apart from what stands around them. -/
structure Sendable (w : Wrapping) : Prop where
  target : Line.IsMiddle w.target.toList
  target_unbroken : Unbroken w.target.toList
  verb : Ctcp.IsVerb w.verb
  verb_unbroken : Unbroken w.verb.toList

instance (w : Wrapping) : Decidable w.Sendable :=
  decidable_of_iff (Line.IsMiddle w.target.toList ∧ Unbroken w.target.toList ∧
      Ctcp.IsVerb w.verb ∧ Unbroken w.verb.toList)
    ⟨fun h => ⟨h.1, h.2.1, h.2.2.1, h.2.2.2⟩,
      fun h => ⟨h.target, h.target_unbroken, h.verb, h.verb_unbroken⟩⟩

/-- The arguments as they are sent, without line breaks. -/
def sentArgs (w : Wrapping) : Option String :=
  w.args.map fun args => String.ofList (sanitize args.toList)

/-- The payload as it would be sent without a limit. -/
def text (w : Wrapping) : String := Ctcp.encode w.verb w.sentArgs

/-- What stands in front of the payload. -/
def head (w : Wrapping) : String := w.word ++ " " ++ w.target ++ " :"

/-- Whether a line has room for the payload without its arguments. -/
def Fits (w : Wrapping) (f : LineFormatter) : Prop :=
  byteLength (w.head ++ Ctcp.encode w.verb none).toList ≤ f.bodyLimit

instance (w : Wrapping) (f : LineFormatter) : Decidable (w.Fits f) :=
  inferInstanceAs (Decidable (_ ≤ _))

/-- What a line has room for of the payload. -/
def kept (w : Wrapping) (f : LineFormatter) : String :=
  String.ofList (takeBytes (f.bodyLimit - byteLength w.head.toList) w.text.toList)

variable {w : Wrapping} {f : LineFormatter} {command : Command}

theorem render_of_wrapping? (h : command.wrapping? = some w) :
    Command.IsVerb w.word ∧ command.render = w.head ++ Ctcp.encode w.verb w.args := by
  have hmessage : Command.IsVerb "PRIVMSG" := by decide
  have hnotice : Command.IsVerb "NOTICE" := by decide
  cases command with
  | ctcp | action =>
    cases h
    exact ⟨hmessage, rfl⟩
  | ctcpReply =>
    cases h
    exact ⟨hnotice, rfl⟩
  | _ => cases h

theorem splitHead?_of_wrapping? (h : command.wrapping? = some w) :
    f.splitHead? command = none := by
  cases command with
  | ctcp | ctcpReply | action => rfl
  | _ => cases h

/-! ## The line -/

theorem sanitize_encode {verb : String} (h : Unbroken verb.toList) (args : Option String) :
    sanitize (Ctcp.encode verb args).toList =
      (Ctcp.encode verb (args.map fun args => String.ofList (sanitize args.toList))).toList := by
  have hdelimiter : sanitize "\x01".toList = "\x01".toList := by decide
  have hspace : sanitize " ".toList = " ".toList := by decide
  cases args with
  | none =>
    simp only [Option.map_none, Ctcp.encode, String.toList_append, sanitize_append,
      sanitize_of_unbroken h, hdelimiter]
  | some args =>
    simp only [Option.map_some, Ctcp.encode, String.toList_append, String.toList_ofList,
      sanitize_append, sanitize_of_unbroken h, hdelimiter, hspace]

theorem Sendable.unbroken_text (h : w.Sendable) : Unbroken w.text.toList := by
  rw [text, sentArgs, ← sanitize_encode h.verb_unbroken]
  exact unbroken_sanitize _

theorem sanitize_render (h : command.wrapping? = some w) (hsendable : w.Sendable) :
    sanitize command.render.toList = w.head.toList ++ w.text.toList := by
  obtain ⟨hword, hrender⟩ := render_of_wrapping? h
  have hhead : Unbroken w.head.toList := by
    simp only [head, String.toList_append, unbroken_append]
    exact ⟨⟨⟨hword.unbroken, by decide⟩, hsendable.target_unbroken⟩, by decide⟩
  rw [hrender, String.toList_append, sanitize_append, sanitize_of_unbroken hhead,
    sanitize_encode hsendable.verb_unbroken]
  rfl

theorem Fits.head_le (h : w.Fits f) : byteLength w.head.toList ≤ f.bodyLimit := by
  rw [Fits, String.toList_append, byteLength_append] at h
  omega

theorem format_eq (h : command.wrapping? = some w) (hsendable : w.Sendable) (hfits : w.Fits f) :
    f.format command = [w.head ++ w.kept f] := by
  rw [format_of_splitHead?_none (splitHead?_of_wrapping? h), formatWhole, truncate,
    String.toList_ofList, sanitize_render h hsendable, takeBytes_append_of_le hfits.head_le,
    String.ofList_append, String.ofList_toList]
  rfl

theorem parse_line (h : command.wrapping? = some w) (hsendable : w.Sendable) (f : LineFormatter) :
    Line.parse (w.head ++ w.kept f) =
      .ok (Command.lineOf (w.head ++ w.kept f) w.word [w.target, w.kept f]) := by
  have hkept : Unbroken (w.kept f).toList := by
    rw [kept, String.toList_ofList]
    exact hsendable.unbroken_text.of_subset (takeBytes_subset _ _)
  have hmiddle : ∀ param ∈ [w.target], Line.IsMiddle param.toList := by
    simpa using hsendable.target
  have hunbroken : ∀ param ∈ [w.target] ++ [w.kept f], Unbroken param.toList := by
    simpa using ⟨hsendable.target_unbroken, hkept⟩
  have hline : w.head ++ w.kept f = Command.freeform w.word [w.target] (w.kept f) := rfl
  rw [hline]
  exact Command.parse_freeform (render_of_wrapping? h).1 hmiddle hunbroken

/-! ## The payload -/

/-- What is kept is the longest start that has room. -/
theorem isPrefix_kept_iff (hfits : w.Fits f) {start : List Char} :
    start <+: (w.kept f).toList ↔
      start <+: w.text.toList ∧ byteLength (w.head.toList ++ start) ≤ f.bodyLimit := by
  have hhead := hfits.head_le
  rw [kept, String.toList_ofList, prefix_takeBytes_iff, byteLength_append]
  exact and_congr_right fun _ => ⟨fun h => by omega, fun h => by omega⟩

theorem kept_eq_text_iff (hfits : w.Fits f) :
    w.kept f = w.text ↔ byteLength (w.head ++ w.text).toList ≤ f.bodyLimit := by
  have hhead := hfits.head_le
  rw [String.toList_append, byteLength_append]
  constructor
  · intro hkept
    have hlength := ((isPrefix_kept_iff hfits).mp (List.prefix_refl _)).2
    rw [hkept, byteLength_append] at hlength
    exact hlength
  · intro hroom
    rw [kept, takeBytes_of_le (by omega), String.ofList_toList]

/-- The verb is never cut off, nor the space behind it. -/
theorem exists_toList_kept (hfits : w.Fits f) {args : String} (hargs : w.args = some args) :
    ∃ start, (w.kept f).toList = Ctcp.delimiter :: (w.verb.toList ++ ' ' :: start) := by
  have htext : w.text.toList = Ctcp.delimiter :: (w.verb.toList ++ [' ']) ++
      (sanitize args.toList ++ [Ctcp.delimiter]) := by
    simp [text, sentArgs, hargs, Ctcp.toList_encode]
  -- The space is as wide as the delimiter that it takes the place of.
  have hroom : byteLength (Ctcp.delimiter :: (w.verb.toList ++ [' '])) ≤
      f.bodyLimit - byteLength w.head.toList := by
    have hspace : byteLength [' '] = byteLength [Ctcp.delimiter] := by decide
    rw [Fits, String.toList_append, byteLength_append, Ctcp.toList_encode] at hfits
    simp only [Option.map_none, Option.getD_none, List.append_nil, byteLength,
      byteLength_append] at hfits hspace ⊢
    omega
  rw [kept, String.toList_ofList, htext, takeBytes_append_of_le hroom, List.cons_append,
    List.append_assoc, List.singleton_append]
  exact ⟨_, rfl⟩

/-- What is kept of a payload is one with the same verb if it ends as one does. -/
theorem exists_kept_eq_encode (hfits : w.Fits f)
    (hclosed : (w.kept f).toList.getLast? = some Ctcp.delimiter) :
    ∃ args, w.kept f = Ctcp.encode w.verb args := by
  cases hargs : w.args with
  | none =>
    have htext : w.text = Ctcp.encode w.verb none := by
      rw [text, sentArgs, hargs, Option.map_none]
    have hwhole : w.kept f = w.text := by
      rw [kept_eq_text_iff hfits, htext]
      exact hfits
    exact ⟨none, hwhole.trans htext⟩
  | some args =>
    obtain ⟨start, hstart⟩ := exists_toList_kept hfits hargs
    obtain ⟨more, hmore⟩ := Ctcp.exists_args_of_closed hstart hclosed
    exact ⟨some more, hmore⟩

/-- A payload goes out in one line, with a space for each line break among the arguments, and the line
is read as the message that it is. Its text is the longest start of the payload that has room. It is
taken for a payload, and then for one with the same verb, if and only if it ends in the delimiter, as
it does where the whole payload has room. -/
theorem payload_iff_closed (h : command.wrapping? = some w) (hsendable : w.Sendable)
    (hfits : w.Fits f) :
    f.format command = [w.head ++ w.kept f] ∧
    (∀ start, start <+: (w.kept f).toList ↔
      start <+: w.text.toList ∧ byteLength (w.head.toList ++ start) ≤ f.bodyLimit) ∧
    (∃ line, Line.parse (w.head ++ w.kept f) = .ok line ∧ line.command = w.word ∧
      line.params = [w.target, w.kept f]) ∧
    ((Ctcp.parse? (w.kept f)).isSome ↔ (w.kept f).toList.getLast? = some Ctcp.delimiter) ∧
    (∀ payload, Ctcp.parse? (w.kept f) = some payload → payload.verb = Ctcp.toldVerb w.verb) ∧
    (byteLength (w.head ++ w.text).toList ≤ f.bodyLimit →
      Ctcp.parse? (w.kept f) = some (Ctcp.ofVerb w.verb w.sentArgs)) := by
  obtain ⟨hclosed, hverb⟩ :=
    Ctcp.isSome_parse?_iff hsendable.verb (exists_kept_eq_encode hfits)
  refine ⟨format_eq h hsendable hfits, fun _ => isPrefix_kept_iff hfits,
    ⟨_, parse_line h hsendable f, rfl, rfl⟩, hclosed, hverb, ?_⟩
  intro hwhole
  rw [(kept_eq_text_iff hfits).mpr hwhole]
  exact Ctcp.parse?_encode hsendable.verb w.sentArgs

/-- The cut comes right behind a delimiter among the arguments. -/
theorem payload_iff_closed_at_cut :
    let f : LineFormatter := { maxLineLength := 22 }
    let w : Wrapping := ⟨"PRIVMSG", "#c", "ping", some "a\x01b c"⟩
    (Command.ctcp "#c" "ping" (some "a\x01b c")).wrapping? = some w ∧ w.Sendable ∧ w.Fits f ∧
      f.format (.ctcp "#c" "ping" (some "a\x01b c")) = ["PRIVMSG #c :\x01ping a\x01"] ∧
      ∃ payload, Ctcp.parse? "\x01ping a\x01" = some payload ∧ payload.verb = "PING" := by
  intro f w
  have hwrapping : (Command.ctcp "#c" "ping" (some "a\x01b c")).wrapping? = some w := rfl
  have hsendable : w.Sendable := by decide
  have hfits : w.Fits f := by decide
  have hkept : w.kept f = "\x01ping a\x01" := by decide
  have htold : Ctcp.toldVerb w.verb = "PING" := by decide
  obtain ⟨hformat, -, -, hclosed, hverb, -⟩ := payload_iff_closed hwrapping hsendable hfits
  rw [hkept] at hformat hclosed hverb
  rw [htold] at hverb
  obtain ⟨payload, hpayload⟩ := Option.isSome_iff_exists.mp (hclosed.mpr (by decide))
  exact ⟨hwrapping, hsendable, hfits, hformat, payload, hpayload, hverb payload hpayload⟩

/-- An action whose text is too long is no action any more, though there is room for one without
text. -/
theorem cut_action_lost :
    let f : LineFormatter := { maxLineLength := 25 }
    (∃ w, (Command.action "#c" "waves hello").wrapping? = some w ∧ w.Sendable ∧ w.Fits f) ∧
      f.format (.action "#c" "") = ["PRIVMSG #c :\x01ACTION \x01"] ∧
      f.format (.action "#c" "waves hello") = ["PRIVMSG #c :\x01ACTION wav"] ∧
      (Line.parse "PRIVMSG #c :\x01ACTION wav").toOption.map Line.params =
        some ["#c", "\x01ACTION wav"] ∧
      Ctcp.parse? "\x01ACTION wav" = none := by
  refine ⟨⟨_, rfl, ?_, ?_⟩, ?_, ?_, ?_, ?_⟩ <;> decide

end Wrapping

end IrcClient
