import IrcClient.Ctcp
import Mathlib.Tactic.SplitIfs

/-!
# Payloads are read back

A payload is a verb and perhaps arguments between delimiters, and there is only one way to read it so,
whatever the arguments hold. The two ways of writing one agree but for empty arguments, which do not
count.
-/

namespace IrcClient.Ctcp

/-- What a payload is, whatever its arguments are. -/
inductive Kind where
  | version
  | action
  | ping
  | time
  | finger
  | dcc
  | other
  deriving DecidableEq, Repr

def kind : Ctcp → Kind
  | .version _ => .version
  | .action _ => .action
  | .ping _ => .ping
  | .time _ => .time
  | .finger _ => .finger
  | .dcc _ => .dcc
  | .other _ _ => .other

/-- The verbs that have a kind of their own. -/
def knownVerbs : List String := ["VERSION", "ACTION", "PING", "TIME", "FINGER", "DCC"]

/-- A verb as it is told: in upper case if it is known then, and as it is written otherwise. -/
def toldVerb (verb : String) : String :=
  if Text.upper verb ∈ knownVerbs then Text.upper verb else verb

variable {verb text : String} {args : Option String} {payload : Ctcp}

theorem args_ofVerb (verb : String) (args : Option String) :
    (ofVerb verb args).args = args.getD "" := by
  unfold ofVerb
  dsimp only
  split_ifs <;> rfl

theorem verb_ofVerb (verb : String) (args : Option String) :
    (ofVerb verb args).verb = toldVerb verb := by
  unfold ofVerb toldVerb knownVerbs
  dsimp only
  split_ifs <;> simp_all [Ctcp.verb]

/-- The kind depends on the verb alone, and not on its case. -/
theorem kind_ofVerb_congr {other : String} (h : Text.upper verb = Text.upper other)
    (args more : Option String) : (ofVerb verb args).kind = (ofVerb other more).kind := by
  unfold ofVerb
  dsimp only
  rw [h]
  split_ifs <;> rfl

theorem upper_toldVerb (verb : String) : Text.upper (toldVerb verb) = Text.upper verb := by
  have hknown : ∀ known ∈ knownVerbs, Text.upper known = known := by decide
  unfold toldVerb
  split
  · rename_i h
    exact hknown _ h
  · rfl

theorem toldVerb_toldVerb (verb : String) : toldVerb (toldVerb verb) = toldVerb verb := by
  have hupper := upper_toldVerb verb
  generalize hagain : toldVerb verb = again at hupper ⊢
  rw [toldVerb, hupper, ← hagain, toldVerb]
  split <;> rfl

/-! ## Reading -/

/-- A verb that can be told from what follows it. -/
structure IsVerb (verb : String) : Prop where
  nonempty : verb ≠ ""
  spaceless : ' ' ∉ verb.toList

instance (verb : String) : Decidable (IsVerb verb) :=
  decidable_of_iff (verb ≠ "" ∧ ' ' ∉ verb.toList)
    ⟨fun h => ⟨h.1, h.2⟩, fun h => ⟨h.nonempty, h.spaceless⟩⟩

theorem IsVerb.told (h : IsVerb verb) : IsVerb (toldVerb verb) := by
  have hknown : ∀ known ∈ knownVerbs, IsVerb known := by decide
  unfold toldVerb
  split
  · rename_i hmem
    exact hknown _ hmem
  · exact h

theorem inner?_eq_some_iff {cs inner : List Char} :
    inner? cs = some inner ↔ cs = delimiter :: (inner ++ [delimiter]) := by
  unfold inner?
  constructor
  · intro h
    obtain ⟨rest, hhead, hlast⟩ := Option.bind_eq_some_iff.mp h
    cases cs with
    | nil => cases hhead
    | cons c cs =>
      simp only [Text.stripHead?, Option.ite_none_right_eq_some, Option.some.injEq] at hhead
      obtain ⟨rfl, rfl⟩ := hhead
      simp only [Text.stripLast?, Option.ite_none_right_eq_some, Option.some.injEq] at hlast
      obtain ⟨hend, rfl⟩ := hlast
      obtain ⟨front, rfl⟩ := List.getLast?_eq_some_iff.mp hend
      rw [List.dropLast_concat]
  · rintro rfl
    simp [Text.stripHead?, Text.stripLast?]

theorem toList_encode (verb : String) (args : Option String) :
    (encode verb args).toList = delimiter ::
      ((verb.toList ++ (args.map (' ' :: ·.toList)).getD []) ++ [delimiter]) := by
  cases args <;> simp [encode, delimiter]

theorem getLast?_encode (verb : String) (args : Option String) :
    (encode verb args).toList.getLast? = some delimiter := by
  rw [toList_encode, ← List.cons_append, List.getLast?_concat]

theorem parse?_encode (h : IsVerb verb) (args : Option String) :
    parse? (encode verb args) = some (ofVerb verb args) := by
  have hinner := inner?_eq_some_iff.mpr (toList_encode verb args)
  have hnonempty : verb.toList.isEmpty = false := by
    simpa using h.nonempty
  unfold parse?
  rw [hinner]
  cases args with
  | none =>
    have hcut : Text.cutAt ' ' verb.toList = none := Text.cutAt_eq_none_iff.mpr h.spaceless
    simp [hcut, hnonempty]
  | some args =>
    have hcut :
        Text.cutAt ' ' (verb.toList ++ ' ' :: args.toList) = some (verb.toList, args.toList) :=
      Text.cutAt_eq_some_iff.mpr ⟨rfl, h.spaceless⟩
    simp [hcut, hnonempty]

/-- What is read is what was written, and nothing else is read so. -/
theorem parse?_eq_some_iff : parse? text = some payload ↔
    ∃ verb args, IsVerb verb ∧ text = encode verb args ∧ payload = ofVerb verb args := by
  constructor
  · intro h
    unfold parse? at h
    split at h
    · cases h
    · rename_i inner hinner
      have htext := inner?_eq_some_iff.mp hinner
      cases hcut : Text.cutAt ' ' inner with
      | none =>
        simp only [hcut, Option.ite_none_left_eq_some, Option.some.injEq] at h
        obtain ⟨hnonempty, rfl⟩ := h
        have hverb : IsVerb (String.ofList inner) := by
          refine ⟨?_, ?_⟩
          · simpa using hnonempty
          · simpa using Text.cutAt_eq_none_iff.mp hcut
        refine ⟨String.ofList inner, none, hverb, ?_, rfl⟩
        rw [← String.toList_inj, htext, toList_encode]
        simp
      | some parts =>
        obtain ⟨verb, args⟩ := parts
        simp only [hcut, Option.ite_none_left_eq_some, Option.some.injEq] at h
        obtain ⟨hnonempty, rfl⟩ := h
        obtain ⟨rfl, hspaceless⟩ := Text.cutAt_eq_some_iff.mp hcut
        have hverb : IsVerb (String.ofList verb) := by
          refine ⟨?_, ?_⟩
          · simpa using hnonempty
          · simpa using hspaceless
        refine ⟨String.ofList verb, some (String.ofList args), hverb, ?_, rfl⟩
        rw [← String.toList_inj, htext, toList_encode]
        simp
  · rintro ⟨verb, args, hverb, rfl, rfl⟩
    exact parse?_encode hverb args

/-- What ends in the delimiter behind a verb and a space was written with that verb. -/
theorem exists_args_of_closed {start : List Char}
    (htext : text.toList = delimiter :: (verb.toList ++ ' ' :: start))
    (hclosed : text.toList.getLast? = some delimiter) : ∃ args, text = encode verb (some args) := by
  rcases List.eq_nil_or_concat start with rfl | ⟨args, c, rfl⟩
  · -- The space at the end is no delimiter.
    have hspace : text.toList = delimiter :: verb.toList ++ [' '] := by simpa using htext
    rw [hspace, List.getLast?_concat] at hclosed
    exact absurd hclosed (by decide)
  · have hlast : text.toList = delimiter :: (verb.toList ++ ' ' :: args) ++ [c] := by
      simpa using htext
    rw [hlast, List.getLast?_concat] at hclosed
    cases hclosed
    refine ⟨String.ofList args, ?_⟩
    rw [← String.toList_inj, htext, toList_encode]
    simp

/-- It depends on its end alone whether a text is read that goes on from a verb. -/
theorem isSome_parse?_iff (hverb : IsVerb verb)
    (hwritten : text.toList.getLast? = some delimiter → ∃ args, text = encode verb args) :
    ((parse? text).isSome ↔ text.toList.getLast? = some delimiter) ∧
      ∀ payload, parse? text = some payload → payload.verb = toldVerb verb := by
  have hclosed {payload : Ctcp} (h : parse? text = some payload) :
      text.toList.getLast? = some delimiter := by
    obtain ⟨other, args, -, rfl, -⟩ := parse?_eq_some_iff.mp h
    exact getLast?_encode other args
  refine ⟨⟨?_, ?_⟩, ?_⟩
  · intro hread
    obtain ⟨payload, hpayload⟩ := Option.isSome_iff_exists.mp hread
    exact hclosed hpayload
  · intro hend
    obtain ⟨args, rfl⟩ := hwritten hend
    exact parse?_encode hverb args ▸ rfl
  · intro payload hpayload
    obtain ⟨args, rfl⟩ := hwritten (hclosed hpayload)
    rw [parse?_encode hverb args] at hpayload
    cases hpayload
    exact verb_ofVerb verb args

/-! ## Reading again -/

/-- A payload that was read is written so that it is read as one of the same kind, with the same verb
and the same arguments. -/
theorem parse?_render (h : parse? text = some payload) :
    ∃ again, parse? payload.render = some again ∧ again.kind = payload.kind ∧
      again.verb = payload.verb ∧ again.args = payload.args := by
  obtain ⟨verb, args, hverb, -, rfl⟩ := parse?_eq_some_iff.mp h
  unfold render
  rw [verb_ofVerb, args_ofVerb]
  -- Empty arguments may be left out.
  generalize hwritten : (if args.getD "" = "" && !(ofVerb verb args).keepsSpace then none
    else some (args.getD "")) = written
  have hargs : written.getD "" = args.getD "" := by
    subst hwritten
    split
    · rename_i hempty
      exact (of_decide_eq_true (Bool.and_eq_true_iff.mp hempty).1).symm
    · rfl
  refine ⟨_, parse?_encode hverb.told written, ?_, ?_, ?_⟩
  · exact kind_ofVerb_congr (upper_toldVerb verb) written args
  · rw [verb_ofVerb, toldVerb_toldVerb]
  · rw [args_ofVerb, hargs]

/-- Writing and reading keep the verb and the arguments, whatever stands in these: a payload written
from them, where a known verb is told in upper case, and a payload that was read and is written again. -/
theorem verb_and_args_kept :
    (∀ verb args, IsVerb verb → ∃ payload, parse? (encode verb args) = some payload ∧
      payload.args = args.getD "" ∧ payload.verb = toldVerb verb) ∧
    ∀ text payload, parse? text = some payload →
      ∃ again, parse? payload.render = some again ∧ again.kind = payload.kind ∧
        again.verb = payload.verb ∧ again.args = payload.args := by
  refine ⟨?_, fun text payload => parse?_render⟩
  intro verb args hverb
  exact ⟨_, parse?_encode hverb args, args_ofVerb verb args, verb_ofVerb verb args⟩

/-- A known verb in lower case, with arguments that begin with a space and hold delimiters. -/
theorem verb_and_args_kept_delimited :
    IsVerb "ping" ∧ (∃ payload, parse? "\x01ping  \x01 1\x01\x01" = some payload ∧
      payload.args = " \x01 1\x01" ∧ payload.verb = "PING") ∧
    parse? "\x01version \x01" = some (.version (some "")) ∧
    ∃ again, parse? (Ctcp.version (some "")).render = some again ∧ again.kind = .version ∧
      again.verb = "VERSION" ∧ again.args = "" := by
  have hverb : IsVerb "ping" := by decide
  have hread : parse? "\x01version \x01" = some (.version (some "")) := by decide
  exact ⟨hverb, verb_and_args_kept.1 "ping" (some " \x01 1\x01") hverb, hread,
    verb_and_args_kept.2 _ _ hread⟩

end IrcClient.Ctcp
