import IrcClient.Proofs.Line.Written
import IrcClient.Proofs.Registration.Run
import IrcClient.Registration.Handler
import IrcClient.Proofs.Text.Fields
import Mathlib.Data.List.Forall2

/-!
# Offers in several lines

A server that offers more than fits into one line says on every line but the last that the list goes on.
However it cuts the list, its handlers are shown the same offer, and the negotiation ends neither twice
nor not at all: if nobody is left to be asked, it ends on the first of the lines and not on the last.
-/

namespace IrcClient.Registration

/-- A line that offers some capabilities. The mark says that the list goes on in the next line. -/
def offerLine (nick : String) (more : Bool) (caps : List String) : String :=
  "CAP " ++ nick ++ (if more then " LS * :" else " LS :") ++ String.intercalate " " caps

/-- Whether a line offers just these capabilities, and whether it says that the list goes on. -/
structure Offers (line : Line) (more : Bool) (caps : List String) : Prop where
  word : IsCap "LS" line
  list : capList line = (caps, more)

/-! ## What the server writes -/

section Written

variable {nick : String} {caps : List String}

theorem words_offered (hcaps : ∀ cap ∈ caps, Text.IsWord cap.toList) :
    (Text.words (String.intercalate " " caps).toList).map String.ofList = caps := by
  have hspace : " ".toList = [' '] := rfl
  rw [String.toList_intercalate, hspace, Text.words_intercalate (List.forall_mem_map.mpr hcaps),
    List.map_map]
  exact (List.map_congr_left fun _ _ => String.ofList_toList).trans (List.map_id caps)

theorem unbroken_offered (hcaps : ∀ cap ∈ caps, Text.IsWord cap.toList) :
    LineFormatter.Unbroken (String.intercalate " " caps).toList := by
  induction caps with
  | nil => decide
  | cons cap caps ih =>
    obtain ⟨hcap, hrest⟩ := List.forall_mem_cons.mp hcaps
    have hfirst : LineFormatter.Unbroken cap.toList :=
      ⟨fun h => absurd (hcap.solid _ h) (by decide), fun h => absurd (hcap.solid _ h) (by decide)⟩
    cases caps with
    | nil => exact hfirst
    | cons next caps =>
      rw [String.intercalate_cons_cons, String.toList_append, String.toList_append,
        LineFormatter.unbroken_append, LineFormatter.unbroken_append]
      exact ⟨⟨hfirst, by decide⟩, ih hrest⟩

/-- Only the parameters of a line matter for what it offers. -/
theorem offers_of_params {line : Line} {more : Bool} {list : String} (hverb : line.verb = .cap)
    (hparams : line.params = [nick, "LS"] ++ (if more then ["*"] else []) ++ [list]) :
    Offers line more ((Text.words list.toList).map String.ofList) := by
  have hword : Text.upper "LS" = "LS" := by decide
  cases more with
  | true =>
    have hparams : line.params = [nick, "LS", "*", list] := hparams
    exact ⟨⟨hverb, by simp [Line.param, hparams, hword]⟩, by simp [capList, Line.param, hparams]⟩
  | false =>
    have hparams : line.params = [nick, "LS", list] := hparams
    exact ⟨⟨hverb, by simp [Line.param, hparams, hword]⟩, by simp [capList, Line.param, hparams]⟩

/-- The line of an offer is read as that offer. -/
theorem parse_offerLine (hnick : Line.IsMiddle nick.toList)
    (hunbroken : LineFormatter.Unbroken nick.toList) (hcaps : ∀ cap ∈ caps, Text.IsWord cap.toList)
    (more : Bool) : ∃ line, Line.parse (offerLine nick more caps) = .ok line ∧ Offers line more caps := by
  have hwords := words_offered hcaps
  have hsolid := unbroken_offered hcaps
  unfold offerLine
  generalize String.intercalate " " caps = list at hwords hsolid ⊢
  let middle : List String := [nick, "LS"] ++ if more then ["*"] else []
  have hmiddle : ∀ param ∈ middle.map String.toList, Line.IsMiddle param := by
    refine List.forall_mem_cons.mpr ⟨hnick, List.forall_mem_cons.mpr ⟨by decide, ?_⟩⟩
    cases more <;> decide
  have hraw : ("CAP " ++ nick ++ (if more then " LS * :" else " LS :") ++ list).toList =
      "CAP".toList ++ ((middle.map String.toList).flatMap (' ' :: ·) ++ ' ' :: ':' :: list.toList) := by
    cases more <;> simp [middle]
  have htext : LineFormatter.Unbroken
      ("CAP " ++ nick ++ (if more then " LS * :" else " LS :") ++ list).toList := by
    simp only [String.toList_append, LineFormatter.unbroken_append]
    refine ⟨⟨⟨by decide, hunbroken⟩, ?_⟩, hsolid⟩
    cases more <;> decide
  have hparse :=
    Line.parse_command (Or.inr rfl) (by decide) (List.all_eq_true.mp (by decide)) hraw htext
  rw [Line.splitParams_written (Or.inr rfl) hmiddle, Line.splitParams_trailing] at hparse
  have hverb : Verb.ofCommand (String.ofList ("CAP".toList.map Char.toUpper)) = .cap := by decide
  have hparams : (middle.map String.toList ++ [list.toList]).map String.ofList = middle ++ [list] := by
    simp [Function.comp_def]
  exact ⟨_, hparse, hwords ▸ offers_of_params hverb hparams⟩

/-- The lines of an offer that goes on are read as its parts. -/
theorem parse_offerLines (hnick : Line.IsMiddle nick.toList)
    (hunbroken : LineFormatter.Unbroken nick.toList) {segments : List (List String)}
    (hcaps : ∀ cap ∈ segments.flatten, Text.IsWord cap.toList) :
    ∃ lines, (segments.map (offerLine nick true)).map Line.parse = lines.map .ok ∧
      List.Forall₂ (fun line caps => Offers line true caps) lines segments := by
  induction segments with
  | nil => exact ⟨[], rfl, .nil⟩
  | cons caps segments ih =>
    obtain ⟨hfirst, hrest⟩ := List.forall_mem_append.mp hcaps
    obtain ⟨line, hline, hoffers⟩ := parse_offerLine hnick hunbroken hfirst true
    obtain ⟨lines, hlines, hgoes⟩ := ih hrest
    refine ⟨line :: lines, ?_, .cons hoffers hgoes⟩
    rw [List.map_cons, List.map_cons, hline, hlines]
    rfl

end Written

/-! ## What the client makes of it -/

variable {H : Type} [CapHandler H] {r : Registration H} {first last whole : Line}
  {caps later : List String}

/-- What the end of an offer leads to, after what has been offered before. -/
def offerEnds (r : Registration H) (caps : List String) : Registration H × List RegistrationAction :=
  endNegotiation (({ r with offered := [] } : Registration H).offer (.offered (r.offered ++ caps)))

theorem feed_of_goes_on (hphase : r.phase = .waiting) (hoffers : Offers first true caps) :
    r.feed first = endNegotiation ({ r with offered := r.offered ++ caps }, []) := by
  obtain ⟨⟨hverb, hword⟩, hlist⟩ := hoffers
  rw [feed, if_neg (by simp [hphase]), cue_of_verb_cap r.config hverb]
  simp only [negotiate, hword, hlist, if_true]

theorem feed_of_ends (hphase : r.phase = .waiting) (hoffers : Offers last false caps) :
    r.feed last = r.offerEnds caps := by
  obtain ⟨⟨hverb, hword⟩, hlist⟩ := hoffers
  rw [feed, if_neg (by simp [hphase]), cue_of_verb_cap r.config hverb]
  simp only [negotiate, hword, hlist, if_true, Bool.false_eq_true, if_false]
  rfl

/-- What a line offers that goes on may as well be offered with the rest. -/
theorem offerEnds_of_goes_on (hphase : r.phase = .waiting) (hoffers : Offers first true caps) :
    ((r.feed first).1.offerEnds later).1 = (r.offerEnds (caps ++ later)).1 ∧
      (r.feed first).2 ++ ((r.feed first).1.offerEnds later).2 = (r.offerEnds (caps ++ later)).2 := by
  rw [feed_of_goes_on hphase hoffers]
  obtain ⟨hcloses, hend⟩ | ⟨-, hend⟩ :=
    ({ r with offered := r.offered ++ caps } : Registration H).endNegotiation_cases []
  · -- Nobody is left to be asked, so the last line finds the negotiation ended.
    rw [hend]
    have hround (prompt : Prompt) : consult r.enabledCaps prompt r.seats = (r.seats, []) :=
      consult_of_finished hcloses.finished
    obtain ⟨hagain, -⟩ | ⟨-, hquiet⟩ := ({ r with offered := [], capEndSent := true } :
      Registration H).endNegotiation_cases []
    · cases hagain.unsent
    obtain ⟨-, hended⟩ | ⟨hopen, -⟩ := ({ r with offered := [] } :
      Registration H).endNegotiation_cases []
    · simp [offerEnds, offer, hround, hquiet, hended]
    · exact absurd ⟨hcloses.unfailed, hcloses.unsent, hcloses.enabled, hcloses.finished⟩ hopen
  · rw [hend]
    simp [offerEnds, offer, List.append_assoc]

/-- However a list is cut into lines, it comes to the same as in one line. -/
theorem run_offer {lines : List Line} {segments : List (List String)}
    (hgoes : List.Forall₂ (fun line caps => Offers line true caps) lines segments)
    (hends : Offers last false later) (hphase : r.phase = .waiting) :
    r.run (lines ++ [last]) = (r.offerEnds (segments.flatten ++ later)).1 ∧
      r.actions (lines ++ [last]) = (r.offerEnds (segments.flatten ++ later)).2 := by
  induction hgoes generalizing r with
  | nil =>
    rw [List.flatten_nil, List.nil_append, List.nil_append, ← feed_of_ends hphase hends]
    exact ⟨rfl, List.append_nil _⟩
  | @cons first caps lines segments hfirst _ ih =>
    have hstill : (r.feed first).1.phase = .waiting := by
      rw [feed_of_goes_on hphase hfirst, phase_endNegotiation]
      exact hphase
    obtain ⟨hrun, hactions⟩ := ih hstill
    rw [List.flatten_cons, List.append_assoc]
    obtain ⟨hstate, hdone⟩ := offerEnds_of_goes_on hphase hfirst
    rw [← hstate, ← hdone, ← hrun, ← hactions]
    exact ⟨rfl, rfl⟩

/-- However the server cuts its offer, the client makes the same of it as of one line: it does the same
things in the same order, and it is left with the same handlers, capabilities and end. -/
theorem run_offer_cut_anywhere (hphase : r.phase = .waiting) {nick : String}
    (hnick : Line.IsMiddle nick.toList) (hunbroken : LineFormatter.Unbroken nick.toList)
    (segments : List (List String)) (later : List String)
    (hcaps : ∀ cap ∈ segments.flatten ++ later, Text.IsWord cap.toList) :
    ∃ lines last whole,
      (segments.map (offerLine nick true)).map Line.parse = lines.map .ok ∧
      Line.parse (offerLine nick false later) = .ok last ∧
      Line.parse (offerLine nick false (segments.flatten ++ later)) = .ok whole ∧
      r.run (lines ++ [last]) = (r.feed whole).1 ∧
      r.actions (lines ++ [last]) = (r.feed whole).2 := by
  obtain ⟨hbefore, hlater⟩ := List.forall_mem_append.mp hcaps
  obtain ⟨last, hlast, hends⟩ := parse_offerLine hnick hunbroken hlater false
  obtain ⟨whole, hwhole, hall⟩ := parse_offerLine hnick hunbroken hcaps false
  obtain ⟨lines, hlines, hgoes⟩ := parse_offerLines hnick hunbroken hbefore
  refine ⟨lines, last, whole, hlines, hlast, hwhole, ?_⟩
  rw [feed_of_ends hphase hall]
  exact run_offer hgoes hends hphase

/-- Two of the capabilities that are wanted come in the last of three lines, one of them as a star, and
the third does not come. -/
theorem run_offer_cut_anywhere_in_three :
    let r := opened { nickname := "bot", username := "bot", realname := "Bot" }
      [Handler.enable "away-notify" true, .enable "batch" true, .enable "*" true]
    ∃ lines last whole,
      ["CAP bot LS * :multi-prefix", "CAP bot LS * :"].map Line.parse = lines.map .ok ∧
      Line.parse "CAP bot LS :away-notify *" = .ok last ∧
      Line.parse "CAP bot LS :multi-prefix away-notify *" = .ok whole ∧
      r.run (lines ++ [last]) = (r.feed whole).1 ∧
      r.actions (lines ++ [last]) = (r.feed whole).2 ∧
      r.actions (lines ++ [last]) =
        [.send (.capRequest ["away-notify"]), .send (.capRequest ["*"])] ∧
      (r.run (lines ++ [last])).seats.map (·.finished) = [false, true, false] ∧
      (r.run (lines ++ [last])).enabledCaps = [] ∧
      (r.run (lines ++ [last])).capEndSent = false := by
  intro r
  have hnick : Line.IsMiddle "bot".toList := by decide
  have hunbroken : LineFormatter.Unbroken "bot".toList := by decide
  obtain ⟨lines, last, whole, hlines, hlast, hwhole, hrun, hactions⟩ :=
    run_offer_cut_anywhere (r := r) rfl hnick hunbroken [["multi-prefix"], []] ["away-notify", "*"]
      (by decide)
  have hparse : Line.parse "CAP bot LS :multi-prefix away-notify *" = .ok whole := hwhole
  obtain rfl : whole = ⟨"CAP bot LS :multi-prefix away-notify *", [], none, "CAP",
      ["bot", "LS", "multi-prefix away-notify *"]⟩ := by
    refine Except.ok.inj (hparse.symm.trans ?_)
    decide +kernel
  refine ⟨lines, last, _, hlines, hlast, hwhole, hrun, hactions, ?_⟩
  rw [hrun, hactions]
  decide +kernel

end IrcClient.Registration
