import IrcClient.Proofs.Session.Connect
import Mathlib.Data.List.DropRight
import Mathlib.Data.List.Induction

/-!
# Lists that come one entry to a line

The server sends the message of the day and the list of all channels one entry to a line, between a line
that opens the list and one that closes it. The application is told at the end what has come since the
last beginning or end. The two lists do not get into each other, no other line gets into either, and it
makes no difference whether one of these lines is the welcome of the client.
-/

namespace IrcClient

/-- Whether an action tells of a list whose entries have come one by one. -/
def Action.isListing : Action → Bool
  | .emit event => event.isListing
  | _ => false

/-- The text of the message of the day that an action tells. -/
def Action.motd? : Action → Option String
  | .emit (.motd text) => some text
  | _ => none

/-- The list of all channels that an action tells. -/
def Action.channelList? : Action → Option (List ListedChannel)
  | .emit (.channelList channels) => some channels
  | _ => none

theorem Action.motd?_of_not_isListing {action : Action} (h : action.isListing = false) :
    action.motd? = none := by
  unfold motd?
  split
  · cases h
  · rfl

theorem Action.channelList?_of_not_isListing {action : Action} (h : action.isListing = false) :
    action.channelList? = none := by
  unfold channelList?
  split
  · cases h
  · rfl

/-! ## Parts of lists -/

/-- What one line adds to a list. -/
inductive ListPart (α : Type) where
  | opens
  | entry (value : α)
  | closes

namespace ListPart

variable {α : Type}

/-- Whether a part is the beginning or the end of a list. -/
def isBound : ListPart α → Bool
  | .entry _ => false
  | _ => true

def value? : ListPart α → Option α
  | .entry value => some value
  | _ => none

/-- The entries since the last beginning or end, after what was there before if there is neither. -/
def since (before : List α) (parts : List (ListPart α)) : List α :=
  (if parts.any isBound then [] else before) ++
    (parts.rtakeWhile fun part => !part.isBound).filterMap value?

/-- What a line that adds a part to a list, or nothing, does to the entries that are kept, and the lists
that are told then. -/
inductive Step {β : Type} (tell : List α → β) :
    Option (ListPart α) → List α → List α → List β → Prop where
  | other (kept : List α) : Step tell none kept kept []
  | opens (kept : List α) : Step tell (some .opens) kept [] []
  | entry (kept : List α) (value : α) : Step tell (some (.entry value)) kept (kept ++ [value]) []
  | closes (kept : List α) : Step tell (some .closes) kept [] [tell kept]

namespace Step

variable {β : Type} {tell : List α → β} {part? : Option (ListPart α)} {kept kept' : List α}
  {told : List β}

theorem told_of_closes (h : Step tell (some .closes) kept kept' told) : told = [tell kept] := by
  cases h
  rfl

theorem told_of_ne_closes (h : Step tell part? kept kept' told) (hpart : part? ≠ some .closes) :
    told = [] := by
  cases h with
  | closes => exact absurd rfl hpart
  | _ => rfl

/-- After one more part, what is kept is again what has come since the last beginning or end. -/
theorem since_concat {before : List α} {parts : List (ListPart α)}
    (h : Step tell part? (since before parts) kept' told) :
    kept' = since before (parts ++ part?.toList) := by
  unfold since at h ⊢
  rw [List.any_append]
  cases h with
  | other => simp
  | opens =>
    rw [Option.toList_some, List.rtakeWhile_concat_neg _ _ _ (by simp [isBound])]
    simp [isBound]
  | entry _ value =>
    rw [Option.toList_some, List.rtakeWhile_concat_pos _ _ _ rfl, List.filterMap_append]
    simp [isBound, value?]
  | closes =>
    rw [Option.toList_some, List.rtakeWhile_concat_neg _ _ _ (by simp [isBound])]
    simp [isBound]

/-- What is told and what is kept are entries that were kept before, and at most the new one. -/
theorem sublist (h : Step tell part? kept kept' told) : ∃ groups : List (List α),
    told = groups.map tell ∧
      (groups.flatten ++ kept').Sublist (kept ++ part?.toList.filterMap value?) := by
  cases h with
  | other => exact ⟨[], rfl, by simp⟩
  | opens => exact ⟨[], rfl, by simp⟩
  | entry _ value => exact ⟨[], rfl, by simp [value?]⟩
  | closes => exact ⟨[kept], rfl, by simp⟩

end Step

end ListPart

/-- A text without the hyphen and the blank that it begins with, if it does. -/
def unhyphened (text : String) : String :=
  if ['-', ' '] <+: text.toList then String.ofList (text.toList.drop 2) else text

/-- What a line adds to the message of the day. -/
def Line.motdPart? (line : Line) : Option (ListPart String) :=
  match line.verb with
  | .numeric 375 => some .opens
  | .numeric 372 => some (.entry (unhyphened (line.lastParam.getD "")))
  | .numeric 376 => some .closes
  | _ => none

/-- What a line adds to the list of all channels. An entry without a channel adds nothing. -/
def Line.channelPart? (line : Line) : Option (ListPart ListedChannel) :=
  match line.verb with
  | .numeric 321 => some .opens
  | .numeric 322 => (line.param 1).map fun name =>
    .entry
      { name := name
        users := ((line.param 2).bind (Text.unsigned? 32)).getD 0
        topic := (line.param 3).getD "" }
  | .numeric 323 => some .closes
  | _ => none

namespace Session

variable {s t : Session} {clock : Clock} {line : Line}

theorem motdLine_eq (line : Line) : motdLine line = unhyphened (line.lastParam.getD "") := by
  unfold motdLine unhyphened
  generalize line.lastParam.getD "" = text
  split
  · rename_i cs htext
    rw [if_pos (by simp [htext]), htext]
    rfl
  · rename_i cs hother
    rw [if_neg, String.ofList_toList]
    rintro ⟨rest, hrest⟩
    exact hother rest hrest.symm

/-! ## One line -/

/-- A line is handled without a word of a list. -/
structure Bypasses (s : Session) (h : Handling) : Prop where
  lists : h.session.lists = s.lists
  actions : ∀ action ∈ h.actions, action.isListing = false

theorem isListing_of_mem_answers {action : Action} (h : action ∈ s.answers clock line) :
    action.isListing = false := by
  obtain ⟨command, rfl | rfl⟩ := line_of_mem_answers h <;> rfl

theorem isListing_of_mem_emit {events : List Event} (h : ∀ event ∈ events, event.isPlain = true)
    {action : Action} (hmem : action ∈ events.map .emit) : action.isListing = false := by
  obtain ⟨event, hevent, rfl⟩ := List.mem_map.mp hmem
  exact Event.isListing_of_isPlain (h event hevent)

theorem Relays.bypasses {h : Handling} (hrelays : s.Relays (t.answers clock line) h) : s.Bypasses h := by
  obtain ⟨events, hevents, hplain⟩ := hrelays.actions
  refine ⟨hrelays.lists, ?_⟩
  rw [hevents]
  exact List.forall_mem_append.mpr
    ⟨fun _ => isListing_of_mem_answers, fun _ => isListing_of_mem_emit hplain⟩

theorem bypasses_onNumeric {code : Nat} (hcode : code ∉ listingCodes) (line : Line) :
    s.Bypasses (.sound (s.onNumeric code line)) := by
  obtain ⟨events, hevents, hplain⟩ := s.snd_numericEffect hcode line
  refine ⟨(s.relays_numericEffect hcode line).lists, ?_⟩
  rw [Handling.sound, snd_onNumeric, hevents]
  exact List.forall_mem_append.mpr
    ⟨fun _ => isListing_of_mem_emit hplain, List.forall_mem_singleton.mpr rfl⟩

theorem bypasses_dispatch (hping : line.verb ≠ .ping)
    (hlisting : ∀ code, line.verb = .numeric code → code ∉ listingCodes) (s : Session) (clock : Clock) :
    s.Bypasses (s.dispatch clock line) := by
  by_cases hnumeric : ∃ code, line.verb = .numeric code
  · obtain ⟨code, hverb⟩ := hnumeric
    rw [dispatch_of_numeric s clock hverb]
    exact bypasses_onNumeric (hlisting code hverb) line
  · exact (s.relays_dispatch clock hping (not_exists.mp hnumeric)).bypasses

theorem isListing_of_mem_requested {action : Action} (h : action ∈ s.requested line) :
    action.isListing = false := by
  rcases mem_requested h with ⟨text, rfl⟩ | rfl | ⟨used, next, rfl⟩ | ⟨error, -, rfl⟩ <;> rfl

/-- The registration has nothing to do with lists. -/
theorem bypasses_register (s : Session) (line : Line) :
    s.Bypasses (.sound ((s.register line).1, (s.register line).2.1)) := by
  by_cases hphase : s.registration.phase = .waiting
  · by_cases hwelcomes : line.Welcomes
    · obtain ⟨t, -, -, hlists, hregister⟩ := register_of_welcomes hphase hwelcomes
      rw [hregister]
      refine ⟨hlists, List.forall_mem_append.mpr ⟨?_, List.forall_mem_singleton.mpr rfl⟩⟩
      rintro _ hmem
      obtain ⟨text, -, rfl⟩ := List.mem_map.mp hmem
      rfl
    · rw [register_of_not_welcomes hphase hwelcomes]
      exact ⟨rfl, fun _ => isListing_of_mem_requested⟩
  · rw [register, if_neg hphase]
    exact ⟨rfl, List.forall_mem_nil _⟩

/-- No line of a list fails the registration: it passes by, or it is the welcome. -/
theorem unfailed_of_listing {code : Nat} (hverb : line.verb = .numeric code)
    (hcode : code ∈ listingCodes) (s : Session) : (s.register line).2.2 = false := by
  rw [mem_listingCodes_iff] at hcode
  by_cases hpasses : code < 375
  · obtain ⟨registration, first, hregister⟩ :=
      s.register_of_passes (Or.inr ⟨code, hverb, by omega, hpasses⟩)
    rw [hregister]
  · have hwelcomes : line.Welcomes := by
      refine ⟨code, hverb, ?_⟩
      obtain rfl | rfl : code = 375 ∨ code = 376 := by omega
      · decide
      · decide
    by_cases hphase : s.registration.phase = .waiting
    · obtain ⟨t, -, -, -, hregister⟩ := register_of_welcomes hphase hwelcomes
      rw [hregister]
    · rw [register, if_neg hphase]

theorem handle_of_listing {code : Nat} (hverb : line.verb = .numeric code)
    (hcode : code ∈ listingCodes) (s : Session) (clock : Clock) :
    s.handle clock line =
      (Handling.sound ((s.register line).1.onNumeric code line)).after (s.register line).2.1 := by
  have hping : line.verb ≠ .ping := by simp [hverb]
  rw [handle, if_neg hping]
  dsimp only
  rw [unfailed_of_listing hverb hcode, if_neg Bool.false_ne_true, dispatch_of_numeric _ clock hverb]

/-- A line that does not belong to a list has nothing to do with lists. -/
theorem bypasses_handle (hlisting : ∀ code, line.verb = .numeric code → code ∉ listingCodes)
    (s : Session) (clock : Clock) : s.Bypasses (s.handle clock line) := by
  by_cases hping : line.verb = .ping
  · rw [handle, if_pos hping]
    dsimp only
    rw [sendNow_of_splitHead? rfl]
    exact ⟨rfl, List.forall_mem_cons.mpr ⟨rfl, List.forall_mem_singleton.mpr rfl⟩⟩
  · have hregister := s.bypasses_register line
    rw [handle, if_neg hping]
    dsimp only
    split
    · exact hregister
    · have hdispatch := (s.register line).1.bypasses_dispatch hping hlisting clock
      exact ⟨hdispatch.lists.trans hregister.lists,
        List.forall_mem_append.mpr ⟨hregister.actions, hdispatch.actions⟩⟩

theorem motdPart?_of_other (h : ∀ code, line.verb = .numeric code → code ∉ listingCodes) :
    line.motdPart? = none := by
  unfold Line.motdPart?
  split
  · rename_i hverb
    exact absurd (by decide) (h _ hverb)
  · rename_i hverb
    exact absurd (by decide) (h _ hverb)
  · rename_i hverb
    exact absurd (by decide) (h _ hverb)
  · rfl

theorem channelPart?_of_other (h : ∀ code, line.verb = .numeric code → code ∉ listingCodes) :
    line.channelPart? = none := by
  unfold Line.channelPart?
  split
  · rename_i hverb
    exact absurd (by decide) (h _ hverb)
  · rename_i hverb
    exact absurd (by decide) (h _ hverb)
  · rename_i hverb
    exact absurd (by decide) (h _ hverb)
  · rfl

theorem motd_numericEffect (s : Session) {code : Nat} {line : Line}
    (hverb : line.verb = .numeric code) (hcode : code ∈ listingCodes) :
    ListPart.Step (String.intercalate "\n") line.motdPart? s.motd (s.numericEffect code line).1.motd
      ((s.numericEffect code line).2.filterMap Action.motd?) := by
  unfold Line.motdPart?
  rw [hverb]
  rcases mem_listingCodes_iff.mp hcode with rfl | rfl | rfl | rfl | rfl | rfl
  · exact .other _
  · exact .other _
  · exact .other _
  · rw [← motdLine_eq]
    exact .entry _ _
  · exact .opens _
  · exact .closes _

theorem channelList_numericEffect (s : Session) {code : Nat} {line : Line}
    (hverb : line.verb = .numeric code) (hcode : code ∈ listingCodes) :
    ListPart.Step id line.channelPart? s.channelList (s.numericEffect code line).1.channelList
      ((s.numericEffect code line).2.filterMap Action.channelList?) := by
  unfold Line.channelPart?
  rw [hverb]
  rcases mem_listingCodes_iff.mp hcode with rfl | rfl | rfl | rfl | rfl | rfl
  · exact .opens _
  · change ListPart.Step id _ _ (s.channelList ++ (listedChannel? line).toList) []
    unfold listedChannel?
    cases line.param 1 with
    | none => simpa using .other _
    | some name => exact .entry _ _
  · exact .closes _
  · exact .other _
  · exact .other _
  · exact .other _

/-! ## One list -/

/-- A list that a session receives one entry to a line. -/
structure Listing (α β : Type) where
  /-- The entries that are not told yet. -/
  kept : Session → List α
  /-- What a line adds to the list. -/
  part? : Line → Option (ListPart α)
  /-- What an action tells of the list. -/
  told? : Action → Option β
  /-- How the entries are told together. -/
  tell : List α → β
  kept_of_lists : ∀ {s t : Session}, s.lists = t.lists → kept s = kept t
  told?_of_not_isListing : ∀ {action : Action}, action.isListing = false → told? action = none
  part?_of_other : ∀ {line : Line},
    (∀ code, line.verb = .numeric code → code ∉ listingCodes) → part? line = none
  step_numericEffect : ∀ (s : Session) {code : Nat} {line : Line}, line.verb = .numeric code →
    code ∈ listingCodes →
      ListPart.Step tell (part? line) (kept s) (kept (s.numericEffect code line).1)
        ((s.numericEffect code line).2.filterMap told?)

/-- The message of the day, whose lines are told as one text. -/
def Listing.motd : Listing String String where
  kept := Session.motd
  part? := Line.motdPart?
  told? := Action.motd?
  tell := String.intercalate "\n"
  kept_of_lists := congrArg Prod.fst
  told?_of_not_isListing := Action.motd?_of_not_isListing
  part?_of_other := motdPart?_of_other
  step_numericEffect := motd_numericEffect

/-- The list of all channels, whose entries are told as they are. -/
def Listing.channels : Listing ListedChannel (List ListedChannel) where
  kept := Session.channelList
  part? := Line.channelPart?
  told? := Action.channelList?
  tell := id
  kept_of_lists := congrArg Prod.snd
  told?_of_not_isListing := Action.channelList?_of_not_isListing
  part?_of_other := channelPart?_of_other
  step_numericEffect := channelList_numericEffect

namespace Listing

variable {α β : Type} (l : Listing α β)

/-- What an input adds to a list. -/
def partOf? : Input → Option (ListPart α)
  | .line _ raw => match Line.parse raw with
    | .ok line => l.part? line
    | .error _ => none
  | .disconnect _ => none

theorem filterMap_told? {actions : List Action} (h : ∀ action ∈ actions, action.isListing = false) :
    actions.filterMap l.told? = [] :=
  List.filterMap_eq_nil_iff.mpr fun action hmem => l.told?_of_not_isListing (h action hmem)

theorem step_of_quiet {actions : List Action} (hlists : t.lists = s.lists)
    (hquiet : ∀ action ∈ actions, action.isListing = false) :
    ListPart.Step l.tell none (l.kept s) (l.kept t) (actions.filterMap l.told?) := by
  rw [l.kept_of_lists hlists, l.filterMap_told? hquiet]
  exact .other _

/-- What a line does to a list, and what is told of the list then. -/
theorem step_handle (s : Session) (clock : Clock) (line : Line) :
    ListPart.Step l.tell (l.part? line) (l.kept s) (l.kept (s.handle clock line).session)
      ((s.handle clock line).actions.filterMap l.told?) := by
  by_cases hlisting : ∃ code ∈ listingCodes, line.verb = .numeric code
  · obtain ⟨code, hcode, hverb⟩ := hlisting
    have hregister := s.bypasses_register line
    have hkept : l.kept (s.register line).1 = l.kept s := l.kept_of_lists hregister.lists
    have hfirst : (s.register line).2.1.filterMap l.told? = [] := l.filterMap_told? hregister.actions
    have htold : (s.handle clock line).actions.filterMap l.told? =
        ((s.register line).1.numericEffect code line).2.filterMap l.told? := by
      rw [handle_of_listing hverb hcode, Handling.after, Handling.sound, snd_onNumeric,
        List.filterMap_append, List.filterMap_append, hfirst,
        l.filterMap_told? (List.forall_mem_singleton.mpr rfl), List.nil_append, List.append_nil]
    rw [htold, handle_of_listing hverb hcode, ← hkept]
    exact l.step_numericEffect _ hverb hcode
  · have hother : ∀ code, line.verb = .numeric code → code ∉ listingCodes :=
      fun code hverb hcode => hlisting ⟨code, hcode, hverb⟩
    have hbypasses := s.bypasses_handle hother clock
    rw [l.part?_of_other hother]
    exact l.step_of_quiet hbypasses.lists hbypasses.actions

theorem step_receive (s : Session) (input : Input) :
    ListPart.Step l.tell (l.partOf? input) (l.kept s) (l.kept (s.receive input))
      ((s.outputs input).filterMap l.told?) := by
  cases input with
  | line clock raw =>
    unfold receive outputs partOf?
    dsimp only
    cases hparse : Line.parse raw with
    | ok line =>
      obtain ⟨told, htold, hplain⟩ := (s.handle clock line).report_eq line
      have hquiet : (told.map Action.emit).filterMap l.told? = [] :=
        l.filterMap_told? fun _ => isListing_of_mem_emit hplain
      rw [handleLine_of_parse hparse, htold, List.filterMap_append, hquiet, List.append_nil]
      exact l.step_handle s clock line
    | error error =>
      rw [handleLine, hparse]
      cases error with
      | empty => exact .other _
      | noCommand => exact l.step_of_quiet rfl (List.forall_mem_singleton.mpr rfl)
  | disconnect error =>
    rw [receive, outputs, disconnect]
    split
    · exact .other _
    · exact l.step_of_quiet rfl (List.forall_mem_singleton.mpr rfl)

/-! ## Runs -/

theorem filterMap_concat (inputs : List Input) (input : Input) :
    (inputs ++ [input]).filterMap l.partOf? =
      inputs.filterMap l.partOf? ++ (l.partOf? input).toList := by
  rw [List.filterMap_append]
  cases hpart : l.partOf? input <;> simp [hpart]

/-- What is kept in the end is what has come since the last beginning or end. -/
theorem kept_run (s : Session) (inputs : List Input) :
    l.kept (s.run inputs) = ListPart.since (l.kept s) (inputs.filterMap l.partOf?) := by
  induction inputs using List.reverseRecOn with
  | nil => simp [ListPart.since, run]
  | append_singleton inputs input ih =>
    have hstep := l.step_receive (s.run inputs) input
    rw [ih] at hstep
    rw [run_concat, hstep.since_concat, filterMap_concat]

/-- What is told and what is kept in the end are entries that have come, each at most once. -/
theorem sublist_run (s : Session) (inputs : List Input) : ∃ groups : List (List α),
    (s.actions inputs).filterMap l.told? = groups.map l.tell ∧
      (groups.flatten ++ l.kept (s.run inputs)).Sublist
        (l.kept s ++ (inputs.filterMap l.partOf?).filterMap ListPart.value?) := by
  induction inputs using List.reverseRecOn with
  | nil => exact ⟨[], rfl, by simp [run]⟩
  | append_singleton inputs input ih =>
    obtain ⟨groups, htold, hsublist⟩ := ih
    obtain ⟨last, hlast, hstep⟩ := (l.step_receive (s.run inputs) input).sublist
    refine ⟨groups ++ last, ?_, ?_⟩
    · rw [actions_concat, List.filterMap_append, htold, hlast, List.map_append]
    · rw [run_concat, filterMap_concat, List.flatten_append, List.filterMap_append,
        List.append_assoc, ← List.append_assoc (l.kept s)]
      refine (hstep.append_left groups.flatten).trans ?_
      rw [← List.append_assoc]
      exact hsublist.append_right _

end Listing

/-- How a session tells of a list that comes one entry to a line. -/
structure TellsList {α β : Type} (s : Session) (l : Listing α β) : Prop where
  /-- The end of the list tells once, and all together, what has come since the last beginning or end. -/
  told : ∀ inputs input, l.partOf? input = some .closes →
    ((s.run inputs).outputs input).filterMap l.told? =
      [l.tell (ListPart.since (l.kept s) (inputs.filterMap l.partOf?))]
  /-- Nothing else tells of the list. -/
  untold : ∀ inputs input, l.partOf? input ≠ some .closes →
    ((s.run inputs).outputs input).filterMap l.told? = []
  /-- Over a whole run, what is told are entries that have come, in order and each at most once. -/
  unrepeated : ∀ inputs, ∃ groups : List (List α),
    (s.actions inputs).filterMap l.told? = groups.map l.tell ∧
      groups.flatten.Sublist (l.kept s ++ (inputs.filterMap l.partOf?).filterMap ListPart.value?)

theorem tellsList {α β : Type} (s : Session) (l : Listing α β) : s.TellsList l := by
  constructor
  case told =>
    intro inputs input hpart
    have hstep := l.step_receive (s.run inputs) input
    rw [hpart, l.kept_run] at hstep
    exact hstep.told_of_closes
  case untold =>
    intro inputs input hpart
    exact (l.step_receive (s.run inputs) input).told_of_ne_closes hpart
  case unrepeated =>
    intro inputs
    obtain ⟨groups, htold, hsublist⟩ := l.sublist_run s inputs
    exact ⟨groups, htold, (List.sublist_append_left _ _).trans hsublist⟩

/-- The message of the day and the list of all channels are told entry by entry as they have come,
however their lines and others mix, before the welcome as well as after it. -/
theorem lists_told_exactly (s : Session) : s.TellsList .motd ∧ s.TellsList .channels :=
  ⟨s.tellsList .motd, s.tellsList .channels⟩

/-- Both lists at once. The message of the day begins with the line that welcomes the client, after a
line that comes too early, and one entry lacks its channel. -/
theorem lists_told_exactly_interleaved :
    let clock : Clock := ⟨⟨0, 0⟩, ""⟩
    let s := opened { ClientConfig.standard "irc.example.net" "bot" with capEnabled := false }
    let inputs := [":irc 372 bot :- early", ":irc 375 bot :- Message of the day",
      ":irc 322 bot #a 3 :about a", ":irc 372 bot :- - one", ":irc 322 bot", ":irc 372 bot :two",
      ":irc 322 bot #b many"].map (Input.line clock)
    let t := s.run inputs
    (t.outputs (.line clock ":irc 376 bot :End")).filterMap Action.motd? = ["- one\ntwo"] ∧
      (t.outputs (.line clock ":irc 323 bot :End")).filterMap Action.channelList? =
        [[⟨"#a", 3, "about a"⟩, ⟨"#b", 0, ""⟩]] := by
  intro clock s inputs t
  obtain ⟨hmotd, hchannels⟩ := s.lists_told_exactly
  constructor
  · refine (hmotd.told inputs (.line clock ":irc 376 bot :End") rfl).trans ?_
    decide +kernel
  · refine (hchannels.told inputs (.line clock ":irc 323 bot :End") rfl).trans ?_
    decide +kernel

end Session

end IrcClient
