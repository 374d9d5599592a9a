import IrcClient.Proofs.Command.Framing
import IrcClient.Proofs.Text.Parts

/-!
# Lengths of lines

What is too long for a line is cut off, or split if it is a message. A message that is split arrives
whole, in parts as long as the room for them allows. As no part is empty, a part may need more room
than there is: a line exceeds the limit, by three bytes at most, exactly where a character of the
message is wider than what the text around it leaves.
-/

namespace IrcClient.LineFormatter

open Text

variable {f : LineFormatter} {head message line : String}

/-- A line break is as narrow as the space that stands for it. -/
theorem utf8Size_sanitized (c : Char) :
    (if c = '\r' ∨ c = '\n' then ' ' else c).utf8Size = c.utf8Size := by
  split
  · rename_i hbreak
    rcases hbreak with rfl | rfl <;> decide
  · rfl

theorem byteLength_sanitize (cs : List Char) : byteLength (sanitize cs) = byteLength cs := by
  induction cs with
  | nil => rfl
  | cons c cs ih =>
    rw [sanitize] at ih
    rw [sanitize, List.map_cons, byteLength, byteLength, utf8Size_sanitized, ih]

theorem sanitize_fit_iff (room : Nat) (cs : List Char) :
    (∀ c ∈ sanitize cs, c.utf8Size ≤ room) ↔ ∀ c ∈ cs, c.utf8Size ≤ room := by
  simp only [sanitize, List.forall_mem_map, utf8Size_sanitized]

theorem byteLength_truncate_le (f : LineFormatter) (line : String) :
    byteLength (f.truncate line).toList ≤ f.bodyLimit := by
  rw [truncate, String.toList_ofList]
  exact byteLength_takeBytes_le _ _

/-! ## The three forms of a message -/

/-- The bytes that a line has for its part of a message that is split. -/
def room (f : LineFormatter) (head : String) : Nat :=
  f.bodyLimit - (byteLength head.toList + byteLength f.splitSuffix.toList)

/-- Whether one line can carry the whole message. -/
def Whole (f : LineFormatter) (head message : String) : Prop :=
  byteLength head.toList + byteLength message.toList ≤ f.bodyLimit

instance (f : LineFormatter) (head message : String) : Decidable (f.Whole head message) :=
  inferInstanceAs (Decidable (_ ≤ _))

theorem split_of_whole (h : f.Whole head message) :
    f.split head message = [head ++ String.ofList (sanitize message.toList)] := by
  rw [Whole, ← byteLength_sanitize message.toList] at h
  exact if_pos h

theorem split_of_no_room (h : ¬ f.Whole head message) (hroom : f.room head = 0) :
    f.split head message = [f.truncate (head ++ String.ofList (sanitize message.toList))] := by
  rw [Whole, ← byteLength_sanitize message.toList] at h
  exact (if_neg h).trans (if_pos hroom)

theorem split_of_room (h : ¬ f.Whole head message) (hroom : f.room head ≠ 0) :
    f.split head message = (partsWithin (f.room head) (sanitize message.toList)).map fun part =>
      head ++ String.ofList part ++ f.splitSuffix := by
  rw [Whole, ← byteLength_sanitize message.toList] at h
  exact (if_neg h).trans (if_neg hroom)

/-- Where there is room for a part, what it leaves of the limit is taken by the text around it. -/
theorem byteLength_part_line (hroom : f.room head ≠ 0) (part : List Char) :
    byteLength (head ++ String.ofList part ++ f.splitSuffix).toList + f.room head =
      f.bodyLimit + byteLength part := by
  unfold room at hroom ⊢
  simp only [String.toList_append, String.toList_ofList, byteLength_append]
  omega

/-! ## The limit -/

/-- Whether a message is split though it has a character too wide for its line. -/
def Overfull (f : LineFormatter) (head message : String) : Prop :=
  ¬ f.Whole head message ∧ f.room head ≠ 0 ∧ ∃ c ∈ message.toList, f.room head < c.utf8Size

theorem split_within_limit_iff (f : LineFormatter) (head message : String) :
    (∀ line ∈ f.split head message, byteLength line.toList ≤ f.bodyLimit) ↔
      ¬ f.Overfull head message := by
  by_cases hwhole : f.Whole head message
  · refine iff_of_true ?_ fun h => h.1 hwhole
    rw [split_of_whole hwhole, List.forall_mem_singleton, String.toList_append, byteLength_append,
      String.toList_ofList, byteLength_sanitize]
    exact hwhole
  · by_cases hroom : f.room head = 0
    · refine iff_of_true ?_ fun h => h.2.1 hroom
      rw [split_of_no_room hwhole hroom, List.forall_mem_singleton]
      exact byteLength_truncate_le f _
    · have hlines : (∀ line ∈ f.split head message, byteLength line.toList ≤ f.bodyLimit) ↔
          ∀ part ∈ partsWithin (f.room head) (sanitize message.toList),
            byteLength part ≤ f.room head := by
        rw [split_of_room hwhole hroom, List.forall_mem_map]
        refine forall₂_congr fun part _ => ?_
        have := byteLength_part_line hroom part
        omega
      rw [hlines, partsWithin_fit_iff, sanitize_fit_iff, Overfull]
      simp [hwhole, hroom]

/-- No line of a message is longer than a wide character makes it. -/
theorem byteLength_of_mem_split (h : line ∈ f.split head message) :
    byteLength line.toList ≤ f.bodyLimit + 3 := by
  by_cases hover : f.Overfull head message
  · obtain ⟨hwhole, hroom, -⟩ := hover
    rw [split_of_room hwhole hroom] at h
    obtain ⟨part, hpart, rfl⟩ := List.mem_map.mp h
    have hlength := byteLength_part_line hroom part
    rcases placed_of_mem_partsWithin hpart with hfits | ⟨c, rfl, -⟩
    · omega
    · have hwidth := c.utf8Size_le_four
      simp only [byteLength] at hlength
      omega
  · exact Nat.le_add_right_of_le ((split_within_limit_iff f head message).mpr hover line h)

/-- The lines of a command are within the limit unless it is a message that is overfull, and then
they exceed it by three bytes at most. -/
theorem format_within_limit (f : LineFormatter) (command : Command) :
    ((∀ line ∈ f.format command, byteLength line.toList ≤ f.bodyLimit) ↔
      ∀ head message, f.splitHead? command = some head → message? command = some message →
        ¬ f.Overfull head message) ∧
    ∀ line ∈ f.format command, byteLength line.toList ≤ f.bodyLimit + 3 := by
  cases hhead : f.splitHead? command with
  | none =>
    have hline : ∀ line ∈ f.format command, byteLength line.toList ≤ f.bodyLimit := by
      rw [format_of_splitHead?_none hhead, List.forall_mem_singleton]
      exact byteLength_truncate_le f _
    exact ⟨iff_of_true hline nofun, fun line hmem => Nat.le_add_right_of_le (hline line hmem)⟩
  | some head =>
    obtain ⟨message, hmessage, hformat⟩ := format_of_splitHead?_some hhead
    rw [hformat, split_within_limit_iff, hmessage]
    refine ⟨?_, fun line hmem => byteLength_of_mem_split hmem⟩
    simp

/-- One byte is left for a character of two. -/
theorem wide_character_exceeds_limit :
    let f : LineFormatter := { maxLineLength := 15 }
    f.format (.privmsg "#c" "é") = ["PRIVMSG #c :é"] ∧ f.maxLineLength - 2 = 13 ∧
      byteLength "PRIVMSG #c :é".toList = 14 ∧
      ¬ ∀ line ∈ f.format (.privmsg "#c" "é"), byteLength line.toList ≤ f.maxLineLength - 2 := by
  decide

/-! ## The parts -/

/-- The parts in which a message goes out that is not cut off. -/
def parts (f : LineFormatter) (head message : String) : List (List Char) :=
  if f.Whole head message then [sanitize message.toList]
  else partsWithin (f.room head) (sanitize message.toList)

theorem split_eq_parts (hroom : f.room head ≠ 0) :
    f.split head message = (f.parts head message).map fun part =>
      head ++ String.ofList part ++ if f.Whole head message then "" else f.splitSuffix := by
  unfold parts
  split
  · rename_i hwhole
    rw [split_of_whole hwhole, List.map_singleton, String.append_empty]
  · rename_i hwhole
    exact split_of_room hwhole hroom

theorem flatten_parts (f : LineFormatter) (head message : String) :
    (f.parts head message).flatten = sanitize message.toList := by
  unfold parts
  split
  · exact List.flatten_singleton
  · exact flatten_partsWithin _ _

theorem ne_nil_of_mem_parts (hmessage : message ≠ "") {part : List Char}
    (h : part ∈ f.parts head message) : part ≠ [] := by
  unfold parts at h
  split at h
  · rw [List.mem_singleton.mp h, sanitize, ne_eq, List.map_eq_nil_iff, String.toList_eq_nil_iff]
    exact hmessage
  · exact ne_nil_of_mem_partsWithin h

theorem parts_ne_nil (hroom : f.room head ≠ 0) (message : String) : f.parts head message ≠ [] := by
  unfold parts
  split
  · exact List.cons_ne_nil _ _
  · -- An empty message would be sent whole.
    rename_i hlong
    refine partsWithin_ne_nil (fun hempty => hlong ?_) _
    have hnone := byteLength_sanitize message.toList
    rw [hempty] at hnone
    unfold room at hroom
    rw [Whole, ← hnone]
    simp only [byteLength]
    omega

theorem isChain_parts (f : LineFormatter) (head message : String) :
    (f.parts head message).IsChain (Full (f.room head)) := by
  unfold parts
  split
  · exact .singleton _
  · exact isChain_partsWithin _ _

/-- A message that has room is sent whole, or else in parts with the suffix behind each: none is
empty, none could be longer, and together they are the message. A line that is cut off keeps the
longest start within the limit, and the search for its end does not go below zero. -/
theorem split_loses_nothing (f : LineFormatter) :
    (∀ head message : String,
      byteLength head.toList + byteLength f.splitSuffix.toList < f.maxLineLength - 2 →
      ∃ parts : List (List Char),
        f.split head message = parts.map (fun part =>
          head ++ String.ofList part ++ if f.Whole head message then "" else f.splitSuffix) ∧
        parts ≠ [] ∧ (message ≠ "" → ∀ part ∈ parts, part ≠ []) ∧
        parts.flatten = sanitize message.toList ∧ parts.IsChain (Full (f.room head)) ∧
        (¬ f.Whole head message → ∀ part ∈ parts, Placed (f.room head) part)) ∧
    ∀ line : String,
      (f.truncate line).toList <+: line.toList ∧
      byteLength (f.truncate line).toList ≤ f.maxLineLength - 2 ∧
      (∀ start, start <+: line.toList → byteLength start ≤ f.maxLineLength - 2 →
        start <+: (f.truncate line).toList) ∧
      floorBoundary? line.toList (f.maxLineLength - 2) =
        some (byteLength (f.truncate line).toList) := by
  constructor
  · intro head message hspare
    have hroom : f.room head ≠ 0 := by
      unfold room bodyLimit
      omega
    refine ⟨f.parts head message, split_eq_parts hroom, parts_ne_nil hroom message, ?_,
      flatten_parts f head message, isChain_parts f head message, ?_⟩
    · exact fun hmessage _ hpart => ne_nil_of_mem_parts hmessage hpart
    · intro hlong part hpart
      rw [parts, if_neg hlong] at hpart
      exact placed_of_mem_partsWithin hpart
  · intro line
    refine ⟨?_, byteLength_truncate_le f line, ?_, ?_⟩
    · rw [truncate, String.toList_ofList]
      exact takeBytes_isPrefix _ _
    · intro start hstart hfits
      rw [truncate, String.toList_ofList]
      exact prefix_takeBytes_iff.mpr ⟨hstart, hfits⟩
    · rw [truncate, String.toList_ofList]
      exact floorBoundary?_eq _ _

/-- Three bytes are left for each part, of which a character of two takes all it can. -/
theorem split_loses_nothing_narrow :
    let f : LineFormatter := { maxLineLength := 16, splitSuffix := "~" }
    byteLength "NOTICE x :".toList + byteLength f.splitSuffix.toList < f.maxLineLength - 2 ∧
      f.split "NOTICE x :" "éa\nb" = ["NOTICE x :éa~", "NOTICE x : b~"] ∧
      (∃ parts : List (List Char),
        f.split "NOTICE x :" "éa\nb" = parts.map (fun part =>
          "NOTICE x :" ++ String.ofList part ++
            if f.Whole "NOTICE x :" "éa\nb" then "" else f.splitSuffix) ∧
        parts.flatten = "éa b".toList ∧ parts.IsChain (Full (f.room "NOTICE x :"))) := by
  intro f
  have hspare : byteLength "NOTICE x :".toList + byteLength f.splitSuffix.toList <
      f.maxLineLength - 2 := by decide
  obtain ⟨parts, hlines, -, -, hflatten, hchain, -⟩ :=
    (split_loses_nothing f).1 "NOTICE x :" "éa\nb" hspare
  exact ⟨hspare, by decide, parts, hlines, hflatten, hchain⟩

end IrcClient.LineFormatter
