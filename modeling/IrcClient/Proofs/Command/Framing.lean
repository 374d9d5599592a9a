import IrcClient.Command.Formatter
import IrcClient.Proofs.Text.Width
import IrcClient.Proofs.Transport.LineCodec

/-!
# One command, one line

No argument of a command can begin another command on the wire, because line breaks are flattened.
There is one exception: the target of a message goes out as it is where long messages are split.
-/

namespace IrcClient.LineFormatter

/-- A text without line breaks. -/
def Unbroken (cs : List Char) : Prop := '\r' ∉ cs ∧ '\n' ∉ cs

instance (cs : List Char) : Decidable (Unbroken cs) :=
  inferInstanceAs (Decidable ('\r' ∉ cs ∧ '\n' ∉ cs))

theorem Unbroken.of_subset {xs ys : List Char} (h : Unbroken ys) (hsub : xs ⊆ ys) : Unbroken xs :=
  ⟨fun hmem => h.1 (hsub hmem), fun hmem => h.2 (hsub hmem)⟩

theorem unbroken_append {xs ys : List Char} : Unbroken (xs ++ ys) ↔ Unbroken xs ∧ Unbroken ys := by
  simp only [Unbroken, List.mem_append, not_or]
  exact and_and_and_comm

theorem unbroken_sanitize (cs : List Char) : Unbroken (sanitize cs) := by
  have hfree {mark : Char} (hmark : mark = '\r' ∨ mark = '\n') : mark ∉ sanitize cs := by
    rw [sanitize, List.mem_map]
    rintro ⟨c, -, hc⟩
    split at hc
    · rcases hmark with rfl | rfl <;> exact absurd hc (by decide)
    · rename_i hplain
      rw [hc] at hplain
      exact hplain hmark
  exact ⟨hfree (Or.inl rfl), hfree (Or.inr rfl)⟩

theorem sanitize_append (xs ys : List Char) : sanitize (xs ++ ys) = sanitize xs ++ sanitize ys :=
  List.map_append

theorem sanitize_of_unbroken {cs : List Char} (h : Unbroken cs) : sanitize cs = cs := by
  have hkept : ∀ c ∈ cs, (if c = '\r' ∨ c = '\n' then ' ' else c) = c := by
    intro c hc
    refine if_neg ?_
    rintro (rfl | rfl)
    · exact h.1 hc
    · exact h.2 hc
  exact (List.map_congr_left hkept).trans (List.map_id' cs)

theorem unbroken_takeBytes_append {ys : List Char} (h : Unbroken ys) (room : Nat) (xs : List Char) :
    Unbroken (Text.takeBytes room (xs ++ ys)) ↔ Unbroken (Text.takeBytes room xs) := by
  simp only [Unbroken, Text.mem_takeBytes_append h.1, Text.mem_takeBytes_append h.2]

theorem unbroken_formatWhole (f : LineFormatter) (command : Command) :
    Unbroken (f.formatWhole command).toList := by
  simp only [formatWhole, truncate, String.toList_ofList]
  exact (unbroken_sanitize _).of_subset (Text.takeBytes_subset _ _)

/-- In a split message, only what stands in front of the message can hold a line break. -/
theorem unbroken_split_iff {f : LineFormatter} (hsuffix : Unbroken f.splitSuffix.toList)
    (head message : String) :
    (∀ line ∈ f.split head message, Unbroken line.toList) ↔
      Unbroken (Text.takeBytes f.bodyLimit head.toList) := by
  have hbody := unbroken_sanitize message.toList
  unfold split
  dsimp only
  split
  · -- The whole message fits, and then so does what stands in front of it.
    rename_i hfits
    rw [Text.takeBytes_of_le (by omega)]
    simp [unbroken_append, hbody]
  · rename_i hlong
    split
    · -- There is no room for the message, and the cut may fall in front of it.
      simp only [truncate, List.mem_singleton, forall_eq, String.toList_ofList, String.toList_append]
      exact unbroken_takeBytes_append hbody _ _
    · -- Every part repeats the same front, and there is at least one part.
      rename_i hroom
      rw [Text.takeBytes_of_le (by omega)]
      have hparts : Text.partsWithin (f.bodyLimit - (Text.byteLength head.toList +
          Text.byteLength f.splitSuffix.toList)) (sanitize message.toList) ≠ [] := by
        apply Text.partsWithin_ne_nil
        intro hempty
        rw [hempty] at hlong
        simp only [Text.byteLength] at hlong
        omega
      constructor
      · intro hlines
        obtain ⟨part, hpart⟩ := List.exists_mem_of_ne_nil _ hparts
        have hline := hlines _ (List.mem_map_of_mem hpart)
        rw [String.toList_append, String.toList_append, unbroken_append, unbroken_append] at hline
        exact hline.1.1
      · intro hhead line hline
        obtain ⟨part, hpart, rfl⟩ := List.mem_map.mp hline
        have hunbroken : Unbroken part := hbody.of_subset (Text.subset_of_mem_partsWithin hpart)
        rw [String.toList_append, String.toList_append, String.toList_ofList, unbroken_append,
          unbroken_append]
        exact ⟨⟨hhead, hunbroken⟩, hsuffix⟩

/-- What stands in front of a message that may be split. -/
def splitHead? (f : LineFormatter) : Command → Option String
  | .privmsg target _ => if f.autoSplit then some ("PRIVMSG " ++ target ++ " :") else none
  | .notice target _ => if f.autoSplit then some ("NOTICE " ++ target ++ " :") else none
  | _ => none

/-- The text of a message that may be split. -/
def message? : Command → Option String
  | .privmsg _ text | .notice _ text => some text
  | _ => none

theorem format_of_splitHead?_none {f : LineFormatter} {command : Command}
    (h : f.splitHead? command = none) : f.format command = [f.formatWhole command] := by
  unfold format
  split
  · have hoff : f.autoSplit = false := by simpa [splitHead?] using h
    rw [hoff]
    rfl
  · have hoff : f.autoSplit = false := by simpa [splitHead?] using h
    rw [hoff]
    rfl
  · rfl

theorem format_of_splitHead?_some {f : LineFormatter} {command : Command} {head : String}
    (h : f.splitHead? command = some head) :
    ∃ message, message? command = some message ∧ f.format command = f.split head message := by
  unfold splitHead? at h
  split at h
  · split at h
    · rename_i target message hon
      cases h
      exact ⟨message, rfl, if_pos hon⟩
    · cases h
  · split at h
    · rename_i target message hon
      cases h
      exact ⟨message, rfl, if_pos hon⟩
    · cases h
  · cases h

theorem unbroken_format_iff {f : LineFormatter} (hsuffix : Unbroken f.splitSuffix.toList)
    (command : Command) :
    (∀ line ∈ f.format command, Unbroken line.toList) ↔
      ∀ head, f.splitHead? command = some head →
        Unbroken (Text.takeBytes f.bodyLimit head.toList) := by
  cases hhead : f.splitHead? command with
  | none =>
    rw [format_of_splitHead?_none hhead]
    simpa using unbroken_formatWhole f command
  | some head =>
    obtain ⟨message, -, hformat⟩ := format_of_splitHead?_some hhead
    rw [hformat, unbroken_split_iff hsuffix]
    simp

/-- Every command goes out as unbroken lines, which are read back as they were, unless it is a
message that may be split and a line break of its target comes within the limit. -/
theorem format_framing {f : LineFormatter} (hsuffix : Unbroken f.splitSuffix.toList)
    (command : Command) :
    ((∀ line ∈ f.format command, Unbroken line.toList) ↔
      ∀ head, f.splitHead? command = some head →
        Unbroken (Text.takeBytes f.bodyLimit head.toList)) ∧
    ((∀ line ∈ f.format command, Unbroken line.toList) →
      LineCodec.initial.decodeAll ((f.format command).flatMap LineCodec.encode) =
        (f.format command, .initial, [])) := by
  refine ⟨unbroken_format_iff hsuffix command, ?_⟩
  intro hlines
  apply LineCodec.decodeAll_flatMap_encode
  exact fun line hline => (hlines line hline).2

/-- A line break in the text of a message, under the usual settings. -/
theorem format_framing_default :
    Unbroken ({} : LineFormatter).splitSuffix.toList ∧
      ({} : LineFormatter).format (.privmsg "#c" "a\r\nQUIT") = ["PRIVMSG #c :a  QUIT"] ∧
      LineCodec.initial.decodeAll ((({} : LineFormatter).format (.privmsg "#c" "a\r\nQUIT")).flatMap
        LineCodec.encode) = (["PRIVMSG #c :a  QUIT"], .initial, []) := by
  have hlines : ({} : LineFormatter).format (.privmsg "#c" "a\r\nQUIT") = ["PRIVMSG #c :a  QUIT"] := by
    decide
  have hframing := format_framing (f := {}) (by decide) (.privmsg "#c" "a\r\nQUIT")
  refine ⟨by decide, hlines, ?_⟩
  rw [hframing.2 (by decide), hlines]

/-- A target with a line break puts a second command on the wire. -/
theorem broken_target :
    ({} : LineFormatter).format (.privmsg "#c\r\nQUIT" "x") = ["PRIVMSG #c\r\nQUIT :x"] ∧
      ¬ ∀ line ∈ ({} : LineFormatter).format (.privmsg "#c\r\nQUIT" "x"), Unbroken line.toList := by
  decide

end IrcClient.LineFormatter
