import IrcClient.Proofs.Session.Answer
import IrcClient.Proofs.Session.Frame
import IrcClient.Proofs.Session.WhoisChannels
import Mathlib.Data.List.DropRight

/-!
# Replies about nicks

The server answers the question for a nick in several lines and says when the answer ends. Whatever
comes in between, the lines about other nicks and the answers to them included, the application is
told at the end what the lines about this nick say that have come since the last end.
-/

namespace IrcClient.Session

variable {s t : Session} {line : Line} {raw : String}

/-! ## One line about a nick -/

/-- A line about a nick, with what was known about the server when it came. -/
structure WhoisPart where
  nick : String
  code : Nat
  line : Line
  info : ServerInfo

namespace WhoisPart

/-- Whether a part ends the reply. -/
def ends (part : WhoisPart) : Bool := part.code == 318

/-- Whether a part tells of an absence, which other questions are answered with, too. -/
def tellsAway (part : WhoisPart) : Bool := part.code == 301

/-- The reply that is being received for a nick after one more part of it. -/
def extend (part : WhoisPart) (reply? : Option WhoisReply) : Option WhoisReply :=
  if part.ends then none
  else if part.tellsAway then
    reply?.map fun reply => { reply with awayMessage := part.line.param 2 }
  else some (extendReply part.info part.code part.line (reply?.getD { nick := part.nick }))

end WhoisPart

/-- What a line is for the reply about the nick with this lower form, if it is about that nick. -/
def partAbout? (s : Session) (key : String) (line : Line) : Option WhoisPart :=
  match line.verb, line.param 1 with
  | .numeric code, some nick =>
    if code ∈ whoisCodes ∧ s.store.directory.key nick = key then some ⟨nick, code, line, s.info⟩
    else none
  | _, _ => none

theorem partAbout?_eq_none {key : String}
    (h : ∀ code, line.verb = .numeric code → code ∉ whoisCodes) : s.partAbout? key line = none := by
  unfold partAbout?
  split
  · rename_i code nick hverb _
    rw [if_neg]
    exact fun hboth => h code hverb hboth.1
  · rfl

/-- The lines about a nick among some that come one after the other. -/
def partsAbout (s : Session) (key : String) : List (Clock × String) → List WhoisPart
  | [] => []
  | (clock, raw) :: later =>
    (match Line.parse raw with
      | .ok line => (s.partAbout? key line).toList
      | .error _ => []) ++ (s.receive (.line clock raw)).partsAbout key later

theorem get?_whois_onWhois (s : Session) (code : Nat) {nick : String}
    (hnick : line.param 1 = some nick) (key : String) :
    (s.onWhois code line).1.whois.get? key =
      if s.store.directory.key nick = key then
        WhoisPart.extend ⟨nick, code, line, s.info⟩ (s.whois.get? key)
      else s.whois.get? key := by
  unfold onWhois
  simp only [hnick]
  split
  · exact s.whois.get?_erase _ key
  · exact s.whois.get?_modify _ key _
  · rename_i hend haway
    have hextend : WhoisPart.extend ⟨nick, code, line, s.info⟩ (s.whois.get? key) =
        some (extendReply s.info code line ((s.whois.get? key).getD { nick := nick })) := by
      rw [WhoisPart.extend, if_neg (by simpa [WhoisPart.ends] using hend),
        if_neg (by simpa [WhoisPart.tellsAway] using haway)]
    rw [Table.get?_insert, hextend]
    split
    · rename_i hkey
      rw [hkey]
    · rfl

/-- Lines about a nick extend its reply, and all other lines leave it alone. -/
theorem get?_whois_of_parse (hregistered : s.isRegistered = true) (hparse : Line.parse raw = .ok line)
    (clock : Clock) (key : String) :
    (s.receive (.line clock raw)).whois.get? key =
      (s.partAbout? key line).elim (s.whois.get? key) (·.extend (s.whois.get? key)) := by
  by_cases hnumeric : ∃ code, line.verb = .numeric code
  · obtain ⟨code, hverb⟩ := hnumeric
    have hreceive : (s.receive (.line clock raw)).whois = (s.numericEffect code line).1.whois := by
      simp only [receive, handleLine_of_numeric hregistered hparse hverb]
      rfl
    rw [hreceive]
    by_cases hcode : code ∈ whoisCodes
    · rw [numericEffect_of_mem hcode]
      cases hnick : line.param 1 with
      | none => simp only [onWhois, partAbout?, hverb, hnick, Option.elim_none]
      | some nick =>
        rw [s.get?_whois_onWhois code hnick key]
        simp only [partAbout?, hverb, hnick, hcode, true_and]
        split <;> rfl
    · rw [whois_numericEffect hcode, partAbout?_eq_none]
      · rfl
      · intro code' hverb' hmem
        rw [hverb, Verb.numeric.injEq] at hverb'
        exact hcode (hverb' ▸ hmem)
  · have hcommand : ∀ code, line.verb ≠ .numeric code := fun code hverb => hnumeric ⟨code, hverb⟩
    obtain ⟨store, nick, heq⟩ := amends_handleLine hregistered hparse hcommand clock
    rw [receive, heq, partAbout?_eq_none]
    · rfl
    · exact fun code hverb => absurd hverb (hcommand code)

/-! ## Many lines -/

/-- What has been received for a nick are the lines about it, in order. -/
theorem get?_whois_run (hregistered : s.isRegistered = true) (lines : List (Clock × String))
    (key : String) :
    (s.run (lines.map fun given => .line given.1 given.2)).whois.get? key =
      (s.partsAbout key lines).foldl (fun reply? part => part.extend reply?) (s.whois.get? key) := by
  induction lines generalizing s with
  | nil => rfl
  | cons given lines ih =>
    obtain ⟨clock, raw⟩ := given
    have hnext := ih (isRegistered_receive hregistered (.line clock raw))
    rw [partsAbout, List.foldl_append]
    refine hnext.trans ?_
    congr 1
    cases hparse : Line.parse raw with
    | error error =>
      simp only [receive, handleLine, hparse]
      cases error <;> rfl
    | ok line =>
      rw [get?_whois_of_parse hregistered hparse]
      dsimp only
      cases s.partAbout? key line <;> rfl

/-- The lines of a reply since the last end. -/
def sinceEnd (parts : List WhoisPart) : List WhoisPart := parts.rtakeWhile fun part => !part.ends

theorem foldl_extend_sinceEnd (parts : List WhoisPart) (reply? : Option WhoisReply) :
    parts.foldl (fun reply? part => part.extend reply?) reply? =
      (sinceEnd parts).foldl (fun reply? part => part.extend reply?)
        (if parts.any WhoisPart.ends then none else reply?) := by
  induction parts using List.reverseRecOn with
  | nil => rfl
  | append_singleton parts part ih =>
    rw [List.foldl_append, List.foldl_cons, List.foldl_nil, List.any_append, sinceEnd]
    cases hends : part.ends with
    | true =>
      rw [List.rtakeWhile_concat_neg _ _ _ (by simp [hends])]
      simp [WhoisPart.extend, hends]
    | false =>
      rw [List.rtakeWhile_concat_pos _ _ _ (by simp [hends]), List.foldl_append, List.foldl_cons,
        List.foldl_nil, ih]
      simp [hends, sinceEnd]

/-! ## What a reply says -/

/-- The last part of a kind. -/
def lastPart? (parts : List WhoisPart) (code : Nat) : Option WhoisPart :=
  (parts.filter fun part => part.code == code).getLast?

/-- A reply with what some parts add to it. The last part of a kind says what is known, and the
channels of all parts are listed one after the other. -/
def withParts (reply : WhoisReply) (parts : List WhoisPart) : WhoisReply where
  nick := reply.nick
  login := (lastPart? parts 311).elim reply.login (·.line.param 2)
  host := (lastPart? parts 311).elim reply.host (·.line.param 3)
  realName := (lastPart? parts 311).elim reply.realName (·.line.param 5)
  channels := reply.channels ++ (parts.filter fun part => part.code == 319).flatMap fun part =>
    listedChannels part.info ((part.line.param 2).getD "")
  server := (lastPart? parts 312).elim reply.server (·.line.param 2)
  serverInfo := (lastPart? parts 312).elim reply.serverInfo (·.line.param 3)
  idleSeconds := (lastPart? parts 317).elim reply.idleSeconds fun part =>
    (part.line.param 2).bind (Text.unsigned? 64)
  signOn := (lastPart? parts 317).elim reply.signOn fun part =>
    ((part.line.param 3).bind (Text.signed? 64)).bind Timestamp.ofSeconds?
  account := (lastPart? parts 330).elim reply.account (·.line.param 2)
  registered := reply.registered || parts.any fun part => part.code == 307
  awayMessage := (lastPart? parts 301).elim reply.awayMessage (·.line.param 2)
  found := reply.found || parts.any fun part => part.code == 311

/-- The reply about a nick that some parts make up after what was there before. If nothing was there,
it begins with the first part that is not about an absence, and spells the nick like that part. -/
def composeReply (before? : Option WhoisReply) (nick : String) (parts : List WhoisPart) : WhoisReply :=
  match before? with
  | some before => withParts before parts
  | none =>
    let counted := parts.dropWhile WhoisPart.tellsAway
    withParts { nick := (counted.head?.map WhoisPart.nick).getD nick } counted

theorem lastPart?_concat (parts : List WhoisPart) (part : WhoisPart) (code : Nat) :
    lastPart? (parts ++ [part]) code = if part.code = code then some part else lastPart? parts code := by
  unfold lastPart?
  rw [List.filter_append]
  split
  · rename_i hcode
    simp [hcode]
  · rename_i hcode
    simp [hcode]

theorem extend_withParts {part : WhoisPart} (hends : part.ends = false) (reply : WhoisReply)
    (parts : List WhoisPart) :
    part.extend (some (withParts reply parts)) = some (withParts reply (parts ++ [part])) := by
  obtain ⟨nick, code, line, info⟩ := part
  simp only [WhoisPart.ends, beq_eq_false_iff_ne] at hends
  by_cases haway : code = 301
  · subst haway
    simp [WhoisPart.extend, WhoisPart.ends, WhoisPart.tellsAway, withParts, lastPart?_concat]
  · have hcounts : WhoisPart.extend ⟨nick, code, line, info⟩ (some (withParts reply parts)) =
        some (extendReply info code line (withParts reply parts)) := by
      simp [WhoisPart.extend, WhoisPart.ends, WhoisPart.tellsAway, hends, haway]
    rw [hcounts]
    unfold extendReply
    split
    · simp [withParts, lastPart?_concat]
    · simp [withParts, lastPart?_concat, listedChannels]
    · simp [withParts, lastPart?_concat]
    · simp [withParts, lastPart?_concat]
    · simp [withParts, lastPart?_concat]
    · simp [withParts, lastPart?_concat]
    · rename_i h311 h319 h312 h317 h330 h307
      rw [imp_false] at h311 h319 h312 h317 h330 h307
      simp [withParts, lastPart?_concat, h311, h319, h312, h317, h330, haway,
        beq_eq_false_iff_ne.mpr h311, beq_eq_false_iff_ne.mpr h307]

theorem foldl_extend_some (reply : WhoisReply) {parts : List WhoisPart}
    (hends : ∀ part ∈ parts, part.ends = false) :
    parts.foldl (fun reply? part => part.extend reply?) (some reply) = some (withParts reply parts) := by
  induction parts using List.reverseRecOn with
  | nil => simp [withParts, lastPart?]
  | append_singleton parts part ih =>
    obtain ⟨hbefore, hlast⟩ := List.forall_mem_append.mp hends
    rw [List.foldl_append, List.foldl_cons, List.foldl_nil, ih hbefore]
    exact extend_withParts (hlast part (List.mem_singleton_self part)) reply parts

/-- Nothing is received as long as all that comes is about an absence. -/
theorem foldl_extend_none (parts : List WhoisPart) :
    parts.foldl (fun reply? part => part.extend reply?) none =
      (parts.dropWhile WhoisPart.tellsAway).foldl (fun reply? part => part.extend reply?) none := by
  induction parts with
  | nil => rfl
  | cons part parts ih =>
    cases haway : part.tellsAway with
    | true =>
      rw [List.dropWhile_cons_of_pos haway, ← ih, List.foldl_cons]
      simp [WhoisPart.extend, haway]
    | false => rw [List.dropWhile_cons_of_neg (by simp [haway])]

/-- A reply that is begun by a part has the nick as the part has it. -/
theorem extend_none {part : WhoisPart} (hends : part.ends = false) (haway : part.tellsAway = false) :
    part.extend none = part.extend (some { nick := part.nick }) := by
  simp [WhoisPart.extend, hends, haway]

/-- Going through the parts one by one makes up the whole reply. -/
theorem getD_foldl_extend (before? : Option WhoisReply) (nick : String) {parts : List WhoisPart}
    (hends : ∀ part ∈ parts, part.ends = false) :
    (parts.foldl (fun reply? part => part.extend reply?) before?).getD { nick := nick } =
      composeReply before? nick parts := by
  cases before? with
  | some before => rw [foldl_extend_some before hends, Option.getD_some, composeReply]
  | none =>
    rw [foldl_extend_none, composeReply]
    have hcounted : ∀ part ∈ parts.dropWhile WhoisPart.tellsAway, part.ends = false :=
      fun part hmem => hends part ((List.dropWhile_suffix _).subset hmem)
    have hhead := List.head?_dropWhile_not WhoisPart.tellsAway parts
    generalize parts.dropWhile WhoisPart.tellsAway = counted at *
    cases counted with
    | nil => simp [withParts, lastPart?]
    | cons first later =>
      have hfirst := hcounted first List.mem_cons_self
      have hcounts : first.tellsAway = false := by simpa using hhead
      rw [List.foldl_cons, extend_none hfirst hcounts, ← List.foldl_cons,
        foldl_extend_some _ hcounted]
      rfl

theorem ends_of_mem_sinceEnd {parts : List WhoisPart} {part : WhoisPart}
    (hmem : part ∈ sinceEnd parts) : part.ends = false := by
  simpa using List.mem_rtakeWhile_imp hmem

/-- The end of the answer for a nick tells the application once what the lines about the nick say that
have come since the end before. Lines about other nicks and all other lines do not matter, and nothing
of the reply is left. -/
theorem whois_told_exactly (hregistered : s.isRegistered = true) (lines : List (Clock × String))
    (hparse : Line.parse raw = .ok line) (hnumeric : line.numeric = some 318) {nick : String}
    (hnick : line.param 1 = some nick) (clock : Clock) :
    let t := s.run (lines.map fun given => .line given.1 given.2)
    let key := t.store.directory.key nick
    let parts := s.partsAbout key lines
    let before? := if parts.any WhoisPart.ends then none else s.whois.get? key
    (t.handleLine clock raw).2 =
        [.emit (.whois (composeReply before? nick (sinceEnd parts))),
          .emit (.serverResponse 318 line.params line.raw)] ∧
      (t.receive (.line clock raw)).whois.get? key = none := by
  intro t key parts before?
  have hregistered' : t.isRegistered = true :=
    run_of_receive (P := fun s => s.isRegistered = true) (fun _ input h => isRegistered_receive h input)
      hregistered _
  have hreply : (t.whois.get? key).getD { nick := nick } =
      composeReply before? nick (sinceEnd parts) := by
    rw [get?_whois_run hregistered, foldl_extend_sinceEnd,
      getD_foldl_extend _ nick fun part => ends_of_mem_sinceEnd]
  have hline := handleLine_of_numeric hregistered' hparse (Line.verb_of_numeric hnumeric) clock
  simp only [onNumeric, numericEffect, onWhois, hnick] at hline
  rw [receive, hline, ← hreply]
  exact ⟨rfl, (t.whois.get?_erase key key).trans (if_pos rfl)⟩

/-- Two answers at the same time, one of them with an absence before it and one in it. -/
theorem whois_told_exactly_interleaved :
    let clock : Clock := ⟨⟨0, 0⟩, ""⟩
    let s := (opened { ClientConfig.standard "irc.example.net" "bot" with capEnabled := false }).run
      [.line clock ":irc 001 bot :Welcome"]
    let lines := [":irc 301 bot alice :gone", ":irc 311 bot Alice al h * :A. Liddell",
      ":irc 311 bot bob b h * :Bob", ":irc 319 bot alice :@#a", ":irc 318 bot bob :End",
      ":irc 301 bot alice :asleep", ":irc 319 bot ALICE :+#b"].map (clock, ·)
    let t := s.run (lines.map fun given => .line given.1 given.2)
    (t.handleLine clock ":irc 318 bot alice :End").2 =
      [.emit (.whois
        { nick := "Alice"
          login := some "al"
          host := some "h"
          realName := some "A. Liddell"
          channels := ["#a", "#b"]
          awayMessage := some "asleep"
          found := true }),
        .emit (.serverResponse 318 ["bot", "alice", "End"] ":irc 318 bot alice :End")] := by
  intro clock s lines t
  let line : Line :=
    ⟨":irc 318 bot alice :End", [], some (.parse "irc"), "318", ["bot", "alice", "End"]⟩
  have hregistered : s.isRegistered = true := by decide +kernel
  have hparse : Line.parse ":irc 318 bot alice :End" = .ok line := rfl
  have hkey : t.store.directory.key "alice" = "alice" := by decide +kernel
  have hreply : composeReply
      (if (s.partsAbout "alice" lines).any WhoisPart.ends then none else s.whois.get? "alice") "alice"
      (sinceEnd (s.partsAbout "alice" lines)) =
        { nick := "Alice"
          login := some "al"
          host := some "h"
          realName := some "A. Liddell"
          channels := ["#a", "#b"]
          awayMessage := some "asleep"
          found := true } := by
    decide +kernel
  clear_value lines s
  obtain ⟨htold, -⟩ := whois_told_exactly hregistered lines hparse (by decide +kernel) rfl clock
  rw [hkey, hreply] at htold
  exact htold

end IrcClient.Session
