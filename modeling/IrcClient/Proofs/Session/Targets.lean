import IrcClient.Proofs.Session.Departure
import IrcClient.Proofs.Session.Report
import IrcClient.Proofs.Store.Resolution

/-!
# Who a line is meant for

A message or a change of modes is meant for a channel or for a user. The session takes its target for a
channel's name or not by the look of it, and only then looks the channel up. So nothing that is meant
for a known channel is taken for something personal, as long as the look of the channel's name does not
depend on the case mapping.
-/

namespace IrcClient

/-- Where something was said that an event tells of: on a channel, or to the client alone. -/
def Event.saidOn? : Event → Option (Option ChannelSnapshot)
  | .message channel .. => some (some channel)
  | .privateMessage .. => some none
  | .notice channel .. | .action channel .. | .versionRequest channel _ | .pingRequest channel ..
  | .timeRequest channel _ | .fingerRequest channel _ | .ctcpRequest channel .. => some channel
  | _ => none

namespace Session

variable {s : Session} {clock : Clock} {line : Line} {target : String} {id : ChannelId}
  {channel : Channel}

theorem saidOn?_ctcpEvent {channel place : Option ChannelSnapshot} {user : UserSnapshot}
    {payload : Ctcp} (h : (ctcpEvent channel user payload).saidOn? = some place) :
    place = channel := by
  cases payload <;> cases h <;> rfl

theorem saidOn?_textEvent {isNotice : Bool} {channel place : Option ChannelSnapshot}
    {user : UserSnapshot} {text : String}
    (h : (textEvent isNotice channel user text).saidOn? = some place) : place = channel := by
  cases isNotice with
  | true =>
    cases h
    rfl
  | false => cases channel <;> cases h <;> rfl

/-- The answer to a request is sent, and tells the application nothing. -/
theorem not_emit_mem_ctcpAnswer (nick : String) (payload : Ctcp) (event : Event) :
    Action.emit event ∉ s.ctcpAnswer clock nick payload := by
  rw [ctcpAnswer_eq]
  split <;> simp

/-- What is said on a known channel is told as that, and makes nobody a contact. -/
theorem onMessage_of_channelOf? (hfound : s.channelOf? target = some id)
    (hchannel : s.store.channels.get? id = some channel) (htarget : line.param 0 = some target)
    (isNotice : Bool) (source : Hostmask) :
    (s.onMessage clock isNotice source line).1.store.contacts = s.store.contacts ∧
      ∀ event place, .emit event ∈ (s.onMessage clock isNotice source line).2 →
        event.saidOn? = some place → place = some channel.snapshot := by
  obtain ⟨users, hobserved⟩ := s.store.observe_eq source
  have hinfo : (s.store.observe source).channelSnapshot? id = some channel.snapshot := by
    rw [hobserved, Store.channelSnapshot?, hchannel, Option.map_some]
  have hcontacts : (s.store.observe source).contacts = s.store.contacts := by rw [hobserved]
  unfold onMessage
  rw [htarget]
  split
  · rename_i name text hname _
    cases hname
    simp only [hfound, noteSpeaker, onStore, Option.bind_some, hinfo]
    split
    · rename_i payload _
      split
      · refine ⟨hcontacts, fun event place hevent hsaid => ?_⟩
        cases List.mem_singleton.mp hevent
        cases hsaid
      · refine ⟨hcontacts, fun event place hevent hsaid => ?_⟩
        rcases List.mem_append.mp hevent with hanswer | hlast
        · exact absurd hanswer (not_emit_mem_ctcpAnswer _ _ _)
        · cases List.mem_singleton.mp hlast
          exact saidOn?_ctcpEvent hsaid
    · refine ⟨hcontacts, fun event place hevent hsaid => ?_⟩
      cases List.mem_singleton.mp hevent
      exact saidOn?_textEvent hsaid
  · refine ⟨rfl, fun event place hevent hsaid => ?_⟩
    cases List.mem_singleton.mp hevent
    cases hsaid

/-- A change of modes for what can be a channel is not told as one of a user's modes. -/
theorem userModeChanged_not_mem_onMode (hname : s.store.isChannelName target = true)
    (htarget : line.param 0 = some target) (source : Hostmask) (whose : String)
    (user : UserSnapshot) (mode : String) :
    .emit (.userModeChanged whose user mode) ∉ (s.onMode source line).actions := by
  intro hevent
  obtain ⟨users, hobserved⟩ := s.store.observe_eq source
  have hname' : (s.store.observe source).isChannelName target = true := by
    rw [hobserved]
    exact hname
  unfold onMode at hevent
  split at hevent
  · rename_i first modes args hparams
    rw [Line.param, hparams] at htarget
    cases htarget
    simp only [onStore, hname', Bool.not_true, Bool.false_eq_true, if_false] at hevent
    split at hevent
    · cases List.mem_singleton.mp hevent
    · unfold attempt at hevent
      split at hevent
      · rename_i changed happlied
        obtain ⟨told, hmem, heq⟩ := List.mem_map.mp hevent
        cases heq
        rcases List.mem_append.mp hmem with hletter | hsummary
        · cases Store.isLetter_applyModes happlied _ hletter
        · obtain ⟨c, -, heq⟩ := Option.map_eq_some_iff.mp (Option.mem_toList.mp hsummary)
          cases heq
      · cases hevent
  · cases List.mem_singleton.mp hevent

/-- In a store whose index holds exactly the channels, a target stands for the first channel found
when status symbols are taken off it one by one, and for none if none is found. If the name of the
channel begins with a character that channel names begin with, and that the case mapping leaves alone,
the target is recognized as a channel's. A message or a notice for it is then told as one on this
channel, so that nobody becomes a contact by it, and a change of modes is not told as a user's. -/
theorem channel_targets {store : Store} (h : store.ChannelIndexExact) (target : String) :
    (∀ id, store.channelId? target = some id ↔
      ∃ front rest, store.directory.Strips target.toList front rest ∧ store.Names rest id ∧
        ∀ front' rest' id', store.directory.Strips target.toList front' rest' →
          front'.length < front.length → ¬ store.Names rest' id') ∧
      (store.channelId? target = none ↔
        ∀ front rest id, store.directory.Strips target.toList front rest → ¬ store.Names rest id) ∧
      ∀ id channel first, store.channelId? target = some id →
        store.channels.get? id = some channel → channel.name.toList.head? = some first →
        first ∈ store.channelPrefixes.toList → store.directory.caseMapping.Leaves first →
        store.isChannelName target = true ∧
          ∀ s : Session, s.store = store → ∀ clock line, line.param 0 = some target →
            (line.verb = .privmsg ∨ line.verb = .notice →
              (s.dispatch clock line).session.store.contacts = s.store.contacts ∧
                ∀ event place, .emit event ∈ (s.dispatch clock line).actions →
                  event.saidOn? = some place → place = some channel.snapshot) ∧
            (line.verb = .mode → ∀ whose user mode,
              .emit (.userModeChanged whose user mode) ∉ (s.dispatch clock line).actions) := by
  refine ⟨fun id => h.channelId?_eq_some_iff, h.channelId?_eq_none_iff, ?_⟩
  intro id channel first hfound hchannel hhead hfirst hleaves
  have hname := h.isChannelName hfound hchannel hhead hfirst hleaves
  refine ⟨hname, ?_⟩
  rintro s rfl clock line htarget
  have hof : s.channelOf? target = some id := by rw [channelOf?, if_pos hname, hfound]
  constructor
  · rintro (hverb | hverb)
    all_goals
      simp only [dispatch, hverb]
      split
      · refine ⟨rfl, fun event place hevent hsaid => ?_⟩
        cases List.mem_singleton.mp hevent
        cases hsaid
      · exact onMessage_of_channelOf? hof hchannel htarget _ _
  · intro hverb whose user mode
    simp only [dispatch, hverb]
    split
    · intro hevent
      cases List.mem_singleton.mp hevent
    · exact userModeChanged_not_mem_onMode hname htarget _ whose user mode

/-- A message for the members of some rank on a channel, whose name is written in capitals. -/
theorem channel_targets_ranked :
    let config := { ClientConfig.standard "irc.example.net" "bot" with capEnabled := false }
    let s := (opened config).run ([":irc 001 bot :Welcome", ":bot!b@h JOIN #rust"].map
      (.line ⟨⟨0, 0⟩, ""⟩))
    let line : Line := ⟨":al!a@h PRIVMSG @+#RUST :hi", [], some (.parse "al!a@h"), "PRIVMSG",
      ["@+#RUST", "hi"]⟩
    s.store.ChannelIndexExact ∧ s.store.channelId? "@+#RUST" = some ⟨2⟩ ∧
      s.store.isChannelName "@+#RUST" = true ∧
      ∀ clock, (s.dispatch clock line).session.store.contacts = s.store.contacts ∧
        ∀ event place, .emit event ∈ (s.dispatch clock line).actions →
          event.saidOn? = some place → place = some (Channel.new ⟨2⟩ "#rust").snapshot := by
  intro config s line
  have hgrounded : s.store.Grounded := (reachable_run config _).sound.coherent.toGrounded
  have hcomplete : s.store.Complete := by decide +kernel
  have hexact : s.store.ChannelIndexExact :=
    hgrounded.channelIndexExact (hgrounded.complete_iff.mp hcomplete)
  have hfound : s.store.channelId? "@+#RUST" = some ⟨2⟩ := by decide +kernel
  have hchannel : s.store.channels.get? ⟨2⟩ = some (.new ⟨2⟩ "#rust") := by decide +kernel
  obtain ⟨-, -, hmeant⟩ := channel_targets hexact "@+#RUST"
  obtain ⟨hname, hpublic⟩ := hmeant ⟨2⟩ _ '#' hfound hchannel (by decide) (by decide +kernel)
    (by decide +kernel)
  exact ⟨hexact, hfound, hname, fun clock =>
    (hpublic s rfl clock line rfl).1 (Or.inl (by decide +kernel))⟩

end Session

end IrcClient
