import IrcClient.Proofs.Session.Handle
import IrcClient.Proofs.Session.Reach
import IrcClient.Proofs.Session.Status

/-!
# The channels of a nick

A server lists the channels that a nick is on with status symbols in front of them. All symbols are
taken off, and a name that begins with one loses it, too: what is left is then no name of the channel
any more, although the store itself looks the whole name up first.
-/

namespace IrcClient

theorem CaseMapping.length_eq_of_same {m : CaseMapping} {a b : String}
    (h : m.normalize a = m.normalize b) : a.toList.length = b.toList.length := by
  have hlower : a.toList.map m.fold = b.toList.map m.fold := String.ofList_inj.mp h
  simpa using congrArg List.length hlower

namespace Store

variable {s : Store} {info : ServerInfo} {id : ChannelId} {channel : Channel} {first : Char}
  {rest symbols : List Char}

/-- What has been cut off in front of a channel's name does not lead to the channel. -/
theorem Grounded.length_le_of_channelId? (h : s.Grounded)
    (hchannel : s.channels.get? id = some channel) {name : String}
    (hid : s.channelId? name = some id) : channel.name.toList.length ≤ name.toList.length := by
  obtain ⟨front, rest, hstrips, hexact, -⟩ := Directory.exists_of_resolve? hid
  obtain ⟨found, hfound, hkey⟩ := h.name_known hexact
  cases hchannel.symm.trans hfound
  rw [CaseMapping.length_eq_of_same hkey, hstrips.eq, String.toList_ofList, List.length_append]
  exact Nat.le_add_left _ _

/-- A name with status symbols in front of it is left whole exactly if it does not begin with a status
symbol itself. Nothing else that is left leads to the channel. -/
theorem Grounded.listed_iff (h : s.Grounded) (hchannel : s.channels.get? id = some channel)
    (hname : channel.name.toList = first :: rest) (htype : first ∈ s.channelPrefixes.toList)
    (hsymbols : ∀ c ∈ symbols, info.isStatusSymbol c = true) :
    let name := String.ofList (info.splitStatus (symbols ++ channel.name.toList)).2
    (s.isChannelName name = true ∧ s.channelId? name = some id) ↔
      info.isStatusSymbol first = false ∧ s.channelId? channel.name = some id := by
  intro name
  have hsplit : name = String.ofList (info.splitStatus (first :: rest)).2 := by
    rw [← hname, ← ServerInfo.splitStatus_append_snd hsymbols]
  cases hfirst : info.isStatusSymbol first with
  | false =>
    have hwhole : name = channel.name := by
      rw [hsplit, ServerInfo.splitStatus_of_head (by simpa using hfirst), ← hname,
        String.ofList_toList]
    have hkind : s.isChannelName channel.name = true := by
      simp [isChannelName, IrcClient.isChannelName, hname, htype]
    rw [hwhole]
    exact ⟨fun hboth => ⟨rfl, hboth.2⟩, fun hboth => ⟨hkind, hboth.2⟩⟩
  | true =>
    refine ⟨fun hboth => ?_, fun hboth => ?_⟩
    · have hlong := h.length_le_of_channelId? hchannel hboth.2
      have hshort := (info.splitStatus_suffix rest).length_le
      rw [hsplit, ServerInfo.splitStatus_cons hfirst, String.toList_ofList, hname,
        List.length_cons] at hlong
      exact absurd (Nat.le_trans hlong hshort) (Nat.not_succ_le_self _)
    · cases hboth.1

end Store

namespace Session

variable {config : ClientConfig} {s : Session} {line : Line} {raw : String} {clock : Clock}

/-! ## Numerics that a registration lets pass -/

/-- The registration goes on beside the reply to a question. -/
theorem receive_of_reply (hparse : Line.parse raw = .ok line) {code : Nat}
    (hnumeric : line.numeric = some code) (hlow : 256 ≤ code) (hhigh : code < 375) (s : Session)
    (clock : Clock) : ∃ registration,
      s.receive (.line clock raw) =
        (numericEffect { s with registration := registration } code line).1 := by
  have hverb := Line.verb_of_numeric hnumeric
  have hpasses : line.Passes := Or.inr ⟨code, hverb, hlow, hhigh⟩
  obtain ⟨registration, first, hregister⟩ := s.register_of_passes hpasses
  have hping : line.verb ≠ .ping := by simp [hverb]
  refine ⟨registration, ?_⟩
  simp only [receive, handleLine, hparse, handle, if_neg hping, hregister]
  simp only [dispatch, hverb]
  rfl

/-! ## The names -/

/-- The names in a list of channels, without the status symbols in front of them. -/
def listedChannels (info : ServerInfo) (list : String) : List String :=
  (Text.words list.toList).map fun entry => String.ofList (info.splitStatus entry).2

theorem whois_of_channels {nick list : String} (hnick : line.param 1 = some nick)
    (hlist : line.param 2 = some list) :
    ∃ reply, (s.onWhois 319 line).1.whois.get? (s.store.directory.key nick) = some reply ∧
      reply.channels = ((s.whois.get? (s.store.directory.key nick)).elim [] (·.channels)) ++
        listedChannels s.info list := by
  simp only [onWhois, hnick, Table.get?_insert, if_true, extendReply, hlist]
  refine ⟨_, rfl, ?_⟩
  cases s.whois.get? (s.store.directory.key nick) <;> rfl

/-- A reply about a nick does not touch the names of channels. -/
theorem names_onWhois (s : Session) (code : Nat) (line : Line) :
    (s.onWhois code line).1.store.channelPrefixes = s.store.channelPrefixes ∧
      (s.onWhois code line).1.store.directory = s.store.directory := by
  unfold onWhois
  split
  · exact ⟨rfl, rfl⟩
  · dsimp only
    split
    · exact ⟨rfl, rfl⟩
    · exact ⟨rfl, rfl⟩
    · dsimp only
      split <;> exact ⟨rfl, rfl⟩

/-- A reply lists the name of a known channel with some status symbols in front of it. What it gives
as the name is a channel name and leads to the channel exactly if the name does not begin with a
status symbol itself and leads to the channel as it is. -/
theorem whois_names_channel (h : Reachable config s) {id : ChannelId} {channel : Channel}
    (hchannel : s.store.channels.get? id = some channel) {first : Char} {rest symbols : List Char}
    (hname : channel.name.toList = first :: rest) (htype : first ∈ s.store.channelPrefixes.toList)
    (hsymbols : ∀ c ∈ symbols, s.info.isStatusSymbol c = true) (hparse : Line.parse raw = .ok line)
    (hnumeric : line.numeric = some 319) {nick list : String} (hnick : line.param 1 = some nick)
    (hlist : line.param 2 = some list)
    (hentry : symbols ++ channel.name.toList ∈ Text.words list.toList) (clock : Clock) :
    let t := s.receive (.line clock raw)
    let name := String.ofList (s.info.splitStatus (symbols ++ channel.name.toList)).2
    ∃ reply,
      t.whois.get? (s.store.directory.key nick) = some reply ∧
      reply.channels = ((s.whois.get? (s.store.directory.key nick)).elim [] (·.channels)) ++
        listedChannels s.info list ∧
      name ∈ listedChannels s.info list ∧
      ((t.store.isChannelName name = true ∧ t.store.channelId? name = some id) ↔
        s.info.isStatusSymbol first = false ∧ s.store.channelId? channel.name = some id) := by
  intro t name
  obtain ⟨registration, hreceive⟩ :=
    receive_of_reply hparse hnumeric (by decide) (by decide) s clock
  let u : Session := { s with registration := registration }
  have ht : t = (u.onWhois 319 line).1 := hreceive
  obtain ⟨reply, hreply, hchannels⟩ := u.whois_of_channels hnick hlist
  obtain ⟨hprefixes, hdirectory⟩ := u.names_onWhois 319 line
  rw [← ht] at hreply hprefixes hdirectory
  have hkind : t.store.isChannelName name = s.store.isChannelName name := by
    rw [Store.isChannelName, Store.isChannelName, hprefixes, hdirectory]
  have hleads : t.store.channelId? name = s.store.channelId? name := by
    rw [Store.channelId?, Store.channelId?, hdirectory]
  refine ⟨reply, hreply, hchannels, List.mem_map.mpr ⟨_, hentry, rfl⟩, ?_⟩
  rw [hkind, hleads]
  exact h.sound.coherent.toGrounded.listed_iff hchannel hname htype hsymbols

/-- A name that begins with no status symbol. -/
theorem whois_names_channel_plain :
    let s := (opened { ClientConfig.standard "irc.example.net" "bot" with capEnabled := false }).run
      ([":irc 001 bot :Welcome", ":bot!b@h JOIN #c"].map (.line ⟨⟨0, 0⟩, ""⟩))
    let t := s.receive (.line ⟨⟨0, 0⟩, ""⟩ ":irc 319 bot alice :@+#c")
    ∃ reply, t.whois.get? (s.store.directory.key "alice") = some reply ∧ "#c" ∈ reply.channels ∧
      t.store.isChannelName "#c" = true ∧ t.store.channelId? "#c" = some ⟨2⟩ := by
  intro s t
  let line : Line :=
    ⟨":irc 319 bot alice :@+#c", [], some (.parse "irc"), "319", ["bot", "alice", "@+#c"]⟩
  have hs : Reachable _ s := reachable_run
    { ClientConfig.standard "irc.example.net" "bot" with capEnabled := false }
    ([":irc 001 bot :Welcome", ":bot!b@h JOIN #c"].map (.line ⟨⟨0, 0⟩, ""⟩))
  have hparse : Line.parse ":irc 319 bot alice :@+#c" = .ok line := rfl
  have hchannel : s.store.channels.get? ⟨2⟩ = some (.new ⟨2⟩ "#c") := by decide +kernel
  have htype : '#' ∈ s.store.channelPrefixes.toList := by decide +kernel
  have hsymbols : ∀ c ∈ ['@', '+'], s.info.isStatusSymbol c = true :=
    List.all_eq_true.mp (by decide +kernel)
  have hplain : s.info.isStatusSymbol '#' = false := by decide +kernel
  have hfound : s.store.channelId? "#c" = some ⟨2⟩ := by decide +kernel
  have hname : (Channel.new ⟨2⟩ "#c").name.toList = '#' :: ['c'] := by decide
  have hlisted : String.ofList (s.info.splitStatus (['@', '+'] ++ "#c".toList)).2 = "#c" := by
    decide +kernel
  clear_value s
  obtain ⟨reply, hreply, hchannels, hmem, hleads⟩ := whois_names_channel hs hchannel hname htype
    hsymbols hparse (by decide +kernel) rfl rfl (by decide +kernel) ⟨⟨0, 0⟩, ""⟩
  refine ⟨reply, hreply, ?_, ?_⟩
  · rw [hchannels]
    exact List.mem_append_right _ (hlisted ▸ hmem)
  · exact hlisted ▸ hleads.mpr ⟨hplain, hfound⟩

/-- By default the sign of local channels is a status symbol, too. -/
theorem whois_loses_channel_sign :
    let s := (opened { ClientConfig.standard "irc.example.net" "bot" with capEnabled := false }).run
      ([":irc 001 bot :Welcome", ":bot!b@h JOIN &local", ":irc 319 bot alice :@&local"].map
        (.line ⟨⟨0, 0⟩, ""⟩))
    (s.whois.get? "alice").map (·.channels) = some ["local"] ∧
      s.store.isChannelName "local" = false ∧ s.store.channelId? "local" = none ∧
      s.store.isChannelName "&local" = true ∧ s.store.channelId? "&local" = some ⟨2⟩ := by
  decide +kernel

end Session

end IrcClient
