import IrcClient.Proofs.Session.Enlisting
import IrcClient.Proofs.Session.Frame
import IrcClient.Proofs.Session.Presence
import Mathlib.Data.List.Nodup

/-!
# The members of a channel that the client joins

When the client joins a channel, the server lists the nicks on it in some lines and says when the list
ends. However the list is cut, ordered and repeated, the members are the client and whoever is listed,
and the application is told of each of them once.
-/

namespace IrcClient.Session

variable {config : ClientConfig} {s t : Session} {line : Line} {raw : String} {channel : ChannelId}

/-! ## The client's own join -/

/-- A session that has just joined a channel under a name: nobody else is known to be there. -/
structure Alone (s : Session) (me : UserId) (channel : ChannelId) (name : String) : Prop where
  registered : s.isRegistered = true
  self : s.store.selfId = some me
  found : s.store.userId? s.nick = some me
  named : s.store.channelId? name = some channel
  known : ∃ info, s.store.channels.get? channel = some info ∧ info.name = name
  members : ∀ id, s.store.isMember id channel = true ↔ id = me
  holds : ∀ level id, s.store.standing.holds level id channel = false

/-- Nobody is on a channel that nobody knew of. -/
theorem not_member_fresh {store : Store} (h : store.Grounded) (id : UserId) :
    store.isMember id ⟨store.nextId⟩ = false := by
  rw [← Bool.not_eq_true]
  intro hmember
  obtain ⟨-, hknown⟩ := h.member_known hmember
  obtain ⟨info, hinfo⟩ := (Table.contains_iff _ _).mp hknown
  rw [h.fresh_channel] at hinfo
  cases hinfo

theorem alone_onJoin (h : s.store.Coherent) (hregistered : s.isRegistered = true)
    (hidentified : s.Identified) {source : Hostmask} (hown : s.isOwnNick source.nick = true)
    {name : String} (hname : line.param 0 = some name)
    (hfree : s.store.directory.exactChannel? name = none) :
    ∃ me channel, (s.onJoin source line).1.Alone me channel name := by
  have hsame := hidentified.same_of_isOwnNick h.toGrounded hown
  obtain ⟨me, hself, hfound⟩ := hidentified
  have hfresh := not_member_fresh h.toGrounded
  have hgrounded := (h.trackChannel name).coherent.toGrounded
  have hknown := h.trackChannel_known name
  have hexact := s.store.exactChannel?_trackChannel name
  have hself' : (s.store.trackChannel name).1.selfId = some me := by simp [hself]
  have hstanding := s.store.standing_trackChannel name
  simp only [onJoin, hname, Option.bind_some, enterChannel, hown, if_true]
  obtain ⟨hchannel, hinfo, hfound'⟩ : (s.store.trackChannel name).2 = ⟨s.store.nextId⟩ ∧
      (s.store.trackChannel name).1.channels.get? ⟨s.store.nextId⟩ =
        some (.new ⟨s.store.nextId⟩ name) ∧
      ∀ nick, (s.store.trackChannel name).1.userId? nick = s.store.userId? nick := by
    simp only [Store.trackChannel, hfree, Table.get?_insert, if_true, true_and]
    exact fun nick => rfl
  generalize (s.store.trackChannel name).1 = base at *
  generalize (s.store.trackChannel name).2 = channel at *
  subst hchannel
  have hgrows := grows_onJoin hgrounded hknown source line
  have huser : (base.trackUser source).2 = me := by
    have htracked := (hgrounded.grows_trackUser source).userId?
      ((hfound' source.nick).trans ((Store.userId?_eq_of_same hsame).trans hfound))
    exact Option.some.inj ((base.userId?_trackUser source).symm.trans htracked)
  have hjoined : (((base.trackUser source).1.modifyUser (base.trackUser source).2
      (joinDetails line)).addMember (base.trackUser source).2 ⟨s.store.nextId⟩).standing =
        s.store.standing.join me ⟨s.store.nextId⟩ := by
    rw [huser, ← hstanding, ← Store.standing_trackUser (s := base) source]
    rfl
  refine ⟨me, ⟨s.store.nextId⟩, hregistered, ?_, ?_, ?_, ?_, ?_, ?_⟩
  · exact hgrows.self.trans hself'
  · exact hgrows.userId? ((hfound' s.nick).trans hfound)
  · apply Store.channelId?_of_exact
    rw [Directory.exactChannel?, Directory.key, hgrows.names, hgrows.caseMapping]
    exact hexact
  · obtain ⟨info, hget, heq⟩ := hgrows.channel_kept hinfo
    exact ⟨info, hget, heq⟩
  · intro id
    have hbefore := hfresh id
    rw [Store.isMember] at hbefore ⊢
    rw [hjoined, Standing.contains_join, hbefore]
    simp
  · intro level id
    rw [hjoined, ← Bool.not_eq_true]
    intro hholds
    have hmember := h.standing.member_of_holds hholds
    exact Bool.false_ne_true ((hfresh id).symm.trans hmember)

/-! ## The lines of a list -/

/-- A line that lists names for a channel. -/
structure NamesLine (s : Session) (channel : ChannelId) where
  clock : Clock
  raw : String
  line : Line
  names : String
  entries : List (ListedNick s.info)
  parsed : Line.parse raw = .ok line
  numeric : line.numeric = some 353
  tracked : s.tracked? line 2 = some channel
  listed : line.param 3 = some names
  words : Text.words names.toList = entries.map ListedNick.text

def NamesLine.input (names : NamesLine s channel) : Input := .line names.clock names.raw

theorem tracked?_of_enlists {entries : List (ListedNick s.info)}
    (h : Store.Enlists channel entries s.store t.store) (line : Line) (index : Nat) :
    t.tracked? line index = s.tracked? line index := by
  rw [tracked?, tracked?]
  exact Option.bind_congr fun name _ => h.channelId?_eq name

/-- However many lines list names, in whatever order, all names are put on the channel. -/
theorem run_names (h : s.store.Grounded) (hregistered : s.isRegistered = true)
    (hchannel : s.store.channels.contains channel = true) (lines : List (NamesLine s channel)) :
    let t := s.run (lines.map NamesLine.input)
    t.isRegistered = true ∧ t.info = s.info ∧ t.nick = s.nick ∧
      Store.Enlists channel (lines.flatMap NamesLine.entries) s.store t.store := by
  induction lines using List.reverseRecOn with
  | nil => exact ⟨hregistered, rfl, rfl, .nil h⟩
  | append_singleton lines last ih =>
    obtain ⟨hregistered, hinfo, hnick, henlists⟩ := ih
    rw [List.map_append, List.map_singleton, run_concat, List.flatMap_append,
      List.flatMap_singleton]
    generalize s.run (lines.map NamesLine.input) = t at *
    have htracked : t.tracked? last.line 2 = some channel := by
      rw [tracked?_of_enlists henlists, last.tracked]
    have hreceive : t.receive last.input =
        { t with
          store := (last.entries.map ListedNick.text).foldl (addName t.info channel) t.store } := by
      simp only [NamesLine.input, receive]
      rw [handleLine_of_numeric hregistered last.parsed (Line.verb_of_numeric last.numeric)]
      simp only [onNumeric, numericEffect, onNames, htracked, last.listed, last.words]
      rfl
    rw [← henlists.grows.channel_known] at hchannel
    rw [hreceive]
    refine ⟨hregistered, hinfo, hnick, ?_⟩
    dsimp only
    rw [hinfo]
    exact henlists.append (henlists.grows.grounded.enlists_foldl_addName hchannel last.entries)

/-! ## The members -/

/-- The members of a channel are the client and whoever is listed. Each of them comes once, and has the
levels of all symbols that its nick is listed with. -/
structure ListsMembers {info : ServerInfo} (s : Session) (channel : ChannelId)
    (entries : List (ListedNick info)) : Prop where
  once : ((s.store.membersOf channel).map fun user => s.store.directory.key user.nick).Nodup
  self : ∃ user ∈ s.store.membersOf channel, s.store.isSelf user.id = true ∧
    s.store.directory.key user.nick = s.store.directory.key s.nick
  members : ∀ key,
    key ∈ (s.store.membersOf channel).map (fun user => s.store.directory.key user.nick) ↔
      key = s.store.directory.key s.nick ∨
        ∃ entry ∈ entries, key = s.store.directory.key entry.name
  levels : ∀ user ∈ s.store.membersOf channel, ∀ level,
    s.store.standing.holds level user.id channel = true ↔
      ∃ entry ∈ entries, s.store.directory.key entry.name = s.store.directory.key user.nick ∧
        level ∈ entry.levels

section Members

variable {me : UserId} {name : String} {entries : List (ListedNick s.info)}

theorem mem_membersOf {store : Store} (h : store.Grounded) {user : User} :
    user ∈ store.membersOf channel ↔
      store.users.get? user.id = some user ∧ store.isMember user.id channel = true := by
  simp only [Store.membersOf, List.mem_filterMap, h.standing.members.mem_usersOf]
  constructor
  · rintro ⟨id, hmember, hget⟩
    obtain ⟨rfl, -⟩ := h.user_id hget
    exact ⟨hget, hmember⟩
  · rintro ⟨hget, hmember⟩
    exact ⟨user.id, hmember, hget⟩

/-- A user whom a nick leads to has the nick. -/
theorem key_of_userId? {store : Store} (h : store.Grounded) {user : User} {nick : String}
    (huser : store.users.get? user.id = some user) (hid : store.userId? nick = some user.id) :
    store.directory.key user.nick = store.directory.key nick := by
  obtain ⟨found, hfound, hkey⟩ := h.nick_known hid
  cases huser.symm.trans hfound
  exact hkey

/-- The members are found by their nicks. -/
theorem userId?_of_member (halone : s.Alone me channel name)
    (henlists : Store.Enlists channel entries s.store t.store) {user : User}
    (hmem : user ∈ t.store.membersOf channel) :
    t.store.userId? user.nick = some user.id := by
  have hgrounded := henlists.grows.grounded
  obtain ⟨hget, hmember⟩ := (mem_membersOf hgrounded).mp hmem
  obtain ⟨nick, hid⟩ : ∃ nick, t.store.userId? nick = some user.id := by
    rcases (henlists.members user.id).mp hmember with ⟨entry, -, hid⟩ | hbefore
    · exact ⟨entry.name, hid⟩
    · rw [(halone.members user.id).mp hbefore]
      exact ⟨s.nick, henlists.grows.userId? halone.found⟩
  rw [Store.userId?, Directory.userId?, key_of_userId? hgrounded hget hid]
  exact hid

/-- Every member is listed once, as no two of them have the same nick. -/
theorem nodup_keys_members (halone : s.Alone me channel name)
    (henlists : Store.Enlists channel entries s.store t.store) :
    ((t.store.membersOf channel).map fun user => t.store.directory.key user.nick).Nodup := by
  have hgrounded := henlists.grows.grounded
  have hmembers : (t.store.membersOf channel).Nodup := by
    refine (hgrounded.standing.members.byChannel.nodup_of channel).filterMap ?_
    intro id id' user hget hget'
    rw [← (hgrounded.user_id hget).1, (hgrounded.user_id hget').1]
  refine hmembers.map_on ?_
  intro user hmem other hmem' hkey
  have hid := userId?_of_member halone henlists hmem
  rw [Store.userId?, Directory.userId?, hkey] at hid
  have hsame := Option.some.inj (hid.symm.trans (userId?_of_member halone henlists hmem'))
  have hget := ((mem_membersOf hgrounded).mp hmem).1
  rw [hsame, ((mem_membersOf hgrounded).mp hmem').1] at hget
  exact (Option.some.inj hget).symm

theorem exists_member {store : Store} (h : store.Grounded) {nick : String} {id : UserId}
    (hid : store.userId? nick = some id) (hmember : store.isMember id channel = true) :
    ∃ user ∈ store.membersOf channel, user.id = id ∧
      store.directory.key user.nick = store.directory.key nick := by
  obtain ⟨user, hget, hkey⟩ := h.nick_known hid
  obtain ⟨rfl, -⟩ := h.user_id hget
  exact ⟨user, (mem_membersOf h).mpr ⟨hget, hmember⟩, rfl, hkey⟩

/-- The members are the client and everybody who is listed. -/
theorem mem_keys_members (halone : s.Alone me channel name)
    (henlists : Store.Enlists channel entries s.store t.store) (key : String) :
    key ∈ (t.store.membersOf channel).map (fun user => t.store.directory.key user.nick) ↔
      key = t.store.directory.key s.nick ∨
        ∃ entry ∈ entries, key = t.store.directory.key entry.name := by
  have hgrounded := henlists.grows.grounded
  rw [List.mem_map]
  constructor
  · rintro ⟨user, hmem, rfl⟩
    obtain ⟨hget, hmember⟩ := (mem_membersOf hgrounded).mp hmem
    rcases (henlists.members user.id).mp hmember with ⟨entry, hentry, hid⟩ | hbefore
    · exact Or.inr ⟨entry, hentry, key_of_userId? hgrounded hget hid⟩
    · have hid := henlists.grows.userId? halone.found
      rw [← (halone.members user.id).mp hbefore] at hid
      exact Or.inl (key_of_userId? hgrounded hget hid)
  · rintro (rfl | ⟨entry, hentry, rfl⟩)
    · have hmember := (henlists.members me).mpr (Or.inr ((halone.members me).mpr rfl))
      obtain ⟨user, hmem, -, hkey⟩ :=
        exists_member hgrounded (henlists.grows.userId? halone.found) hmember
      exact ⟨user, hmem, hkey⟩
    · obtain ⟨id, hid⟩ := henlists.found entry hentry
      have hmember := (henlists.members id).mpr (Or.inl ⟨entry, hentry, hid⟩)
      obtain ⟨user, hmem, -, hkey⟩ := exists_member hgrounded hid hmember
      exact ⟨user, hmem, hkey⟩

/-- A member has the levels of all symbols that its nick is listed with. -/
theorem holds_member (halone : s.Alone me channel name)
    (henlists : Store.Enlists channel entries s.store t.store) {user : User}
    (hmem : user ∈ t.store.membersOf channel) (level : PrivilegeLevel) :
    t.store.standing.holds level user.id channel = true ↔
      ∃ entry ∈ entries, t.store.directory.key entry.name = t.store.directory.key user.nick ∧
        level ∈ entry.levels := by
  have hgrounded := henlists.grows.grounded
  obtain ⟨hget, -⟩ := (mem_membersOf hgrounded).mp hmem
  have hlisted (entry : ListedNick s.info) : t.store.userId? entry.name = some user.id ↔
      t.store.directory.key entry.name = t.store.directory.key user.nick := by
    constructor
    · exact fun hid => (key_of_userId? hgrounded hget hid).symm
    · intro hkey
      rw [Store.userId?, Directory.userId?, hkey]
      exact userId?_of_member halone henlists hmem
  rw [henlists.holds, halone.holds]
  simp only [hlisted, Bool.false_eq_true, or_false]

theorem listsMembers_of_enlists (halone : s.Alone me channel name)
    (henlists : Store.Enlists channel entries s.store t.store) (hnick : t.nick = s.nick) :
    t.ListsMembers channel entries where
  once := nodup_keys_members halone henlists
  self := by
    have hmember := (henlists.members me).mpr (Or.inr ((halone.members me).mpr rfl))
    obtain ⟨user, hmem, rfl, hkey⟩ := exists_member henlists.grows.grounded
      (henlists.grows.userId? halone.found) hmember
    have hself := henlists.grows.self.trans halone.self
    exact ⟨user, hmem, by simp [Store.isSelf, hself], by rw [hnick, hkey]⟩
  members key := by
    rw [hnick]
    exact mem_keys_members halone henlists key
  levels user hmem level := holds_member halone henlists hmem level

end Members

/-- The end of a list tells of the members once. -/
theorem handleLine_of_listEnd (hregistered : s.isRegistered = true)
    (hparse : Line.parse raw = .ok line) (hnumeric : line.numeric = some 366)
    (htracked : s.tracked? line 1 = some channel) {known : Channel}
    (hknown : s.store.channels.get? channel = some known) (clock : Clock) :
    (s.handleLine clock raw).2 =
      [.emit (.userList known.snapshot ((s.store.membersOf channel).map User.snapshot) false),
        .emit (.serverResponse 366 line.params line.raw)] := by
  rw [handleLine_of_numeric hregistered hparse (Line.verb_of_numeric hnumeric)]
  simp only [onNumeric, numericEffect, onListEnd, htracked, Option.bind_some, Store.channelSnapshot?,
    hknown, Option.map_some]
  rfl

/-- The client joins a channel that it did not know, and is told names for it in any number of lines.
Then the members are exactly the client and whoever is listed, with the levels of all symbols that
they are listed with, and the end of the list tells the application of each of them once. -/
theorem names_populate (h : Reachable config s) (hregistered : s.isRegistered = true)
    (hidentified : s.Identified) (hparse : Line.parse raw = .ok line) (hverb : line.verb = .join)
    {source : Hostmask} (hsource : line.source = some source)
    (hown : s.isOwnNick source.nick = true) {name : String} (hname : line.param 0 = some name)
    (hfree : s.store.directory.exactChannel? name = none) (clock : Clock) :
    let t := s.receive (.line clock raw)
    t.info = s.info ∧ t.nick = s.nick ∧ ∃ channel, t.store.channelId? name = some channel ∧
      ∀ (lines : List (NamesLine t channel)) {endRaw : String} {endLine : Line} (clock' : Clock),
        Line.parse endRaw = .ok endLine → endLine.numeric = some 366 →
        t.tracked? endLine 1 = some channel →
        let u := t.run (lines.map NamesLine.input)
        u.nick = s.nick ∧ u.ListsMembers channel (lines.flatMap NamesLine.entries) ∧
          ∃ known : ChannelSnapshot, known.name = name ∧
            (u.handleLine clock' endRaw).2 =
              [.emit (.userList known ((u.store.membersOf channel).map User.snapshot) false),
                .emit (.serverResponse 366 endLine.params endLine.raw)] := by
  intro t
  have hreceive : t = (s.onJoin source line).1 := by
    have hline := handleLine_eq_dispatch hregistered hparse (by simp [hverb]) clock
    simp only [dispatch, hverb, hsource] at hline
    exact congrArg Prod.fst hline
  obtain ⟨store, heq⟩ := s.onJoin_eq source line
  obtain ⟨me, channel, halone⟩ :=
    alone_onJoin h.sound.coherent hregistered hidentified hown hname hfree
  rw [← hreceive] at heq halone
  have hgrounded : t.store.Grounded := (h.sound.receive (.line clock raw)).coherent.toGrounded
  have hinfo : t.info = s.info := by rw [heq]
  have hnick : t.nick = s.nick := by rw [heq]
  refine ⟨hinfo, hnick, channel, halone.named, ?_⟩
  intro lines endRaw endLine clock' hendParse hendNumeric hendTracked u
  have hchannel := hgrounded.channelId?_known halone.named
  obtain ⟨hregistered', -, hnick', henlists⟩ :=
    run_names hgrounded halone.registered hchannel lines
  obtain ⟨info, hget, hcalled⟩ := halone.known
  obtain ⟨known, hknown, hkept⟩ := henlists.grows.channel_kept hget
  refine ⟨hnick'.trans hnick, listsMembers_of_enlists halone henlists hnick', known.snapshot,
    hkept.trans hcalled, ?_⟩
  rw [← tracked?_of_enlists henlists] at hendTracked
  exact handleLine_of_listEnd hregistered' hendParse hendNumeric hendTracked hknown clock'

/-- Two lines that list the client, somebody twice in different spellings, and somebody with a host. -/
theorem names_populate_repeated :
    let clock : Clock := ⟨⟨0, 0⟩, ""⟩
    let s := (opened { ClientConfig.standard "irc.example.net" "bot" with capEnabled := false }).run
      ([":irc 001 bot :Welcome"].map (.line clock))
    let t := s.receive (.line clock ":bot!b@h JOIN #c")
    let u := t.run ([":irc 353 bot = #c :@bot +Alice", ":irc 353 bot = #C :@alice %eve!e@h"].map
      (.line clock))
    ((u.store.membersOf ⟨2⟩).map fun user => u.store.directory.key user.nick).Nodup ∧
      ∃ known : ChannelSnapshot, known.name = "#c" ∧
        (u.handleLine clock ":irc 366 bot #c :End").2 =
          [.emit (.userList known ((u.store.membersOf ⟨2⟩).map User.snapshot) false),
            .emit (.serverResponse 366 ["bot", "#c", "End"] ":irc 366 bot #c :End")] := by
  intro clock s t u
  have hs : Reachable _ s := reachable_run
    { ClientConfig.standard "irc.example.net" "bot" with capEnabled := false }
    ([":irc 001 bot :Welcome"].map (.line clock))
  have hregistered : s.isRegistered = true := by decide +kernel
  have hself : s.store.selfId = some ⟨1⟩ ∧ s.store.userId? s.nick = some ⟨1⟩ := by decide +kernel
  have hown : s.isOwnNick "bot" = true := by decide +kernel
  have hfree : s.store.directory.exactChannel? "#c" = none := by decide +kernel
  have hentered : t.store.channelId? "#c" = some ⟨2⟩ ∧ t.store.channelId? "#C" = some ⟨2⟩ := by
    decide +kernel
  have hranked : ∀ c ∈ ['@', '+', '%'], t.info.isStatusSymbol c = true :=
    List.all_eq_true.mp (by decide +kernel)
  have hunranked : ∀ c ∈ ['b', 'A', 'a', 'e'], ¬ t.info.isStatusSymbol c = true :=
    List.any_eq_false.mp (by decide +kernel)
  have hparse : Line.parse ":bot!b@h JOIN #c" =
      .ok ⟨":bot!b@h JOIN #c", [], some (.parse "bot!b@h"), "JOIN", ["#c"]⟩ := rfl
  clear_value s
  obtain ⟨-, -, channel, hchannel, hall⟩ := names_populate hs hregistered ⟨⟨1⟩, hself⟩ hparse
    (by decide +kernel) rfl hown rfl hfree clock
  cases hentered.1.symm.trans hchannel
  let listed (symbol first : Char) (rest mask : List Char) (hsymbol : symbol ∈ ['@', '+', '%'])
      (hfirst : first ∈ ['b', 'A', 'a', 'e'])
      (hplain : ∀ c ∈ first :: rest, c ∉ ['!', '@', ':']) (hmask : ∀ c ∈ mask.head?, c = '!') :
      ListedNick t.info :=
    ⟨[symbol], first :: rest, mask, by simpa using hranked symbol hsymbol, by simp, hplain,
      by simpa using hunranked first hfirst, hmask⟩
  let first : NamesLine t ⟨2⟩ :=
    ⟨clock, ":irc 353 bot = #c :@bot +Alice",
      ⟨":irc 353 bot = #c :@bot +Alice", [], some (.parse "irc"), "353",
        ["bot", "=", "#c", "@bot +Alice"]⟩, "@bot +Alice",
      [listed '@' 'b' ['o', 't'] [] (by decide) (by decide) (by simp) (by simp),
        listed '+' 'A' ['l', 'i', 'c', 'e'] [] (by decide) (by decide) (by simp) (by simp)],
      rfl, by decide +kernel, hentered.1, rfl, rfl⟩
  let second : NamesLine t ⟨2⟩ :=
    ⟨clock, ":irc 353 bot = #C :@alice %eve!e@h",
      ⟨":irc 353 bot = #C :@alice %eve!e@h", [], some (.parse "irc"), "353",
        ["bot", "=", "#C", "@alice %eve!e@h"]⟩, "@alice %eve!e@h",
      [listed '@' 'a' ['l', 'i', 'c', 'e'] [] (by decide) (by decide) (by simp) (by simp),
        listed '%' 'e' ['v', 'e'] ['!', 'e', '@', 'h'] (by decide) (by decide) (by simp)
          (by simp)],
      rfl, by decide +kernel, hentered.2, rfl, rfl⟩
  have hend : Line.parse ":irc 366 bot #c :End" =
      .ok ⟨":irc 366 bot #c :End", [], some (.parse "irc"), "366", ["bot", "#c", "End"]⟩ := rfl
  obtain ⟨-, hmembers, hlist⟩ :=
    hall [first, second] clock hend (by decide +kernel) hentered.1
  exact ⟨hmembers.once, hlist⟩

end IrcClient.Session
