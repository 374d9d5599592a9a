import IrcClient.Proofs.Session.Lookup
import IrcClient.Proofs.Session.OwnNick

/-!
# The client is on every channel that it knows

A channel becomes known when the client joins it, by its nick, and is forgotten when the client leaves
it, by its id. As long as both mean the same user, no channel is left over, and everybody who is known
is the client itself, a contact or somebody the client shares a channel with.
-/

namespace IrcClient

namespace Store

variable {s s' : Store} {nick : String}

/-- The client is known, its nick is spelled like this, and it is on every tracked channel. -/
def Attends (s : Store) (nick : String) : Prop :=
  ∃ me user, s.selfId = some me ∧ s.users.get? me = some user ∧ user.nick = nick ∧
    ∀ channel, s.channels.contains channel = true → s.standing.members.contains me channel = true

theorem Grows.attends (h : s.Grows s') (hattends : s.Attends nick) : s'.Attends nick := by
  obtain ⟨me, user, hself, huser, hnick, hmember⟩ := hattends
  obtain ⟨user', huser', hkept⟩ := h.user_kept huser
  refine ⟨me, user', h.self.trans hself, huser', hkept.trans hnick, ?_⟩
  intro channel hchannel
  rw [h.channel_known] at hchannel
  exact h.member_kept (hmember channel hchannel)

/-- The client is on every channel that is left, unless it leaves a channel that stays. -/
theorem Loses.attends {d : Departure} (h : s.Loses s' d) (hattends : s.Attends nick)
    (hspares : ∀ me, s.selfId = some me → d ≠ .quit me ∧ ∀ channel, d ≠ .leave me channel) :
    s'.Attends nick := by
  obtain ⟨me, user, hself, huser, hnick, hmember⟩ := hattends
  obtain ⟨hquit, hleave⟩ := hspares me hself
  have hkept : ¬ s.Forgets s' d me := not_forgets_self hself hquit
  refine ⟨me, user, (h.self me).mpr ⟨hself, hquit⟩, h.users.mpr ⟨huser, hkept⟩, hnick, ?_⟩
  intro channel hchannel
  obtain ⟨known, hknown⟩ := (Table.contains_iff _ _).mp hchannel
  obtain ⟨hbefore, hopen⟩ := h.channels.mp hknown
  refine (h.standing.members me channel).mpr
    ⟨hmember channel ((Table.contains_iff _ _).mpr ⟨known, hbefore⟩), ?_⟩
  cases d with
  | nobody => exact fun hends => hends
  | leave user' channel' =>
    rintro ⟨rfl, rfl⟩
    exact hleave _ rfl
  | close channel' =>
    rintro rfl
    exact hopen rfl
  | quit user' =>
    rintro rfl
    exact hquit rfl

theorem withCaseMapping_attends (hattends : s.Attends nick) (mapping : CaseMapping) :
    (s.withCaseMapping mapping).Attends nick := by
  obtain ⟨directory, heq⟩ := s.withCaseMapping_eq mapping
  rw [heq]
  exact hattends

end Store

namespace Session

variable {s t : Session} {line : Line} {raw : String}

/-- The session finds everybody, and is on every channel that it knows. -/
structure Present (s : Session) : Prop where
  indexed : s.store.Indexed
  attends : s.store.Attends s.nick

theorem Present.identified (h : s.Present) : s.Identified := by
  obtain ⟨me, user, hself, huser, hnick, -⟩ := h.attends
  refine ⟨me, hself, ?_⟩
  rw [← hnick]
  exact h.indexed.nick_found huser

/-- Whether an input leaves everybody told apart: the session goes on, its nick is not given to anybody
else, and a change of the case mapping makes no two tracked names the same. -/
def StaysApart (s : Session) (input : Input) (t : Session) : Prop :=
  match input with
  | .line _ raw => s.usurpedBy raw = false ∧ s.KeepsApart input t
  | .disconnect _ => False

instance (s : Session) (input : Input) (t : Session) : Decidable (s.StaysApart input t) :=
  match input with
  | .line _ _ => inferInstanceAs (Decidable (_ ∧ _))
  | .disconnect _ => inferInstanceAs (Decidable False)

/-- Somebody whose nick is the session's is the client. -/
theorem Identified.same_of_isOwnNick (h : s.Identified) (hgrounded : s.store.Grounded)
    {nick : String} (hown : s.isOwnNick nick = true) :
    s.store.directory.caseMapping.same nick s.nick = true := by
  have hfound := (h.isOwnNick_iff_found hgrounded.nicksKnown nick).mp hown
  obtain ⟨me, hself, hme⟩ := h
  exact hgrounded.same_of_userId? (hfound.trans hself) hme

/-- The client keeps the spelling of its nick, or takes over that of the new one in both places. -/
theorem Present.attends_of_renames (h : s.Present) (hgrounded : s.store.Grounded)
    {source : Hostmask} {nick : String} {id : UserId} (hid : s.store.userId? source.nick = some id)
    (hrenames : s.store.Renames t.store id nick)
    (hnick : t.nick =
      if s.store.directory.caseMapping.same source.nick s.nick then nick else s.nick)
    (hidentified : t.Identified) : t.store.Attends t.nick := by
  obtain ⟨me, user, hself, huser, hspelled, hmember⟩ := h.attends
  have hfound : s.store.userId? s.nick = some me := by
    rw [← hspelled]
    exact h.indexed.nick_found huser
  obtain ⟨me', hself', -⟩ := hidentified
  obtain ⟨hsame, hreason⟩ := hrenames.self.mp hself'
  rw [hself] at hsame
  cases hsame
  have hmember' : ∀ channel, t.store.channels.contains channel = true →
      t.store.standing.members.contains me channel = true := by
    intro channel hchannel
    obtain ⟨known, hknown⟩ := (Table.contains_iff _ _).mp hchannel
    have hbefore := (Table.contains_iff _ _).mpr ⟨known, hrenames.channels.mp hknown⟩
    exact hrenames.members.mpr ⟨hmember channel hbefore, hreason⟩
  by_cases hown : id = me
  · rw [hown] at hid hrenames
    rw [if_pos (hgrounded.same_of_userId? hid hfound)] at hnick
    obtain ⟨old, -, hrenamed⟩ := hrenames.user
    exact ⟨me, old.withNick nick, hself', hrenamed, hnick.symm, hmember'⟩
  · have hother : ¬ s.store.directory.caseMapping.same source.nick s.nick = true := by
      intro hsame
      rw [Store.userId?_eq_of_same hsame, hfound] at hid
      exact hown (Option.some.inj hid).symm
    rw [if_neg hother] at hnick
    have hfree := hreason.resolve_left fun heq => hown heq.symm
    exact ⟨me, user, hself', (hrenames.others (Ne.symm hown)).mpr ⟨huser, hfree⟩,
      hspelled.trans hnick.symm, hmember'⟩

/-- The client joins a channel as itself, although the join only shows its nick. -/
theorem Present.attends_of_joined (h : s.Present) (hgrounded : s.store.Grounded)
    {source : Hostmask} {name : String} {user : UserId} (hown : s.isOwnNick source.nick = true)
    (hnick : t.nick = s.nick) (hgrows : (s.store.trackChannel name).1.Grows t.store)
    (huser : t.store.userId? source.nick = some user)
    (hmember : t.store.standing.members.contains user (s.store.trackChannel name).2 = true) :
    t.store.Attends t.nick := by
  obtain ⟨me, hself, hfound⟩ := h.identified
  have hown := h.identified.same_of_isOwnNick hgrounded hown
  rw [← Store.userId?_eq_of_same hown, ← Store.userId?_trackChannel name] at hfound
  have hme : user = me := Option.some.inj (huser.symm.trans (hgrows.userId? hfound))
  rw [hme] at hmember
  obtain ⟨me', known, hself', hknown, hspelled, hattends⟩ := h.attends
  rw [hself] at hself'
  cases hself'
  rw [← Store.users_trackChannel name] at hknown
  obtain ⟨known', hknown', hkept⟩ := hgrows.user_kept hknown
  refine ⟨me, known', ?_, hknown', by rw [hkept, hspelled, hnick], ?_⟩
  · rw [hgrows.self, Store.selfId_trackChannel, hself]
  · intro channel hchannel
    rw [hgrows.channel_known, hgrounded.contains_trackChannel] at hchannel
    rcases hchannel with rfl | hbefore
    · exact hmember
    · apply hgrows.member_kept
      rw [Store.standing_trackChannel]
      exact hattends channel hbefore

theorem Course.present (h : s.Course line t) (hs : s.store.Coherent) (hpresent : s.Present)
    (hparse : Line.parse raw = .ok line) (husurped : s.usurpedBy raw = false)
    (hapart : t.store.directory.caseMapping = s.store.directory.caseMapping ∨ t.store.Distinct) :
    t.Present := by
  refine ⟨h.indexed hs.toGrounded hpresent.indexed hapart, ?_⟩
  cases h with
  | learnt hlearns =>
    rw [hlearns.nick]
    exact hlearns.grows.attends hpresent.attends
  | joined _ _ _ hown hnick hgrows huser hmember =>
    exact hpresent.attends_of_joined hs.toGrounded hown hnick hgrows huser hmember
  | departed hnick hgrows hloses hspares =>
    rw [hnick]
    apply hloses.attends (hgrows.attends hpresent.attends)
    rw [hgrows.self]
    exact hspares
  | renamed hverb hsource hparam hid hrenames hnick =>
    have hidentified := hpresent.identified.of_renames hs.toGrounded hid hrenames hnick
      (same_of_not_usurped hparse hverb hsource hparam hid husurped)
    exact hpresent.attends_of_renames hs.toGrounded hid hrenames hnick hidentified
  | overheard _ hid hstore hnick =>
    rw [hpresent.identified.nick_of_overheard hid hnick, hstore]
    exact hpresent.attends
  | @remapped mapping hnick hgrows =>
    rw [hnick]
    exact hgrows.attends (Store.withCaseMapping_attends hpresent.attends mapping)

/-! ## Channels come and go -/

/-- Whether a line is a join of the session's nick to a channel. -/
structure Joins (s : Session) (line : Line) (t : Session) (channel : ChannelId) : Prop where
  verb : line.verb = .join
  source : ∃ source, line.source = some source ∧ s.isOwnNick source.nick = true
  channel : (line.param 0).bind t.store.channelId? = some channel

theorem Course.joins (h : s.Course line t) (hgrounded : s.store.Grounded) {channel : ChannelId}
    (hbefore : s.store.channels.contains channel ≠ true)
    (hafter : t.store.channels.contains channel = true) : s.Joins line t channel := by
  cases h with
  | learnt hlearns =>
    rw [hlearns.grows.channel_known] at hafter
    exact absurd hafter hbefore
  | @joined source name user hverb hsource hname hown _ hgrows =>
    rw [hgrows.channel_known, hgrounded.contains_trackChannel] at hafter
    rcases hafter with rfl | hknown
    · refine ⟨hverb, ⟨source, hsource, hown⟩, ?_⟩
      rw [hname]
      apply Store.channelId?_of_exact
      rw [Directory.exactChannel?, Directory.key, hgrows.names, hgrows.caseMapping]
      exact Store.exactChannel?_trackChannel name
    · exact absurd hknown hbefore
  | departed _ hgrows hloses =>
    obtain ⟨known, hknown⟩ := (Table.contains_iff _ _).mp hafter
    have hkept := (Table.contains_iff _ _).mpr ⟨known, (hloses.channels.mp hknown).1⟩
    rw [hgrows.channel_known] at hkept
    exact absurd hkept hbefore
  | renamed _ _ _ _ hrenames =>
    obtain ⟨known, hknown⟩ := (Table.contains_iff _ _).mp hafter
    exact absurd ((Table.contains_iff _ _).mpr ⟨known, hrenames.channels.mp hknown⟩) hbefore
  | overheard _ _ hstore =>
    rw [hstore] at hafter
    exact absurd hafter hbefore
  | @remapped mapping _ hgrows =>
    obtain ⟨directory, heq⟩ := s.store.withCaseMapping_eq mapping
    rw [hgrows.channel_known, heq] at hafter
    exact absurd hafter hbefore

theorem Course.expels (h : s.Course line t) (hgrounded : s.store.Grounded) {channel : ChannelId}
    (hbefore : s.store.channels.contains channel = true)
    (hafter : t.store.channels.contains channel ≠ true) : s.Expels line channel := by
  cases h with
  | learnt hlearns =>
    rw [hlearns.grows.channel_known] at hafter
    exact absurd hbefore hafter
  | joined _ _ _ _ _ hgrows =>
    rw [hgrows.channel_known] at hafter
    exact absurd ((hgrounded.contains_trackChannel _ _).mpr (Or.inr hbefore)) hafter
  | @departed base d _ hgrows hloses _ hcloses =>
    apply hcloses
    by_cases hclose : d = .close channel
    · exact hclose
    · rw [← hgrows.channel_known] at hbefore
      obtain ⟨known, hknown⟩ := (Table.contains_iff _ _).mp hbefore
      have hkept := hloses.channels.mpr ⟨hknown, hclose⟩
      exact absurd ((Table.contains_iff _ _).mpr ⟨known, hkept⟩) hafter
  | renamed _ _ _ _ hrenames =>
    obtain ⟨known, hknown⟩ := (Table.contains_iff _ _).mp hbefore
    exact absurd ((Table.contains_iff _ _).mpr ⟨known, hrenames.channels.mpr hknown⟩) hafter
  | overheard _ _ hstore =>
    rw [hstore] at hafter
    exact absurd hbefore hafter
  | @remapped mapping _ hgrows =>
    obtain ⟨directory, heq⟩ := s.store.withCaseMapping_eq mapping
    rw [hgrows.channel_known, heq] at hafter
    exact absurd hbefore hafter

/-- After the welcome a line leaves a session as it is, or is handled by what it is about. -/
theorem Sound.course_of_isRegistered (hs : s.Sound) (hregistered : s.isRegistered = true)
    (clock : Clock) (raw : String) :
    (s.handleLine clock raw).1 = s ∨
      ∃ line, Line.parse raw = .ok line ∧ s.Course line (s.handleLine clock raw).1 ∧
        (s.handleLine clock raw).1.isRegistered = true := by
  rcases hs.line_cases clock raw with heq | ⟨line, hparse, hcourse, hkept⟩
  · exact Or.inl heq
  · rw [register_of_isRegistered hregistered] at hcourse hkept
    exact Or.inr ⟨line, hparse, hcourse, hkept.trans hregistered⟩

theorem Present.receive (h : s.Present) (hs : s.Sound) (hregistered : s.isRegistered = true)
    {input : Input} (happart : s.StaysApart input (s.receive input)) :
    (s.receive input).isRegistered = true ∧ (s.receive input).Present := by
  cases input with
  | disconnect error => exact happart.elim
  | line clock raw =>
    obtain ⟨husurped, hapart⟩ := happart
    rcases hs.course_of_isRegistered hregistered clock raw with
      heq | ⟨line, hparse, hcourse, hkept⟩
    · rw [Session.receive, heq]
      exact ⟨hregistered, h⟩
    · exact ⟨hkept, hcourse.present hs.coherent h hparse husurped hapart⟩

theorem Present.relisted (h : s.Present) {store : Store} (hlisted : s.store.Relisted store) :
    Present { s with store := store } := by
  refine ⟨hlisted.indexed h.indexed, ?_⟩
  obtain ⟨me, user, hself, huser, hspelled, hattends⟩ := h.attends
  have husers := hlisted.get?_users
  have hchannels := hlisted.get?_channels
  obtain ⟨users, channels, rfl⟩ := hlisted.eq
  refine ⟨me, user, hself, (husers me).trans huser, hspelled, ?_⟩
  intro channel hchannel
  apply hattends
  rw [Table.contains, hchannels] at hchannel
  exact hchannel

theorem Sound.joins_of_tracked (hs : s.Sound) (hregistered : s.isRegistered = true) {input : Input}
    {channel : ChannelId} (hbefore : s.store.channels.contains channel ≠ true)
    (hafter : (s.receive input).store.channels.contains channel = true) :
    ∃ clock raw line, input = .line clock raw ∧ Line.parse raw = .ok line ∧
      s.Joins line (s.receive input) channel := by
  cases input with
  | disconnect error =>
    simp only [Session.receive, Session.disconnect] at hafter
    split at hafter
    · exact absurd hafter hbefore
    · cases hafter
  | line clock raw =>
    rcases hs.course_of_isRegistered hregistered clock raw with heq | ⟨line, hparse, hcourse, -⟩
    · rw [Session.receive, heq] at hafter
      exact absurd hafter hbefore
    · exact ⟨clock, raw, line, rfl, hparse, hcourse.joins hs.coherent.toGrounded hbefore hafter⟩

theorem Sound.expels_of_untracked (hs : s.Sound) (hregistered : s.isRegistered = true)
    {input : Input} {channel : ChannelId} (hbefore : s.store.channels.contains channel = true)
    (hafter : (s.receive input).store.channels.contains channel ≠ true) :
    (∃ error, input = .disconnect error) ∨
      ∃ clock raw line, input = .line clock raw ∧ Line.parse raw = .ok line ∧
        s.Expels line channel := by
  cases input with
  | disconnect error => exact Or.inl ⟨error, rfl⟩
  | line clock raw =>
    right
    rcases hs.course_of_isRegistered hregistered clock raw with heq | ⟨line, hparse, hcourse, -⟩
    · rw [Session.receive, heq] at hafter
      exact absurd hbefore hafter
    · exact ⟨clock, raw, line, rfl, hparse, hcourse.expels hs.coherent.toGrounded hbefore hafter⟩

/-! ## Runs -/

/-- A session that knows no channel is on every one that it knows. -/
theorem Sound.present_of_no_channels (hs : s.Sound) {me : User}
    (hnone : s.store.channels.values = [])
    (hfound : ∀ user ∈ s.store.users.values, s.store.userId? user.nick = some user.id)
    (hself : s.store.selfUser? = some me) (hspelled : me.nick = s.nick) : s.Present := by
  have hcomplete : s.store.Complete := ⟨hfound, by simp [hnone]⟩
  obtain ⟨id, hid, hme⟩ := Option.bind_eq_some_iff.mp hself
  refine ⟨hs.coherent.toGrounded.complete_iff.mp hcomplete, id, me, hid, hme, hspelled, ?_⟩
  intro channel hchannel
  obtain ⟨known, hknown⟩ := (Table.contains_iff _ _).mp hchannel
  have hmem := (Table.mem_values_iff _ _).mpr ⟨channel, hknown⟩
  simp [hnone] at hmem

/-- Whoever is known is the client, a contact, or on a channel that the client is on as well. -/
theorem Present.company (h : s.Present) (hs : s.store.Coherent) :
    ∃ me, s.store.selfUser? = some me ∧
      (∀ channel ∈ s.store.channels.values, s.store.isMember me.id channel.id = true) ∧
      ∀ user ∈ s.store.users.values, user.id = me.id ∨ user.id ∈ s.store.contacts ∨
        ∃ channel, s.store.isMember user.id channel = true ∧
          s.store.isMember me.id channel = true := by
  obtain ⟨id, me, hself, hme, -, hattends⟩ := h.attends
  obtain ⟨rfl, -⟩ := hs.toGrounded.user_id hme
  refine ⟨me, ?_, ?_, ?_⟩
  · rw [Store.selfUser?, hself]
    exact hme
  · intro channel hchannel
    have hget := hs.toGrounded.mem_channels_iff.mp hchannel
    exact hattends channel.id ((Table.contains_iff _ _).mpr ⟨channel, hget⟩)
  · intro user huser
    have hget := hs.toGrounded.mem_users_iff.mp huser
    rcases hs.needed user.id ((Table.contains_iff _ _).mpr ⟨user, hget⟩) with
      ⟨channel, hmember⟩ | hcontact | hown
    · exact Or.inr (Or.inr ⟨channel, hmember, hattends channel (hs.toGrounded.member_known hmember).2⟩)
    · exact Or.inr (Or.inl hcontact)
    · exact Or.inl (Option.some.inj (hown.symm.trans hself))

/-- A welcomed session that knows no channel, finds everybody and goes by its own user's nick stays
on every channel that it gets to know, as long as everybody is told apart. It gets to know channels
by its joins alone, and forgets them by its parts, by kicks of it and by the end. -/
theorem channels_attended {config : ClientConfig} {me : User} (hs : Reachable config s)
    (hregistered : s.isRegistered = true) (hnone : s.store.channels.values = [])
    (hfound : ∀ user ∈ s.store.users.values, s.store.userId? user.nick = some user.id)
    (hself : s.store.selfUser? = some me) (hspelled : me.nick = s.nick)
    (ht : s.Reaches StaysApart t) :
    (∃ me, t.store.selfUser? = some me ∧
      (∀ channel ∈ t.store.channels.values, t.store.isMember me.id channel.id = true) ∧
      ∀ user ∈ t.store.users.values, user.id = me.id ∨ user.id ∈ t.store.contacts ∨
        ∃ channel, t.store.isMember user.id channel = true ∧
          t.store.isMember me.id channel = true) ∧
    ∀ input channel,
      (t.store.channels.contains channel ≠ true →
        (t.receive input).store.channels.contains channel = true →
        ∃ clock raw line, input = .line clock raw ∧ Line.parse raw = .ok line ∧
          t.Joins line (t.receive input) channel) ∧
      (t.store.channels.contains channel = true →
        (t.receive input).store.channels.contains channel ≠ true →
        (∃ error, input = .disconnect error) ∨
          ∃ clock raw line, input = .line clock raw ∧ Line.parse raw = .ok line ∧
            t.Expels line channel) := by
  have hsound := ht.sound hs.sound
  obtain ⟨hwelcomed, hpresent⟩ :=
    ht.maintains (P := fun t => t.isRegistered = true ∧ t.Present) hs.sound
      (fun _ _ ht hapart hbefore => hbefore.2.receive ht hbefore.1 hapart)
      (fun _ _ hlisted hbefore => ⟨hbefore.1, hbefore.2.relisted hlisted⟩)
      ⟨hregistered, hs.sound.present_of_no_channels hnone hfound hself hspelled⟩
  refine ⟨hpresent.company hsound.coherent, fun input channel => ⟨?_, ?_⟩⟩
  · exact hsound.joins_of_tracked hwelcomed
  · exact hsound.expels_of_untracked hwelcomed

/-- The client takes another nick between joining two channels, and is kicked from one of them. -/
theorem channels_attended_kicked :
    let clock : Clock := ⟨⟨0, 0⟩, ""⟩
    let s := (opened { ClientConfig.standard "irc.example.net" "bot" with capEnabled := false }).run
      ([":irc 001 bot :Welcome", ":eve!e@h PRIVMSG bot :hi"].map (.line clock))
    let t := s.run ([":bot!b@h JOIN #c", ":eve!e@h JOIN #c", ":bot!b@h NICK tob",
      ":tob!b@h JOIN #d"].map (.line clock))
    (∃ me, t.store.selfUser? = some me ∧ t.store.channels.values.length = 2 ∧
      ∀ channel ∈ t.store.channels.values, t.store.isMember me.id channel.id = true) ∧
    ∃ line channel, Line.parse ":eve!e@h KICK #c TOB" = .ok line ∧ t.Expels line channel := by
  intro clock s t
  have hme : s.store.selfUser? = some (.new ⟨1⟩ (.ofNick "bot")) := by decide +kernel
  have hattended := channels_attended (s := s) (t := t) (reachable_run _ _) (by decide +kernel)
    (by decide +kernel) (by decide +kernel) hme (by decide +kernel)
    (reaches_run (by decide +kernel))
  obtain ⟨⟨me, hself, hmember, -⟩, hchanges⟩ := hattended
  refine ⟨⟨me, hself, by decide +kernel, hmember⟩, ?_⟩
  obtain ⟨error, hinput⟩ | ⟨clock, raw, line, hinput, hparse, hexpels⟩ :=
    (hchanges (.line clock ":eve!e@h KICK #c TOB") ⟨3⟩).2 (by decide +kernel) (by decide +kernel)
  · cases hinput
  · cases hinput
    exact ⟨line, _, hparse, hexpels⟩

end Session

end IrcClient
