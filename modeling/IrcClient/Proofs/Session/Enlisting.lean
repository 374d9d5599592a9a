import IrcClient.Proofs.Session.Course
import IrcClient.Proofs.Session.Status

/-!
# Names that are put on a channel

A list of nicks gives each nick behind the status symbols of its user, and some servers put login and
host behind it. Whatever is listed in whatever order, the users of the nicks are added to the channel,
and a user is given the levels of all symbols that its nick is listed with.
-/

namespace IrcClient

/-! ## One name -/

/-- A name in a list of nicks. -/
structure ListedNick (info : ServerInfo) where
  symbols : List Char
  nick : List Char
  /-- What stands behind the nick: nothing, or a `!` and what follows it. -/
  mask : List Char
  ranked : ∀ c ∈ symbols, info.isStatusSymbol c = true
  named : nick ≠ []
  unmarked : ∀ c ∈ nick, c ∉ ['!', '@', ':']
  unranked : ∀ c ∈ nick.head?, info.isStatusSymbol c = false
  masked : ∀ c ∈ mask.head?, c = '!'

namespace ListedNick

variable {info : ServerInfo} (entry : ListedNick info)

/-- The name as it is listed. -/
def text : List Char := entry.symbols ++ (entry.nick ++ entry.mask)

def name : String := String.ofList entry.nick

def levels : List PrivilegeLevel := Session.levelsIn info entry.symbols

theorem splitStatus_text : info.splitStatus entry.text = (entry.levels, entry.nick ++ entry.mask) := by
  have hhead : ∀ c ∈ (entry.nick ++ entry.mask).head?, info.isStatusSymbol c = false := by
    obtain ⟨first, rest, hnick⟩ := List.exists_cons_of_ne_nil entry.named
    have hfirst := entry.unranked
    rw [hnick] at hfirst ⊢
    exact hfirst
  rw [text, ServerInfo.splitStatus_append entry.ranked, ServerInfo.splitStatus_of_head hhead,
    List.append_nil]
  rfl

/-- The nick is read off whatever stands behind it. -/
theorem nick_parse (hmask : entry.mask ≠ []) :
    (Hostmask.parse (String.ofList (entry.nick ++ entry.mask))).nick = entry.name := by
  have hclear (c : Char) (hc : c ∈ ['!', '@', ':']) : c ∉ entry.nick :=
    fun hmem => entry.unmarked c hmem hc
  obtain ⟨mark, tail, hcons⟩ := List.exists_cons_of_ne_nil hmask
  obtain rfl : mark = '!' := entry.masked mark (by rw [hcons]; rfl)
  have hstrip : Text.stripHead ':' (entry.nick ++ entry.mask) = entry.nick ++ entry.mask := by
    obtain ⟨first, rest, hnick⟩ := List.exists_cons_of_ne_nil entry.named
    have hfirst : first ≠ ':' := fun h => hclear ':' (by decide) (by simp [hnick, h])
    exact Text.stripHead_of_head?_ne (by simp [hnick, hfirst])
  -- The host is cut off behind the nick, and so behind the `!` that follows it.
  have hhost : '@' ∉ entry.nick ++ ['!'] := by simp [hclear]
  have hlogin (tail : List Char) :
      Text.cutAt '!' (entry.nick ++ ['!'] ++ tail) = some (entry.nick, tail) :=
    Text.cutAt_eq_some_iff.mpr ⟨by simp, hclear '!' (by decide)⟩
  have hsplit : entry.nick ++ entry.mask = entry.nick ++ ['!'] ++ tail := by simp [hcons]
  simp only [Hostmask.parse, String.toList_ofList, hstrip]
  rw [hsplit, Text.cutAt_append hhost]
  cases Text.cutAt '@' tail <;> simp only [Option.map_none, Option.map_some, hlogin, name]

theorem nick_namedMask :
    (Session.namedMask (String.ofList (entry.nick ++ entry.mask))).nick = entry.name := by
  unfold Session.namedMask
  split
  · rename_i hmarked
    apply entry.nick_parse
    intro hbare
    rw [hbare, List.append_nil, String.toList_ofList, List.contains_iff_mem] at hmarked
    exact entry.unmarked '!' hmarked (by decide)
  · rename_i hmarked
    have hbare : entry.mask = [] := by
      cases hmask : entry.mask with
      | nil => rfl
      | cons mark tail =>
        obtain rfl : mark = '!' := entry.masked mark (by rw [hmask]; rfl)
        simp [hmask] at hmarked
    rw [hbare, List.append_nil]
    rfl

end ListedNick

/-! ## What putting a user on a channel changes -/

namespace Store

variable {s s' s'' : Store} {channel : ChannelId}

theorem grantAll_eq (levels : List PrivilegeLevel) (id : UserId) (channel : ChannelId) :
    ∃ standing, s.grantAll levels id channel = { s with standing := standing } := by
  induction levels generalizing s with
  | nil => exact ⟨s.standing, rfl⟩
  | cons level levels ih => exact ih (s := s.grant level id channel)

theorem isMember_grantAll {id : UserId} (hid : s.isMember id channel = true)
    (levels : List PrivilegeLevel) (id' : UserId) :
    (s.grantAll levels id channel).isMember id' channel = s.isMember id' channel := by
  induction levels generalizing s with
  | nil => rfl
  | cons level levels ih =>
    have hgrant (id' : UserId) : (s.grant level id channel).isMember id' channel = true ↔
        (id' = id ∧ channel = channel) ∨ s.isMember id' channel = true :=
      Standing.contains_grant level id id' channel channel
    have hsame : (s.grant level id channel).isMember id' channel = s.isMember id' channel := by
      rw [Bool.eq_iff_iff, hgrant]
      refine ⟨?_, Or.inr⟩
      rintro (⟨rfl, -⟩ | hbefore)
      · exact hid
      · exact hbefore
    exact (ih ((hgrant id).mpr (Or.inr hid))).trans hsame

theorem holds_grantAll (levels : List PrivilegeLevel) (id id' : UserId) (level : PrivilegeLevel) :
    (s.grantAll levels id channel).standing.holds level id' channel = true ↔
      (level ∈ levels ∧ id' = id) ∨ s.standing.holds level id' channel = true := by
  induction levels generalizing s with
  | nil => simp [grantAll]
  | cons first levels ih =>
    refine (ih (s := s.grant first id channel)).trans ?_
    rw [grant, Standing.holds_grant, List.mem_cons]
    tauto

theorem isMember_enlist (levels : List PrivilegeLevel) (id id' : UserId) :
    ((s.addMember id channel).grantAll levels id channel).isMember id' channel = true ↔
      id' = id ∨ s.isMember id' channel = true := by
  have hjoin (id' : UserId) : (s.addMember id channel).isMember id' channel = true ↔
      (id' = id ∧ channel = channel) ∨ s.isMember id' channel = true :=
    Standing.contains_join id id' channel channel
  rw [isMember_grantAll ((hjoin id).mpr (Or.inl ⟨rfl, rfl⟩)), hjoin]
  simp

/-- A name of a channel leads to the same channel as before. -/
theorem channelId?_congr (hnames : s'.directory.channels = s.directory.channels)
    (hmapping : s'.directory.caseMapping = s.directory.caseMapping)
    (hsymbols : s'.directory.statusSymbols = s.directory.statusSymbols) (name : String) :
    s'.channelId? name = s.channelId? name := by
  have hexact (name : String) : s'.directory.exactChannel? name = s.directory.exactChannel? name := by
    rw [Directory.exactChannel?, Directory.exactChannel?, Directory.key, Directory.key, hnames,
      hmapping]
  have hresolve (cs : List Char) : s'.directory.resolve? cs = s.directory.resolve? cs := by
    induction cs with
    | nil => exact hexact ""
    | cons c cs ih => rw [Directory.resolve?, Directory.resolve?, hexact, hsymbols, ih]
  exact hresolve name.toList

/-! ## Names in a row -/

/-- A store after names have been listed for a channel: their users are on it besides those who were,
with the levels of their symbols besides those that they had. -/
structure Enlists {info : ServerInfo} (channel : ChannelId) (entries : List (ListedNick info))
    (s s' : Store) : Prop where
  grows : s.Grows s'
  statusSymbols : s'.directory.statusSymbols = s.directory.statusSymbols
  found : ∀ entry ∈ entries, ∃ id, s'.userId? entry.name = some id
  members : ∀ id, s'.isMember id channel = true ↔
    (∃ entry ∈ entries, s'.userId? entry.name = some id) ∨ s.isMember id channel = true
  holds : ∀ level id, s'.standing.holds level id channel = true ↔
    (∃ entry ∈ entries, s'.userId? entry.name = some id ∧ level ∈ entry.levels) ∨
      s.standing.holds level id channel = true

namespace Enlists

variable {info : ServerInfo} {entries later : List (ListedNick info)}

theorem nil (h : s.Grounded) : Enlists channel ([] : List (ListedNick info)) s s where
  grows := .refl h
  statusSymbols := rfl
  found entry hmem := by cases hmem
  members id := by simp
  holds level id := by simp

theorem channelId?_eq (h : Enlists channel entries s s') (name : String) :
    s'.channelId? name = s.channelId? name :=
  channelId?_congr h.grows.names h.grows.caseMapping h.statusSymbols name

/-- Whoever has been listed stays found. -/
theorem userId?_later (h : Enlists channel entries s s') (hgrows : s'.Grows s'')
    {entry : ListedNick info} (hmem : entry ∈ entries) :
    s''.userId? entry.name = s'.userId? entry.name := by
  obtain ⟨id, hid⟩ := h.found entry hmem
  rw [hid, hgrows.userId? hid]

theorem exists_later (h : Enlists channel entries s s') (hgrows : s'.Grows s'')
    (P : Option UserId → ListedNick info → Prop) :
    (∃ entry ∈ entries, P (s''.userId? entry.name) entry) ↔
      ∃ entry ∈ entries, P (s'.userId? entry.name) entry :=
  exists_congr fun entry => and_congr_right fun hmem => by rw [h.userId?_later hgrows hmem]

theorem append (hfirst : Enlists channel entries s s') (hsecond : Enlists channel later s' s'') :
    Enlists channel (entries ++ later) s s'' where
  grows := hfirst.grows.trans hsecond.grows
  statusSymbols := hsecond.statusSymbols.trans hfirst.statusSymbols
  found entry hmem := by
    rcases List.mem_append.mp hmem with hmem | hmem
    · rw [hfirst.userId?_later hsecond.grows hmem]
      exact hfirst.found entry hmem
    · exact hsecond.found entry hmem
  members id := by
    rw [hsecond.members, hfirst.members,
      ← hfirst.exists_later hsecond.grows fun id? _ => id? = some id]
    simp only [List.mem_append, or_and_right, exists_or]
    rw [or_left_comm, or_assoc]
  holds level id := by
    rw [hsecond.holds, hfirst.holds,
      ← hfirst.exists_later hsecond.grows fun id? entry => id? = some id ∧ level ∈ entry.levels]
    simp only [List.mem_append, or_and_right, exists_or]
    rw [or_left_comm, or_assoc]

end Enlists

/-- The user of a listed nick is put on the channel. -/
theorem Grounded.enlists_trackUser {info : ServerInfo} (h : s.Grounded)
    (hchannel : s.channels.contains channel = true) {seen : Hostmask} {entry : ListedNick info}
    (hseen : seen.nick = entry.name) :
    Enlists channel [entry] s
      (((s.trackUser seen).1.addMember (s.trackUser seen).2 channel).grantAll entry.levels
        (s.trackUser seen).2 channel) := by
  have htracked := h.grows_trackUser seen
  have hfound := s.userId?_trackUser seen
  have hstanding := s.standing_trackUser seen
  have hsymbols : (s.trackUser seen).1.directory.statusSymbols = s.directory.statusSymbols := by
    obtain ⟨nextId, nicks, users, heq⟩ := trackUser_eq (s := s) seen
    rw [heq]
  generalize s.trackUser seen = tracked at htracked hfound hstanding hsymbols ⊢
  obtain ⟨t, id⟩ := tracked
  dsimp only at *
  rw [hseen] at hfound
  have hknown := hchannel
  rw [← htracked.channel_known] at hknown
  have henlisted := htracked.grounded.grows_enlist entry.levels
    (htracked.grounded.userId?_known hfound) hknown
  have hid (id' : UserId) : ((t.addMember id channel).grantAll entry.levels id channel).userId?
      entry.name = some id' ↔ id' = id := by
    rw [henlisted.userId? hfound, Option.some.injEq, eq_comm]
  refine ⟨htracked.trans henlisted, ?_, ?_, ?_, ?_⟩
  · obtain ⟨standing, heq⟩ := (t.addMember id channel).grantAll_eq entry.levels id channel
    rw [heq]
    exact hsymbols
  · intro entry' hmem
    rw [List.mem_singleton.mp hmem]
    exact ⟨id, henlisted.userId? hfound⟩
  · intro id'
    rw [isMember_enlist, isMember, isMember, hstanding]
    simp only [List.mem_singleton, exists_eq_left, hid]
  · intro level id'
    rw [holds_grantAll, ← hstanding]
    simp only [List.mem_singleton, exists_eq_left, hid, and_comm]
    rfl

theorem Grounded.enlists_addName {info : ServerInfo} (h : s.Grounded)
    (hchannel : s.channels.contains channel = true) (entry : ListedNick info) :
    Enlists channel [entry] s (Session.addName info channel s entry.text) := by
  have hnonempty : (entry.nick ++ entry.mask).isEmpty = false := by simp [entry.named]
  simp only [Session.addName, entry.splitStatus_text, hnonempty, Bool.false_eq_true, if_false]
  exact h.enlists_trackUser hchannel entry.nick_namedMask

/-- Names are put on the channel one after the other. -/
theorem Grounded.enlists_foldl_addName {info : ServerInfo} (h : s.Grounded)
    (hchannel : s.channels.contains channel = true) (entries : List (ListedNick info)) :
    Enlists channel entries s
      ((entries.map ListedNick.text).foldl (Session.addName info channel) s) := by
  induction entries generalizing s with
  | nil => exact .nil h
  | cons entry entries ih =>
    have hfirst := h.enlists_addName hchannel entry
    rw [← hfirst.grows.channel_known] at hchannel
    exact hfirst.append (ih hfirst.grows.grounded hchannel)

end Store

end IrcClient
