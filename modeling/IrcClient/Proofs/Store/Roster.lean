import IrcClient.Proofs.Store.Index
import IrcClient.Proofs.Store.Upkeep
import Mathlib.Data.Finset.Basic

/-!
# The store as a roster

Seen from outside, the store is two sets: which nick is on which channel, and which privileges it
holds there. Names count up to the case mapping. Ids, indexes and forgotten users do not show.
-/

namespace IrcClient

/-- Who is on which channel, and who holds which privilege there, by names in lower form. -/
structure Roster where
  members : Finset (String × String)
  levels : Finset (PrivilegeLevel × String × String)

/-- A change of a roster. -/
inductive RosterMove where
  | join (nick name : String)
  | part (nick name : String)
  | grant (level : PrivilegeLevel) (nick name : String)
  | revoke (level : PrivilegeLevel) (nick name : String)
  | quit (nick : String)
  | dropChannel (name : String)
  deriving DecidableEq, Repr

namespace Roster

/-- Nobody is anywhere. -/
def empty : Roster := ⟨∅, ∅⟩

/-- The roster without some pairs, and without the privileges of these pairs. -/
def without (r : Roster) (gone : String → String → Bool) : Roster where
  members := r.members.filter fun pair => gone pair.1 pair.2 = false
  levels := r.levels.filter fun held => gone held.2.1 held.2.2 = false

/-- The roster after a change. -/
def apply (mapping : CaseMapping) (r : Roster) : RosterMove → Roster
  | .join nick name =>
    { r with members := insert (mapping.normalize nick, mapping.normalize name) r.members }
  | .part nick name =>
    r.without fun n c => n == mapping.normalize nick && c == mapping.normalize name
  | .grant level nick name =>
    { members := insert (mapping.normalize nick, mapping.normalize name) r.members
      levels := insert (level, mapping.normalize nick, mapping.normalize name) r.levels }
  | .revoke level nick name =>
    { r with levels := r.levels.erase (level, mapping.normalize nick, mapping.normalize name) }
  | .quit nick => r.without fun n _ => n == mapping.normalize nick
  | .dropChannel name => r.without fun _ c => c == mapping.normalize name

/-- The roster after several changes, in order. -/
def applyAll (mapping : CaseMapping) (r : Roster) (moves : List RosterMove) : Roster :=
  moves.foldl (apply mapping) r

end Roster

/-- A name without a status symbol in front. -/
def PlainName (symbols name : String) : Prop :=
  ∀ c, name.toList.head? = some c → c ∉ symbols.toList

/-- The channel that a change is about. -/
def RosterMove.channel? : RosterMove → Option String
  | .join _ name | .part _ name | .grant _ _ name | .revoke _ _ name | .dropChannel name => some name
  | .quit _ => none

/-- A change that names no channel by a status symbol in front. -/
def RosterMove.Plain (symbols : String) (move : RosterMove) : Prop :=
  ∀ name, move.channel? = some name → PlainName symbols name

/-- Whether the user and the channel of two keys are related. -/
def Directory.Related (d : Directory) (holds : UserId → ChannelId → Bool) (nick name : String) :
    Prop :=
  ∃ user channel, d.nicks.get? nick = some user ∧ d.channels.get? name = some channel ∧
    holds user channel = true

namespace Store

/-- The store that knows nobody, under a case mapping and some status symbols. -/
def blank (mapping : CaseMapping) (symbols : String) : Store :=
  (initial.withCaseMapping mapping).withStatusSymbols symbols

/-- Makes a change by operations of the store. Whoever is not found is left alone. -/
def follow (s : Store) : RosterMove → Except ConsistencyFault Store
  | .join nick name =>
    let (s, channel) := s.trackChannel name
    let (s, user) := s.trackUser (.ofNick nick)
    .ok (s.addMember user channel)
  | .part nick name =>
    match s.userId? nick, s.channelId? name with
    | some user, some channel => s.removeMember user channel
    | _, _ => .ok s
  | .grant level nick name =>
    let (s, channel) := s.trackChannel name
    let (s, user) := s.trackUser (.ofNick nick)
    .ok (s.grant level user channel)
  | .revoke level nick name =>
    match s.userId? nick, s.channelId? name with
    | some user, some channel => s.revoke level user channel
    | _, _ => .ok s
  | .quit nick =>
    match s.userId? nick with
    | some user => s.removeUser user
    | none => .ok s
  | .dropChannel name =>
    match s.channelId? name with
    | some channel => s.removeChannel channel
    | none => .ok s

/-- Makes several changes, in order. -/
def followAll (s : Store) (moves : List RosterMove) : Except ConsistencyFault Store :=
  moves.foldlM follow s

/-- A store that shows a roster. -/
structure Mirrors (s : Store) (mapping : CaseMapping) (symbols : String) (r : Roster) : Prop where
  grounded : s.Grounded
  indexed : s.Indexed
  contacts : s.contacts = []
  self : s.selfId = none
  caseMapping : s.directory.caseMapping = mapping
  statusSymbols : s.directory.statusSymbols = symbols
  member_iff : ∀ nick name,
    (nick, name) ∈ r.members ↔ s.directory.Related s.standing.members.contains nick name
  level_iff : ∀ level nick name,
    (level, nick, name) ∈ r.levels ↔ s.directory.Related (s.standing.holds level) nick name

variable {s s' : Store} {mapping : CaseMapping} {symbols : String} {r : Roster}

theorem Alike.related_iff (h : s.Alike s') {holds : UserId → ChannelId → Bool}
    (hholds : ∀ user channel, holds user channel = true →
      s.standing.members.contains user channel = true) (nick name : String) :
    s'.directory.Related holds nick name ↔ s.directory.Related holds nick name := by
  constructor
  · rintro ⟨user, channel, huser, hchannel, hpair⟩
    have hmember := hholds user channel hpair
    exact ⟨user, channel, (h.nick hmember nick).mp huser, (h.name hmember name).mp hchannel, hpair⟩
  · rintro ⟨user, channel, huser, hchannel, hpair⟩
    have hmember := hholds user channel hpair
    exact ⟨user, channel, (h.nick hmember nick).mpr huser, (h.name hmember name).mpr hchannel, hpair⟩

namespace Mirrors

theorem alike (h : s.Mirrors mapping symbols r) (halike : s.Alike s') :
    s'.Mirrors mapping symbols r where
  grounded := halike.grounded
  indexed := halike.indexed
  contacts := halike.contacts.trans h.contacts
  self := halike.self.trans h.self
  caseMapping := halike.caseMapping.trans h.caseMapping
  statusSymbols := halike.statusSymbols.trans h.statusSymbols
  member_iff nick name := by
    rw [h.member_iff, halike.standing, halike.related_iff]
    exact fun _ _ hpair => hpair
  level_iff level nick name := by
    rw [h.level_iff, halike.standing, halike.related_iff]
    exact fun _ _ hholds => h.grounded.standing.member_of_holds hholds

/-! ## Changes of the relations -/

/-- A pair is added, for two names that are in the index. -/
theorem related_enrol (h : s.Mirrors mapping symbols r) {user : UserId} {channel : ChannelId}
    {nick name : String} (huser : s.directory.nicks.get? nick = some user)
    (hchannel : s.directory.channels.get? name = some channel) {added : Prop}
    {before after : UserId → ChannelId → Bool}
    (hafter : ∀ user' channel', after user' channel' = true ↔
      (added ∧ user' = user ∧ channel' = channel) ∨ before user' channel' = true)
    (nick' name' : String) :
    s.directory.Related after nick' name' ↔
      (added ∧ nick' = nick ∧ name' = name) ∨ s.directory.Related before nick' name' := by
  constructor
  · rintro ⟨user', channel', huser', hchannel', hpair⟩
    rcases (hafter user' channel').mp hpair with ⟨hadded, rfl, rfl⟩ | hbefore
    · left
      exact ⟨hadded, h.grounded.nick_unique huser' huser, h.grounded.name_unique hchannel' hchannel⟩
    · exact Or.inr ⟨user', channel', huser', hchannel', hbefore⟩
  · rintro (⟨hadded, rfl, rfl⟩ | ⟨user', channel', huser', hchannel', hbefore⟩)
    · exact ⟨user, channel, huser, hchannel, (hafter user channel).mpr (Or.inl ⟨hadded, rfl, rfl⟩)⟩
    · exact ⟨user', channel', huser', hchannel', (hafter user' channel').mpr (Or.inr hbefore)⟩

theorem related_shed {d : Directory} {before after : UserId → ChannelId → Bool}
    {gone : UserId → ChannelId → Prop} {nick name : String} {struck : Prop}
    (hafter : ∀ user channel, after user channel = true ↔
      before user channel = true ∧ ¬ gone user channel)
    (hgone : ∀ {user channel}, d.nicks.get? nick = some user →
      d.channels.get? name = some channel → (gone user channel ↔ struck)) :
    d.Related after nick name ↔ d.Related before nick name ∧ ¬ struck := by
  constructor
  · rintro ⟨user, channel, huser, hchannel, hpair⟩
    obtain ⟨hbefore, hkept⟩ := (hafter user channel).mp hpair
    exact ⟨⟨user, channel, huser, hchannel, hbefore⟩, mt (hgone huser hchannel).mpr hkept⟩
  · rintro ⟨⟨user, channel, huser, hchannel, hbefore⟩, hkept⟩
    exact ⟨user, channel, huser, hchannel,
      (hafter user channel).mpr ⟨hbefore, mt (hgone huser hchannel).mp hkept⟩⟩

theorem mem_insert_iff (h : s.Mirrors mapping symbols r) {user : UserId} {channel : ChannelId}
    {nick name : String} (huser : s.directory.nicks.get? nick = some user)
    (hchannel : s.directory.channels.get? name = some channel) (nick' name' : String) :
    (nick', name') ∈ insert (nick, name) r.members ↔
      s.directory.Related (s.standing.join user channel).members.contains nick' name' := by
  have hrelated : s.directory.Related (s.standing.join user channel).members.contains nick' name' ↔
      (True ∧ nick' = nick ∧ name' = name) ∨
        s.directory.Related s.standing.members.contains nick' name' :=
    h.related_enrol huser hchannel (by simp [Standing.contains_join]) nick' name'
  rw [Finset.mem_insert, h.member_iff, Prod.mk.injEq, hrelated, true_and]

theorem addMember (h : s.Mirrors mapping symbols r) {user : UserId} {channel : ChannelId}
    {nick name : String} (huser : s.directory.nicks.get? nick = some user)
    (hchannel : s.directory.channels.get? name = some channel)
    (hgrounded : (s.addMember user channel).Grounded) :
    (s.addMember user channel).Mirrors mapping symbols
      { r with members := insert (nick, name) r.members } :=
  { h with
    grounded := hgrounded
    indexed := ⟨h.indexed.nick_found, h.indexed.name_found⟩
    member_iff := h.mem_insert_iff huser hchannel }

theorem grant (h : s.Mirrors mapping symbols r) (level : PrivilegeLevel) {user : UserId}
    {channel : ChannelId} {nick name : String} (huser : s.directory.nicks.get? nick = some user)
    (hchannel : s.directory.channels.get? name = some channel)
    (hgrounded : (s.grant level user channel).Grounded) :
    (s.grant level user channel).Mirrors mapping symbols
      { members := insert (nick, name) r.members
        levels := insert (level, nick, name) r.levels } := by
  refine { h with
    grounded := hgrounded
    indexed := ⟨h.indexed.nick_found, h.indexed.name_found⟩
    member_iff := h.mem_insert_iff huser hchannel
    level_iff := ?_ }
  intro level' nick' name'
  have hrelated :
      s.directory.Related ((s.standing.grant level user channel).holds level') nick' name' ↔
      (level' = level ∧ nick' = nick ∧ name' = name) ∨
        s.directory.Related (s.standing.holds level') nick' name' :=
    h.related_enrol huser hchannel (Standing.holds_grant level level' user · channel ·) nick' name'
  rw [Finset.mem_insert, h.level_iff, Prod.mk.injEq, Prod.mk.injEq]
  exact hrelated.symm

/-- Pairs are taken away, those of the same names on both sides. -/
theorem shed (h : s.Mirrors mapping symbols r) (struck : String → String → Bool)
    {standing : Standing} {gone : UserId → ChannelId → Prop} (hsound : standing.Sound)
    (hsheds : s.standing.Sheds standing gone)
    (hgone : ∀ {nick name user channel}, s.directory.nicks.get? nick = some user →
      s.directory.channels.get? name = some channel →
      (gone user channel ↔ struck nick name = true)) :
    Mirrors { s with standing := standing } mapping symbols (r.without struck) := by
  refine { h with
    grounded := h.grounded.shed hsound hsheds
    indexed := ⟨h.indexed.nick_found, h.indexed.name_found⟩
    member_iff := ?_
    level_iff := ?_ }
  · intro nick name
    simp only [Roster.without, Finset.mem_filter, h.member_iff, ← Bool.not_eq_true]
    exact (related_shed hsheds.members hgone).symm
  · intro level nick name
    simp only [Roster.without, Finset.mem_filter, h.level_iff, ← Bool.not_eq_true]
    exact (related_shed (hsheds.holds level) hgone).symm

/-- Nothing changes for names that the index does not have. -/
theorem without_of_absent (h : s.Mirrors mapping symbols r) (struck : String → String → Bool)
    (habsent : ∀ {nick name user channel}, s.directory.nicks.get? nick = some user →
      s.directory.channels.get? name = some channel → struck nick name = false) :
    s.Mirrors mapping symbols (r.without struck) := by
  have hsheds : s.standing.Sheds s.standing fun _ _ => False := ⟨by simp, by simp⟩
  apply h.shed struck h.grounded.standing hsheds
  intro nick name user channel huser hchannel
  simp [habsent huser hchannel]

theorem revoke (h : s.Mirrors mapping symbols r) {standing : Standing} {level : PrivilegeLevel}
    {user : UserId} {channel : ChannelId} {nick name : String}
    (huser : s.directory.nicks.get? nick = some user)
    (hchannel : s.directory.channels.get? name = some channel)
    (hgrounded : Grounded { s with standing := standing })
    (hmembers : standing.members = s.standing.members)
    (hholds : ∀ level' user' channel', standing.holds level' user' channel' = true ↔
      s.standing.holds level' user' channel' = true ∧
        ¬ (level' = level ∧ user' = user ∧ channel' = channel)) :
    Mirrors { s with standing := standing } mapping symbols
      { r with levels := r.levels.erase (level, nick, name) } := by
  refine { h with
    grounded := hgrounded
    indexed := ⟨h.indexed.nick_found, h.indexed.name_found⟩
    member_iff := ?_
    level_iff := ?_ }
  · intro nick' name'
    rw [h.member_iff, hmembers]
  · intro level' nick' name'
    have hrelated : s.directory.Related (standing.holds level') nick' name' ↔
        s.directory.Related (s.standing.holds level') nick' name' ∧
          ¬ (level' = level ∧ nick' = nick ∧ name' = name) := by
      apply related_shed (hholds level')
      intro user' channel' huser' hchannel'
      rw [h.grounded.same_user_iff huser huser', h.grounded.same_channel_iff hchannel hchannel']
    rw [Finset.mem_erase, h.level_iff, hrelated]
    simp [and_comm]

/-! ## Looking up by name -/

theorem channelId?_of_plain (h : s.Mirrors mapping symbols r) {name : String}
    (hplain : PlainName symbols name) :
    s.channelId? name = s.directory.channels.get? (mapping.normalize name) := by
  have hexact :
      s.directory.exactChannel? name = s.directory.channels.get? (mapping.normalize name) := by
    rw [Directory.exactChannel?, Directory.key, h.caseMapping]
  rw [← hexact, Store.channelId?, Directory.channelId?]
  cases hname : name.toList with
  | nil =>
    have hempty : name = "" := String.toList_eq_nil_iff.mp hname
    rw [hempty]
    rfl
  | cons c cs =>
    have hsymbol : s.directory.statusSymbols.toList.contains c = false := by
      rw [h.statusSymbols]
      simpa using hplain c (by rw [hname]; rfl)
    have hwhole : String.ofList (c :: cs) = name := by rw [← hname, String.ofList_toList]
    rw [Directory.resolve?, hwhole, hsymbol]
    cases s.directory.exactChannel? name <;> rfl

theorem userId?_eq (h : s.Mirrors mapping symbols r) (nick : String) :
    s.userId? nick = s.directory.nicks.get? (mapping.normalize nick) := by
  rw [Store.userId?, Directory.userId?, Directory.key, h.caseMapping]

end Mirrors

/-! ## Single changes -/

/-- Tracking a channel and a user does not show, but both are found afterwards. -/
theorem Mirrors.enter (h : s.Mirrors mapping symbols r) (nick name : String) :
    ((s.trackChannel name).1.trackUser (.ofNick nick)).1.Mirrors mapping symbols r ∧
      ((s.trackChannel name).1.trackUser (.ofNick nick)).1.directory.nicks.get?
        (mapping.normalize nick) = some ((s.trackChannel name).1.trackUser (.ofNick nick)).2 ∧
      ((s.trackChannel name).1.trackUser (.ofNick nick)).1.directory.channels.get?
        (mapping.normalize name) = some (s.trackChannel name).2 := by
  have hchannel := h.indexed.alike_trackChannel h.grounded name
  have huser := hchannel.indexed.alike_trackUser hchannel.grounded (.ofNick nick)
  have hmirrors := (h.alike hchannel).alike huser
  refine ⟨hmirrors, ?_, ?_⟩
  · rw [← hmirrors.userId?_eq]
    exact userId?_trackUser (.ofNick nick)
  · have hfound := exactChannel?_trackChannel (s := s) name
    rw [Directory.exactChannel?, Directory.key, (h.alike hchannel).caseMapping] at hfound
    rw [names_trackUser, hfound]

theorem follow_join (hcoherent : s.Coherent) (h : s.Mirrors mapping symbols r) (nick name : String) :
    ∃ s', s.follow (.join nick name) = .ok s' ∧ s'.Coherent ∧
      s'.Mirrors mapping symbols (r.apply mapping (.join nick name)) := by
  obtain ⟨hmirrors, huser, hchannel⟩ := h.enter nick name
  have hadmits := (hcoherent.trackChannel name).coherent.trackUser (.ofNick nick)
  have hjoined := (hadmits.addMember (hcoherent.trackChannel_known name)).coherent
  exact ⟨_, rfl, hjoined, hmirrors.addMember huser hchannel hjoined.toGrounded⟩

theorem follow_grant (hcoherent : s.Coherent) (h : s.Mirrors mapping symbols r)
    (level : PrivilegeLevel) (nick name : String) :
    ∃ s', s.follow (.grant level nick name) = .ok s' ∧ s'.Coherent ∧
      s'.Mirrors mapping symbols (r.apply mapping (.grant level nick name)) := by
  obtain ⟨hmirrors, huser, hchannel⟩ := h.enter nick name
  have hadmits := (hcoherent.trackChannel name).coherent.trackUser (.ofNick nick)
  have hgranted := (hadmits.grant level (hcoherent.trackChannel_known name)).coherent
  exact ⟨_, rfl, hgranted, hmirrors.grant level huser hchannel hgranted.toGrounded⟩

theorem follow_part (hcoherent : s.Coherent) (h : s.Mirrors mapping symbols r) {nick name : String}
    (hplain : PlainName symbols name) :
    ∃ s', s.follow (.part nick name) = .ok s' ∧ s'.Coherent ∧
      s'.Mirrors mapping symbols (r.apply mapping (.part nick name)) := by
  simp only [follow, Roster.apply, h.userId?_eq nick, h.channelId?_of_plain hplain]
  split
  · rename_i user channel huser hchannel
    obtain ⟨standing, hok, hsound, hsheds⟩ := removeMember_spec hcoherent.standing user channel
    have hafter := (hcoherent.follows_collect hsound hsheds).coherent
    refine ⟨_, hok, hafter, ?_⟩
    have hshed := h.shed (fun n c => n == mapping.normalize nick && c == mapping.normalize name)
      hsound hsheds (by
        intro n c user' channel' huser' hchannel'
        rw [h.grounded.same_user_iff huser huser', h.grounded.same_channel_iff hchannel hchannel']
        simp)
    exact hshed.alike (hshed.indexed.alike_collect hshed.grounded user)
  · -- A name is missing from the index, so the roster has no such pair either.
    rename_i hmissing
    refine ⟨s, rfl, hcoherent, h.without_of_absent _ ?_⟩
    intro n c user channel huser hchannel
    rw [Bool.eq_false_iff]
    intro hstruck
    simp only [Bool.and_eq_true, beq_iff_eq] at hstruck
    obtain ⟨rfl, rfl⟩ := hstruck
    exact hmissing user channel huser hchannel

theorem follow_revoke (hcoherent : s.Coherent) (h : s.Mirrors mapping symbols r)
    (level : PrivilegeLevel) {nick name : String} (hplain : PlainName symbols name) :
    ∃ s', s.follow (.revoke level nick name) = .ok s' ∧ s'.Coherent ∧
      s'.Mirrors mapping symbols (r.apply mapping (.revoke level nick name)) := by
  simp only [follow, Roster.apply, h.userId?_eq nick, h.channelId?_of_plain hplain]
  split
  · rename_i user channel huser hchannel
    obtain ⟨standing, hok, hsound, hmembers, hholds⟩ :=
      revoke_spec hcoherent.standing level user channel
    have hafter := (hcoherent.follows_withStanding hsound hmembers).coherent
    exact ⟨_, hok, hafter, h.revoke huser hchannel hafter.toGrounded hmembers hholds⟩
  · rename_i hmissing
    have habsent : (level, mapping.normalize nick, mapping.normalize name) ∉ r.levels := by
      rw [h.level_iff]
      rintro ⟨user, channel, huser, hchannel, -⟩
      exact hmissing user channel huser hchannel
    rw [Finset.erase_eq_of_notMem habsent]
    exact ⟨s, rfl, hcoherent, h⟩

theorem withoutUser_eq (hcontacts : s.contacts = []) (hself : s.selfId = none) (standing : Standing)
    (id : UserId) : s.withoutUser standing id = { s with standing := standing }.forgetUser id := by
  simp only [withoutUser, hcontacts, hself]
  rfl

theorem follow_quit (hcoherent : s.Coherent) (h : s.Mirrors mapping symbols r) (nick : String) :
    ∃ s', s.follow (.quit nick) = .ok s' ∧ s'.Coherent ∧
      s'.Mirrors mapping symbols (r.apply mapping (.quit nick)) := by
  simp only [follow, Roster.apply, h.userId?_eq nick]
  split
  · rename_i user huser
    obtain ⟨standing, hok, hsound, hsheds⟩ := removeUser_spec hcoherent.standing user
    have hafter := (hcoherent.toGrounded.follows_withoutUser (hcoherent.neededBut [user])
      hsound hsheds).coherent
    refine ⟨_, hok, hafter, ?_⟩
    have hshed := h.shed (fun n _ => n == mapping.normalize nick) hsound hsheds (by
      intro n c user' channel' huser' _
      rw [h.grounded.same_user_iff huser huser']
      simp)
    -- There are no contacts and no own user here, so nothing but pairs keeps a user.
    have hstray : ¬ Needed { s with standing := standing } user := by
      rintro (⟨channel, hpair⟩ | hcontact | hself)
      · exact ((hsheds.members user channel).mp hpair).2 rfl
      · simp [h.contacts] at hcontact
      · simp [h.self] at hself
    rw [withoutUser_eq h.contacts h.self]
    exact hshed.alike (hshed.indexed.alike_forgetUser hshed.grounded hstray)
  · rename_i hmissing
    refine ⟨s, rfl, hcoherent, h.without_of_absent _ ?_⟩
    intro n c user channel huser _
    rw [beq_eq_false_iff_ne]
    rintro rfl
    rw [hmissing] at huser
    cases huser

theorem follow_dropChannel (hcoherent : s.Coherent) (h : s.Mirrors mapping symbols r) {name : String}
    (hplain : PlainName symbols name) :
    ∃ s', s.follow (.dropChannel name) = .ok s' ∧ s'.Coherent ∧
      s'.Mirrors mapping symbols (r.apply mapping (.dropChannel name)) := by
  simp only [follow, Roster.apply, h.channelId?_of_plain hplain]
  split
  · rename_i channel hchannel
    obtain ⟨standing, hok, hsound, hsheds⟩ := removeChannel_spec hcoherent.standing channel
    have hafter := (hcoherent.follows_forgetChannel hsound hsheds).coherent
    refine ⟨_, hok, hafter, ?_⟩
    have hshed := h.shed (fun _ c => c == mapping.normalize name) hsound hsheds (by
      intro n c user' channel' _ hchannel'
      rw [h.grounded.same_channel_iff hchannel hchannel']
      simp)
    have hempty : ∀ user, standing.members.contains user channel ≠ true := by
      intro user hpair
      exact ((hsheds.members user channel).mp hpair).2 rfl
    have hforgotten := hshed.indexed.alike_forgetChannel hshed.grounded hempty
    exact (hshed.alike hforgotten).alike
      (hforgotten.indexed.alike_foldl_collect hforgotten.grounded _)
  · rename_i hmissing
    refine ⟨s, rfl, hcoherent, h.without_of_absent _ ?_⟩
    intro n c user channel _ hchannel
    rw [beq_eq_false_iff_ne]
    rintro rfl
    rw [hmissing] at hchannel
    cases hchannel

/-- Each change shows as what it does to the roster. -/
theorem follow_spec (hcoherent : s.Coherent) (h : s.Mirrors mapping symbols r) {move : RosterMove}
    (hplain : move.Plain symbols) :
    ∃ s', s.follow move = .ok s' ∧ s'.Coherent ∧
      s'.Mirrors mapping symbols (r.apply mapping move) := by
  cases move with
  | join nick name => exact follow_join hcoherent h nick name
  | part nick name => exact follow_part hcoherent h (hplain name rfl)
  | grant level nick name => exact follow_grant hcoherent h level nick name
  | revoke level nick name => exact follow_revoke hcoherent h level (hplain name rfl)
  | quit nick => exact follow_quit hcoherent h nick
  | dropChannel name => exact follow_dropChannel hcoherent h (hplain name rfl)

/-! ## Runs -/

theorem coherent_blank (mapping : CaseMapping) (symbols : String) :
    (blank mapping symbols).Coherent :=
  ((Coherent.initial.withCaseMapping mapping).coherent.withStatusSymbols symbols).coherent

theorem blank_eq (mapping : CaseMapping) (symbols : String) :
    blank mapping symbols =
      { initial with directory := ⟨mapping, symbols, .empty, .empty⟩ } := by
  cases mapping <;> rfl

theorem mirrors_blank (mapping : CaseMapping) (symbols : String) :
    (blank mapping symbols).Mirrors mapping symbols .empty := by
  have hgrounded := (coherent_blank mapping symbols).toGrounded
  rw [blank_eq] at hgrounded ⊢
  refine { grounded := hgrounded, indexed := ⟨?_, ?_⟩, contacts := rfl, self := rfl,
           caseMapping := rfl, statusSymbols := rfl, member_iff := ?_, level_iff := ?_ }
  · intro id user huser
    cases huser
  · intro id channel hchannel
    cases hchannel
  · intro nick name
    simp [Roster.empty, Directory.Related]
  · intro level nick name
    simp [Roster.empty, Directory.Related]

theorem followAll_spec (hcoherent : s.Coherent) (h : s.Mirrors mapping symbols r)
    {moves : List RosterMove} (hplain : ∀ move ∈ moves, move.Plain symbols) :
    ∃ s', s.followAll moves = .ok s' ∧ s'.Coherent ∧
      s'.Mirrors mapping symbols (r.applyAll mapping moves) := by
  induction moves generalizing s r with
  | nil => exact ⟨s, rfl, hcoherent, h⟩
  | cons move moves ih =>
    obtain ⟨next, hnext, hnextCoherent, hnextMirrors⟩ :=
      follow_spec hcoherent h (hplain move List.mem_cons_self)
    obtain ⟨last, hlast, hlastCoherent, hlastMirrors⟩ := ih hnextCoherent hnextMirrors
      fun other hother => hplain other (List.mem_cons_of_mem move hother)
    refine ⟨last, ?_, hlastCoherent, hlastMirrors⟩
    rw [followAll, List.foldlM_cons, hnext]
    exact hlast

/-! ## What shows -/

namespace Mirrors

theorem pair?_eq_some_iff (h : s.Mirrors mapping symbols r) {name : String}
    (hplain : PlainName symbols name) (nick : String) (user : UserId) (channel : ChannelId) :
    s.snapshot.pair? nick name = some (user, channel) ↔
      s.directory.nicks.get? (mapping.normalize nick) = some user ∧
        s.directory.channels.get? (mapping.normalize name) = some channel := by
  have hnick : s.snapshot.directory.userId? nick = s.directory.nicks.get? (mapping.normalize nick) :=
    h.userId?_eq nick
  have hname : s.snapshot.directory.channelId? name =
      s.directory.channels.get? (mapping.normalize name) := h.channelId?_of_plain hplain
  rw [StoreSnapshot.pair?, hnick, hname]
  cases s.directory.nicks.get? (mapping.normalize nick) <;>
    cases s.directory.channels.get? (mapping.normalize name) <;> simp

theorem related_iff_pair? (h : s.Mirrors mapping symbols r) {name : String}
    (hplain : PlainName symbols name) (nick : String) (holds : UserId → ChannelId → Bool) :
    s.directory.Related holds (mapping.normalize nick) (mapping.normalize name) ↔
      ∃ user channel, s.snapshot.pair? nick name = some (user, channel) ∧
        holds user channel = true := by
  simp only [Directory.Related, h.pair?_eq_some_iff hplain, and_assoc]

theorem isMember_iff (h : s.Mirrors mapping symbols r) {name : String}
    (hplain : PlainName symbols name) (nick : String) :
    s.snapshot.isMember nick name = true ↔
      (mapping.normalize nick, mapping.normalize name) ∈ r.members := by
  rw [h.member_iff, h.related_iff_pair? hplain, StoreSnapshot.isMember]
  cases s.snapshot.pair? nick name with
  | none => simp
  | some pair =>
    obtain ⟨user, channel⟩ := pair
    simp [Store.snapshot]

theorem hasPrivilege_iff (h : s.Mirrors mapping symbols r) {name : String}
    (hplain : PlainName symbols name) (level : PrivilegeLevel) (nick : String) :
    s.snapshot.hasPrivilege level nick name = true ↔
      (level, mapping.normalize nick, mapping.normalize name) ∈ r.levels := by
  rw [h.level_iff, h.related_iff_pair? hplain, StoreSnapshot.hasPrivilege]
  cases s.snapshot.pair? nick name with
  | none => simp
  | some pair =>
    obtain ⟨user, channel⟩ := pair
    simp [Store.snapshot]

theorem privilegesOf_eq (h : s.Mirrors mapping symbols r) {name : String}
    (hplain : PlainName symbols name) (nick : String) :
    s.snapshot.privilegesOf nick name = PrivilegeLevel.all.filter fun level =>
      (level, mapping.normalize nick, mapping.normalize name) ∈ r.levels := by
  apply List.filter_congr
  intro level _
  rw [Bool.eq_iff_iff, h.hasPrivilege_iff hplain, decide_eq_true_iff]

/-- Nobody is known without being on a channel. -/
theorem userId?_isSome_iff (h : s.Mirrors mapping symbols r) (hcoherent : s.Coherent)
    (nick : String) :
    (s.userId? nick).isSome = true ↔ ∃ name, (mapping.normalize nick, name) ∈ r.members := by
  rw [h.userId?_eq, Option.isSome_iff_exists]
  constructor
  · rintro ⟨user, huser⟩
    have hknown : s.users.contains user = true := by
      rw [← h.userId?_eq] at huser
      exact h.grounded.userId?_known huser
    rcases hcoherent.needed user hknown with ⟨id, hpair⟩ | hcontact | hself
    · obtain ⟨-, hid⟩ := h.grounded.member_known hpair
      obtain ⟨channel, hchannel⟩ := (Table.contains_iff s.channels id).mp hid
      refine ⟨s.directory.key channel.name, (h.member_iff _ _).mpr ?_⟩
      exact ⟨user, id, huser, h.indexed.name_found hchannel, hpair⟩
    · rw [h.contacts] at hcontact
      cases hcontact
    · rw [h.self] at hself
      cases hself
  · rintro ⟨name, hmember⟩
    obtain ⟨user, -, huser, -⟩ := (h.member_iff _ _).mp hmember
    exact ⟨user, huser⟩

end Mirrors

/-- The store refines the roster: any number of changes succeeds, and then every question by name is
answered as the roster answers it. -/
theorem followAll_blank (mapping : CaseMapping) (symbols : String) (moves : List RosterMove)
    (hplain : ∀ move ∈ moves, move.Plain symbols) :
    ∃ s, (blank mapping symbols).followAll moves = .ok s ∧
      ∀ nick,
        ((s.userId? nick).isSome = true ↔ ∃ name,
          (mapping.normalize nick, name) ∈ (Roster.empty.applyAll mapping moves).members) ∧
        ∀ name, PlainName symbols name →
          (s.snapshot.isMember nick name = true ↔
            (mapping.normalize nick, mapping.normalize name) ∈
              (Roster.empty.applyAll mapping moves).members) ∧
          s.snapshot.privilegesOf nick name = PrivilegeLevel.all.filter fun level =>
            (level, mapping.normalize nick, mapping.normalize name) ∈
              (Roster.empty.applyAll mapping moves).levels := by
  obtain ⟨s, hok, hcoherent, hmirrors⟩ :=
    followAll_spec (coherent_blank mapping symbols) (mirrors_blank mapping symbols) hplain
  refine ⟨s, hok, fun nick => ⟨hmirrors.userId?_isSome_iff hcoherent nick, fun name hname => ?_⟩⟩
  exact ⟨hmirrors.isMember_iff hname nick, hmirrors.privilegesOf_eq hname nick⟩

/-- One who leaves and comes back, and is spoken of in different case. -/
theorem followAll_blank_returning :
    (∀ move ∈ [RosterMove.join "Ann" "#a", .quit "ann", .grant .op "aNN" "#A"], move.Plain "@+") ∧
      PlainName "@+" "#a" ∧
      ∃ s, (blank .rfc1459 "@+").followAll [.join "Ann" "#a", .quit "ann", .grant .op "aNN" "#A"] =
          .ok s ∧
        s.snapshot.isMember "ANN" "#a" = true ∧ s.snapshot.privilegesOf "ann" "#a" = [.op] := by
  have hplain : ∀ move ∈ [RosterMove.join "Ann" "#a", .quit "ann", .grant .op "aNN" "#A"],
      move.Plain "@+" := by simp [RosterMove.Plain, RosterMove.channel?, PlainName]
  have hname : PlainName "@+" "#a" := by simp [PlainName]
  obtain ⟨s, hok, hanswers⟩ := followAll_blank .rfc1459 "@+" _ hplain
  refine ⟨hplain, hname, s, hok, ?_, ?_⟩
  · exact ((hanswers "ANN").2 "#a" hname).1.mpr (by decide)
  · rw [((hanswers "ann").2 "#a" hname).2]
    decide

end Store

end IrcClient
