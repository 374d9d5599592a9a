import IrcClient.Proofs.Store.Lookup

/-!
# The channel that a name stands for

A name is looked up as it is, and then again and again with one status symbol less in front of it, as
long as there are any. The first channel found is meant. Whether a name can be a channel's at all is
found out by another search, which looks at single characters and knows no channels. It agrees with the
lookup on all channels whose names begin with a character that the case mapping leaves alone.
-/

namespace IrcClient

namespace CaseMapping

/-- Whether a mapping neither changes a character nor changes another one into it. -/
def Leaves (m : CaseMapping) (c : Char) : Prop := m.fold c = c ∧ ∀ d, m.fold d = c → d = c

/-- Whether a mapping leaves a character alone shows in the ASCII characters. -/
theorem leaves_iff {m : CaseMapping} {c : Char} : m.Leaves c ↔
    m.fold c = c ∧ ∀ n < 128, m.fold (Char.ofNat n) = c → Char.ofNat n = c := by
  refine and_congr_right fun _ => ⟨fun honto n _ => honto _, fun htable d hd => ?_⟩
  by_cases hascii : d.toNat < 128
  · rw [← d.ofNat_toNat] at hd ⊢
    exact htable d.toNat hascii hd
  · rwa [m.fold_of_wide (Nat.le_of_not_lt hascii)] at hd

instance (m : CaseMapping) (c : Char) : Decidable (m.Leaves c) :=
  decidable_of_iff _ leaves_iff.symm

/-- Names that are the same begin alike, if one of them begins with a character left alone. -/
theorem Leaves.head?_eq {m : CaseMapping} {c : Char} (h : m.Leaves c) {name other : String}
    (hname : name.toList.head? = some c) (hsame : m.normalize name = m.normalize other) :
    other.toList.head? = some c := by
  have hheads : (name.toList.map m.fold).head? = (other.toList.map m.fold).head? := by
    rw [String.ofList_inj.mp hsame]
  rw [List.head?_map, List.head?_map, hname, Option.map_some, h.1, eq_comm,
    Option.map_eq_some_iff] at hheads
  obtain ⟨d, hd, hfold⟩ := hheads
  rw [hd, h.2 d hfold]

end CaseMapping

/-- A name can be a channel's if the characters that channel names begin with include what is left of
it behind some status symbols. -/
theorem isChannelName_append {channelPrefixes statusSymbols : String} {front rest : List Char}
    {first : Char} (hfront : ∀ c ∈ front, c ∈ statusSymbols.toList) (hrest : rest.head? = some first)
    (hfirst : first ∈ channelPrefixes.toList) :
    isChannelName channelPrefixes statusSymbols (front ++ rest) = true := by
  induction front with
  | nil =>
    obtain ⟨more, rfl⟩ := List.head?_eq_some_iff.mp hrest
    simp [isChannelName, hfirst]
  | cons c front ih =>
    have hc := hfront c List.mem_cons_self
    have htail := ih fun d hd => hfront d (List.mem_cons_of_mem c hd)
    simp [isChannelName, hc, htail]

namespace Store

variable {s : Store} {target : String} {id : ChannelId}

/-- The channel index holds the lower form of the name of every channel, and nothing else. -/
def ChannelIndexExact (s : Store) : Prop :=
  ∀ key id, s.directory.channels.get? key = some id ↔
    ∃ channel, s.channels.get? id = some channel ∧ s.directory.key channel.name = key

/-- So it does in a store that refers to nobody it does not know and finds whom it knows. -/
theorem Grounded.channelIndexExact (h : s.Grounded) (hindexed : s.Indexed) :
    s.ChannelIndexExact := by
  intro key id
  constructor
  · exact h.name_known
  · rintro ⟨channel, hchannel, rfl⟩
    exact hindexed.name_found hchannel

/-- Whether a text is the name of a known channel. -/
def Names (s : Store) (name : List Char) (id : ChannelId) : Prop :=
  ∃ channel, s.channels.get? id = some channel ∧
    s.directory.key channel.name = s.directory.key (String.ofList name)

namespace ChannelIndexExact

theorem exactChannel?_eq_some_iff (h : s.ChannelIndexExact) {name : List Char} :
    s.directory.exactChannel? (String.ofList name) = some id ↔ s.Names name id :=
  h _ _

theorem exactChannel?_eq_none_iff (h : s.ChannelIndexExact) {name : List Char} :
    s.directory.exactChannel? (String.ofList name) = none ↔ ∀ id, ¬ s.Names name id := by
  rw [Option.eq_none_iff_forall_ne_some]
  exact forall_congr' fun id => not_congr h.exactChannel?_eq_some_iff

theorem channelId?_eq_some_iff (h : s.ChannelIndexExact) : s.channelId? target = some id ↔
    ∃ front rest, s.directory.Strips target.toList front rest ∧ s.Names rest id ∧
      ∀ front' rest' id', s.directory.Strips target.toList front' rest' →
        front'.length < front.length → ¬ s.Names rest' id' := by
  refine Directory.resolve?_eq_some_iff.trans (exists_congr fun front => exists_congr fun rest => ?_)
  refine and_congr_right fun _ => and_congr h.exactChannel?_eq_some_iff ?_
  refine forall_congr' fun front' => forall_congr' fun rest' => ?_
  rw [h.exactChannel?_eq_none_iff]
  exact ⟨fun hnone id' hstrips hshort => hnone hstrips hshort id',
    fun hnone hstrips hshort id' => hnone id' hstrips hshort⟩

theorem channelId?_eq_none_iff (h : s.ChannelIndexExact) : s.channelId? target = none ↔
    ∀ front rest id, s.directory.Strips target.toList front rest → ¬ s.Names rest id := by
  refine Directory.resolve?_eq_none_iff.trans ?_
  refine forall_congr' fun front => forall_congr' fun rest => ?_
  rw [h.exactChannel?_eq_none_iff, forall_comm]

/-- A channel that is found is recognized, if its name begins with a character that the case mapping
leaves alone. -/
theorem isChannelName (h : s.ChannelIndexExact) {channel : Channel} {first : Char}
    (hfound : s.channelId? target = some id) (hchannel : s.channels.get? id = some channel)
    (hname : channel.name.toList.head? = some first) (hfirst : first ∈ s.channelPrefixes.toList)
    (hleaves : s.directory.caseMapping.Leaves first) : s.isChannelName target = true := by
  obtain ⟨front, rest, hstrips, hexact, -⟩ := Directory.exists_of_resolve? hfound
  obtain ⟨found, hget, hsame⟩ := h.exactChannel?_eq_some_iff.mp hexact
  cases hchannel.symm.trans hget
  have hrest := hleaves.head?_eq hname hsame
  rw [String.toList_ofList] at hrest
  rw [Store.isChannelName, hstrips.eq]
  exact isChannelName_append hstrips.symbols hrest hfirst

end ChannelIndexExact

end Store

end IrcClient
