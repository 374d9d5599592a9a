import IrcClient.Proofs.Sasl.Plain
import IrcClient.Proofs.Text.Parts

/-!
# What the server receives of a login

The server appends payloads until one arrives that is shorter than a full chunk. Encoded credentials of
any size reach it whole: all of their chunks are full but the last one, and where that is full as well,
the lone plus sign ends them. None of the chunks looks like that sign.
-/

namespace IrcClient.Sasl

/-- What payloads add up to when one that is shorter than a full chunk ends them, and the payloads
after that one. A lone plus sign is the empty chunk. -/
def collect : List String → Option (String × List String)
  | [] => none
  | payload :: later =>
    let chunk := if payload = "+" then "" else payload
    if chunk.utf8ByteSize < chunkSize then some (chunk, later)
    else (collect later).map fun rest => (chunk ++ rest.1, rest.2)

/-! ## Receiving -/

theorem collect_sign (later : List String) : collect ("+" :: later) = some ("", later) := rfl

theorem collect_short {chunk : String} (hplain : chunk ≠ "+")
    (hshort : chunk.utf8ByteSize < chunkSize) (later : List String) :
    collect (chunk :: later) = some (chunk, later) := by
  simp only [collect, if_neg hplain, if_pos hshort]

theorem collect_full {parts : List (List Char)}
    (hfull : ∀ part ∈ parts, Text.byteLength part = chunkSize) (later : List String) :
    collect (parts.map String.ofList ++ later) =
      (collect later).map fun rest => (String.ofList parts.flatten ++ rest.1, rest.2) := by
  induction parts with
  | nil => simp
  | cons part parts ih =>
    have hsize : (String.ofList part).utf8ByteSize = chunkSize := by
      rw [Text.utf8ByteSize_ofList, hfull part List.mem_cons_self]
    have hplain : String.ofList part ≠ "+" := by
      intro heq
      rw [heq] at hsize
      exact absurd hsize (by decide)
    have hrest := ih fun part hpart => hfull part (List.mem_cons_of_mem _ hpart)
    simp only [List.map_cons, List.cons_append, collect, if_neg hplain, hsize, Nat.lt_irrefl, if_false,
      hrest, Option.map_map, List.flatten_cons, String.ofList_append, String.append_assoc]
    rfl

section OneByte

variable {payload : String} (hsize : ∀ c ∈ payload.toList, c.utf8Size = 1)
include hsize

theorem size_of_mem_dataChunks {chunk : String} (h : chunk ∈ dataChunks payload) :
    1 ≤ chunk.utf8ByteSize ∧ chunk.utf8ByteSize ≤ chunkSize := by
  obtain ⟨part, hpart, rfl⟩ := List.mem_map.mp h
  rw [Text.utf8ByteSize_ofList]
  constructor
  · have hbytes : Text.byteLength part = part.length :=
      Text.byteLength_eq_length fun c hc => hsize c (Text.subset_of_mem_partsWithin hpart hc)
    rw [hbytes]
    exact List.length_pos_iff.mpr (Text.ne_nil_of_mem_partsWithin hpart)
  · apply Text.partsWithin_fit_iff.mpr _ part hpart
    intro c hc
    rw [hsize c hc]
    decide

theorem size_of_mem_dropLast {chunk : String} (h : chunk ∈ (dataChunks payload).dropLast) :
    chunk.utf8ByteSize = chunkSize := by
  rw [dataChunks, ← List.map_dropLast] at h
  obtain ⟨part, hpart, rfl⟩ := List.mem_map.mp h
  rw [Text.utf8ByteSize_ofList]
  exact Text.byteLength_of_mem_dropLast (by decide) hsize hpart

/-- Full chunks and a last one, which is full just if the size of the payload is a multiple of
theirs. -/
theorem exists_last_chunk (hne : payload ≠ "") :
    ∃ (parts : List (List Char)) (last : List Char),
      dataChunks payload = (parts ++ [last]).map String.ofList ∧
      (∀ part ∈ parts, Text.byteLength part = chunkSize) ∧
      payload = String.ofList (parts.flatten ++ last) ∧
      (payload.utf8ByteSize % chunkSize = 0 ↔ Text.byteLength last = chunkSize) := by
  have hwhole := Text.flatten_partsWithin chunkSize payload.toList
  have hsome : Text.partsWithin chunkSize payload.toList ≠ [] := by
    apply Text.partsWithin_ne_nil
    rwa [ne_eq, String.toList_eq_nil_iff]
  have hfull : ∀ part ∈ (Text.partsWithin chunkSize payload.toList).dropLast,
      Text.byteLength part = chunkSize :=
    fun part hpart => Text.byteLength_of_mem_dropLast (by decide) hsize hpart
  obtain ⟨parts, last, hparts⟩ := (List.eq_nil_or_concat' _).resolve_left hsome
  obtain ⟨hpos, hlimit⟩ : 1 ≤ (String.ofList last).utf8ByteSize ∧
      (String.ofList last).utf8ByteSize ≤ chunkSize := by
    apply size_of_mem_dataChunks hsize
    rw [dataChunks, hparts]
    simp
  rw [Text.utf8ByteSize_ofList] at hpos hlimit
  rw [hparts, List.dropLast_concat] at hfull
  rw [hparts, List.flatten_append, List.flatten_singleton] at hwhole
  have hpayload : payload = String.ofList (parts.flatten ++ last) := by
    rw [hwhole, String.ofList_toList]
  refine ⟨parts, last, by rw [dataChunks, hparts], hfull, hpayload, ?_⟩
  obtain ⟨count, hcount⟩ := Text.dvd_byteLength_flatten hfull
  rw [hpayload, Text.utf8ByteSize_ofList, Text.byteLength_append, hcount, Nat.mul_add_mod]
  unfold chunkSize at *
  omega

/-- A receiver has the whole payload when the last chunk has arrived, and not before. -/
theorem collect_chunks (hne : payload ≠ "") (hplain : "+" ∉ dataChunks payload)
    (later : List String) : collect (chunks payload ++ later) = some (payload, later) := by
  obtain ⟨parts, last, hdata, hfull, hpayload, hend⟩ := exists_last_chunk hsize hne
  rw [hdata, List.map_append, List.map_singleton] at hplain
  rw [chunks_eq, hdata, List.append_assoc]
  by_cases hexact : payload.utf8ByteSize % chunkSize = 0
  · have hall : ∀ part ∈ parts ++ [last], Text.byteLength part = chunkSize := by
      intro part hpart
      rcases List.mem_append.mp hpart with hinit | hlast
      · exact hfull part hinit
      · rw [List.mem_singleton.mp hlast, hend.mp hexact]
    rw [if_pos hexact, collect_full hall, List.singleton_append, collect_sign, Option.map_some,
      List.flatten_append, List.flatten_singleton, ← hpayload, String.append_empty]
  · have hshort : (String.ofList last).utf8ByteSize < chunkSize := by
      have hlast : String.ofList last ∈ dataChunks payload := by
        rw [hdata]
        simp
      have hne := mt hend.mpr hexact
      have hlimit := (size_of_mem_dataChunks hsize hlast).2
      rw [Text.utf8ByteSize_ofList] at hlimit ⊢
      omega
    have hlast : String.ofList last ≠ "+" := by
      intro heq
      exact hplain (by rw [heq]; simp)
    rw [if_neg hexact, List.nil_append, List.map_append, List.append_assoc, collect_full hfull,
      List.map_singleton, List.singleton_append, collect_short hlast hshort, Option.map_some,
      ← String.ofList_append, ← hpayload]

end OneByte

/-! ## Credentials -/

theorem utf8Encode_credentials (account password : String) :
    Text.Utf8.encode (account ++ "\x00" ++ account ++ "\x00" ++ password) =
      Text.Utf8.encode account ++ [0] ++ Text.Utf8.encode account ++ [0] ++
        Text.Utf8.encode password := by
  simp only [Text.Utf8.encode, String.toList_append, List.flatMap_append]
  rfl

theorem encodePlain_ne_empty (account password : String) : encodePlain account password ≠ "" := by
  have hbytes : Text.Utf8.encode (account ++ "\x00" ++ account ++ "\x00" ++ password) ≠ [] := by
    rw [utf8Encode_credentials]
    simp
  rw [encodePlain, Text.Base64.encode, ne_eq, String.ofList_eq_empty_iff]
  exact Text.Base64.encodeChars_ne_nil hbytes

/-- The server receives the account and the password whole, whatever they are. All chunks have a
length that it accepts, and all of them but the last one are full. A lone plus sign ends them just if
the length of the whole is a multiple of a full chunk's, and no chunk is taken for that sign. So the
server, whatever else is sent after them, stops at the last chunk, and what it has then stands for the
account, twice, and the password. -/
theorem encodePlain_received (account password : String) :
    (∀ chunk ∈ chunks (encodePlain account password),
        1 ≤ chunk.utf8ByteSize ∧ chunk.utf8ByteSize ≤ 400) ∧
      (∀ chunk ∈ (dataChunks (encodePlain account password)).dropLast, chunk.utf8ByteSize = 400) ∧
      chunks (encodePlain account password) = dataChunks (encodePlain account password) ++
        (if (encodePlain account password).utf8ByteSize % 400 = 0 then ["+"] else []) ∧
      "+" ∉ dataChunks (encodePlain account password) ∧
      (∀ later, collect (chunks (encodePlain account password) ++ later) =
        some (encodePlain account password, later)) ∧
      decodeChallenge (encodePlain account password) =
        .ok (Text.Utf8.encode account ++ [0] ++ Text.Utf8.encode account ++ [0] ++
          Text.Utf8.encode password) := by
  have hsize : ∀ c ∈ (encodePlain account password).toList, c.utf8Size = 1 :=
    fun c => utf8Size_of_mem_encodePlain
  have hplain := plus_not_mem_dataChunks account password
  have hne := encodePlain_ne_empty account password
  refine ⟨?_, fun chunk => size_of_mem_dropLast hsize, chunks_eq _, hplain,
    collect_chunks hsize hne hplain, ?_⟩
  · intro chunk hchunk
    rw [chunks_eq] at hchunk
    rcases List.mem_append.mp hchunk with hdata | hend
    · exact size_of_mem_dataChunks hsize hdata
    · split at hend
      · rw [List.mem_singleton.mp hend]
        decide
      · cases hend
  · have hsign : encodePlain account password ≠ "+" := by
      intro heq
      have hgroups := four_dvd_length_encodePlain account password
      rw [heq] at hgroups
      exact absurd hgroups (by decide)
    rw [decodeChallenge, if_neg hsign]
    exact (Text.Base64.decode_encode _).trans
      (congrArg Except.ok (utf8Encode_credentials account password))

end IrcClient.Sasl
