import IrcClient.Proofs.Text.Base64
import IrcClient.Proofs.Text.Width
import IrcClient.Sasl.Plain

/-!
# The payloads of a login

Base64 comes in groups of four characters of one byte each, and a full chunk holds whole groups.
Hence every chunk does, which tells the chunks from the name of the mechanism.
-/

namespace IrcClient

namespace Sasl

/-- The chunks of a payload without the sign that may end it. -/
def dataChunks (payload : String) : List String :=
  (Text.partsWithin chunkSize payload.toList).map String.ofList

theorem chunks_eq (payload : String) : chunks payload =
    dataChunks payload ++ if payload.utf8ByteSize % chunkSize = 0 then ["+"] else [] := by
  have hsize : Text.byteLength payload.toList = payload.utf8ByteSize := by
    rw [← Text.utf8ByteSize_ofList, String.ofList_toList]
  rw [chunks, dataChunks, hsize]

theorem utf8Size_of_mem_encodePlain {account password : String} {c : Char}
    (h : c ∈ (encodePlain account password).toList) : c.utf8Size = 1 := by
  rw [encodePlain, Text.Base64.encode, String.toList_ofList] at h
  exact Text.Base64.utf8Size_of_mem_encodeChars h

theorem four_dvd_length_encodePlain (account password : String) :
    4 ∣ (encodePlain account password).toList.length := by
  rw [encodePlain, Text.Base64.encode, String.toList_ofList]
  exact Text.Base64.four_dvd_length_encodeChars _

/-- Every chunk of encoded credentials holds whole groups. -/
theorem dvd_of_mem_dataChunks {account password chunk : String}
    (h : chunk ∈ dataChunks (encodePlain account password)) : 4 ∣ chunk.toList.length := by
  obtain ⟨part, hmem, rfl⟩ := List.mem_map.mp h
  rw [String.toList_ofList]
  refine Text.dvd_length_of_mem_partsFrom ?_ ?_ ?_ ?_ ?_ hmem
  · decide
  · decide
  · exact Nat.zero_add _
  · exact fun c => utf8Size_of_mem_encodePlain
  · rw [List.length_nil, Nat.zero_add]
    exact four_dvd_length_encodePlain account password

/-- None of them looks like the empty one. -/
theorem plus_not_mem_dataChunks (account password : String) :
    "+" ∉ dataChunks (encodePlain account password) :=
  fun h => absurd (dvd_of_mem_dataChunks h) (by decide)

/-- A chunk of encoded credentials is the empty one, or it holds whole groups. -/
theorem eq_or_dvd_of_mem_chunks {account password chunk : String}
    (h : chunk ∈ chunks (encodePlain account password)) : chunk = "+" ∨ 4 ∣ chunk.toList.length := by
  rw [chunks_eq] at h
  rcases List.mem_append.mp h with hpart | hend
  · exact Or.inr (dvd_of_mem_dataChunks hpart)
  · split at hend
    · exact Or.inl (List.mem_singleton.mp hend)
    · cases hend

/-- The name of the mechanism is not part of any credentials. -/
theorem plain_not_mem_chunks (account password : String) :
    "PLAIN" ∉ chunks (encodePlain account password) := by
  intro h
  rcases eq_or_dvd_of_mem_chunks h with heq | hdvd
  · exact absurd heq (by decide)
  · exact absurd hdvd (by decide)

end Sasl

end IrcClient
