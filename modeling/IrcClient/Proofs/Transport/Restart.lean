import IrcClient.Proofs.Transport.Chunks
import IrcClient.Transport.LineSource
import IrcClient.Transport.Replay

/-!
# Reading on over another stream

When the connection changes under a reader, the bytes that it has fetched and not used stand in front
of the new stream, and its buffer fills again from nothing. They are read again in order, none is
lost, and the end does not show before the last of them.

A reader that has just taken a line remembers nothing else. So it goes on as if nothing had changed,
with one exception: whether a line that is too long is dropped depends on the pieces in which it
comes, and the new stream brings other pieces.
-/

namespace IrcClient

namespace ReplayStream

variable {s : ReplayStream} {size : Nat}

/-- What the stream has still to give, in order. -/
def remaining (s : ReplayStream) : List UInt8 := s.held ++ s.incoming

theorem append_read (s : ReplayStream) (size : Nat) :
    (s.read size).1 ++ (s.read size).2.remaining = s.remaining := by
  unfold read remaining
  split
  · rename_i hnone
    simp [List.isEmpty_iff.mp hnone]
  · simp [← List.append_assoc]

theorem read_eq_nil_iff (hsize : 0 < size) : (s.read size).1 = [] ↔ s.remaining = [] := by
  have hne : size ≠ 0 := Nat.ne_of_gt hsize
  unfold read remaining
  split
  · rename_i hnone
    simp [List.isEmpty_iff.mp hnone, List.take_eq_nil_iff, hne]
  · rename_i hheld
    rw [List.isEmpty_iff] at hheld
    simp [hheld, List.take_eq_nil_iff, hne]

/-- Reads give what the stream holds, in order, and leave the rest. -/
theorem flatten_readAll (s : ReplayStream) (sizes : List Nat) :
    (s.readAll sizes).1.flatten ++ (s.readAll sizes).2.remaining = s.remaining := by
  induction sizes generalizing s with
  | nil => rfl
  | cons size sizes ih =>
    rw [readAll, List.flatten_cons, List.append_assoc, ih, append_read]

/-- A read that gives nothing comes after everything was given. -/
theorem flatten_take_of_nil {sizes : List Nat} (hsizes : ∀ size ∈ sizes, 0 < size) {n : Nat}
    (h : (s.readAll sizes).1[n]? = some []) : ((s.readAll sizes).1.take n).flatten = s.remaining := by
  induction sizes generalizing s n with
  | nil => cases h
  | cons size sizes ih =>
    rw [readAll] at h ⊢
    cases n with
    | zero =>
      rw [List.getElem?_cons_zero, Option.some.injEq,
        read_eq_nil_iff (hsizes size List.mem_cons_self)] at h
      rw [h]
      rfl
    | succ n =>
      have hlater := ih (fun other hother => hsizes other (List.mem_cons_of_mem size hother)) h
      rw [List.take_succ_cons, List.flatten_cons, hlater, append_read]

/-- As many reads as there are bytes give all of them. -/
theorem remaining_readAll {sizes : List Nat} (hsizes : ∀ size ∈ sizes, 0 < size)
    (hmany : s.remaining.length ≤ sizes.length) : (s.readAll sizes).2.remaining = [] := by
  induction sizes generalizing s with
  | nil => exact List.length_eq_zero_iff.mp (Nat.le_zero.mp hmany)
  | cons size sizes ih =>
    have hsplit := congrArg List.length (append_read s size)
    rw [List.length_append] at hsplit
    rw [List.length_cons] at hmany
    refine ih (fun other hother => hsizes other (List.mem_cons_of_mem size hother)) ?_
    by_cases hnone : (s.read size).1 = []
    · have hend := (read_eq_nil_iff (hsizes size List.mem_cons_self)).mp hnone
      rw [hend, List.length_nil] at hsplit
      omega
    · have := List.length_pos_iff.mpr hnone
      omega

end ReplayStream

namespace LineCodec

variable {codec codec' : LineCodec} {buffer rest : List UInt8} {line : String}

/-- Behind a line begins a new one, of which nothing is known. -/
theorem codec_of_decode (h : codec.decode buffer = (some line, codec', rest)) : codec' = initial := by
  have hawait (discarding : Bool) (buffer : List UInt8) :
      await discarding buffer ≠ (some line, codec', rest) := by
    unfold await
    split <;> nofun
  have hdecodeLine (scanned : Nat) (buffer : List UInt8)
      (h : decodeLine scanned buffer = (some line, codec', rest)) : codec' = initial := by
    unfold decodeLine at h
    split at h
    · cases h
      rfl
    · exact absurd h (hawait _ _)
  unfold decode at h
  split at h
  · split at h
    · exact hdecodeLine _ _ h
    · exact absurd h (hawait _ _)
  · exact hdecodeLine _ _ h

/-- All lines of a stream are readable if each of them fits. -/
theorem readable_of_fits {stream : List Arrival} (h : ∀ line ∈ wireLines (bytes stream), fits line) :
    readable stream = (wireLines (bytes stream)).map lineText := by
  rw [← map_bytes_arrivedLines] at h ⊢
  rw [readable, List.map_map, List.filter_eq_self.mpr]
  · rfl
  · intro line hline
    have hfits := h (bytes line) (List.mem_map_of_mem hline)
    rw [fits, decide_eq_true_iff] at hfits
    exact decide_eq_true fun hover => absurd hover.lt_length (Nat.not_lt.mpr hfits)

end LineCodec

namespace LineSource

open LineCodec

/-- The lines that are read from now on: those in the buffer first, and then those of the rest of
the stream, which comes in pieces. -/
def readOn? (source : LineSource) (pieces : List (List UInt8)) : Option (List String) :=
  readFrom? source.codec source.buffer.bytes ([] :: pieces)

/-- A stream in front of which the bytes stand that are fetched and not used. -/
def replay (source : LineSource) : ReplayStream := ⟨source.buffer.bytes, source.stream, []⟩

variable {source : LineSource}

/-- At the beginning of a line, what is in the buffer might as well come with the first piece. -/
theorem readOn?_eq_read? (source : LineSource) (hcodec : source.codec = .initial) (pieces : List (List UInt8)) :
    source.readOn? pieces = read? (source.buffer.bytes :: pieces) := by
  rw [readOn?, hcodec, read?, readFrom?, readFrom?, List.append_nil, List.nil_append]

/-- Where a line was just taken, the reader may start again on a stream with the same bytes. Reads of
any sizes from this stream give all bytes that were not used, and nothing earlier or twice. The lines
that follow are those that are not overrun, in the pieces of the old stream and in those of the new
one; so they are the same if none of them is too long. -/
theorem restart_reads_on {codec : LineCodec} {buffer : List UInt8} {line : String}
    (hline : codec.decode buffer = (some line, source.codec, source.buffer.bytes))
    {chunks : List (List UInt8)} (hchunks : chunks.flatten = source.stream)
    {sizes : List Nat} (hsizes : ∀ size ∈ sizes, 0 < size)
    {pieces : List (List UInt8)} {after : ReplayStream}
    (hreads : source.replay.readAll sizes = (pieces, after)) :
    pieces.flatten ++ after.remaining = source.buffer.bytes ++ chunks.flatten ∧
      (∀ n, pieces[n]? = some [] → (pieces.take n).flatten = source.buffer.bytes ++ chunks.flatten) ∧
      ((source.buffer.bytes ++ chunks.flatten).length ≤ sizes.length → after.remaining = []) ∧
      (after.remaining = [] →
        source.readOn? chunks = some (readable (arrivals (source.buffer.bytes :: chunks))) ∧
        source.restart.readOn? pieces = some (readable (arrivals ([] :: pieces))) ∧
        bytes (arrivals ([] :: pieces)) = bytes (arrivals (source.buffer.bytes :: chunks)) ∧
        ((∀ line ∈ wireLines (source.buffer.bytes ++ chunks.flatten), fits line) →
          source.restart.readOn? pieces = source.readOn? chunks)) := by
  have hcodec : source.codec = .initial := codec_of_decode hline
  have hreplay : source.replay.remaining = source.buffer.bytes ++ chunks.flatten := by
    rw [hchunks]
    rfl
  have hall := source.replay.flatten_readAll sizes
  rw [hreads, hreplay] at hall
  refine ⟨hall, ?_, ?_, ?_⟩
  · intro n hn
    have hend := ReplayStream.flatten_take_of_nil hsizes (s := source.replay) (n := n)
    rw [hreads, hreplay] at hend
    exact hend hn
  · intro hmany
    have hend := ReplayStream.remaining_readAll hsizes (s := source.replay)
    rw [hreads, hreplay] at hend
    exact hend hmany
  · intro hend
    have hold : source.readOn? chunks =
        some (readable (arrivals (source.buffer.bytes :: chunks))) :=
      (source.readOn?_eq_read? hcodec chunks).trans (read?_eq _)
    have hnew : source.restart.readOn? pieces = some (readable (arrivals ([] :: pieces))) :=
      (source.restart.readOn?_eq_read? hcodec pieces).trans (read?_eq _)
    have hbytes : bytes (arrivals ([] :: pieces)) = bytes (arrivals (source.buffer.bytes :: chunks)) := by
      rw [hend, List.append_nil] at hall
      simpa using hall
    refine ⟨hold, hnew, hbytes, ?_⟩
    intro hfits
    have hstream : bytes (arrivals (source.buffer.bytes :: chunks)) =
        source.buffer.bytes ++ chunks.flatten := by simp
    rw [hold, hnew, readable_of_fits (by rwa [hbytes, hstream]), readable_of_fits (by rwa [hstream]),
      hbytes]

/-- A reader that has taken the first of three lines, when the second is fetched and the third is
not. -/
def midway : LineSource := ⟨.initial, ⟨encode "b", 3, 8186, by simp⟩, encode "c"⟩

theorem restart_reads_on_midway :
    LineCodec.initial.decode (encode "a" ++ encode "b") =
        (some "a", midway.codec, midway.buffer.bytes) ∧
      [encode "c"].flatten = midway.stream ∧ (∀ size ∈ [2, 9, 9], 0 < size) ∧
      midway.replay.readAll [2, 9, 9] = ([[0x62, 0x0D], [0x0A], encode "c"], ⟨[], [], []⟩) ∧
      midway.readOn? [encode "c"] = some ["b", "c"] ∧
      midway.restart.readOn? [[0x62, 0x0D], [0x0A], encode "c"] = some ["b", "c"] := by
  have hline : LineCodec.initial.decode (encode "a" ++ encode "b") =
      (some "a", midway.codec, midway.buffer.bytes) :=
    decode_encode (by decide) (encode "b")
  have hreads : midway.replay.readAll [2, 9, 9] =
      ([[0x62, 0x0D], [0x0A], encode "c"], ⟨[], [], []⟩) := by decide
  have hstream : [encode "c"].flatten = midway.stream := rfl
  obtain ⟨-, -, -, hrest⟩ := restart_reads_on hline hstream (by decide) hreads
  obtain ⟨hold, hnew, -, -⟩ := hrest rfl
  refine ⟨hline, hstream, by decide, hreads, hold.trans ?_, hnew.trans ?_⟩
  · decide
  · decide

/-- A reader that has taken a line, when one byte more than is permitted is fetched of the next, and
its end. -/
def beforeOversized : LineSource :=
  ⟨.initial, ⟨List.replicate (maxLength + 1) 0x61 ++ [lineFeed], 3, 1, Nat.succ_pos _⟩, []⟩

/-- A line that is too long is taken if it is complete in the buffer, and dropped if its end comes
back later than the rest. -/
theorem restart_drops_oversized_line :
    LineCodec.initial.decode (encode "a" ++ beforeOversized.buffer.bytes) =
        (some "a", beforeOversized.codec, beforeOversized.buffer.bytes) ∧
      beforeOversized.replay.readAll [maxLength + 1, 1] =
        ([List.replicate (maxLength + 1) 0x61, [lineFeed]], ⟨[], [], []⟩) ∧
      beforeOversized.readOn? [] = some [lineText (List.replicate (maxLength + 1) 0x61)] ∧
      beforeOversized.restart.readOn? [List.replicate (maxLength + 1) 0x61, [lineFeed]] =
        some [] := by
  have hfree : lineFeed ∉ List.replicate (maxLength + 1) (0x61 : UInt8) :=
    fun hmem => absurd (List.eq_of_mem_replicate hmem) (by decide)
  have harrivals : arrivals [[], List.replicate (maxLength + 1) 0x61, [lineFeed]] =
      (.pause :: (List.replicate (maxLength + 1) 0x61).map .byte ++ [.pause]) ++
        .byte lineFeed :: [.pause] := by
    simp [arrivals]
  have hunended : Arrival.byte lineFeed ∉
      .pause :: (List.replicate (maxLength + 1) 0x61).map Arrival.byte ++ [.pause] := by
    simpa using hfree
  have hover : Overrun (.pause :: (List.replicate (maxLength + 1) 0x61).map .byte ++ [.pause]) := by
    rw [overrun_append_pause, bytes_pause, bytes_map_byte, List.length_replicate]
    exact Nat.lt_succ_self maxLength
  have hlast : readable [.pause] = [] := by decide
  have hfirst : '\n' ∉ "a".toList := by decide
  refine ⟨decode_encode hfirst _, ?_, ?_, ?_⟩
  · simp [replay, beforeOversized, ReplayStream.readAll, ReplayStream.read]
  · rw [readOn?_eq_read? _ rfl]
    exact read?_at_once hfree
  · rw [readOn?_eq_read? _ rfl, read?_eq, restart, ReadBuffer.bytes_empty, harrivals,
      readable_append_cons hunended, if_pos hover, hlast, List.nil_append]

end LineSource

end IrcClient
