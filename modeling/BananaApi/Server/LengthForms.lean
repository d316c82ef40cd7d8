import BananaApi.Server.SerializeSize
import BananaApi.Server.WidePositions

/-!
# The forms of a length

`WriteCompactSize`, `ReadCompactSize` and `GetSizeOfCompactSize` make the same case
distinction: what is written is read back, at its size, and there is no shorter way to
write the same value. A length takes up to two reads, so a position that wraps around
loses it.
-/

namespace BananaApi.Server

/-! ## Writing and reading back -/

/-- The shortest form of the length is appended to the stream. -/
theorem writeCompactSize_stream (s : CDataStream) (nSize : Word 8) :
    writeCompactSize s nSize = .returned { s with vch := s.vch ++ shortestPrefix nSize } := by
  have hrel := writeLength_rel (appends_write s) nSize.toNat (appends_init s)
  rw [writeLength, writeLength, BitVec.ofNat_toNat, BitVec.setWidth_eq,
    writeCompactSize_queue] at hrel
  obtain ⟨s', hs', happ⟩ := hrel.returned_right rfl
  rw [hs', happ]
  rfl

/-- A length is written in its shortest form. -/
theorem eq_shortestPrefix {nSize : Word 8} {e : List Byte}
    (h : writeCompactSize (CDataStream.init []) nSize = .returned (CDataStream.init e)) :
    e = shortestPrefix nSize := by
  rw [writeCompactSize_stream] at h
  exact (congrArg CDataStream.vch (Outcome.returned.inj h)).symm

/-- A stream with the given bytes in front of others, none of which takes the position
beyond 32 bits. -/
structure CDataStream.Ahead (rest : List Byte) (s : CDataStream) (bs : List Byte) : Prop where
  wellFormed : s.WellFormed
  unread : s.unread = bs ++ rest
  position : s.nReadPos.toNat + bs.length < 2 ^ 32

/-- An integer is read from the bytes ahead. -/
theorem readData_ahead {rest : List Byte} {n : Nat} (hn : n < 2 ^ 31) (x : Word n)
    (s : CDataStream) (bs : List Byte) (h : s.Ahead rest (leBytes n x ++ bs)) :
    ∃ s', readData n s = .returned (x, s') ∧ s'.Ahead rest bs := by
  have hpos := h.position
  have hlen := congrArg List.length h.unread
  rw [List.length_append, length_leBytes] at hpos
  rw [List.length_append, List.length_append, length_leBytes] at hlen
  obtain ⟨t, hread, ht⟩ := CDataStream.read_inside h.wellFormed (n := n) (by omega) (by omega)
  have hle := ht.position
  refine ⟨t, ?_, ht.wellFormed, ?_, by omega⟩
  · have hx : s.unread.take n = leBytes n x := by
      rw [h.unread, List.append_assoc, List.take_left' (length_leBytes n x)]
    change (s.read (intOf n) >>= fun p => .returned (ofLeBytes n p.1, p.2)) = _
    rw [intOf_of_lt hn, hread, Outcome.returned_bind, hx, ofLeBytes_leBytes]
  · rw [ht.unread, h.unread, List.append_assoc, List.drop_left' (length_leBytes n x)]

/-- Within 32 bits, every form of a length is read off the stream. -/
theorem readCompactSize_of_lt {s : CDataStream} {size : Word 8} {e rest : List Byte}
    (he : e ∈ lengthPrefix size) (hs : s.WellFormed) (hu : s.unread = e ++ rest)
    (hpos : s.nReadPos.toNat + e.length < 2 ^ 32) :
    ∃ s', readCompactSize s = .returned (size, s') ∧ s'.unread = rest := by
  have hahead : s.Ahead rest (e ++ []) := by
    rw [List.append_nil]
    exact ⟨hs, hu, hpos⟩
  obtain ⟨s', hread, h'⟩ := readCompactSize_gives (CDataStream.Ahead rest)
    (fun n hn x s bs => readData_ahead hn x s bs) he hahead
  exact ⟨s', hread, h'.unread⟩

/-! ## Shorter byte strings -/

/-- An integer that is read without a failure is read off its own bytes. -/
theorem readData_flagged {n : Nat} (hn : n < 2 ^ 31) (q : ByteQueue) (x : Word n) (q' : ByteQueue)
    (h : readData n q = .returned (x, q')) (hstate : q'.state &&& failbit = 0) :
    q.state &&& failbit = 0 ∧ q.unread = leBytes n x ++ q'.unread := by
  obtain ⟨⟨bs, q₁⟩, hread, hx⟩ := Outcome.bind_eq_returned.mp h
  cases hx
  rw [intOf_of_lt hn] at hread
  rcases Nat.lt_or_ge q.unread.length n with hpast | hle
  · rw [ByteQueue.read_past hpast] at hread
    split at hread
    · cases hread
    · cases hread
      exact absurd hstate (ByteQueue.or_and_ne_zero (by decide))
  · rw [ByteQueue.read_of_le hle] at hread
    cases hread
    rw [leBytes_ofLeBytes (List.length_take_of_le hle), List.take_append_drop]
    exact ⟨hstate, rfl⟩

/-- A length that is read without a failure takes the bytes of one of its forms. -/
theorem readCompactSize_flagged {q q' : ByteQueue} {size : Word 8}
    (h : readCompactSize q = .returned (size, q')) (hstate : q'.state &&& failbit = 0) :
    ∃ e ∈ lengthPrefix size, q.unread = e ++ q'.unread := by
  obtain ⟨e, he, htakes⟩ := readCompactSize_takes
    (fun q e q' => q'.state &&& failbit = 0 → q.state &&& failbit = 0 ∧ q.unread = e ++ q'.unread)
    (fun n hn q x q' => readData_flagged hn q x q')
    (fun q e q₁ e' q' h₁ h₂ hstate => by
      obtain ⟨hstate₁, hu₂⟩ := h₂ hstate
      obtain ⟨hstate₀, hu₁⟩ := h₁ hstate₁
      exact ⟨hstate₀, by rw [hu₁, hu₂, List.append_assoc]⟩) h
  exact ⟨e, he, (htakes hstate).2⟩

/-- Fewer bytes than the shortest form are only read as the length along with a failure
that the mask lets pass. -/
theorem readCompactSize_short {bytes : List Byte} {mask : BitVec 16} {size : Word 8}
    {t : CDataStream} (hlen : bytes.length < (shortestPrefix size).length)
    (h : readCompactSize (⟨bytes, 0, 0, mask⟩ : CDataStream) = .returned (size, t)) :
    mask &&& failbit = 0 ∧ t.state &&& failbit ≠ 0 := by
  have hwidth : (shortestPrefix size).length ≤ 9 :=
    length_shortestPrefix_le (Or.inr (Or.inr (Or.inr rfl)))
  have hrefines : Refines False ⟨bytes, 0, 0, mask⟩ ⟨bytes, 0, mask⟩ :=
    CDataStream.refines_queue (Nat.zero_le _) (Or.inl (show bytes.length < 2 ^ 31 by omega))
  obtain ⟨⟨size', q'⟩, hq, hsize, hrefines'⟩ :=
    (readCompactSize_rel (refines_read False) hrefines).returned_left h
  have hsize : size = size' := hsize
  subst hsize
  have hfails : ¬ ∃ e ∈ lengthPrefix size, bytes = e ++ q'.unread := by
    rintro ⟨e, he, rfl⟩
    have hle := length_shortestPrefix_le he
    rw [List.length_append] at hlen
    omega
  constructor
  · by_contra hmask
    have hthrows : (⟨bytes, 0, mask⟩ : ByteQueue).Throws := hmask
    exact hfails (readCompactSize_returned hthrows hq).1
  · rw [hrefines'.state]
    exact fun hstate => hfails (readCompactSize_flagged hq hstate)

/-! ## The three functions on a length -/

/-- The length written as `e` is read back off the stream, its size is that of `e`, and no
shorter byte string is read as the length. -/
structure ReadsBack (s : CDataStream) (nSize : Word 8) (e rest : List Byte) : Prop where
  reads : ∃ s', readCompactSize s = .returned (nSize, s') ∧ s'.unread = rest
  size : e.length = (getSizeOfCompactSize nSize).toNat
  shortest : ∀ bytes mask t, bytes.length < e.length →
    readCompactSize (⟨bytes, 0, 0, mask⟩ : CDataStream) = .returned (nSize, t) →
      mask &&& failbit = 0 ∧ t.state &&& failbit ≠ 0

/-- Where the position wraps around, too much is left of the buffer. -/
theorem not_readsBack_of_ge {s : CDataStream} {nSize : Word 8} {e rest : List Byte}
    (hs : s.WellFormed) (hu : s.unread = e ++ rest) (hpos : 2 ^ 32 ≤ s.nReadPos.toNat + e.length) :
    ¬ ReadsBack s nSize e rest := by
  rintro ⟨⟨s', hread, hrest⟩, -, -⟩
  have hlen := congrArg List.length hu
  rw [CDataStream.WellFormed] at hs
  rw [CDataStream.unread, List.length_drop, List.length_append] at hlen
  have hwide : 2 ^ 32 ≤ s.vch.length := by omega
  have hvch : s'.vch = s.vch :=
    (readCompactSize_keeps (CDataStream.read_keeps hwide) rfl).2 nSize s' hread
  have hlen' := congrArg List.length hrest
  rw [CDataStream.unread, List.length_drop, hvch] at hlen'
  have hb := s'.nReadPos.isLt
  omega

/-- A length is read back off any stream exactly when its last byte is in reach of the
position. -/
theorem readsBack_iff {s : CDataStream} {nSize : Word 8} {e rest : List Byte}
    (hwrite : writeCompactSize (CDataStream.init []) nSize = .returned (CDataStream.init e))
    (hs : s.WellFormed) (hu : s.unread = e ++ rest) :
    ReadsBack s nSize e rest ↔ s.nReadPos.toNat + e.length < 2 ^ 32 := by
  constructor
  · intro h
    by_contra hpos
    exact not_readsBack_of_ge hs hu (not_lt.mp hpos) h
  · intro hpos
    obtain rfl := eq_shortestPrefix hwrite
    exact ⟨readCompactSize_of_lt (shortestPrefix_mem nSize) hs hu hpos,
      (toNat_getSizeOfCompactSize nSize).symm, fun bytes mask t => readCompactSize_short⟩

/-- The length 253 in front of one more byte. -/
theorem readsBack_iff_marked :
    ReadsBack (CDataStream.init [253, 253, 0, 7]) 253 [253, 253, 0] [7] ↔
      (CDataStream.init [253, 253, 0, 7]).nReadPos.toNat + [253, 253, 0].length < 2 ^ 32 :=
  readsBack_iff rfl (CDataStream.wellFormed_init _) rfl

/-- A length in the last byte of a buffer of `2 ^ 32` bytes is not read. -/
theorem not_readsBack_last :
    ¬ ∀ (s : CDataStream) (nSize : Word 8) (e rest : List Byte),
      writeCompactSize (CDataStream.init []) nSize = .returned (CDataStream.init e) →
        s.WellFormed → s.unread = e ++ rest → ReadsBack s nSize e rest := by
  intro h
  have hlen : (List.replicate (2 ^ 32 - 1) (0 : Byte)).length = 2 ^ 32 - 1 :=
    List.length_replicate
  have hpos : (4294967295 : BitVec 32).toNat = 2 ^ 32 - 1 := rfl
  generalize List.replicate (2 ^ 32 - 1) (0 : Byte) = bytes at hlen
  have hw : ({ CDataStream.init (bytes ++ [5]) with nReadPos := 4294967295 } :
      CDataStream).WellFormed := by
    change (4294967295 : BitVec 32).toNat ≤ (bytes ++ [5]).length
    rw [List.length_append]
    omega
  have hu : ({ CDataStream.init (bytes ++ [5]) with nReadPos := 4294967295 } :
      CDataStream).unread = [5] ++ [] := by
    change (bytes ++ [5]).drop (4294967295 : BitVec 32).toNat = [5]
    rw [List.drop_left' (by omega)]
  refine not_readsBack_of_ge hw hu ?_ (h _ 5 [5] [] rfl hw hu)
  change 2 ^ 32 ≤ (4294967295 : BitVec 32).toNat + 1
  omega

end BananaApi.Server
