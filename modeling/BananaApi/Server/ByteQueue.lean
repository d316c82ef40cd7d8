import BananaApi.Server.DataStream

/-!
# The byte queue behind a `CDataStream`

What a stream is for: a queue of unread bytes, read from the front and written at
the back, with a failure state. As long as the buffer is addressable by the read
position, a `CDataStream` reads exactly like its queue of unread bytes; a buffer
between 2 and 4 GiB may run outside of its memory where the queue throws.
-/

namespace BananaApi.Server

/-- The unread bytes of a stream and its failure state. -/
structure ByteQueue where
  unread : List Byte
  state : BitVec 16
  exceptmask : BitVec 16
  deriving DecidableEq, Repr

namespace ByteQueue

/-- A queue that throws on a short read. -/
def init (unread : List Byte) : ByteQueue := ⟨unread, 0, badbit ||| failbit⟩

/-- Take bytes from the front; a short read fails and, where it does not throw,
delivers the remaining bytes padded with zeros. -/
def read (q : ByteQueue) (nSize : Int) : Outcome ByteQueue (List Byte × ByteQueue) :=
  if nSize < 0 then .aborted
  else if nSize.toNat ≤ q.unread.length then
    .returned (q.unread.take nSize.toNat, { q with unread := q.unread.drop nSize.toNat })
  else
    let q := { q with state := q.state ||| failbit }
    if q.state &&& q.exceptmask ≠ 0 then .threw "CDataStream::read() : end of data" q
    else .returned (q.unread ++ List.replicate (nSize.toNat - q.unread.length) 0,
      { q with unread := [] })

/-- Append the first `nSize` bytes of the buffer. -/
def write (q : ByteQueue) (pch : List Byte) (nSize : Int) : Outcome ByteQueue ByteQueue :=
  if nSize < 0 then .aborted
  else if pch.length < nSize.toNat then .overran
  else .returned { q with unread := q.unread ++ pch.take nSize.toNat }

instance : ByteStream ByteQueue where
  read := read
  write := write

/-- A short read throws. -/
def Throws (q : ByteQueue) : Prop := q.exceptmask &&& failbit ≠ 0

/-- With `failbit` in the mask, setting it is enough to throw. -/
theorem or_and_ne_zero {state mask : BitVec 16} (h : mask &&& failbit ≠ 0) :
    (state ||| failbit) &&& mask ≠ 0 := by
  intro he
  apply h
  have hm : failbit &&& ((state ||| failbit) &&& mask) = mask &&& failbit := by
    rw [← BitVec.and_assoc, BitVec.and_comm failbit, BitVec.and_comm mask]
    congr 1
    ext i hi
    simp only [BitVec.getElem_and, BitVec.getElem_or]
    cases state[i] <;> cases failbit[i] <;> rfl
  rw [← hm, he]
  exact BitVec.and_zero

/-- As many bytes as there are can be read. -/
theorem read_of_le {q : ByteQueue} {n : Nat} (h : n ≤ q.unread.length) :
    ByteStream.read q (n : Int) =
      .returned (q.unread.take n, { q with unread := q.unread.drop n }) := by
  have hn : ¬ (n : Int) < 0 := by omega
  change q.read n = _
  rw [read, if_neg hn, Int.toNat_natCast, if_pos h]

/-- Bytes in front are read. -/
theorem read_append {q : ByteQueue} {bs rest : List Byte} {n : Nat} (hn : bs.length = n)
    (h : q.unread = bs ++ rest) :
    ByteStream.read q (n : Int) = .returned (bs, { q with unread := rest }) := by
  rw [read_of_le (by rw [h, List.length_append]; omega), h, List.take_left' hn,
    List.drop_left' hn]

/-- A read of more than there is fails, and throws if the mask says so. -/
theorem read_past {q : ByteQueue} {n : Nat} (h : q.unread.length < n) :
    ByteStream.read q (n : Int) =
      if (q.state ||| failbit) &&& q.exceptmask ≠ 0 then
        .threw "CDataStream::read() : end of data" { q with state := q.state ||| failbit }
      else .returned (q.unread ++ List.replicate (n - q.unread.length) 0,
        { q with unread := [], state := q.state ||| failbit }) := by
  have hn : ¬ (n : Int) < 0 := by omega
  change q.read n = _
  rw [read, if_neg hn, Int.toNat_natCast, if_neg (by omega)]

/-- In the default mode a read of more than there is throws. -/
theorem read_short {q : ByteQueue} {n : Nat} (hq : q.Throws) (h : q.unread.length < n) :
    ByteStream.read q (n : Int) = .threw "CDataStream::read() : end of data"
      { q with state := q.state ||| failbit } := by
  rw [read_past h, if_pos (or_and_ne_zero hq)]

end ByteQueue

/-- A stream and the queue of its unread bytes. The buffer is short, or, under the lax
notion, addressable with a mask that throws. -/
structure Refines (lax : Prop) (s : CDataStream) (q : ByteQueue) : Prop where
  wellFormed : s.WellFormed
  unread : s.unread = q.unread
  state : s.state = q.state
  exceptmask : s.exceptmask = q.exceptmask
  addressable : s.vch.length < 2 ^ 31 ∨ lax ∧ s.vch.length < 2 ^ 32 ∧ s.Throws

/-- The queue of unread bytes of a stream. -/
def CDataStream.queue (s : CDataStream) : ByteQueue := ⟨s.unread, s.state, s.exceptmask⟩

/-- A stream refines the queue of its unread bytes. -/
theorem CDataStream.refines_queue {lax : Prop} {s : CDataStream} (hw : s.WellFormed)
    (ha : s.vch.length < 2 ^ 31 ∨ lax ∧ s.vch.length < 2 ^ 32 ∧ s.Throws) :
    Refines lax s s.queue :=
  ⟨hw, rfl, rfl, rfl, ha⟩

/-- What is unread is behind the position. -/
theorem Refines.length_unread {lax : Prop} {s : CDataStream} {q : ByteQueue} (h : Refines lax s q) :
    s.nReadPos.toNat + q.unread.length = s.vch.length := by
  have hl := s.length_unread
  have hw := h.wellFormed
  rw [h.unread, CDataStream.size] at hl
  rw [CDataStream.WellFormed] at hw
  omega

/-- A read inside of the buffer. -/
theorem Refines.read_inside {lax : Prop} {s : CDataStream} {q : ByteQueue}
    (h : Refines lax s q) {n : Nat} (hn : n ≤ q.unread.length) :
    Outcome.Rel lax (Refines lax) (SameValue (Refines lax)) (s.read n)
      (ByteStream.read q (n : Int)) := by
  have hl := h.length_unread
  have hlt : s.vch.length < 2 ^ 32 := h.addressable.elim (fun h => by omega) fun h => h.2.1
  rw [← h.unread] at hn hl
  obtain ⟨t, hread, ht⟩ := CDataStream.read_inside h.wellFormed (by omega) hn
  rw [hread, ByteQueue.read_of_le (h.unread ▸ hn), h.unread]
  refine .returned ⟨rfl, ⟨ht.wellFormed, ?_, ht.state.trans h.state,
    ht.exceptmask.trans h.exceptmask, ?_⟩⟩
  · rw [ht.unread, h.unread]
  · have hle := ht.length_le
    rcases h.addressable with ha | ⟨hlax, ha, hm⟩
    · exact Or.inl (hle.trans_lt ha)
    · refine Or.inr ⟨hlax, hle.trans_lt ha, ?_⟩
      rw [CDataStream.Throws, ht.exceptmask]
      exact hm

/-- A read past the end of the buffer. -/
theorem Refines.read_outside {lax : Prop} {s : CDataStream} {q : ByteQueue}
    (h : Refines lax s q) {n : Nat} (hlim : n < 2 ^ 31) (hn : q.unread.length < n) :
    Outcome.Rel lax (Refines lax) (SameValue (Refines lax)) (s.read n)
      (ByteStream.read q (n : Int)) := by
  have hl := h.length_unread
  have hthrows : s.Throws → q.Throws := fun ht => by
    rw [ByteQueue.Throws, ← h.exceptmask]
    exact ht
  by_cases hwrap : s.nReadPos.toNat + n < 2 ^ 32
  · let t : CDataStream := { s with state := s.state ||| failbit }
    have ht : Refines lax t { q with state := q.state ||| failbit } :=
      ⟨h.wellFormed, h.unread, congrArg (· ||| failbit) h.state, h.exceptmask, h.addressable⟩
    rw [CDataStream.read_past_end hwrap (by omega), CDataStream.setstate]
    by_cases hthrow : (q.state ||| failbit) &&& q.exceptmask ≠ 0
    · have hs : (s.state ||| failbit) &&& s.exceptmask ≠ 0 := by rwa [h.state, h.exceptmask]
      rw [ByteQueue.read_past hn, if_pos hthrow, if_pos hs]
      exact .threw ht
    · have hs : ¬ (s.state ||| failbit) &&& s.exceptmask ≠ 0 := by rwa [h.state, h.exceptmask]
      -- A mask that lets the failure pass only comes with a short buffer.
      have hshort : s.vch.length < 2 ^ 31 := by
        rcases h.addressable with ha | ⟨hlax, _, hm⟩
        · exact ha
        · exact absurd (ByteQueue.or_and_ne_zero (hthrows hm)) hthrow
      have hcopy : t.copyOut (intOf (t.vch.length - t.nReadPos.toNat)) = .returned q.unread := by
        have hsize : t.vch.length - t.nReadPos.toNat = q.unread.length := by
          change s.vch.length - s.nReadPos.toNat = _
          omega
        rw [hsize, intOf_of_lt (by omega), CDataStream.copyOut_of_le ht.length_unread.le, ht.unread,
          List.take_length]
      rw [ByteQueue.read_past hn, if_neg hthrow, if_neg hs, Outcome.returned_bind, hcopy]
      exact .returned ⟨rfl, ⟨Nat.zero_le _, rfl, ht.state, ht.exceptmask,
        Or.inl (Nat.two_pow_pos 31)⟩⟩
  · rcases h.addressable with ha | ⟨hlax, _, hm⟩
    · have hw := h.wellFormed
      rw [CDataStream.WellFormed] at hw
      omega
    · rw [ByteQueue.read_short (hthrows hm) hn,
        CDataStream.read_wrapped hlim h.wellFormed (by omega) (by omega)]
      exact .overranThrew hlax

/-- A stream reads like its queue of unread bytes. -/
theorem refines_read (lax : Prop) : ReadSimulation lax (Refines lax) := by
  intro s q n hlim h
  by_cases hneg : n < 0
  · change Outcome.Rel lax _ _ (s.read n) (q.read n)
    rw [CDataStream.read_of_neg hneg, ByteQueue.read, if_pos hneg]
    exact .aborted
  · obtain ⟨k, rfl⟩ := Int.eq_ofNat_of_zero_le (by omega : 0 ≤ n)
    by_cases hk : k ≤ q.unread.length
    · exact h.read_inside hk
    · exact h.read_outside (by omega) (by omega)

/-- A stream that holds what it held at first, followed by what was written since. -/
def Appends (s : CDataStream) (t : CDataStream) (q : ByteQueue) : Prop :=
  t = { s with vch := s.vch ++ q.unread }

/-- At first nothing has been appended. -/
theorem appends_init (s : CDataStream) : Appends s s (ByteQueue.init []) := by
  change s = { s with vch := s.vch ++ [] }
  rw [List.append_nil]

/-- Writing appends the same bytes, whatever the stream held before. -/
theorem appends_write (s : CDataStream) : WriteSimulation (Appends s) := by
  rintro t q bs n rfl
  change Outcome.Rel False _ _ (CDataStream.write _ bs n) (q.write bs n)
  unfold CDataStream.write ByteQueue.write
  split
  · exact .aborted
  · split
    · exact .overran
    · exact .returned (by simp [Appends])

end BananaApi.Server
