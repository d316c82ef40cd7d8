import BananaApi.Core.ByteStream

/-!
# `CDataStream`

The double ended buffer of `serialize.h`: a vector of bytes with a 32-bit read
position in front of the unread part. Reading to the end clears the buffer.
Reading past the end sets `failbit`, which throws unless the exception mask says
otherwise; then the missing bytes are zero. The buffer itself may be longer than
a 32-bit position can express, so the end test is modelled on the wrapped sum.
-/

namespace BananaApi.Server

/-- `std::ios::badbit`. -/
def badbit : BitVec 16 := 1

/-- `std::ios::failbit`. -/
def failbit : BitVec 16 := 4

/-- A buffer with a position in front of its unread part. -/
structure CDataStream where
  vch : List Byte
  nReadPos : BitVec 32
  state : BitVec 16
  exceptmask : BitVec 16
  deriving DecidableEq, Repr

namespace CDataStream

/-- A stream over the given bytes, as every constructor and `Init` leave it. -/
def init (vch : List Byte) : CDataStream := ⟨vch, 0, 0, badbit ||| failbit⟩

/-- The bytes between `begin()` and `end()`. -/
def unread (s : CDataStream) : List Byte := s.vch.drop s.nReadPos.toNat

/-- The number of unread bytes. -/
def size (s : CDataStream) : Nat := s.vch.length - s.nReadPos.toNat

/-- Sets bits of the state, and throws if one of the bits set is in the mask. -/
def setstate (s : CDataStream) (bits : BitVec 16) (psz : String) :
    Outcome CDataStream CDataStream :=
  let s := { s with state := s.state ||| bits }
  if s.state &&& s.exceptmask ≠ 0 then .threw psz s else .returned s

/-- `memcpy(pch, &vch[nReadPos], nSize)`: a negative size is a huge `size_t`. -/
def copyOut (s : CDataStream) (nSize : Int) : Outcome CDataStream (List Byte) :=
  if nSize < 0 ∨ (s.vch.length : Int) < s.nReadPos.toNat + nSize then .overran
  else .returned ((s.vch.drop s.nReadPos.toNat).take nSize.toNat)

/-- `clear()`, which drops all bytes, those that were read as well. -/
def clear (s : CDataStream) : CDataStream := { s with vch := [], nReadPos := 0 }

/-- `read(pch, nSize)`; the result is what `pch` holds afterwards. -/
def read (s : CDataStream) (nSize : Int) : Outcome CDataStream (List Byte × CDataStream) :=
  if nSize < 0 then .aborted
  else
    let nReadPosNext := s.nReadPos + BitVec.ofInt 32 nSize
    if s.vch.length ≤ nReadPosNext.toNat then
      if s.vch.length < nReadPosNext.toNat then do
        let s ← s.setstate failbit "CDataStream::read() : end of data"
        -- The buffer was zeroed for the full size before the rest is copied.
        let left ← s.copyOut (intOf (s.vch.length - s.nReadPos.toNat))
        .returned (left ++ List.replicate (nSize.toNat - left.length) 0, s.clear)
      else do
        let bytes ← s.copyOut nSize
        .returned (bytes, s.clear)
    else do
      let bytes ← s.copyOut nSize
      .returned (bytes, { s with nReadPos := nReadPosNext })

/-- `write(pch, nSize)` pushes the first `nSize` bytes of the buffer. -/
def write (s : CDataStream) (pch : List Byte) (nSize : Int) : Outcome CDataStream CDataStream :=
  if nSize < 0 then .aborted
  else if pch.length < nSize.toNat then .overran
  else .returned { s with vch := s.vch ++ pch.take nSize.toNat }

instance : ByteStream CDataStream where
  read := read
  write := write

/-- The position is within the buffer. -/
def WellFormed (s : CDataStream) : Prop := s.nReadPos.toNat ≤ s.vch.length

/-- Running past the end throws. -/
def Throws (s : CDataStream) : Prop := s.exceptmask &&& failbit ≠ 0

/-- A new stream has its position in the buffer. -/
theorem wellFormed_init (vch : List Byte) : (init vch).WellFormed := Nat.zero_le _

/-- A new stream throws on errors. -/
theorem throws_init (vch : List Byte) : (init vch).Throws := by
  change (badbit ||| failbit) &&& failbit ≠ 0
  decide

/-- The size is the number of unread bytes. -/
theorem length_unread (s : CDataStream) : s.unread.length = s.size := List.length_drop

/-- Inside of the buffer a copy delivers the next unread bytes. -/
theorem copyOut_of_le {s : CDataStream} {n : Nat} (h : s.nReadPos.toNat + n ≤ s.vch.length) :
    s.copyOut n = .returned (s.unread.take n) := by
  have hn : ¬ ((n : Int) < 0 ∨ (s.vch.length : Int) < s.nReadPos.toNat + n) := by omega
  rw [copyOut, if_neg hn, Int.toNat_natCast, unread]

/-- The next position is a sum modulo `2 ^ 32`. -/
theorem toNat_nReadPosNext (s : CDataStream) (n : Nat) :
    (s.nReadPos + BitVec.ofInt 32 (n : Int)).toNat = (s.nReadPos.toNat + n) % 2 ^ 32 := by
  rw [BitVec.toNat_add, BitVec.ofInt_natCast, BitVec.toNat_ofNat]
  omega

/-- A negative size fails the assertion. -/
theorem read_of_neg {s : CDataStream} {n : Int} (h : n < 0) : s.read n = .aborted := if_pos h

/-- A read in front of the end moves the position. -/
theorem read_before_end {s : CDataStream} {n : Nat} (hw : s.nReadPos.toNat + n < 2 ^ 32)
    (h : s.nReadPos.toNat + n < s.vch.length) :
    s.read n = .returned (s.unread.take n,
      { s with nReadPos := s.nReadPos + BitVec.ofInt 32 n }) := by
  have hpos := (s.toNat_nReadPosNext n).trans (Nat.mod_eq_of_lt hw)
  have hn : ¬ (n : Int) < 0 := by omega
  have hend : ¬ s.vch.length ≤ s.nReadPos.toNat + n := by omega
  simp only [read, hn, hpos, hend, if_false, copyOut_of_le h.le, Outcome.returned_bind]

/-- A read that takes everything clears the buffer. -/
theorem read_to_end {s : CDataStream} {n : Nat} (hw : s.nReadPos.toNat + n < 2 ^ 32)
    (h : s.nReadPos.toNat + n = s.vch.length) :
    s.read n = .returned (s.unread.take n, s.clear) := by
  have hpos := (s.toNat_nReadPosNext n).trans (Nat.mod_eq_of_lt hw)
  have hn : ¬ (n : Int) < 0 := by omega
  simp only [read, hn, hpos, h, le_refl, lt_irrefl, if_false, if_true, copyOut_of_le h.le,
    Outcome.returned_bind]

/-- What is left of a stream behind its next `n` unread bytes. -/
structure Advanced (s : CDataStream) (n : Nat) (t : CDataStream) : Prop where
  unread : t.unread = s.unread.drop n
  wellFormed : t.WellFormed
  position : t.nReadPos.toNat ≤ s.nReadPos.toNat + n
  length_le : t.vch.length ≤ s.vch.length
  state : t.state = s.state
  exceptmask : t.exceptmask = s.exceptmask

/-- In front of the end the position moves on. -/
theorem advanced_before_end {s : CDataStream} {n : Nat} (hw : s.nReadPos.toNat + n < 2 ^ 32)
    (h : s.nReadPos.toNat + n < s.vch.length) :
    s.Advanced n { s with nReadPos := s.nReadPos + BitVec.ofInt 32 n } := by
  have hpos := (s.toNat_nReadPosNext n).trans (Nat.mod_eq_of_lt hw)
  refine ⟨?_, hpos.trans_le h.le, hpos.le, le_rfl, rfl, rfl⟩
  change s.vch.drop (s.nReadPos + BitVec.ofInt 32 (n : Int)).toNat = s.unread.drop n
  rw [hpos, unread, List.drop_drop]

/-- At the end the buffer is cleared. -/
theorem advanced_to_end {s : CDataStream} {n : Nat}
    (h : s.nReadPos.toNat + n = s.vch.length) : s.Advanced n s.clear := by
  refine ⟨?_, Nat.zero_le _, Nat.zero_le _, Nat.zero_le _, rfl, rfl⟩
  rw [unread, unread, List.drop_drop, h, List.drop_length]
  rfl

/-- Up to the end of the data a read delivers the next unread bytes. -/
theorem read_inside {s : CDataStream} {n : Nat} (hs : s.WellFormed)
    (hw : s.nReadPos.toNat + n < 2 ^ 32) (h : n ≤ s.unread.length) :
    ∃ t, s.read n = .returned (s.unread.take n, t) ∧ s.Advanced n t := by
  have hlen := s.length_unread
  rw [WellFormed] at hs
  rw [size] at hlen
  rcases Nat.lt_or_ge (s.nReadPos.toNat + n) s.vch.length with hlt | hge
  · exact ⟨_, read_before_end hw hlt, advanced_before_end hw hlt⟩
  · have hend : s.nReadPos.toNat + n = s.vch.length := by omega
    exact ⟨_, read_to_end hw hend, advanced_to_end hend⟩

/-- A read past the end sets `failbit`; if that does not throw, zeros stand for what is missing. -/
theorem read_past_end {s : CDataStream} {n : Nat} (hw : s.nReadPos.toNat + n < 2 ^ 32)
    (h : s.vch.length < s.nReadPos.toNat + n) :
    s.read n = (s.setstate failbit "CDataStream::read() : end of data" >>= fun t =>
      t.copyOut (intOf (t.vch.length - t.nReadPos.toNat)) >>= fun left =>
        .returned (left ++ List.replicate (n - left.length) 0, t.clear)) := by
  have hpos := (s.toNat_nReadPosNext n).trans (Nat.mod_eq_of_lt hw)
  have hn : ¬ (n : Int) < 0 := by omega
  simp only [read, hn, hpos, h, h.le, if_false, if_true, Int.toNat_natCast]

/-- A wrapped sum passes the end test, and the copy runs past the end of the buffer. -/
theorem read_wrapped {s : CDataStream} {n : Nat} (hn : n < 2 ^ 31) (hs : s.WellFormed)
    (hw : 2 ^ 32 ≤ s.nReadPos.toNat + n) (h : s.vch.length < s.nReadPos.toNat + n) :
    s.read n = .overran := by
  have hb := s.nReadPos.isLt
  have hpos : (s.nReadPos + BitVec.ofInt 32 (n : Int)).toNat = s.nReadPos.toNat + n - 2 ^ 32 := by
    rw [s.toNat_nReadPosNext]
    omega
  rw [WellFormed] at hs
  have hneg : ¬ (n : Int) < 0 := by omega
  have hend : ¬ s.vch.length ≤ s.nReadPos.toNat + n - 2 ^ 32 := by omega
  have hout : (s.vch.length : Int) < s.nReadPos.toNat + (n : Int) := by omega
  simp only [read, hneg, hpos, hend, copyOut, hout, or_true, if_false, if_true,
    Outcome.overran_bind]

end CDataStream

end BananaApi.Server
