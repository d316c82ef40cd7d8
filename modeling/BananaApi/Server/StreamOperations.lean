import BananaApi.Server.DataStream

/-!
# The other operations of `CDataStream`

The vector subset of the stream and the rest of its stream subset. An iterator is
its offset from `begin()`. Erasing at the front moves the position and clears the
buffer when it reaches the end, and `Rewind` moves the position back over bytes that
are still there.
-/

namespace BananaApi.Server.CDataStream

/-- `a += b`: the bytes from `b.begin()` to `b.end()` are pushed onto `a`. -/
def addAssign (a b : CDataStream) : CDataStream := { a with vch := a.vch ++ b.unread }

/-- `a + b`. -/
def add (a b : CDataStream) : CDataStream :=
  let ret := a
  ret.addAssign b

/-- `resize`, whose sum is a `size_type`. -/
def resize (s : CDataStream) (n : Nat) (c : Byte) : CDataStream :=
  { s with vch := BananaApi.resize s.vch ((n + s.nReadPos.toNat) % 2 ^ 64) c }

/-- The common text of the two range forms of `insert`. -/
def insertRange (s : CDataStream) (it : Nat) (range : List Byte) : CDataStream :=
  if it = 0 ∧ range.length ≤ s.nReadPos.toNat then
    -- The range goes over bytes that were read already.
    let nReadPos := s.nReadPos - BitVec.ofNat 32 range.length
    { s with vch := overwrite s.vch nReadPos.toNat range, nReadPos := nReadPos }
  else { s with vch := s.vch ++ range }

/-- `insert(it, first, last)` for a range between iterators. -/
def insertIterators (s : CDataStream) (it : Nat) (range : List Byte) : CDataStream :=
  s.insertRange it range

/-- `insert(it, first, last)` for a range between pointers. -/
def insertPointers (s : CDataStream) (it : Nat) (range : List Byte) : CDataStream :=
  s.insertRange it range

/-- `erase(it)`, with the iterator it returns. -/
def erase (s : CDataStream) (it : Nat) : Outcome CDataStream (Nat × CDataStream) :=
  if it = 0 then
    let nReadPos := s.nReadPos + 1
    if s.vch.length ≤ nReadPos.toNat then .returned (0, s.clear)
    else .returned (0, { s with nReadPos := nReadPos })
  -- `vch.erase(it)` needs an element at `it`.
  else if s.vch.length ≤ s.nReadPos.toNat + it then .overran
  else .returned (it, { s with vch := s.vch.eraseIdx (s.nReadPos.toNat + it) })

/-- `erase(first, last)`, with the iterator it returns. -/
def eraseRange (s : CDataStream) (first last : Nat) : Outcome CDataStream (Nat × CDataStream) :=
  if first = 0 then
    if s.nReadPos.toNat + last = s.vch.length then .returned (0, s.clear)
    else .returned (0, { s with nReadPos := BitVec.ofNat 32 (s.nReadPos.toNat + last) })
  else if last < first ∨ s.vch.length < s.nReadPos.toNat + last then .overran
  else
    .returned (first, { s with
      vch := s.vch.take (s.nReadPos.toNat + first) ++ s.vch.drop (s.nReadPos.toNat + last) })

/-- Drops the bytes that were read. -/
def compact (s : CDataStream) : CDataStream :=
  { s with vch := s.vch.drop s.nReadPos.toNat, nReadPos := 0 }

/-- Moves the position back, if as many bytes are in front of it. -/
def rewind (s : CDataStream) (n : Nat) : Bool × CDataStream :=
  if s.nReadPos.toNat < n then (false, s)
  else (true, { s with nReadPos := s.nReadPos - BitVec.ofNat 32 n })

/-- `exceptions(mask)`, with the mask it replaces. -/
def exceptions (s : CDataStream) (mask : BitVec 16) :
    Outcome CDataStream (BitVec 16 × CDataStream) := do
  let prev := s.exceptmask
  let s ← { s with exceptmask := mask }.setstate 0 "CDataStream"
  .returned (prev, s)

/-- Skips bytes. At the end of the buffer all of it is dropped, and behind the end the call fails.
-/
def ignore (s : CDataStream) (nSize : Int) : Outcome CDataStream CDataStream :=
  if nSize < 0 then .aborted
  else
    let nReadPosNext := s.nReadPos + BitVec.ofInt 32 nSize
    if s.vch.length ≤ nReadPosNext.toNat then
      if s.vch.length < nReadPosNext.toNat then do
        let s ← s.setstate failbit "CDataStream::ignore() : end of data"
        .returned s.clear
      else .returned s.clear
    else .returned { s with nReadPos := nReadPosNext }

/-- `Serialize` of a stream writes its whole buffer. -/
def serialize {σ : Type} [ByteStream σ] (obj : CDataStream) (os : σ) : Outcome σ σ :=
  if obj.vch = [] then .returned os
  else ByteStream.write os obj.vch (intOf obj.vch.length)

/-- `a << b` reaches the member `Serialize` of `b`. -/
def shiftLeft (a b : CDataStream) : Outcome CDataStream CDataStream := b.serialize a

end BananaApi.Server.CDataStream
