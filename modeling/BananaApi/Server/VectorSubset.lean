import BananaApi.Core.Replying
import BananaApi.Server.BufferRuns
import Mathlib.Data.List.InsertIdx

/-!
# The whole interface of `CDataStream`

Beside the operations of a stream, a `CDataStream` has those of a vector: elements are inserted,
read and replaced. All of them may be mixed. The elements are the unread bytes; a range that is
inserted at the front goes over bytes that were read when there is room, and every other range goes
to the end, wherever it was to be inserted.
-/

namespace BananaApi.Server

/-- The calls of the interface. Iterators are offsets from `begin()`, and a range is not one of the
stream itself. -/
inductive Command where
  | operation (op : Operation)
  | insert (it : Nat) (x : Byte)
  | insertCopies (it n : Nat) (x : Byte)
  | insertIterators (it : Nat) (range : List Byte)
  | insertPointers (it : Nat) (range : List Byte)
  | get (pos : Nat)
  | set (pos : Nat) (x : Byte)
  | shiftLeft (b : CDataStream)
  | clearState (n : BitVec 16)
  | str
  | empty
  | eof
  | fail
  | good
  | inAvail

/-- What a call returns. -/
inductive Answer where
  | reply (r : Reply)
  | byte (x : Byte)
  | string (bs : List Byte)
  | flag (b : Bool)
  | int (n : Int)
  deriving DecidableEq, Repr

namespace CDataStream

/-- A copy of the unread bytes. -/
def str (s : CDataStream) : List Byte := s.unread

/-- No byte is left unread. -/
def empty (s : CDataStream) : Bool := s.vch.length = s.nReadPos.toNat

/-- `insert(it, x)`, with the iterator it returns. -/
def insert (s : CDataStream) (it : Nat) (x : Byte) : Outcome CDataStream (Nat × CDataStream) :=
  if s.vch.length < s.nReadPos.toNat + it then .overran
  else .returned (it, { s with vch := s.vch.insertIdx (s.nReadPos.toNat + it) x })

/-- `insert(it, n, x)`. -/
def insertCopies (s : CDataStream) (it n : Nat) (x : Byte) : Outcome CDataStream CDataStream :=
  if s.vch.length < s.nReadPos.toNat + it then .overran
  else
    .returned { s with
      vch := s.vch.take (s.nReadPos.toNat + it) ++
        (List.replicate n x ++ s.vch.drop (s.nReadPos.toNat + it)) }

/-- `operator[]`. -/
def get (s : CDataStream) (pos : Nat) : Outcome CDataStream Byte :=
  match s.vch[pos + s.nReadPos.toNat]? with
  | some x => .returned x
  | none => .overran

/-- An assignment to the reference that `operator[]` returns. -/
def set (s : CDataStream) (pos : Nat) (x : Byte) : Outcome CDataStream CDataStream :=
  if pos + s.nReadPos.toNat < s.vch.length then
    .returned { s with vch := s.vch.set (pos + s.nReadPos.toNat) x }
  else .overran

/-- The size is 0, as for `empty`. -/
def eof (s : CDataStream) : Bool := s.size = 0

/-- An error has been recorded. -/
def fail (s : CDataStream) : Bool := s.state &&& (badbit ||| failbit) ≠ 0

/-- A byte is left unread, and the state is clear. -/
def good (s : CDataStream) : Bool := !s.eof && s.state = 0

/-- `clear(n)`, which has nothing to do with `clear()`. -/
def clearState (s : CDataStream) (n : BitVec 16) : CDataStream := { s with state := n }

/-- The number of unread bytes as an `int`. -/
def inAvail (s : CDataStream) : Int := intOf s.size

/-- Make a call. -/
def invoke (s : CDataStream) : Command → Outcome CDataStream (Answer × CDataStream)
  | .operation op => s.perform op >>= fun r => .returned (.reply r.1, r.2)
  | .insert it x => s.insert it x >>= fun r => .returned (.reply (.iterator r.1), r.2)
  | .insertCopies it n x => s.insertCopies it n x >>= fun s => .returned (.reply .done, s)
  | .insertIterators it range => .returned (.reply .done, s.insertIterators it range)
  | .insertPointers it range => .returned (.reply .done, s.insertPointers it range)
  | .get pos => s.get pos >>= fun x => .returned (.byte x, s)
  | .set pos x => s.set pos x >>= fun s => .returned (.reply .done, s)
  | .shiftLeft b => s.shiftLeft b >>= fun s => .returned (.reply .done, s)
  | .clearState n => .returned (.reply .done, s.clearState n)
  | .str => .returned (.string s.str, s)
  | .empty => .returned (.flag s.empty, s)
  | .eof => .returned (.flag s.eof, s)
  | .fail => .returned (.flag s.fail, s)
  | .good => .returned (.flag s.good, s)
  | .inAvail => .returned (.int s.inAvail, s)

/-- The answer to a call and the stream it leaves behind, also by an exception. -/
def obey (c : Command) (s : CDataStream) : Option (Answer × CDataStream) :=
  match s.invoke c with
  | .returned r => some r
  | .threw what s => some (.reply (.threw what), s)
  | _ => none

/-- The arguments are ones the caller may pass, on a buffer of at most `2 ^ 31` bytes. -/
def Accepts (s : CDataStream) (c : Command) : Prop :=
  s.vch.length ≤ 2 ^ 31 ∧
  match c with
  | .operation op => s.Admits op
  | .insert it _ | .insertCopies it _ _ | .insertIterators it _ | .insertPointers it _ =>
    it ≤ s.size
  | .get pos | .set pos _ => pos < s.size
  | .shiftLeft b => b.vch.length < 2 ^ 31
  | _ => True

end CDataStream

namespace ByteBuffer

/-- A range in front of the unread bytes goes over bytes that could be put back, if there are
enough of them; any other range goes to the end. -/
def insertRange (q : ByteBuffer) (it : Nat) (range : List Byte) : ByteBuffer :=
  if it = 0 ∧ range.length ≤ q.kept then
    { q.putBack range.length with unread := range ++ q.unread }
  else { q with unread := q.unread ++ range }

/-- What a call does. -/
def obey (c : Command) (q : ByteBuffer) : Answer × ByteBuffer :=
  match c with
  | .operation op => (.reply (q.perform op).1, (q.perform op).2)
  | .insert it x => (.reply (.iterator it), { q with unread := q.unread.insertIdx it x })
  | .insertCopies it n x =>
    (.reply .done,
      { q with unread := q.unread.take it ++ (List.replicate n x ++ q.unread.drop it) })
  | .insertIterators it range | .insertPointers it range =>
    (.reply .done, q.insertRange it range)
  | .get pos => (.byte (q.unread.getD pos 0), q)
  | .set pos x => (.reply .done, { q with unread := q.unread.set pos x })
  | .shiftLeft b => (.reply .done, { q with unread := q.unread ++ b.vch })
  | .clearState n => (.reply .done, { q with state := n })
  | .str => (.string q.unread, q)
  | .empty | .eof => (.flag (q.unread = []), q)
  | .fail => (.flag (q.state &&& (badbit ||| failbit) ≠ 0), q)
  | .good => (.flag (q.unread ≠ [] ∧ q.state = 0), q)
  | .inAvail => (.int (intOf q.unread.length), q)

end ByteBuffer

/-- `<<` of a short stream appends its whole vector. -/
theorem CDataStream.shiftLeft_short (a : CDataStream) {b : CDataStream}
    (hb : b.vch.length < 2 ^ 31) : a.shiftLeft b = .returned { a with vch := a.vch ++ b.vch } := by
  rw [shiftLeft, serialize]
  by_cases hempty : b.vch = []
  · rw [if_pos hempty, hempty, List.append_nil]
  · rw [if_neg hempty, intOf_of_lt hb]
    change a.write b.vch b.vch.length = _
    rw [write, if_neg (by omega), Int.toNat_natCast, if_neg (lt_irrefl _), List.take_length]

namespace Buffers

variable {s : CDataStream} {q : ByteBuffer}

/-- A call that returns what the buffer replies is obeyed alike. -/
theorem obey_returned {c : Command} {a : Answer} {t : CDataStream} {q' : ByteBuffer}
    (h : s.invoke c = .returned (a, t)) (ht : Buffers t q') :
    ∃ t, s.obey c = some (a, t) ∧ Buffers t q' :=
  ⟨t, by rw [CDataStream.obey, h], ht⟩

/-- Stream operations are obeyed as in runs of their own. -/
theorem obey_operation (s : CDataStream) (op : Operation) :
    s.obey (.operation op) = (s.call op).map fun r => (.reply r.1, r.2) := by
  rw [CDataStream.obey, CDataStream.invoke, CDataStream.call]
  cases s.perform op <;> rfl

variable (h : Buffers s q)

include h

/-- One element is inserted at its place among the unread bytes. -/
theorem obey_insert {it : Nat} (hit : it ≤ s.size) (x : Byte) :
    ∃ t, s.obey (.insert it x) = some ((q.obey (.insert it x)).1, t) ∧
      Buffers t (q.obey (.insert it x)).2 := by
  have hin : ¬ s.vch.length < s.nReadPos.toNat + it := by
    rw [h.length]
    rw [h.size] at hit
    omega
  have hvch : s.vch.insertIdx (s.nReadPos.toNat + it) x =
      q.retained ++ q.unread.insertIdx it x := by
    rw [h.vch, h.nReadPos, ← q.length_retained]
    exact List.modifyTailIdx_add _ _ _ _
  refine obey_returned ?_ (h.replace hvch)
  rw [CDataStream.invoke, CDataStream.insert, if_neg hin]
  rfl

/-- Copies are inserted at their place among the unread bytes. -/
theorem obey_insertCopies {it : Nat} (hit : it ≤ s.size) (n : Nat) (x : Byte) :
    ∃ t, s.obey (.insertCopies it n x) = some ((q.obey (.insertCopies it n x)).1, t) ∧
      Buffers t (q.obey (.insertCopies it n x)).2 := by
  have hin : ¬ s.vch.length < s.nReadPos.toNat + it := by
    rw [h.length]
    rw [h.size] at hit
    omega
  have hvch : s.vch.take (s.nReadPos.toNat + it) ++
      (List.replicate n x ++ s.vch.drop (s.nReadPos.toNat + it)) =
        q.retained ++ (q.unread.take it ++ (List.replicate n x ++ q.unread.drop it)) := by
    rw [h.vch, h.nReadPos, ← q.length_retained, List.take_length_add_append,
      List.drop_length_add_append, List.append_assoc]
  refine obey_returned ?_ (h.replace hvch)
  rw [CDataStream.invoke, CDataStream.insertCopies, if_neg hin]
  rfl

/-- A range goes over bytes that were read, or to the end. -/
theorem insertRange (it : Nat) (range : List Byte) :
    Buffers (s.insertRange it range) (q.insertRange it range) := by
  by_cases hfront : it = 0 ∧ range.length ≤ q.kept
  · have hlt : range.length < 2 ^ 32 := by
      have hpos := s.nReadPos.isLt
      rw [h.nReadPos] at hpos
      omega
    have hpos : (s.nReadPos - BitVec.ofNat 32 range.length).toNat = q.kept - range.length := by
      rw [BitVec.toNat_sub_of_le, BitVec.toNat_ofNat, Nat.mod_eq_of_lt hlt, h.nReadPos]
      rw [BitVec.le_def, BitVec.toNat_ofNat, Nat.mod_eq_of_lt hlt, h.nReadPos]
      exact hfront.2
    have hsplit := (ByteBuffer.retained_putBack hfront.2).symm
    have hback : (q.putBack range.length).retained.length = q.kept - range.length :=
      (q.putBack range.length).length_retained
    have hdrop : (q.putBack range.length).unread.drop range.length = q.unread := by
      have hkept := q.kept_le
      refine List.drop_left' ?_
      rw [List.length_drop]
      omega
    rw [CDataStream.insertRange, ByteBuffer.insertRange, if_pos hfront,
      if_pos ⟨hfront.1, h.nReadPos ▸ hfront.2⟩]
    refine ⟨hpos, ?_, h.state, h.exceptmask⟩
    change overwrite s.vch _ range = (q.putBack range.length).retained ++ (range ++ q.unread)
    rw [h.vch, hsplit, hpos, ← hback, overwrite, List.take_left, List.drop_length_add_append, hdrop,
      List.append_assoc]
  · rw [CDataStream.insertRange, ByteBuffer.insertRange, if_neg hfront,
      if_neg (h.nReadPos ▸ hfront)]
    exact h.replace (by rw [h.vch, List.append_assoc])

/-- An assignment changes one unread byte. -/
theorem obey_set {pos : Nat} (hpos : pos < s.size) (x : Byte) :
    ∃ t, s.obey (.set pos x) = some ((q.obey (.set pos x)).1, t) ∧
      Buffers t (q.obey (.set pos x)).2 := by
  have hin : pos + s.nReadPos.toNat < s.vch.length := by
    rw [h.length]
    rw [h.size] at hpos
    omega
  have hvch : s.vch.set (pos + s.nReadPos.toNat) x = q.retained ++ q.unread.set pos x := by
    rw [h.vch, h.nReadPos, ← q.length_retained, List.set_append_right _ _ (Nat.le_add_left _ _),
      Nat.add_sub_cancel]
  refine obey_returned ?_ (h.replace hvch)
  rw [CDataStream.invoke, CDataStream.set, if_pos hin]
  rfl

/-- A byte is found at its place among the unread ones. -/
theorem get {pos : Nat} (hpos : pos < s.size) : s.get pos = .returned (q.unread.getD pos 0) := by
  rw [h.size] at hpos
  have hat : s.vch[pos + s.nReadPos.toNat]? = some (q.unread.getD pos 0) := by
    rw [h.vch, h.nReadPos, ← q.length_retained, List.getElem?_append_right (Nat.le_add_left _ _),
      Nat.add_sub_cancel, List.getD_eq_getElem?_getD, List.getElem?_eq_getElem hpos]
    rfl
  rw [CDataStream.get, hat]

/-! ## What a stream shows -/

theorem eof : s.eof = decide (q.unread = []) := by
  rw [CDataStream.eof, h.size]
  exact decide_eq_decide.mpr List.length_eq_zero_iff

theorem empty : s.empty = decide (q.unread = []) := by
  rw [CDataStream.empty, h.length]
  refine decide_eq_decide.mpr ?_
  rw [← List.length_eq_zero_iff]
  omega

theorem fail : s.fail = decide (q.state &&& (badbit ||| failbit) ≠ 0) := by
  rw [CDataStream.fail, h.state]

theorem good : s.good = decide (q.unread ≠ [] ∧ q.state = 0) := by
  rw [CDataStream.good, h.eof, h.state, ← decide_not, ← Bool.decide_and]

theorem inAvail : s.inAvail = intOf q.unread.length := by
  rw [CDataStream.inAvail, h.size]

/-- Every call that is accepted gets the answer of the model. -/
theorem obey {c : Command} (hc : s.Accepts c) :
    ∃ t, s.obey c = some ((q.obey c).1, t) ∧ Buffers t (q.obey c).2 := by
  obtain ⟨hlen, hc⟩ := hc
  cases c with
  | operation op =>
    obtain ⟨t, hcall, ht⟩ := h.call hlen hc
    exact ⟨t, by rw [obey_operation, hcall]; rfl, ht⟩
  | insert it x => exact h.obey_insert hc x
  | insertCopies it n x => exact h.obey_insertCopies hc n x
  | insertIterators it range | insertPointers it range =>
    exact obey_returned rfl (h.insertRange it range)
  | get pos =>
    refine obey_returned ?_ h
    rw [CDataStream.invoke, h.get hc]
    rfl
  | set pos x => exact h.obey_set hc x
  | shiftLeft b =>
    have hvch : s.vch ++ b.vch = q.retained ++ (q.unread ++ b.vch) := by
      rw [h.vch, List.append_assoc]
    refine obey_returned ?_ (h.replace hvch)
    rw [CDataStream.invoke, CDataStream.shiftLeft_short s hc]
    rfl
  | clearState n => exact obey_returned rfl (h.setState n)
  | str => exact obey_returned (by rw [CDataStream.invoke, CDataStream.str, h.unread]; rfl) h
  | empty => exact obey_returned (by rw [CDataStream.invoke, h.empty]; rfl) h
  | eof => exact obey_returned (by rw [CDataStream.invoke, h.eof]; rfl) h
  | fail => exact obey_returned (by rw [CDataStream.invoke, h.fail]; rfl) h
  | good => exact obey_returned (by rw [CDataStream.invoke, h.good]; rfl) h
  | inAvail => exact obey_returned (by rw [CDataStream.invoke, h.inAvail]; rfl) h

end Buffers

/-- However calls of the whole interface are mixed, from every constructor: the answers and the
bytes are those of the model, in which reading takes bytes off the front, the vector operations
change the unread bytes like a list, and a range that is inserted at the front goes over bytes that
were read, or else to the end. -/
theorem CDataStream.respond_refines (bytes : List Byte) {commands : List Command}
    (h : Admitted obey Accepts commands (init bytes)) :
    ∃ s, respond obey commands (init bytes) =
        some ((respondAll ByteBuffer.obey commands (ByteBuffer.init bytes)).1, s) ∧
      s.nReadPos.toNat ≤ s.vch.length ∧
      s.unread = (respondAll ByteBuffer.obey commands (ByteBuffer.init bytes)).2.unread ∧
      s.vch.take s.nReadPos.toNat =
        (respondAll ByteBuffer.obey commands (ByteBuffer.init bytes)).2.retained ∧
      s.state = (respondAll ByteBuffer.obey commands (ByteBuffer.init bytes)).2.state := by
  have hreplies : Replies obey ByteBuffer.obey Accepts Buffers := fun _ _ _ hc hs => hs.obey hc
  obtain ⟨s, hrun, hs⟩ := hreplies.respond h (Buffers.init bytes)
  exact ⟨s, hrun, hs.wellFormed, hs.unread, hs.retained, hs.state⟩

/-- Two bytes are read, a range of one goes over the second of them, and an element is inserted
behind it. -/
theorem CDataStream.respond_refines_insert : ∃ s,
    respond obey [.operation (.read 2), .insertIterators 0 [9], .insert 1 7, .str]
        (init [1, 2, 3]) =
      some ([.reply (.bytes [1, 2]), .reply .done, .reply (.iterator 1), .string [9, 7, 3]], s) ∧
    s.unread = [9, 7, 3] := by
  have hread : (init [1, 2, 3]).obey (.operation (.read 2)) =
      some (.reply (.bytes [1, 2]), ⟨[1, 2, 3], 2, 0, badbit ||| failbit⟩) := by decide
  have hrange : (⟨[1, 2, 3], 2, 0, badbit ||| failbit⟩ : CDataStream).obey
      (.insertIterators 0 [9]) = some (.reply .done, ⟨[1, 9, 3], 1, 0, badbit ||| failbit⟩) := by
    decide
  have hinsert : (⟨[1, 9, 3], 1, 0, badbit ||| failbit⟩ : CDataStream).obey (.insert 1 7) =
      some (.reply (.iterator 1), ⟨[1, 9, 7, 3], 1, 0, badbit ||| failbit⟩) := by decide
  have hstr : (⟨[1, 9, 7, 3], 1, 0, badbit ||| failbit⟩ : CDataStream).obey .str =
      some (.string [9, 7, 3], ⟨[1, 9, 7, 3], 1, 0, badbit ||| failbit⟩) := by decide
  have hadmitted : Admitted obey Accepts
      [.operation (.read 2), .insertIterators 0 [9], .insert 1 7, .str] (init [1, 2, 3]) :=
    admitted_cons ⟨by decide, by decide, by decide⟩ hread <|
      admitted_cons ⟨by decide, by decide⟩ hrange <| admitted_cons ⟨by decide, by decide⟩ hinsert <|
        admitted_cons ⟨by decide, trivial⟩ hstr trivial
  obtain ⟨s, hrun, -, hunread, -⟩ := respond_refines [1, 2, 3] hadmitted
  exact ⟨s, hrun, hunread⟩

end BananaApi.Server
