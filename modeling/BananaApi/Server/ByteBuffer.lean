import BananaApi.Server.StreamOperations

/-!
# The buffer a `CDataStream` stands for

What the operations of a stream mean: a list of unread bytes, the bytes that were
taken off its front, and how many of these can still be put back. Every run of
operations over a buffer of up to `2 ^ 31` bytes gives the replies of this model.
-/

namespace BananaApi.Server

/-- A queue that remembers what was taken off it. -/
structure ByteBuffer where
  /-- The bytes taken off the front, the last one at the end. -/
  taken : List Byte
  /-- How many of them can be put back. -/
  kept : Nat
  unread : List Byte
  state : BitVec 16
  exceptmask : BitVec 16
  kept_le : kept ≤ taken.length

/-- The operations of a stream. Iterators are offsets from `begin()`. -/
inductive Operation where
  | write (pch : List Byte) (nSize : Int)
  | read (nSize : Int)
  | ignore (nSize : Int)
  | erase (it : Nat)
  | eraseRange (first last : Nat)
  | resize (n : Nat) (c : Byte)
  | compact
  | rewind (n : Nat)
  | clear
  | addAssign (b : CDataStream)
  | exceptions (mask : BitVec 16)

/-- What the caller of an operation gets to see. -/
inductive Reply where
  | done
  | bytes (pch : List Byte)
  | iterator (it : Nat)
  | moved (b : Bool)
  | mask (prev : BitVec 16)
  | threw (what : String)
  deriving DecidableEq, Repr

namespace CDataStream

/-- Call an operation. -/
def perform (s : CDataStream) : Operation → Outcome CDataStream (Reply × CDataStream)
  | .write pch nSize => s.write pch nSize >>= fun s => .returned (.done, s)
  | .read nSize => s.read nSize >>= fun r => .returned (.bytes r.1, r.2)
  | .ignore nSize => s.ignore nSize >>= fun s => .returned (.done, s)
  | .erase it => s.erase it >>= fun r => .returned (.iterator r.1, r.2)
  | .eraseRange first last => s.eraseRange first last >>= fun r => .returned (.iterator r.1, r.2)
  | .resize n c => .returned (.done, s.resize n c)
  | .compact => .returned (.done, s.compact)
  | .rewind n => .returned (.moved (s.rewind n).1, (s.rewind n).2)
  | .clear => .returned (.done, s.clear)
  | .addAssign b => .returned (.done, s.addAssign b)
  | .exceptions mask => s.exceptions mask >>= fun r => .returned (.mask r.1, r.2)

/-- The reply to an operation and the stream it leaves behind, also by an exception. There
is none after a failed assertion or an access outside of the buffer. -/
def call (s : CDataStream) (op : Operation) : Option (Reply × CDataStream) :=
  match s.perform op with
  | .returned r => some r
  | .threw what s => some (.threw what, s)
  | _ => none

/-- The replies to a number of operations. -/
def run (s : CDataStream) : List Operation → Option (List Reply × CDataStream)
  | [] => some ([], s)
  | op :: ops =>
    match s.call op with
    | none => none
    | some (reply, s) => (s.run ops).map fun r => (reply :: r.1, r.2)

/-- The arguments are ones the caller may pass. -/
def Admits (s : CDataStream) : Operation → Prop
  | .write pch nSize => 0 ≤ nSize ∧ nSize < 2 ^ 31 ∧ nSize ≤ pch.length
  | .read nSize => 0 ≤ nSize ∧ nSize < 2 ^ 31
  | .ignore nSize => 0 ≤ nSize ∧ nSize < 2 ^ 31
  | .erase it => it = 0 ∨ it < s.size
  | .eraseRange first last => first ≤ last ∧ last ≤ s.size
  | .resize n _ => n + s.nReadPos.toNat < 2 ^ 64
  | .addAssign b => b.WellFormed
  | _ => True

/-- Every operation is admitted where it is called, on a buffer of at most `2 ^ 31` bytes. -/
def Allowed (s : CDataStream) : List Operation → Prop
  | [] => s.vch.length ≤ 2 ^ 31
  | op :: ops =>
    s.vch.length ≤ 2 ^ 31 ∧ s.Admits op ∧ ∀ reply s', s.call op = some (reply, s') → s'.Allowed ops

end CDataStream

namespace ByteBuffer

/-- A buffer over the given bytes. -/
def init (unread : List Byte) : ByteBuffer := ⟨[], 0, unread, 0, badbit ||| failbit, le_rfl⟩

/-- The bytes that can be put back. -/
def retained (q : ByteBuffer) : List Byte := q.taken.drop (q.taken.length - q.kept)

/-- Take bytes off the front. Nothing can be put back once all are taken. -/
def take (q : ByteBuffer) (n : Nat) : ByteBuffer where
  taken := q.taken ++ q.unread.take n
  kept := if n < q.unread.length then q.kept + n else 0
  unread := q.unread.drop n
  state := q.state
  exceptmask := q.exceptmask
  kept_le := by
    have hkept := q.kept_le
    rw [List.length_append, List.length_take]
    split <;> omega

/-- Put back the last bytes that were taken. -/
def putBack (q : ByteBuffer) (n : Nat) : ByteBuffer where
  taken := q.taken.take (q.taken.length - n)
  kept := q.kept - n
  unread := q.taken.drop (q.taken.length - n) ++ q.unread
  state := q.state
  exceptmask := q.exceptmask
  kept_le := by
    have hkept := q.kept_le
    rw [List.length_take]
    omega

/-- Nothing can be put back any more. -/
def forget (q : ByteBuffer) : ByteBuffer := { q with kept := 0, kept_le := Nat.zero_le _ }

/-- Take bytes off the front, or fail if there are not enough: throw, or take all of them. -/
def takeOrFail (q : ByteBuffer) (n : Nat) (what : String) (reply : Reply) : Reply × ByteBuffer :=
  if n ≤ q.unread.length then (reply, q.take n)
  else
    let q := { q with state := q.state ||| failbit }
    if q.state &&& q.exceptmask ≠ 0 then (.threw what, q) else (reply, q.take n)

/-- What an operation does. -/
def perform (q : ByteBuffer) : Operation → Reply × ByteBuffer
  | .write pch nSize => (.done, { q with unread := q.unread ++ pch.take nSize.toNat })
  | .read nSize =>
    q.takeOrFail nSize.toNat "CDataStream::read() : end of data"
      (.bytes (q.unread.take nSize.toNat ++
        List.replicate (nSize.toNat - q.unread.length) 0))
  | .ignore nSize => q.takeOrFail nSize.toNat "CDataStream::ignore() : end of data" .done
  | .erase it =>
    (.iterator it, if it = 0 then q.take 1 else { q with unread := q.unread.eraseIdx it })
  | .eraseRange first last =>
    (.iterator first,
      if first = 0 then q.take last
      else { q with unread := q.unread.take first ++ q.unread.drop last })
  | .resize n c => (.done, { q with unread := resize q.unread n c })
  | .compact => (.done, q.forget)
  | .rewind n => if n ≤ q.kept then (.moved true, q.putBack n) else (.moved false, q)
  | .clear => (.done, { q.forget with unread := [] })
  | .addAssign b => (.done, { q with unread := q.unread ++ b.unread })
  | .exceptions mask =>
    (if q.state &&& mask ≠ 0 then .threw "CDataStream" else .mask q.exceptmask,
      { q with exceptmask := mask })

/-- A run of operations, with their replies. -/
def run (q : ByteBuffer) : List Operation → List Reply × ByteBuffer
  | [] => ([], q)
  | op :: ops =>
    let r := q.perform op
    let rs := r.2.run ops
    (r.1 :: rs.1, rs.2)

/-- As many bytes are retained as can be put back. -/
theorem length_retained (q : ByteBuffer) : q.retained.length = q.kept := by
  have hkept := q.kept_le
  rw [retained, List.length_drop]
  omega

@[simp] theorem unread_take (q : ByteBuffer) (n : Nat) : (q.take n).unread = q.unread.drop n := rfl

end ByteBuffer

end BananaApi.Server
