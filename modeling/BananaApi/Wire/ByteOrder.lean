import BananaApi.Client.BytesUtils
import BananaApi.Server.Encoding

/-!
# The byte order on the wire

The server writes and reads integers in the order of its host, which is
little-endian; the client writes and reads them big-endian. A sequence of integers
survives the way from one side to the other exactly when each of them is the same
in both orders.
-/

namespace BananaApi.Wire

open BananaApi.Server (CDataStream ByteQueue Refines Serializer)
open BananaApi.Client (Run)

/-- The widths both sides have functions for. -/
inductive IntegerWidth where
  | uint16 | uint64
  deriving DecidableEq, Repr

/-- The type of the server with the width. -/
def IntegerWidth.fundamental : IntegerWidth → Server.Fundamental
  | uint16 => .unsignedShort
  | uint64 => .uint64

/-- The number of bytes of an integer. -/
def IntegerWidth.size (w : IntegerWidth) : Nat := w.fundamental.size

theorem IntegerWidth.size_pos (w : IntegerWidth) : 0 < w.size := by
  cases w <;> decide

theorem IntegerWidth.size_lt (w : IntegerWidth) : w.size < 2 ^ 31 := by
  cases w <;> decide

/-- An integer of either width. -/
structure NetworkInteger where
  width : IntegerWidth
  value : Word width.size
  deriving DecidableEq

namespace NetworkInteger

/-- The integer with the bytes of `x` in the other order. -/
def reversed (x : NetworkInteger) : NetworkInteger :=
  ⟨x.width, ofLeBytes x.width.size (leBytes x.width.size x.value).reverse⟩

/-- The integer is the same in both orders. -/
def Symmetric (x : NetworkInteger) : Prop := (leBytes x.width.size x.value).Palindrome

/-- An integer is its own reverse exactly if its bytes are symmetric. -/
theorem reversed_eq_iff (x : NetworkInteger) : x.reversed = x ↔ x.Symmetric := by
  obtain ⟨w, value⟩ := x
  rw [Symmetric, ← ofLeBytes_reverse_eq_iff, reversed, NetworkInteger.mk.injEq, heq_eq_eq]
  exact and_iff_right rfl

/-- A symmetric integer has the same bytes in either order. -/
theorem beBytes_eq_of_symmetric {x : NetworkInteger} (h : x.Symmetric) :
    beBytes x.width.size x.value = leBytes x.width.size x.value := h.reverse_eq

end NetworkInteger

/-- The bytes of integers in the order of the server. -/
def littleEndianBytes (xs : List NetworkInteger) : List Byte :=
  xs.flatMap fun x => leBytes x.width.size x.value

/-- The bytes of integers in the order of the client. -/
def bigEndianBytes (xs : List NetworkInteger) : List Byte :=
  xs.flatMap fun x => beBytes x.width.size x.value

theorem littleEndianBytes_cons (x : NetworkInteger) (xs : List NetworkInteger) :
    littleEndianBytes (x :: xs) = leBytes x.width.size x.value ++ littleEndianBytes xs := rfl

theorem bigEndianBytes_cons (x : NetworkInteger) (xs : List NetworkInteger) :
    bigEndianBytes (x :: xs) = beBytes x.width.size x.value ++ bigEndianBytes xs := rfl

/-! ## The server -/

section Server

variable {σ : Type} [ByteStream σ]

/-- `Serialize` for one integer after another. -/
def serializeIntegers (s : σ) (xs : List NetworkInteger) : Outcome σ σ :=
  xs.foldlM (fun s x => Server.serializeInteger x.width.size s x.value) s

/-- `Unserialize` for one integer after another, into fresh variables. -/
def unserializeIntegers : List IntegerWidth → σ → Outcome σ (List NetworkInteger × σ)
  | [], s => .returned ([], s)
  | w :: ws, s => do
    let (value, s) ← (Server.unserializeInteger w.size s 0).mapThrow Prod.snd
    let (xs, s) ← unserializeIntegers ws s
    .returned (⟨w, value⟩ :: xs, s)

end Server

/-- The server appends the little-endian bytes of each integer. -/
theorem serializeIntegers_eq (vch : List Byte) (xs : List NetworkInteger) :
    serializeIntegers (CDataStream.init vch) xs =
      .returned (CDataStream.init (vch ++ littleEndianBytes xs)) := by
  induction xs generalizing vch with
  | nil => simp [serializeIntegers, littleEndianBytes]
  | cons x xs ih =>
    have hwrite : Server.serializeInteger x.width.size (CDataStream.init vch) x.value =
        .returned (CDataStream.init (vch ++ leBytes x.width.size x.value)) :=
      (Server.Ty.integer x.width.fundamental).serialize_stream (CDataStream.init vch) x.value
    rw [serializeIntegers, List.foldlM_cons, hwrite, Outcome.returned_bind, littleEndianBytes_cons,
      ← List.append_assoc]
    exact ih _

/-- The server reads each integer off its little-endian bytes. -/
theorem unserializeIntegers_queue (xs : List NetworkInteger) {q : ByteQueue} {rest : List Byte}
    (h : q.unread = littleEndianBytes xs ++ rest) :
    unserializeIntegers (xs.map NetworkInteger.width) q =
      .returned (xs, { q with unread := rest }) := by
  induction xs generalizing q with
  | nil =>
    have hrest : q.unread = rest := h
    rw [← hrest]
    rfl
  | cons x xs ih =>
    rw [littleEndianBytes_cons, List.append_assoc] at h
    have hread := Server.readData_append x.width.size_lt h
    have hrest := ih (q := { q with
      unread := littleEndianBytes xs ++ rest }) rfl
    rw [List.map_cons, unserializeIntegers, Server.unserializeInteger, hread]
    simp only [Outcome.mapThrow_returned, Outcome.returned_bind, hrest]

/-- Integers are read alike from a stream and from its queue. -/
theorem unserializeIntegers_rel (ws : List IntegerWidth) {s : CDataStream} {q : ByteQueue}
    (h : Refines False s q) :
    Outcome.Rel False (Refines False) (SameValue (Refines False)) (unserializeIntegers ws s)
      (unserializeIntegers ws q) := by
  induction ws generalizing s q with
  | nil => exact .returned (sameValue [] h)
  | cons w ws ih =>
    have hread := Server.unserializeInteger_rel (Server.refines_read False) w.size s q 0 h
    apply (hread.mapThrow fun _ _ h => h.2).bindValue
    intro value s q h
    apply (ih h).bindValue
    intro xs s q h
    exact .returned (sameValue (⟨w, value⟩ :: xs) h)

/-! ## The client -/

section Client

variable (isLittleEndian : Bool)

/-- `ReadUInt16` or `ReadUInt64`. -/
def readInteger : (w : IntegerWidth) → Run (List Byte) (Word w.size)
  | .uint16 => Client.BytesUtils.readUInt16 isLittleEndian
  | .uint64 => Client.BytesUtils.readUInt64 isLittleEndian

/-- One integer after another off a stream. -/
def readIntegers : List IntegerWidth → Run (List Byte) (List NetworkInteger)
  | [] => pure []
  | w :: ws => do
    let value ← readInteger isLittleEndian w
    let xs ← readIntegers ws
    pure (⟨w, value⟩ :: xs)

/-- `WritePrimitiveBytes` for a `ushort` or a `ulong`. -/
def writeInteger (offset : Nat) : NetworkInteger → Run (List Byte) Nat
  | ⟨.uint16, value⟩ => Client.BytesUtils.writeUInt16 isLittleEndian offset value
  | ⟨.uint64, value⟩ => Client.BytesUtils.writeUInt64 isLittleEndian offset value

/-- One integer after another into a buffer. -/
def writeIntegers (offset : Nat) : List NetworkInteger → Run (List Byte) Nat
  | [] => pure offset
  | x :: xs => do
    let offset ← writeInteger isLittleEndian offset x
    writeIntegers offset xs

/-- The reads of the client differ in the number of bytes only. -/
theorem readInteger_eq (w : IntegerWidth) :
    readInteger isLittleEndian w = Client.BytesUtils.readWord isLittleEndian w.size := by
  cases w <;> rfl

/-- The writes of the client differ in the number of bytes only. -/
theorem writeInteger_eq (offset : Nat) (x : NetworkInteger) :
    writeInteger isLittleEndian offset x =
      Client.BytesUtils.writeBytes offset (beBytes x.width.size x.value) := by
  obtain ⟨w, value⟩ := x
  cases w
  · exact Client.BytesUtils.writeWord_eq isLittleEndian 2 offset value
  · exact Client.BytesUtils.writeWord_eq isLittleEndian 8 offset value

/-- The client reads little-endian bytes in the other order. -/
theorem readIntegers_eq (xs : List NetworkInteger) (rest : List Byte) :
    readIntegers isLittleEndian (xs.map NetworkInteger.width)
        (littleEndianBytes xs ++ rest) =
      .ok (xs.map NetworkInteger.reversed) rest := by
  induction xs with
  | nil => rfl
  | cons x xs ih =>
    have hread := Client.BytesUtils.readWord_append isLittleEndian x.width.size_pos
      (length_leBytes x.width.size x.value)
      (littleEndianBytes xs ++ rest)
    rw [List.map_cons, littleEndianBytes_cons, List.append_assoc, readIntegers, readInteger_eq,
      Client.run_bind hread, Client.run_bind ih]
    rfl

/-- The client writes the big-endian bytes of each integer, given room behind them. -/
theorem writeIntegers_eq (xs : List NetworkInteger) (done : List Byte) {room : List Byte}
    (h : (bigEndianBytes xs).length < room.length) :
    writeIntegers isLittleEndian done.length xs (done ++ room) =
      .ok (done ++ bigEndianBytes xs).length
        (done ++ bigEndianBytes xs ++ room.drop (bigEndianBytes xs).length) := by
  induction xs generalizing done room with
  | nil => simp [writeIntegers, bigEndianBytes]
  | cons x xs ih =>
    have hlen := length_beBytes x.width.size x.value
    rw [bigEndianBytes_cons, List.length_append] at h
    have hwrite : writeInteger isLittleEndian done.length x (done ++ room) =
        .ok (done ++ beBytes x.width.size x.value).length
          ((done ++ beBytes x.width.size x.value) ++ room.drop x.width.size) := by
      rw [writeInteger_eq, Client.BytesUtils.writeBytes_of_lt
        (by rw [List.length_append]; omega), List.length_append, overwrite, List.take_left,
        hlen, List.drop_append]
      congr 2
      rw [List.drop_eq_nil_of_le (by omega), List.nil_append, Nat.add_sub_cancel_left]
    have hroom : (bigEndianBytes xs).length < (room.drop x.width.size).length := by
      rw [List.length_drop]
      omega
    have hrest := ih (done ++ beBytes x.width.size x.value) hroom
    rw [writeIntegers, Client.run_bind hwrite, hrest, bigEndianBytes_cons]
    simp only [List.append_assoc, List.length_append, List.drop_drop, hlen]

end Client

/-- Between little-endian hosts a sequence of integers survives both ways, from the server
to the client and through a buffer with spare room from the client to the server, exactly
when each of them is the same in both orders. -/
theorem byteOrder_iff (xs : List NetworkInteger) :
    (∃ b, serializeIntegers (CDataStream.init []) xs = .returned (CDataStream.init b) ∧
        readIntegers true (xs.map NetworkInteger.width) b = .ok xs []) ∧
      (∀ dest : List Byte, (bigEndianBytes xs).length < dest.length →
        dest.length < 2 ^ 31 → ∃ next dest', writeIntegers true 0 xs dest = .ok next dest' ∧
          ∃ s', unserializeIntegers (xs.map NetworkInteger.width)
            (CDataStream.init (dest'.take next)) = .returned (xs, s') ∧ s'.unread = []) ↔
    ∀ x ∈ xs, x.Symmetric := by
  have hserver := serializeIntegers_eq [] xs
  have hclient := readIntegers_eq true xs []
  rw [List.nil_append] at hserver
  rw [List.append_nil] at hclient
  constructor
  · rintro ⟨⟨b, hb, hread⟩, _⟩ x hx
    have hbytes : littleEndianBytes xs = b :=
      congrArg CDataStream.vch (Outcome.returned.inj (hserver.symm.trans hb))
    rw [hbytes, hread] at hclient
    have hsame : xs.map NetworkInteger.reversed = xs.map id := by
      rw [List.map_id]
      exact (EStateM.Result.ok.inj hclient).1.symm
    exact x.reversed_eq_iff.mp (List.map_inj_left.mp hsame x hx)
  · intro h
    have hreversed : xs.map NetworkInteger.reversed = xs := by
      rw [List.map_congr_left fun x hx => x.reversed_eq_iff.mpr (h x hx), List.map_id']
    have hbytes : bigEndianBytes xs = littleEndianBytes xs :=
      List.flatMap_congr fun x hx => NetworkInteger.beBytes_eq_of_symmetric (h x hx)
    refine ⟨⟨_, hserver, by rw [hclient, hreversed]⟩, ?_⟩
    intro dest hroom hdest
    have hwrite := writeIntegers_eq true xs [] hroom
    simp only [List.nil_append, List.length_nil] at hwrite
    refine ⟨_, _, hwrite, ?_⟩
    have hstream : (bigEndianBytes xs ++ dest.drop (bigEndianBytes xs).length).take
        (bigEndianBytes xs).length = littleEndianBytes xs := by
      rw [List.take_left, hbytes]
    have hshort : (CDataStream.init (littleEndianBytes xs)).vch.length < 2 ^ 31 := by
      rw [← hbytes]
      exact hroom.trans hdest
    have hrel := unserializeIntegers_rel (xs.map NetworkInteger.width)
      (CDataStream.refines_queue (CDataStream.wellFormed_init _) (Or.inl hshort))
    have hqueue := unserializeIntegers_queue xs
      (q := (CDataStream.init (littleEndianBytes xs)).queue) (List.append_nil _).symm
    obtain ⟨⟨ys, s'⟩, hs', hys, hrefines⟩ := hrel.returned_right hqueue
    have hys : ys = xs := hys
    subst hys
    rw [hstream]
    exact ⟨s', hs', hrefines.unread⟩

/-- The number 1 arrives as 256. -/
theorem byteOrder_one :
    ¬ ∃ b, serializeIntegers (CDataStream.init []) [⟨.uint16, 1⟩] =
        .returned (CDataStream.init b) ∧
      readIntegers true [.uint16] b = .ok [⟨.uint16, 1⟩] [] := by
  rintro ⟨b, hb, hread⟩
  have hserver := serializeIntegers_eq [] [⟨.uint16, 1⟩]
  have hbytes : [1, 0] = b :=
    congrArg CDataStream.vch (Outcome.returned.inj (hserver.symm.trans hb))
  have hclient : readIntegers true [.uint16] [1, 0] = .ok [⟨.uint16, 256⟩] [] := rfl
  rw [← hbytes, hclient] at hread
  cases hread

end BananaApi.Wire
