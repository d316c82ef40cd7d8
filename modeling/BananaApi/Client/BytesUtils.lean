import BananaApi.Client.BitConverter

/-!
# `BytesUtils`

Big-endian integers and characters in byte arrays, and big-endian integers on a
stream. The writing functions take the array and an offset and return the offset
behind what was written. The test for room treats an array that would be exactly
full as too small.
-/

namespace BananaApi.Client.BytesUtils

/-- `Slice`: the bytes from `start` on. -/
def slice (src : List Byte) (start len : Nat) : Except Fault (List Byte) :=
  if 0 < len ∧ src.length < start + len then .error .indexOutOfRange
  else .ok ((src.drop start).take len)

/-- An array of zeros. -/
def zeros (n : Int) : Except Fault (List Byte) :=
  if n < 0 then .error (.exception "Negative byte array") else .ok (List.replicate n.toNat 0)

/-! ## Writing -/

/-- Copies an array to an offset and returns the offset behind it. An array that would reach the
last byte of the destination is refused as too big. -/
def writeBytes (offset : Nat) (data : List Byte) : Run (List Byte) Nat := fun dest =>
  if offset + data.length ≥ dest.length then .error (.exception "data too big for dest.") dest
  else .ok (offset + data.length) (overwrite dest offset data)

/-- `WritePrimitiveBytes` for a `char`. -/
def writeChar (offset : Nat) (data : Word 2) : Run (List Byte) Nat := fun dest =>
  if offset ≥ dest.length then .error (.exception "data too big for dest.") dest
  -- `Convert.ToByte` of a character above 255.
  else if 255 < data.toNat then .error .overflow dest
  else .ok (offset + 1) (dest.set offset (data.setWidth _))

/-- Writes one character after another. -/
def writeArrayBytes (offset : Nat) : List (Word 2) → Run (List Byte) Nat
  | [] => pure offset
  | c :: data => do
    let offset ← writeChar offset c
    writeArrayBytes offset data

variable (isLittleEndian : Bool)

/-- The common text of `WritePrimitiveBytes` for `ushort` and `ulong`. -/
def writeWord (n offset : Nat) (data : Word n) : Run (List Byte) Nat :=
  writeBytes offset
    (reverseIfLittleEndian isLittleEndian (BitConverter.getBytes isLittleEndian n data))

/-- An unsigned integer of 16 bits in the order of the network. -/
def writeUInt16 (offset : Nat) (data : Word 2) : Run (List Byte) Nat :=
  writeWord isLittleEndian 2 offset data

/-- An unsigned integer of 64 bits in the order of the network. -/
def writeUInt64 (offset : Nat) (data : Word 8) : Run (List Byte) Nat :=
  writeWord isLittleEndian 8 offset data

/-! ## Reading -/

/-- `Stream.ReadByte` and the test for its end. -/
def readByte : Run (List Byte) Byte := fun stream =>
  match stream with
  | [] => .error (.exception "byte is -1") []
  | b :: stream => .ok b stream

/-- The loop of `ReadBytes`. -/
def readMany : Nat → Run (List Byte) (List Byte)
  | 0 => pure []
  | n + 1 => do
    let b ← readByte
    let data ← readMany n
    pure (b :: data)

/-- Reads the bytes of an integer and puts them into the order of the host. -/
def readBytes (typeSize : Nat) : Run (List Byte) (List Byte) := do
  let data ← readMany typeSize
  pure (reverseIfLittleEndian isLittleEndian data)

/-- `ReadUInt16` and `ReadUInt64`. -/
def readWord (n : Nat) : Run (List Byte) (Word n) := do
  let data ← readBytes isLittleEndian n
  liftExcept (BitConverter.toWord isLittleEndian n data 0)

/-- An unsigned integer of 16 bits in the order of the network. -/
def readUInt16 : Run (List Byte) (Word 2) := readWord isLittleEndian 2

/-- An unsigned integer of 64 bits in the order of the network. -/
def readUInt64 : Run (List Byte) (Word 8) := readWord isLittleEndian 8

/-! ## What they do -/

/-- An array that ends in front of the last byte of the destination is written. -/
theorem writeBytes_of_lt {offset : Nat} {data dest : List Byte}
    (h : offset + data.length < dest.length) :
    writeBytes offset data dest = .ok (offset + data.length) (overwrite dest offset data) :=
  if_neg (Nat.not_le.mpr h)

/-- Without room behind the data nothing is written, even if the data fits exactly. -/
theorem writeBytes_of_le {offset : Nat} {data dest : List Byte}
    (h : dest.length ≤ offset + data.length) :
    writeBytes offset data dest = .error (.exception "data too big for dest.") dest :=
  if_pos h

/-- An integer is written big-endian on every host. -/
theorem writeWord_eq (n offset : Nat) (data : Word n) :
    writeWord isLittleEndian n offset data = writeBytes offset (beBytes n data) := by
  rw [writeWord, reverse_getBytes]

/-- Reading stops behind as many bytes as were asked for. -/
theorem readMany_append (data rest : List Byte) :
    readMany data.length (data ++ rest) = .ok data rest := by
  induction data with
  | nil => rfl
  | cons b data ih =>
    have hstep : readMany (data.length + 1) (b :: (data ++ rest)) =
        (readMany data.length >>= fun data => pure (b :: data)) (data ++ rest) := rfl
    rw [List.length_cons, List.cons_append, hstep]
    simp only [bind, EStateM.bind, ih]
    rfl

/-- An integer is read from its bytes in the order of the network. -/
theorem readWord_append {n : Nat} (hn : 0 < n) {bytes : List Byte} (h : bytes.length = n)
    (rest : List Byte) :
    readWord isLittleEndian n (bytes ++ rest) = .ok (ofLeBytes n bytes.reverse) rest := by
  subst h
  have hlen : (reverseIfLittleEndian isLittleEndian bytes).length = bytes.length := by
    cases isLittleEndian <;> simp [reverseIfLittleEndian]
  have hconv := BitConverter.toWord_append isLittleEndian hn []
    (reverseIfLittleEndian isLittleEndian bytes) [] hlen
  rw [List.nil_append, List.append_nil, List.length_nil] at hconv
  have hvalue : BitConverter.ofBytes isLittleEndian bytes.length
      (reverseIfLittleEndian isLittleEndian bytes) = ofLeBytes bytes.length bytes.reverse := by
    cases isLittleEndian <;> rfl
  simp only [readWord, readBytes, bind, EStateM.bind, readMany_append, pure, EStateM.pure,
    hconv, hvalue, liftExcept]

end BananaApi.Client.BytesUtils
