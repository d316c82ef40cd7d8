import BananaApi.Core.ByteStream
import BananaApi.Core.SortedItems
import Mathlib.Data.Vector.Basic

/-!
# The serialization templates

The functions of `serialize.h` for one type each, generic in the stream and, for
containers, in the functions of the element type. An unserializing function
updates its target in place: it takes the target's previous value, and an
exception leaves a partly updated target and the stream behind. Integers are
stored in the order of the host, which has to be little-endian. Lengths are read
as 64 bits, kept in an `unsigned int` and passed to the stream as an `int`. Loops
whose end depends on the input run on a budget.
-/

namespace BananaApi.Server

/-- The integer types with their own overloads. -/
inductive Fundamental where
  | char | signedChar | unsignedChar | signedShort | unsignedShort | signedInt | unsignedInt
  | signedLong | unsignedLong | int64 | uint64
  deriving DecidableEq, Repr

/-- `sizeof` of an integer type, where `long` has 64 bits. -/
def Fundamental.size : Fundamental → Nat
  | char | signedChar | unsignedChar => 1
  | signedShort | unsignedShort => 2
  | signedInt | unsignedInt => 4
  | signedLong | unsignedLong | int64 | uint64 => 8

/-- Every integer has a byte. -/
theorem Fundamental.size_pos (f : Fundamental) : 0 < f.size := by
  cases f <;> decide

/-- No integer has more than 8 bytes. -/
theorem Fundamental.size_le (f : Fundamental) : f.size ≤ 8 := by
  cases f <;> decide

/-- The type of the functions `Serialize(os, obj)`. -/
abbrev Serializer (σ α : Type) := σ → α → Outcome σ σ

/-- The type of the functions `Unserialize(is, obj)`; the object is updated in place. -/
abbrev Unserializer (σ α : Type) := σ → α → Outcome (α × σ) (α × σ)

/-- `UCHAR_MAX`, `USHRT_MAX` and `UINT_MAX`. -/
def ucharMax : Nat := 255

@[inherit_doc ucharMax] def ushrtMax : Nat := 65535

@[inherit_doc ucharMax] def uintMax : Nat := 4294967295

section Templates

variable {σ : Type} [ByteStream σ]

/-- `WRITEDATA`: the bytes of an object of the given size. -/
def writeData (n : Nat) : Serializer σ (Word n) :=
  fun s obj => ByteStream.write s (leBytes n obj) (intOf n)

/-- `READDATA` into an object of the given size. -/
def readData (n : Nat) (s : σ) : Outcome σ (Word n × σ) := do
  let (bs, s) ← ByteStream.read s (intOf n)
  .returned (ofLeBytes n bs, s)

/-- A size in the shortest of its four forms: one byte, or a mark with 2, 4 or 8 bytes behind it. -/
def writeCompactSize (os : σ) (nSize : Word 8) : Outcome σ σ :=
  if nSize.toNat < ucharMax - 2 then writeData 1 os (nSize.setWidth _)
  else if nSize.toNat ≤ ushrtMax then do
    let os ← writeData 1 os (BitVec.ofNat _ (ucharMax - 2))
    writeData 2 os (nSize.setWidth _)
  else if nSize.toNat ≤ uintMax then do
    let os ← writeData 1 os (BitVec.ofNat _ (ucharMax - 1))
    writeData 4 os (nSize.setWidth _)
  else do
    let os ← writeData 1 os (BitVec.ofNat _ ucharMax)
    writeData 8 os nSize

/-- A size in any of its forms, also in a longer one than is needed. -/
def readCompactSize (is : σ) : Outcome σ (Word 8 × σ) := do
  let (chSize, is) ← readData 1 is
  if chSize.toNat < ucharMax - 2 then .returned (chSize.setWidth _, is)
  else if chSize.toNat = ucharMax - 2 then do
    let (nSize, is) ← readData 2 is
    .returned (nSize.setWidth _, is)
  else if chSize.toNat = ucharMax - 1 then do
    let (nSize, is) ← readData 4 is
    .returned (nSize.setWidth _, is)
  else readData 8 is

/-- The length prefix of a container with the given number of elements. -/
def writeLength (os : σ) (size : Nat) : Outcome σ σ := writeCompactSize os (BitVec.ofNat _ size)

/-- `unsigned int nSize = ReadCompactSize(is)`. -/
def unsignedOf (nSize : Word 8) : Nat := nSize.toNat % 2 ^ 32

/-! ## Integers and `bool` -/

/-- The bytes of an integer as they are in memory. -/
def serializeInteger (n : Nat) : Serializer σ (Word n) := writeData n

/-- An integer is left as it was by a read that throws. -/
def unserializeInteger (n : Nat) : Unserializer σ (Word n) :=
  fun s a => (readData n s).mapThrow fun s => (a, s)

/-- A `bool` is one byte, 1 or 0. -/
def serializeBool : Serializer σ Bool := fun s a =>
  let f : Word 1 := if a then 1 else 0
  writeData 1 s f

/-- Every byte but 0 is read as `true`. -/
def unserializeBool : Unserializer σ Bool := fun s a => do
  let (f, s) ← (readData 1 s).mapThrow fun s => (a, s)
  .returned (decide (f ≠ 0), s)

/-- The common text of `Serialize` for `basic_string` and for a vector of a fundamental
type: the length, and the elements as one block of memory. -/
def serializeBlock (n : Nat) : Serializer σ (List (Word n)) := fun os v => do
  let os ← writeLength os v.length
  if v ≠ [] then ByteStream.write os (imageOf n v) (intOf (v.length * n))
  else .returned os

/-! ## `basic_string` -/

/-- A string of characters of `c` bytes. -/
def serializeString (c : Nat) : Serializer σ (List (Word c)) := serializeBlock c

/-- What follows the length in `Unserialize` for `basic_string`. -/
def readCharacters (c nSize : Nat) (str : List (Word c)) (is : σ) :
    Outcome (List (Word c) × σ) (List (Word c) × σ) :=
  let str := resize str nSize 0
  if nSize ≠ 0 then do
    let (bs, is) ← (ByteStream.read is (intOf (nSize * c))).mapThrow fun is => (str, is)
    .returned (store c str 0 bs, is)
  else .returned (str, is)

/-- No characters are read without a look at the stream. -/
theorem readCharacters_zero (c : Nat) (str : List (Word c)) :
    readCharacters c 0 str = fun is : σ => .returned (resize str 0 0, is) := rfl

/-- Characters are read in one block into the string. -/
theorem readCharacters_of_ne {c nSize : Nat} (h : nSize ≠ 0) (str : List (Word c)) :
    readCharacters c nSize str = fun is : σ =>
      (ByteStream.read is (intOf (nSize * c))).mapThrow (fun is => (resize str nSize 0, is)) >>=
        fun p => .returned (store c (resize str nSize 0) 0 p.1, p.2) := by
  funext is
  rw [readCharacters, if_pos h]

/-- The number of characters, and the characters in one block. -/
def unserializeString (c : Nat) : Unserializer σ (List (Word c)) := fun is str => do
  let (size, is) ← (readCompactSize is).mapThrow fun is => (str, is)
  readCharacters c (unsignedOf size) str is

/-! ## `vector` -/

/-- `Serialize_impl` for a vector of a fundamental type. -/
def serializeFundamentals (n : Nat) : Serializer σ (List (Word n)) := serializeBlock n

/-- The loop over blocks in `Unserialize_impl` for a vector of a fundamental type. -/
def readBlocks (n nSize : Nat) :
    Nat → Nat → List (Word n) → σ → Outcome (List (Word n) × σ) (List (Word n) × σ)
  | 0, _, _, _ => .unfinished
  | fuel + 1, i, v, is =>
    if i < nSize then do
      let blk := min (nSize - i) (1 + 4999999 / n)
      let v := resize v ((i + blk) % 2 ^ 32) 0
      let (bs, is) ← (ByteStream.read is (intOf (blk * n))).mapThrow fun is => (v, is)
      readBlocks n nSize fuel ((i + blk) % 2 ^ 32) (store n v i bs) is
    else .returned (v, is)

/-- The number of elements, and the elements block by block of at most 5 MB; the vector is cleared
in front of that. -/
def unserializeFundamentals (fuel n : Nat) : Unserializer σ (List (Word n)) := fun is _ => do
  let (size, is) ← (readCompactSize is).mapThrow fun is => ([], is)
  readBlocks n (unsignedOf size) fuel 0 [] is

variable {α β : Type}

/-- `Serialize_impl` for a vector of another type, written element by element. -/
def serializeVector (elem : Serializer σ α) : Serializer σ (List α) := fun os v => do
  let os ← writeLength os v.length
  v.foldlM elem os

/-- `for (; i < nMid; i++) Unserialize(is, v[i])`, for the given number of rounds. -/
def readElements (elem : Unserializer σ α) :
    Nat → Nat → List α → σ → Outcome (List α × σ) (List α × σ)
  | 0, _, v, is => .returned (v, is)
  | count + 1, i, v, is =>
    match v[i]? with
    | none => .overran
    | some x => do
      let (x, is) ← (elem is x).mapThrow fun p => (v.set i p.1, p.2)
      readElements elem count (i + 1) (v.set i x) is

/-- The loop over `nMid` in `Unserialize_impl` for a vector of another type. -/
def readChunks (elem : Unserializer σ α) (init : α) (sizeofT nSize : Nat) :
    Nat → Nat → Nat → List α → σ → Outcome (List α × σ) (List α × σ)
  | 0, _, _, _, _ => .unfinished
  | fuel + 1, nMid, i, v, is =>
    if nMid < nSize then do
      let nMid := (nMid + 5000000 / sizeofT) % 2 ^ 32
      let nMid := if nSize < nMid then nSize else nMid
      let (v, is) ← readElements elem (nMid - i) i (resize v nMid init) is
      readChunks elem init sizeofT nSize fuel nMid (max i nMid) v is
    else .returned (v, is)

/-- The number of elements, and the elements one by one, room being made for as many as 5 MB hold;
the vector is cleared in front of that. -/
def unserializeVector (fuel : Nat) (elem : Unserializer σ α) (init : α) (sizeofT : Nat) :
    Unserializer σ (List α) := fun is _ => do
  let (size, is) ← (readCompactSize is).mapThrow fun is => ([], is)
  readChunks elem init sizeofT (unsignedOf size) fuel 0 0 [] is

/-! ## `pair` -/

/-- The first component and the second one. -/
def serializePair (k : Serializer σ α) (t : Serializer σ β) : Serializer σ (α × β) :=
  fun os item => do
    let os ← k os item.1
    t os item.2

/-- A read of the second component that throws leaves the first one read. -/
def unserializePair (k : Unserializer σ α) (t : Unserializer σ β) : Unserializer σ (α × β) :=
  fun is item => do
    let (first, is) ← (k is item.1).mapThrow fun p => ((p.1, item.2), p.2)
    let (second, is) ← (t is item.2).mapThrow fun p => ((first, p.1), p.2)
    .returned ((first, second), is)

/-! ## `map` and `set` -/

variable {c : Comparison α}

/-- The length and the items in order, as `map` and `set` are written. -/
def serializeItems (elem : Serializer σ α) : Serializer σ (SortedItems c) := fun os m => do
  let os ← writeLength os m.items.length
  m.items.foldlM elem os

/-- `for (unsigned int i = 0; i < nSize; i++)` over a fresh item, which is inserted. A
position hint does not change what `insert` does. -/
def insertItems (elem : Unserializer σ α) (init : α) :
    Nat → Nat → SortedItems c → σ → Outcome (SortedItems c × σ) ((SortedItems c × Nat) × σ)
  | 0, i, m, is => .returned ((m, i), is)
  | count + 1, i, m, is => do
    let (item, is) ← (elem is init).mapThrow fun p => (m, p.2)
    insertItems elem init count (i + 1) (m.insert item) is

/-- Reading a `map` or a `set`, together with the number of items decoded. -/
def unserializeCounted (elem : Unserializer σ α) (init : α) (is : σ) :
    Outcome (SortedItems c × σ) ((SortedItems c × Nat) × σ) := do
  let (size, is) ← (readCompactSize is).mapThrow fun is => (SortedItems.empty, is)
  insertItems elem init (unsignedOf size) 0 SortedItems.empty is

/-- The common text of `Unserialize` for `map` and `set`. -/
def unserializeItems (elem : Unserializer σ α) (init : α) : Unserializer σ (SortedItems c) :=
  fun is _ => do
    let ((m, _), is) ← unserializeCounted elem init is
    .returned (m, is)

/-- The items of a map are pairs. -/
def serializeMap {c : Comparison α} (k : Serializer σ α) (t : Serializer σ β) :
    Serializer σ (SortedItems (c.onKey β)) :=
  serializeItems (serializePair k t)

/-- The pairs are inserted where their keys are new. -/
def unserializeMap {c : Comparison α} (k : Unserializer σ α) (t : Unserializer σ β)
    (init : α × β) : Unserializer σ (SortedItems (c.onKey β)) :=
  unserializeItems (unserializePair k t) init

/-- The items of a set in their order. -/
def serializeSet (k : Serializer σ α) : Serializer σ (SortedItems c) := serializeItems k

/-- The items are inserted where they are new. -/
def unserializeSet (k : Unserializer σ α) (init : α) : Unserializer σ (SortedItems c) :=
  unserializeItems k init

/-! ## `FLATDATA` -/

theorem length_take_overwrite {n : Nat} (obj : List.Vector Byte n) (bs : List Byte) :
    ((overwrite obj.toList 0 bs).take n).length = n := by
  have hn := obj.toList_length
  simp only [overwrite, List.length_take, List.length_append, List.length_drop]
  omega

/-- An array with its first characters overwritten in place. -/
def overwriteArray {n : Nat} (obj : List.Vector Byte n) (bs : List Byte) : List.Vector Byte n :=
  ⟨(overwrite obj.toList 0 bs).take n, length_take_overwrite obj bs⟩

/-- The raw bytes of an array of `n` characters. -/
def serializeFlatData (n : Nat) : Serializer σ (List.Vector Byte n) :=
  fun s obj => ByteStream.write s obj.toList (intOf n)

/-- An array of bytes, read in place. -/
def unserializeFlatData (n : Nat) : Unserializer σ (List.Vector Byte n) := fun s obj => do
  let (bs, s) ← (ByteStream.read s (intOf n)).mapThrow fun s => (obj, s)
  .returned (overwriteArray obj bs, s)

end Templates

end BananaApi.Server
