import BananaApi.Server.Encoding

/-!
# Sizes ahead of writing

`GetSerializeSize` computes a size by its own family of functions, one for each function
that writes. Sizes are sums of `unsigned int`s, so they are right modulo `2 ^ 32`, also
where a block of memory is cut to the size the stream is passed.
-/

namespace BananaApi.Server

/-- The number of bytes of a length prefix. -/
def getSizeOfCompactSize (nSize : Word 8) : BitVec 32 :=
  if nSize.toNat < ucharMax - 2 then 1
  else if nSize.toNat ≤ ushrtMax then 1 + 2
  else if nSize.toNat ≤ uintMax then 1 + 4
  else 1 + 8

/-- The size of the length prefix of a container with the given number of elements. -/
def sizeOfLength (size : Nat) : BitVec 32 := getSizeOfCompactSize (BitVec.ofNat _ size)

/-- The common text of `GetSerializeSize` for `basic_string` and for a vector of a fundamental
type. The sum of `size_t`s is converted to `unsigned int`. -/
def getSizeOfBlock (n : Nat) (v : List (Word n)) : BitVec 32 :=
  BitVec.ofNat 32 ((sizeOfLength v.length).toNat + v.length * n)

/-- The common text of `GetSerializeSize` for the other containers. -/
def getSizeOfItems {α : Type} (getSize : α → BitVec 32) (items : List α) : BitVec 32 :=
  items.foldl (fun nSize x => nSize + getSize x) (sizeOfLength items.length)

/-- `GetSerializeSize` for `pair`. -/
def getSizeOfPair {α β : Type} (getSize : α → BitVec 32) (getSize' : β → BitVec 32)
    (item : α × β) : BitVec 32 := getSize item.1 + getSize' item.2

/-- `GetSerializeSize` for an object, or what the statements of a body add to `nSerSize`. -/
def Ty.getSerializeSize {κ : Kind} {α : Type} : Ty κ α → α → BitVec 32
  | .integer f => fun _ => BitVec.ofNat 32 f.size
  | .bool => fun _ => 1
  | .string c => getSizeOfBlock c
  | .fundamentals f => getSizeOfBlock f.size
  | .vector t _ => getSizeOfItems t.getSerializeSize
  | .pair k t => getSizeOfPair k.getSerializeSize t.getSerializeSize
  | .map _ _ k t => fun m =>
    getSizeOfItems (getSizeOfPair k.getSerializeSize t.getSerializeSize) m.items
  | .set _ k => fun m => getSizeOfItems k.getSerializeSize m.items
  | .struct members body => fun a => body.getSerializeSize (members a)
  | .done => fun _ => 0
  | .readwrite t rest => getSizeOfPair t.getSerializeSize rest.getSerializeSize
  | .flatdata n rest => getSizeOfPair (fun _ => BitVec.ofNat 32 n) rest.getSerializeSize

/-- The size of a length prefix is that of its shortest form. -/
theorem toNat_getSizeOfCompactSize (nSize : Word 8) :
    (getSizeOfCompactSize nSize).toNat = (shortestPrefix nSize).length := by
  have hmax : ucharMax - 2 = 253 ∧ ushrtMax = 65535 ∧ uintMax = 4294967295 := ⟨rfl, rfl, rfl⟩
  unfold getSizeOfCompactSize shortestPrefix
  by_cases h₁ : nSize.toNat < 253
  · rw [if_pos (by omega), if_pos h₁, length_leBytes]
    rfl
  · rw [if_neg (by omega), if_neg h₁]
    by_cases h₂ : nSize.toNat < 2 ^ 16
    · rw [if_pos (by omega), if_pos h₂, List.length_append, length_leBytes, length_leBytes]
      rfl
    · rw [if_neg (by omega), if_neg h₂]
      by_cases h₄ : nSize.toNat < 2 ^ 32
      · rw [if_pos (by omega), if_pos h₄, List.length_append, length_leBytes, length_leBytes]
        rfl
      · rw [if_neg (by omega), if_neg h₄, List.length_append, length_leBytes, length_leBytes]
        rfl

/-- The size of a length prefix is computed in 32 bits. -/
theorem sizeOfLength_eq (size : Nat) :
    sizeOfLength size = BitVec.ofNat 32 (lengthBytes size).length := by
  rw [lengthBytes, ← toNat_getSizeOfCompactSize, BitVec.ofNat_toNat, BitVec.setWidth_eq]
  rfl

/-- A size function that agrees with an encoding, modulo `2 ^ 32`. -/
def Measures {α : Type} (getSize : α → BitVec 32) (enc : α → Option (List Byte)) : Prop :=
  ∀ v e, enc v = some e → getSize v = BitVec.ofNat 32 e.length

section Measures

variable {α β : Type} {getSize : α → BitVec 32} {enc : α → Option (List Byte)}

/-- A block of memory is cut to its size modulo `2 ^ 32`. -/
theorem ofNat_length_of_encodeMemory {image e : List Byte} (h : encodeMemory image = some e) :
    BitVec.ofNat 32 image.length = BitVec.ofNat 32 e.length := by
  unfold encodeMemory at h
  split at h
  · cases h
    apply BitVec.eq_of_toNat_eq
    rw [List.length_take_of_le (Nat.mod_le _ _), BitVec.toNat_ofNat, BitVec.toNat_ofNat,
      Nat.mod_mod]
  · cases h

/-- The size of a vector of integers is that of its encoding. -/
theorem getSizeOfBlock_measures (n : Nat) : Measures (getSizeOfBlock n) (encodeBlock n) := by
  intro v e h
  obtain ⟨block, hblock, rfl⟩ := encodeBlock_eq_some.mp h
  have himage := ofNat_length_of_encodeMemory hblock
  rw [length_imageOf] at himage
  rw [getSizeOfBlock, BitVec.ofNat_add, himage, BitVec.ofNat_toNat, BitVec.setWidth_eq,
    sizeOfLength_eq, List.length_append, BitVec.ofNat_add]

/-- The size of a pair is the sum of its components. -/
theorem getSizeOfPair_measures {getSize' : β → BitVec 32} {enc' : β → Option (List Byte)}
    (h : Measures getSize enc) (h' : Measures getSize' enc') :
    Measures (getSizeOfPair getSize getSize') (encodePair enc enc') := by
  intro p e hp
  simp only [encodePair, Option.bind_eq_bind, Option.bind_eq_some_iff, Option.some.injEq] at hp
  obtain ⟨e₁, h₁, e₂, h₂, rfl⟩ := hp
  rw [getSizeOfPair, h _ _ h₁, h' _ _ h₂, List.length_append, BitVec.ofNat_add]

/-- The sizes of the elements are added to any size. -/
theorem foldl_measures (h : Measures getSize enc) (nSize : BitVec 32) {xs : List α}
    {es : List Byte} (hes : encodeAll enc xs = some es) :
    xs.foldl (fun nSize x => nSize + getSize x) nSize = nSize + BitVec.ofNat 32 es.length := by
  induction xs generalizing nSize es with
  | nil =>
    cases hes
    exact (BitVec.add_zero nSize).symm
  | cons x xs ih =>
    simp only [encodeAll, Option.bind_eq_bind, Option.bind_eq_some_iff, Option.some.injEq] at hes
    obtain ⟨e, he, es', hes', rfl⟩ := hes
    rw [List.foldl_cons, ih _ hes', h _ _ he, List.length_append, BitVec.ofNat_add,
      BitVec.add_assoc]

/-- The size of a map or a set is that of its encoding. -/
theorem getSizeOfItems_measures (h : Measures getSize enc) :
    Measures (getSizeOfItems getSize) (encodeCounted enc) := by
  intro xs e hxs
  obtain ⟨es, hes, rfl⟩ := encodeCounted_eq_some.mp hxs
  rw [getSizeOfItems, foldl_measures h _ hes, sizeOfLength_eq, List.length_append,
    BitVec.ofNat_add]

end Measures

/-- The size of every type agrees with its encoding. -/
theorem Ty.getSerializeSize_measures {κ : Kind} {α : Type} (t : Ty κ α) :
    Measures t.getSerializeSize t.encoding := by
  induction t with
  | integer f =>
    intro a e h
    cases h
    rw [length_leBytes]
    rfl
  | bool =>
    intro a e h
    cases h
    rw [length_leBytes]
    rfl
  | string c => exact getSizeOfBlock_measures c
  | fundamentals f => exact getSizeOfBlock_measures f.size
  | vector t sizeofT ih => exact getSizeOfItems_measures ih
  | pair k t ihk iht => exact getSizeOfPair_measures ihk iht
  | map β pred k t ihk iht =>
    exact fun m => getSizeOfItems_measures (getSizeOfPair_measures ihk iht) m.items
  | set pred k ih => exact fun m => getSizeOfItems_measures ih m.items
  | struct members body ih => exact fun a => ih (members a)
  | done =>
    intro a e h
    cases h
    rfl
  | readwrite t rest iht ihrest => exact getSizeOfPair_measures iht ihrest
  | flatdata n rest ih =>
    refine getSizeOfPair_measures (fun obj e h => ?_) ih
    rw [← ofNat_length_of_encodeMemory h, obj.toList_length]

/-- For every type and every value with an encoding of fewer than `2 ^ 31` bytes,
`GetSerializeSize` is the number of bytes that `Serialize` appends to any stream. -/
theorem Ty.getSerializeSize_eq {κ : Kind} {α : Type} (t : Ty κ α) {v : α} {e : List Byte}
    (henc : t.encoding v = some e) (hlt : e.length < 2 ^ 31) (s : CDataStream) :
    t.serialize s v = .returned { s with vch := s.vch ++ e } ∧
      (t.getSerializeSize v).toNat = e.length := by
  constructor
  · rw [t.serialize_stream, henc]
  · rw [t.getSerializeSize_measures v e henc, BitVec.toNat_ofNat,
      Nat.mod_eq_of_lt (by omega)]

/-- The string `A` and `true` take three bytes. -/
theorem Ty.getSerializeSize_eq_pair :
    (Ty.pair (.string 1) .bool).serialize (CDataStream.init []) ([65], true) =
        .returned (CDataStream.init [1, 65, 1]) ∧
      ((Ty.pair (.string 1) .bool).getSerializeSize ([65], true)).toNat = 3 :=
  (Ty.pair (.string 1) .bool).getSerializeSize_eq (v := ([65], true)) (e := [1, 65, 1])
    rfl (by decide) (CDataStream.init [])

end BananaApi.Server
