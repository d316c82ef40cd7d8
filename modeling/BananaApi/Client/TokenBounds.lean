import BananaApi.Client.TokenReading
import Mathlib.Tactic.IntervalCases

/-!
# Where a token may end

`Read` with the reference it assigns. Most conversions take all the bytes of their
payload, so a token cut off by the end of the array is not converted; a byte token
takes none. An array token never gets past the lookup of its element size, which asks
for the type of the array instead of that of its elements.
-/

namespace BananaApi.Client.Token

variable (isLittleEndian : Bool)

/-- A token of a single value. -/
abbrev PrimitiveTag (tokenType : Word 2) : Prop :=
  tokenType.toNat ≥ 0x0002 ∧ tokenType.toNat ≤ 0x000C

/-- A token of an array. -/
abbrev ArrayTag (tokenType : Word 2) : Prop :=
  tokenType.toNat ≥ 0x0012 ∧ tokenType.toNat ≤ 0x001C

/-- `Read` as it is called: it returns the offset and assigns the token. -/
def readInto (src : List Byte) (offset : Nat) : Run (Option Token) Nat := do
  let tokenType ← liftExcept (BitConverter.toWord isLittleEndian 2 src offset)
  let offset := offset + 2
  if tokenType.toNat ≥ 0x0002 ∧ tokenType.toNat ≤ 0x000C then
    let content ← liftExcept (convertPrimitive isLittleEndian tokenType src offset)
    set (some (⟨tokenType, .primitive content⟩ : Token))
    let size ← liftExcept (primitiveSize tokenType)
    pure (offset + size)
  else if tokenType.toNat ≥ 0x0012 ∧ tokenType.toNat ≤ 0x001C then
    let primitiveType := tokenType - 0x0010
    let arrayLength ← liftExcept (BitConverter.toWord isLittleEndian 4 src offset)
    let offset := offset + 4
    let elmSize ← liftExcept (primitiveSize tokenType)
    let array ← liftExcept (allocateArrayOfPrimitives isLittleEndian primitiveType elmSize)
    let (array, offset) ← liftExcept
      (readArray isLittleEndian primitiveType elmSize src arrayLength.toNat 0 offset array)
    set (some (⟨tokenType, .array array⟩ : Token))
    pure offset
  else throw (unsupported isLittleEndian tokenType)

/-! ## The table of sizes -/

/-- Every primitive type has a size. -/
theorem primitiveSize_primitive {tokenType : Word 2} (h : PrimitiveTag tokenType) :
    ∃ size, primitiveSize tokenType = .ok size := by
  obtain ⟨hge, hle⟩ := h
  have hvalue : BitVec.ofNat _ tokenType.toNat = tokenType := by
    rw [BitVec.ofNat_toNat, BitVec.setWidth_eq]
  rw [← hvalue]
  interval_cases tokenType.toNat <;> exact ⟨_, rfl⟩

/-- No array type has one. -/
theorem primitiveSize_array {tokenType : Word 2} (h : ArrayTag tokenType) :
    primitiveSize tokenType = .error .keyNotFound := by
  have hkeys : ∀ entry ∈ primitiveSizes, entry.1.toNat ≤ 0x000C := by decide
  have hnone : primitiveSizes.lookup tokenType = none := by
    rw [List.lookup_eq_none_iff]
    intro entry hentry
    have hle := hkeys entry hentry
    obtain ⟨hge, -⟩ := h
    rw [bne_iff_ne]
    rintro rfl
    omega
  rw [primitiveSize, hnone]

/-- The reference is assigned by the calls that return, and by no others. -/
theorem readInto_eq (src : List Byte) (offset : Nat) (result : Option Token) :
    readInto isLittleEndian src offset result =
      match read isLittleEndian src offset with
      | .ok (token, next) => .ok next (some token)
      | .error e => .error e result := by
  unfold readInto read
  cases htag : BitConverter.toWord isLittleEndian 2 src offset with
  | error e => rfl
  | ok tokenType =>
    rw [run_liftExcept_ok_bind]
    dsimp only [bind, Except.bind]
    by_cases hprimitive : PrimitiveTag tokenType
    · obtain ⟨size, hsize⟩ := primitiveSize_primitive hprimitive
      rw [if_pos hprimitive, if_pos hprimitive, hsize]
      cases convertPrimitive isLittleEndian tokenType src (offset + 2) <;> rfl
    · rw [if_neg hprimitive, if_neg hprimitive]
      by_cases harray : ArrayTag tokenType
      · rw [if_pos harray, if_pos harray, primitiveSize_array harray]
        cases BitConverter.toWord isLittleEndian 4 src (offset + 2) <;> rfl
      · rw [if_neg harray, if_neg harray]
        rfl

/-! ## Array tokens -/

/-- `Read` reads the array of a type whose elements follow their count. -/
def ReadsArray (primitiveType : Word 2) (elements : List Primitive) (pre post : List Byte) : Prop :=
  let tokenType := primitiveType + 0x0010
  let src := pre ++ (BitConverter.getBytes isLittleEndian 2 tokenType ++
    BitConverter.getBytes isLittleEndian 4 (BitVec.ofNat _ elements.length) ++
    elements.flatMap (Primitive.payload isLittleEndian)) ++ post
  ∀ result, ∃ size, primitiveSize primitiveType = .ok size ∧
    readInto isLittleEndian src pre.length result =
      .ok (pre.length + 2 + 4 + elements.length * size) (some ⟨tokenType, .array elements⟩)

/-- An array token is never read. -/
theorem read_array {src : List Byte} {offset : Nat} {tokenType : Word 2} (h : ArrayTag tokenType)
    (htag : BitConverter.toWord isLittleEndian 2 src offset = .ok tokenType) :
    ∃ e, read isLittleEndian src offset = .error e := by
  have hprimitive : ¬ PrimitiveTag tokenType := by
    rintro ⟨-, hle⟩
    have hge := h.1
    omega
  rw [read, htag]
  dsimp only [bind, Except.bind]
  rw [if_neg hprimitive, if_pos h, primitiveSize_array h]
  cases BitConverter.toWord isLittleEndian 4 src (offset + 2) <;> exact ⟨_, rfl⟩

/-- The array of no type is read, whatever its elements are. -/
theorem not_readsArray {primitiveType : Word 2} (h : PrimitiveTag primitiveType)
    (elements : List Primitive) (pre post : List Byte) :
    ¬ ReadsArray isLittleEndian primitiveType elements pre post := by
  intro hreads
  obtain ⟨size, -, hread⟩ := hreads none
  have harray : ArrayTag (primitiveType + 0x0010) := by
    obtain ⟨hge, hle⟩ := h
    have hsum : (primitiveType + 0x0010).toNat = primitiveType.toNat + 16 := by
      rw [BitVec.toNat_add]
      exact Nat.mod_eq_of_lt (Nat.lt_of_le_of_lt (Nat.add_le_add_right hle 16) (by decide))
    constructor <;> omega
  have htag := BitConverter.toWord_append isLittleEndian (n := 2) (by omega) pre
    (BitConverter.getBytes isLittleEndian 2 (primitiveType + 0x0010))
    (BitConverter.getBytes isLittleEndian 4 (BitVec.ofNat _ elements.length) ++
      elements.flatMap (Primitive.payload isLittleEndian) ++ post)
    (BitConverter.length_getBytes ..)
  rw [BitConverter.ofBytes_getBytes] at htag
  simp only [List.append_assoc] at htag hread
  obtain ⟨e, he⟩ := read_array isLittleEndian harray htag
  rw [readInto_eq, he] at hread
  cases hread

/-- An array of one number. -/
theorem not_readsArray_int32 : ¬ ReadsArray true tokenTypeInt32 [.int32 7] [] [] :=
  not_readsArray true (by decide) [.int32 7] [] []

/-- Not even an array without elements is read. -/
theorem not_readsArray_empty :
    ¬ ∀ (primitiveType : Word 2) (elements : List Primitive) (pre post : List Byte),
      PrimitiveTag primitiveType → (∀ element ∈ elements, element.tokenType = primitiveType) →
        ReadsArray true primitiveType elements pre post := by
  intro h
  obtain ⟨size, -, hread⟩ := h tokenTypeInt32 [] [] [] (by decide) (by decide) none
  have herror : readInto true [0x17, 0, 0, 0, 0, 0] 0 none = .error .keyNotFound none := rfl
  cases herror.symm.trans hread

/-! ## The end of the array -/

/-- `Read` throws and leaves its reference alone, or it moves on to a place in the array
behind the tag and the first bytes of the token it assigns. -/
def AdvancesWithin (src : List Byte) (offset : Nat) : Prop :=
  ∀ result, match readInto isLittleEndian src offset result with
    | .error _ result' => result' = result
    | .ok next result' => ∃ token, result' = some token ∧ next ≤ src.length ∧
        (PrimitiveTag token.tokenType ∧ offset + 2 < next ∨
          ArrayTag token.tokenType ∧ offset + 6 ≤ next)

/-- A value converted from several bytes has its payload in the array, and the other types are
left to the rest of the chain. -/
theorem ite_toWord_map_ok {n : Nat} {src : List Byte} {offset : Nat} {make : Word n → Primitive}
    {tokenType t : Word 2} {value : Primitive} {rest : Except Fault Primitive}
    (h : (if tokenType = t then (BitConverter.toWord isLittleEndian n src offset).map make
      else rest) = .ok value)
    (htype : ∀ word, (make word).tokenType = t)
    (hlen : ∀ word, ((make word).payload isLittleEndian).length ≤ n)
    (hrest : rest = .ok value → value.tokenType = tokenType ∧
      (tokenType ≠ tokenTypeByte →
        offset + (value.payload isLittleEndian).length ≤ src.length)) :
    value.tokenType = tokenType ∧
      (tokenType ≠ tokenTypeByte →
        offset + (value.payload isLittleEndian).length ≤ src.length) := by
  by_cases ht : tokenType = t
  · rw [if_pos ht] at h
    cases hword : BitConverter.toWord isLittleEndian n src offset with
    | error e =>
      rw [hword] at h
      cases h
    | ok word =>
      have hroom := BitConverter.le_of_toWord isLittleEndian hword
      rw [hword] at h
      cases h
      refine ⟨(htype word).trans ht.symm, fun _ => ?_⟩
      have hle := hlen word
      omega
  · rw [if_neg ht] at h
    exact hrest h

/-- A converted value has the type that was asked for, and unless that is a byte, its payload
is in the array. -/
theorem convertPrimitive_ok {tokenType : Word 2} {src : List Byte} {offset : Nat}
    {value : Primitive} (h : convertPrimitive isLittleEndian tokenType src offset = .ok value) :
    value.tokenType = tokenType ∧
      (tokenType ≠ tokenTypeByte →
        offset + (value.payload isLittleEndian).length ≤ src.length) := by
  unfold convertPrimitive at h
  by_cases hbool : tokenType = tokenTypeBool
  · rw [if_pos hbool, toBoolean] at h
    cases hget : src[offset]? with
    | none =>
      rw [hget] at h
      cases h
    | some b =>
      rw [hget] at h
      cases h
      obtain ⟨hlt, -⟩ := List.getElem?_eq_some_iff.mp hget
      exact ⟨hbool.symm, fun _ => hlt⟩
  rw [if_neg hbool] at h
  by_cases hbyte : tokenType = tokenTypeByte
  · rw [if_pos hbyte] at h
    cases hget : src[0]? with
    | none =>
      rw [hget] at h
      cases h
    | some b =>
      rw [hget] at h
      cases h
      exact ⟨hbyte.symm, fun hne => absurd hbyte hne⟩
  rw [if_neg hbyte] at h
  -- a character takes one byte more than its payload has, the other types as many
  refine ite_toWord_map_ok isLittleEndian h (fun _ => rfl) (fun _ => Nat.le_succ 1) fun h => ?_
  have hlen : ∀ {n : Nat} (word : Word n),
      (BitConverter.getBytes isLittleEndian n word).length ≤ n :=
    fun word => (BitConverter.length_getBytes isLittleEndian _ word).le
  refine ite_toWord_map_ok isLittleEndian h (fun _ => rfl) hlen fun h => ?_
  refine ite_toWord_map_ok isLittleEndian h (fun _ => rfl) hlen fun h => ?_
  refine ite_toWord_map_ok isLittleEndian h (fun _ => rfl) hlen fun h => ?_
  refine ite_toWord_map_ok isLittleEndian h (fun _ => rfl) hlen fun h => ?_
  refine ite_toWord_map_ok isLittleEndian h (fun _ => rfl) hlen fun h => ?_
  refine ite_toWord_map_ok isLittleEndian h (fun _ => rfl) hlen fun h => ?_
  refine ite_toWord_map_ok isLittleEndian h (fun _ => rfl) hlen fun h => ?_
  refine ite_toWord_map_ok isLittleEndian h (fun _ => rfl) hlen fun h => ?_
  cases h

/-- What a call that returns has read. -/
theorem read_ok {src : List Byte} {offset next : Nat} {token : Token}
    (h : read isLittleEndian src offset = .ok (token, next)) :
    BitConverter.toWord isLittleEndian 2 src offset = .ok token.tokenType ∧
      PrimitiveTag token.tokenType ∧ offset + 2 < next ∧
      (next ≤ src.length ∨ token.tokenType = tokenTypeByte ∧ next = offset + 3) := by
  cases htag : BitConverter.toWord isLittleEndian 2 src offset with
  | error e =>
    rw [read, htag] at h
    cases h
  | ok tokenType =>
    by_cases harray : ArrayTag tokenType
    · obtain ⟨e, he⟩ := read_array isLittleEndian harray htag
      rw [he] at h
      cases h
    rw [read, htag] at h
    dsimp only [bind, Except.bind] at h
    by_cases hprimitive : PrimitiveTag tokenType
    · rw [if_pos hprimitive] at h
      cases hcontent : convertPrimitive isLittleEndian tokenType src (offset + 2) with
      | error e =>
        rw [hcontent] at h
        cases h
      | ok value =>
        obtain ⟨rfl, hroom⟩ := convertPrimitive_ok isLittleEndian hcontent
        rw [hcontent, value.primitiveSize_tokenType isLittleEndian] at h
        cases h
        have hpos := value.payload_pos isLittleEndian
        refine ⟨rfl, hprimitive, by omega, ?_⟩
        by_cases hbyte : value.tokenType = tokenTypeByte
        · have hsize := value.primitiveSize_tokenType isLittleEndian
          rw [hbyte] at hsize
          have hone : 1 = (value.payload isLittleEndian).length := Except.ok.inj hsize
          exact Or.inr ⟨hbyte, by rw [← hone]⟩
        · exact Or.inl (hroom hbyte)
    · rw [if_neg hprimitive, if_neg harray] at h
      cases h

/-- The tag of a byte at the end of the array is read with a value from its front. -/
theorem read_byte_at_end {src : List Byte} {offset : Nat} (h : offset ≤ src.length)
    (hend : src.drop offset = BitConverter.getBytes isLittleEndian 2 tokenTypeByte) :
    src.length = offset + 2 ∧
      ∃ token, read isLittleEndian src offset = .ok (token, offset + 3) := by
  have hlen : src.length = offset + 2 := by
    have hdrop := congrArg List.length hend
    rw [List.length_drop, BitConverter.length_getBytes] at hdrop
    omega
  have hsplit : src = src.take offset ++
      BitConverter.getBytes isLittleEndian 2 tokenTypeByte ++ [] := by
    rw [← hend, List.append_nil, List.take_append_drop]
  have hoffset : (src.take offset).length = offset := List.length_take_of_le h
  have htag := BitConverter.toWord_append isLittleEndian (n := 2) (by omega) (src.take offset)
    (BitConverter.getBytes isLittleEndian 2 tokenTypeByte) [] (BitConverter.length_getBytes ..)
  rw [← hsplit, hoffset, BitConverter.ofBytes_getBytes] at htag
  obtain ⟨b, hfirst⟩ : ∃ b, src[0]? = some b := ⟨_, List.getElem?_eq_getElem (by omega)⟩
  have hcontent : convertPrimitive isLittleEndian tokenTypeByte src (offset + 2) =
      .ok (.byte b) := by
    rw [convertPrimitive, if_neg (by decide), if_pos rfl, hfirst]
  refine ⟨hlen, ⟨tokenTypeByte, .primitive (.byte b)⟩, ?_⟩
  rw [read, htag]
  dsimp only [bind, Except.bind]
  rw [if_pos (by decide), hcontent]
  rfl

/-- A tag behind which the array ends is all that is left of it. -/
theorem drop_eq_of_toWord {src : List Byte} {offset : Nat} {tokenType : Word 2}
    (htag : BitConverter.toWord isLittleEndian 2 src offset = .ok tokenType)
    (hend : src.length < offset + 3) :
    src.drop offset = BitConverter.getBytes isLittleEndian 2 tokenType := by
  have hroom := BitConverter.le_of_toWord isLittleEndian htag
  have hlen : (src.drop offset).length = 2 := by
    rw [List.length_drop]
    omega
  rw [BitConverter.toWord_of_le isLittleEndian (by omega) hroom,
    List.take_of_length_le hlen.le] at htag
  rw [← Except.ok.inj htag, BitConverter.getBytes_ofBytes isLittleEndian hlen]

/-- Every call throws or advances within the array, except at the two bytes of a byte token
at its end. -/
theorem advancesWithin_iff {src : List Byte} {offset : Nat} (h : offset ≤ src.length) :
    AdvancesWithin isLittleEndian src offset ↔
      src.drop offset ≠ BitConverter.getBytes isLittleEndian 2 tokenTypeByte := by
  constructor
  · intro hall hend
    obtain ⟨hlen, token, hread⟩ := read_byte_at_end isLittleEndian h hend
    have hnone := hall none
    rw [readInto_eq, hread] at hnone
    obtain ⟨_, _, hle, _⟩ := hnone
    omega
  · intro hend result
    rw [readInto_eq]
    cases hread : read isLittleEndian src offset with
    | error e => rfl
    | ok r =>
      obtain ⟨token, next⟩ := r
      obtain ⟨htag, hprimitive, hlt, hle⟩ := read_ok isLittleEndian hread
      refine ⟨token, rfl, ?_, Or.inl ⟨hprimitive, hlt⟩⟩
      rcases hle with hle | ⟨hbyte, rfl⟩
      · exact hle
      · by_contra hover
        rw [hbyte] at htag
        exact hend (drop_eq_of_toWord isLittleEndian htag (Nat.lt_of_not_le hover))

/-- A truth value at the end of the array. -/
theorem advancesWithin_bool : AdvancesWithin true [2, 0, 1] 0 :=
  (advancesWithin_iff true (by decide)).mpr (by decide)

/-- The tag of a byte without its value is read, and the offset is behind the array. -/
theorem not_advancesWithin_byte :
    ¬ ∀ (src : List Byte) (offset : Nat), offset ≤ src.length → AdvancesWithin true src offset := by
  intro h
  have hread : readInto true [3, 0] 0 none =
      .ok 3 (some ⟨tokenTypeByte, .primitive (.byte 3)⟩) := rfl
  have hnone := h [3, 0] 0 (by decide) none
  rw [hread] at hnone
  obtain ⟨_, _, hle, _⟩ := hnone
  exact absurd hle (by decide)

end BananaApi.Client.Token
