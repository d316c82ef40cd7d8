import BananaApi.Client.Token

/-!
# Reading back encoded tokens

Tokens in a row, each a tag and a payload in the order of the host. Two conversions
do not read their payload: a byte is always the first byte of the array, and a
character takes one byte more than its payload has.
-/

namespace BananaApi.Client

namespace Primitive

/-- The tag of the type of a value. -/
def tokenType : Primitive → Word 2
  | bool _ => Token.tokenTypeBool
  | byte _ => Token.tokenTypeByte
  | char _ => Token.tokenTypeChar
  | double _ => Token.tokenTypeDouble
  | single _ => Token.tokenTypeSingle
  | int32 _ => Token.tokenTypeInt32
  | uint32 _ => Token.tokenTypeUInt32
  | int64 _ => Token.tokenTypeInt64
  | uint64 _ => Token.tokenTypeUInt64
  | int16 _ => Token.tokenTypeInt16
  | uint16 _ => Token.tokenTypeUInt16

/-- The value fits the number of bytes the size table has for its type. -/
def Representable : Primitive → Prop
  | char value => value.toNat < 2 ^ 8
  | _ => True

variable (isLittleEndian : Bool)

/-- The bytes of a value, as many as the size table has for its type. -/
def payload : Primitive → List Byte
  | bool value => [if value then 1 else 0]
  | byte value => [value]
  | char value => [value.setWidth 8]
  | double bits => BitConverter.getBytes isLittleEndian 8 bits
  | single bits => BitConverter.getBytes isLittleEndian 4 bits
  | int32 value => BitConverter.getBytes isLittleEndian 4 value
  | uint32 value => BitConverter.getBytes isLittleEndian 4 value
  | int64 value => BitConverter.getBytes isLittleEndian 8 value
  | uint64 value => BitConverter.getBytes isLittleEndian 8 value
  | int16 value => BitConverter.getBytes isLittleEndian 2 value
  | uint16 value => BitConverter.getBytes isLittleEndian 2 value

/-- The bytes of a token: its tag and its payload. -/
def encode (p : Primitive) : List Byte :=
  BitConverter.getBytes isLittleEndian 2 p.tokenType ++ p.payload isLittleEndian

/-- The token of a primitive value. -/
def token (p : Primitive) : Token := ⟨p.tokenType, .primitive p⟩

/-- A token that is read back, by the first byte of the array and the byte behind the token. -/
def ReadBack (first next : Option Byte) : Primitive → Prop
  | byte value => first = some value
  | char value => next = some 0 ∧ (isLittleEndian = true ∨ value = 0)
  | _ => True

/-- The size table has the length of every payload. -/
theorem primitiveSize_tokenType (p : Primitive) :
    Token.primitiveSize p.tokenType = .ok (p.payload isLittleEndian).length := by
  cases p <;> simp [payload] <;> rfl

/-- Every value takes a byte at least. -/
theorem payload_pos (p : Primitive) : 0 < (p.payload isLittleEndian).length := by
  cases p <;> simp [payload]

/-- The tags of the types are 2 to 12. -/
theorem tokenType_range (p : Primitive) :
    p.tokenType.toNat ≥ 0x0002 ∧ p.tokenType.toNat ≤ 0x000C := by
  cases p <;> simp only [tokenType] <;> decide

/-- A value of several bytes is converted from its payload. -/
theorem toWord_payload {n : Nat} (hn : 0 < n) (pre post : List Byte) (value : Word n)
    (make : Word n → Primitive) :
    (BitConverter.toWord isLittleEndian n
      (pre ++ BitConverter.getBytes isLittleEndian n value ++ post) pre.length).map make =
        .ok (make value) := by
  rw [BitConverter.toWord_append isLittleEndian hn pre _ post (BitConverter.length_getBytes ..),
    BitConverter.ofBytes_getBytes]
  rfl

/-- A character is read back when the byte behind its payload adds nothing to it. -/
theorem toWord_char (pre post : List Byte) {value : Word 2} (h : value.toNat < 2 ^ 8) :
    (BitConverter.toWord isLittleEndian 2 (pre ++ [value.setWidth 8] ++ post) pre.length).map
        Primitive.char = .ok (.char value) ↔
      post.head? = some 0 ∧ (isLittleEndian = true ∨ value = 0) := by
  cases post with
  | nil =>
    have hshort : (pre ++ [value.setWidth 8] ++ []).length = pre.length + 1 := by simp
    rw [BitConverter.toWord, if_neg (by omega), if_pos (by omega)]
    simp [Except.map]
  | cons next post =>
    have hsplit : pre ++ [value.setWidth 8] ++ next :: post =
        pre ++ [value.setWidth 8, next] ++ post := by simp
    have hlow : (value.setWidth 8).toNat = value.toNat := by
      rw [BitVec.toNat_setWidth, Nat.mod_eq_of_lt h]
    have hnext : next.toNat < 2 ^ 8 := next.isLt
    have hword (a b : Byte) : (ofLeBytes 2 [a, b]).toNat = a.toNat + 256 * b.toNat := by
      rw [toNat_ofLeBytes (n := 2) rfl]
      simp only [bytesNat, Nat.mul_zero, Nat.add_zero]
    rw [hsplit, BitConverter.toWord_append isLittleEndian (n := 2) (by omega) pre
      [value.setWidth 8, next] post rfl]
    have hvalue : (Except.ok (BitConverter.ofBytes isLittleEndian 2 [value.setWidth 8, next]) :
        Except Fault (Word 2)).map Primitive.char = .ok (.char value) ↔
        (BitConverter.ofBytes isLittleEndian 2 [value.setWidth 8, next]).toNat = value.toNat := by
      simp [Except.map, BitVec.toNat_inj]
    have hzero (x : BitVec 8) : x = 0 ↔ x.toNat = 0 := by rw [← BitVec.toNat_inj]; rfl
    have hzero' (x : Word 2) : x = 0 ↔ x.toNat = 0 := by rw [← BitVec.toNat_inj]; rfl
    rw [hvalue, List.head?_cons, Option.some.injEq, hzero, hzero']
    cases isLittleEndian with
    | true =>
      simp only [BitConverter.ofBytes, if_true, hword, hlow, true_or, and_true]
      omega
    | false =>
      simp only [BitConverter.ofBytes, Bool.false_eq_true, if_false, List.reverse_cons,
        List.reverse_nil, List.nil_append, List.singleton_append, hword, hlow, false_or]
      omega

/-- The conversion of a token's type gives back its value exactly when it reads back. -/
theorem convertPrimitive_eq_ok_iff {p : Primitive} (hp : p.Representable) (pre post : List Byte) :
    Token.convertPrimitive isLittleEndian p.tokenType
        (pre ++ p.payload isLittleEndian ++ post) pre.length = .ok p ↔
      p.ReadBack isLittleEndian (pre ++ p.payload isLittleEndian ++ post).head? post.head? := by
  cases p with
  | bool value =>
    have hget : (pre ++ [if value then (1 : Byte) else 0] ++ post)[pre.length]? =
        some (if value then 1 else 0) := by simp
    change (Token.toBoolean _ _).map bool = _ ↔ True
    simp only [payload, Token.toBoolean, hget]
    cases value <;> simp [Except.map]
  | byte value =>
    have hbyte (src : List Byte) (offset : Nat) :
        Token.convertPrimitive isLittleEndian Token.tokenTypeByte src offset =
          src.head?.elim (.error .indexOutOfRange) fun b => .ok (byte b) := by
      rw [Token.convertPrimitive, if_neg (by decide), if_pos rfl, List.head?_eq_getElem?]
      cases src[0]? <;> rfl
    change Token.convertPrimitive isLittleEndian Token.tokenTypeByte (pre ++ [value] ++ post) _ =
      _ ↔ (pre ++ [value] ++ post).head? = some value
    rw [hbyte]
    cases (pre ++ [value] ++ post).head? <;> simp
  | char value => exact toWord_char isLittleEndian pre post hp
  | double bits =>
    exact iff_of_true (toWord_payload isLittleEndian (by omega) pre post bits _) trivial
  | single bits =>
    exact iff_of_true (toWord_payload isLittleEndian (by omega) pre post bits _) trivial
  | int32 value =>
    exact iff_of_true (toWord_payload isLittleEndian (by omega) pre post value _) trivial
  | uint32 value =>
    exact iff_of_true (toWord_payload isLittleEndian (by omega) pre post value _) trivial
  | int64 value =>
    exact iff_of_true (toWord_payload isLittleEndian (by omega) pre post value _) trivial
  | uint64 value =>
    exact iff_of_true (toWord_payload isLittleEndian (by omega) pre post value _) trivial
  | int16 value =>
    exact iff_of_true (toWord_payload isLittleEndian (by omega) pre post value _) trivial
  | uint16 value =>
    exact iff_of_true (toWord_payload isLittleEndian (by omega) pre post value _) trivial

/-- `Read` at a token is the conversion of its type, and moves on by its length. -/
theorem read_encode (p : Primitive) (pre post : List Byte) :
    Token.read isLittleEndian (pre ++ p.encode isLittleEndian ++ post) pre.length =
      (Token.convertPrimitive isLittleEndian p.tokenType
        (pre ++ p.encode isLittleEndian ++ post) (pre.length + 2)).map fun content =>
          (⟨p.tokenType, .primitive content⟩, pre.length + (p.encode isLittleEndian).length) := by
  have hraw := BitConverter.length_getBytes isLittleEndian 2 p.tokenType
  have htag : BitConverter.toWord isLittleEndian 2
      (pre ++ p.encode isLittleEndian ++ post) pre.length = .ok p.tokenType := by
    have hconv := BitConverter.toWord_append isLittleEndian (n := 2) (by omega) pre
      (BitConverter.getBytes isLittleEndian 2 p.tokenType) (p.payload isLittleEndian ++ post) hraw
    rw [BitConverter.ofBytes_getBytes] at hconv
    rw [encode, ← hconv]
    simp only [List.append_assoc]
  have hlen : (p.encode isLittleEndian).length = 2 + (p.payload isLittleEndian).length := by
    rw [encode, List.length_append, hraw]
  simp only [Token.read, htag, bind, Except.bind, p.tokenType_range, and_self, if_true,
    p.primitiveSize_tokenType isLittleEndian, hlen, ← Nat.add_assoc]
  cases Token.convertPrimitive isLittleEndian p.tokenType
    (pre ++ p.encode isLittleEndian ++ post) (pre.length + 2) <;> rfl

end Primitive

namespace Token

open Primitive (encode token ReadBack Representable)

/-- A property of every element and what stands behind it, for a list with a first element. -/
theorem forall_split_cons {α : Type} {P : α → List α → Prop} {x : α} {xs : List α} :
    (∀ before y after, x :: xs = before ++ y :: after → P y after) ↔
      P x xs ∧ ∀ before y after, xs = before ++ y :: after → P y after := by
  constructor
  · intro h
    refine ⟨h [] x xs rfl, ?_⟩
    rintro before y after rfl
    exact h (x :: before) y after rfl
  · rintro ⟨hx, hxs⟩ before y after h
    cases before with
    | nil =>
      obtain ⟨rfl, rfl⟩ := List.cons.inj h
      exact hx
    | cons b before =>
      obtain ⟨rfl, rfl⟩ := List.cons.inj h
      exact hxs before y after rfl

variable (isLittleEndian : Bool)

/-- One token is read as itself, with its end as the next offset, or not at all as itself. -/
theorem read_eq_ok_iff {p : Primitive} (hp : p.Representable) (pre post : List Byte) (next : Nat) :
    read isLittleEndian (pre ++ encode isLittleEndian p ++ post) pre.length =
        .ok (p.token, next) ↔
      p.ReadBack isLittleEndian (pre ++ encode isLittleEndian p ++ post).head? post.head? ∧
        next = pre.length + (encode isLittleEndian p).length := by
  have htag : (pre ++ BitConverter.getBytes isLittleEndian 2 p.tokenType).length =
      pre.length + 2 := by
    rw [List.length_append, BitConverter.length_getBytes]
  have hconvert := Primitive.convertPrimitive_eq_ok_iff isLittleEndian hp
    (pre ++ BitConverter.getBytes isLittleEndian 2 p.tokenType) post
  rw [htag, List.append_assoc pre, ← encode] at hconvert
  rw [Primitive.read_encode, ← hconvert]
  cases convertPrimitive isLittleEndian p.tokenType (pre ++ encode isLittleEndian p ++ post)
    (pre.length + 2) with
  | error e => simp [Except.map]
  | ok content => simp [Except.map, token, eq_comm]

/-- Tokens in a row are read back exactly when each of them is, given the byte the array
starts with and the byte behind the token. -/
theorem readAll_iff (tokens : List Primitive) (hrep : ∀ p ∈ tokens, p.Representable)
    (pre post : List Byte) :
    readAll isLittleEndian (pre ++ tokens.flatMap (encode isLittleEndian) ++ post) tokens.length
        pre.length =
      .ok (tokens.map token, pre.length + (tokens.flatMap (encode isLittleEndian)).length) ↔
    ∀ before p after, tokens = before ++ p :: after →
      p.ReadBack isLittleEndian
        (pre ++ tokens.flatMap (encode isLittleEndian) ++ post).head?
        (after.flatMap (encode isLittleEndian) ++ post).head? := by
  obtain ⟨src, hsrc⟩ : ∃ src, src = pre ++ tokens.flatMap (encode isLittleEndian) ++ post :=
    ⟨_, rfl⟩
  rw [← hsrc]
  induction tokens generalizing pre with
  | nil => simp [readAll]
  | cons p tokens ih =>
    obtain ⟨hp, htokens⟩ := List.forall_mem_cons.mp hrep
    rw [List.flatMap_cons] at hsrc
    have hsrc₁ : src = pre ++ encode isLittleEndian p ++
        (tokens.flatMap (encode isLittleEndian) ++ post) := by
      rw [hsrc]
      simp only [List.append_assoc]
    have hsrc₂ : src = (pre ++ encode isLittleEndian p) ++
        tokens.flatMap (encode isLittleEndian) ++ post := by
      rw [hsrc₁, List.append_assoc _ _ post]
    have hfirst := read_eq_ok_iff isLittleEndian hp pre
      (tokens.flatMap (encode isLittleEndian) ++ post)
    have hrest := ih htokens (pre ++ encode isLittleEndian p) hsrc₂
    rw [← hsrc₁] at hfirst
    rw [List.length_append] at hrest
    rw [forall_split_cons, ← hrest, List.flatMap_cons, List.length_append, List.map_cons,
      List.length_cons, ← Nat.add_assoc, readAll]
    constructor
    · intro h
      cases hread : read isLittleEndian src pre.length with
      | error e =>
        rw [hread] at h
        cases h
      | ok r =>
        obtain ⟨t, next⟩ := r
        cases hall : readAll isLittleEndian src tokens.length next with
        | error e =>
          simp only [hread, hall, bind, Except.bind] at h
          cases h
        | ok r =>
          simp only [hread, hall, bind, Except.bind, Except.ok.injEq, Prod.mk.injEq,
            List.cons.injEq] at h
          obtain ⟨⟨rfl, hts⟩, hend⟩ := h
          obtain ⟨hback, rfl⟩ := (hfirst next).mp hread
          exact ⟨hback, by rw [hall, ← hts, ← hend]⟩
    · rintro ⟨hback, hall⟩
      have hread := (hfirst _).mpr ⟨hback, rfl⟩
      simp only [hread, hall, bind, Except.bind]

/-- A number and a character, in front of a zero byte. -/
theorem readAll_iff_uint16 :
    readAll true ([7] ++ [Primitive.uint16 300, .char 65].flatMap (encode true) ++ [0]) 2 1 =
      .ok ([Primitive.uint16 300, .char 65].map token, 1 +
        ([Primitive.uint16 300, .char 65].flatMap (encode true)).length) ↔
    ∀ before p after, [Primitive.uint16 300, .char 65] = before ++ p :: after →
      p.ReadBack true
        ([7] ++ [Primitive.uint16 300, .char 65].flatMap (encode true) ++ [0]).head?
        (after.flatMap (encode true) ++ [0]).head? :=
  readAll_iff true [.uint16 300, .char 65] (by simp [Representable]) [7] [0]

/-- A byte token with the value 9 is read as the first byte of the array, which is 3. -/
theorem readAll_byte :
    readAll true ([] ++ [Primitive.byte 9].flatMap (encode true) ++ []) 1 0 =
        .ok ([(Primitive.byte 3).token], 3) ∧
      readAll true ([] ++ [Primitive.byte 9].flatMap (encode true) ++ []) 1 0 ≠
        .ok ([Primitive.byte 9].map token,
          0 + ([Primitive.byte 9].flatMap (encode true)).length) := by
  decide

end Token

end BananaApi.Client
