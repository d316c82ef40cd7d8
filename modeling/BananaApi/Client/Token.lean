import BananaApi.Client.BitConverter

/-!
# Tokens

A token is a type tag and a primitive value or an array of them, read from a byte
array at an offset. Floating values are their bit patterns. Each primitive type has
its own conversion, and a table gives the number of bytes to move on by.
-/

namespace BananaApi.Client

/-- A boxed value of a primitive type. -/
inductive Primitive where
  | bool (value : Bool)
  | byte (value : Byte)
  | char (value : Word 2)
  | double (bits : Word 8)
  | single (bits : Word 4)
  | int32 (value : Word 4)
  | uint32 (value : Word 4)
  | int64 (value : Word 8)
  | uint64 (value : Word 8)
  | int16 (value : Word 2)
  | uint16 (value : Word 2)
  deriving DecidableEq, Repr

/-- The content of a token. -/
inductive TokenContent where
  | primitive (value : Primitive)
  | array (values : List Primitive)
  deriving DecidableEq, Repr

/-- A token as the sender of a message means it. -/
structure Token where
  tokenType : Word 2
  tokenContent : TokenContent
  deriving DecidableEq, Repr

namespace Token

/-- The tag of a type in front of its content. -/
def tokenTypeBool : Word 2 := 0x0002
@[inherit_doc tokenTypeBool] def tokenTypeByte : Word 2 := 0x0003
@[inherit_doc tokenTypeBool] def tokenTypeChar : Word 2 := 0x0004
@[inherit_doc tokenTypeBool] def tokenTypeDouble : Word 2 := 0x0005
@[inherit_doc tokenTypeBool] def tokenTypeSingle : Word 2 := 0x0006
@[inherit_doc tokenTypeBool] def tokenTypeInt32 : Word 2 := 0x0007
@[inherit_doc tokenTypeBool] def tokenTypeUInt32 : Word 2 := 0x0008
@[inherit_doc tokenTypeBool] def tokenTypeInt64 : Word 2 := 0x0009
@[inherit_doc tokenTypeBool] def tokenTypeUInt64 : Word 2 := 0x000A
@[inherit_doc tokenTypeBool] def tokenTypeInt16 : Word 2 := 0x000B
@[inherit_doc tokenTypeBool] def tokenTypeUInt16 : Word 2 := 0x000C

/-- The dictionary of payload sizes. -/
def primitiveSizes : List (Word 2 × Nat) :=
  [(tokenTypeBool, 1), (tokenTypeByte, 1), (tokenTypeChar, 1), (tokenTypeDouble, 8),
    (tokenTypeSingle, 4), (tokenTypeInt32, 4), (tokenTypeUInt32, 4), (tokenTypeInt64, 8),
    (tokenTypeUInt64, 8), (tokenTypeInt16, 2), (tokenTypeUInt16, 2)]

/-- `PrimitiveSize[tokenType]`. -/
def primitiveSize (tokenType : Word 2) : Except Fault Nat :=
  match primitiveSizes.lookup tokenType with
  | some size => .ok size
  | none => .error .keyNotFound

/-- `BitConverter.ToBoolean`. -/
def toBoolean (value : List Byte) (startIndex : Nat) : Except Fault Bool :=
  match value[startIndex]? with
  | some b => .ok (decide (b ≠ 0))
  | none => .error .argumentOutOfRange

/-- A byte in two hexadecimal digits. -/
def byteHex (b : Byte) : String :=
  String.ofList [(b.toNat / 16).digitChar.toUpper, (b.toNat % 16).digitChar.toUpper]

variable (isLittleEndian : Bool)

/-- The exception for a type that is not listed, with its bytes as `BitConverter.ToString`
shows them. -/
def unsupported (tokenType : Word 2) : Fault :=
  .invalidCast ("Unsupported Token Type: " ++
    "-".intercalate ((BitConverter.getBytes isLittleEndian 2 tokenType).map byteHex))

/-- The value of a type at an offset. A byte is taken from the front of the source, whatever the
offset is. -/
def convertPrimitive (tokenType : Word 2) (src : List Byte) (offset : Nat) :
    Except Fault Primitive :=
  if tokenType = tokenTypeBool then (toBoolean src offset).map .bool
  else if tokenType = tokenTypeByte then
    match src[0]? with
    | some b => .ok (.byte b)
    | none => .error .indexOutOfRange
  else if tokenType = tokenTypeChar then
    (BitConverter.toWord isLittleEndian 2 src offset).map .char
  else if tokenType = tokenTypeDouble then
    (BitConverter.toWord isLittleEndian 8 src offset).map .double
  else if tokenType = tokenTypeSingle then
    (BitConverter.toWord isLittleEndian 4 src offset).map .single
  else if tokenType = tokenTypeInt32 then
    (BitConverter.toWord isLittleEndian 4 src offset).map .int32
  else if tokenType = tokenTypeUInt32 then
    (BitConverter.toWord isLittleEndian 4 src offset).map .uint32
  else if tokenType = tokenTypeInt64 then
    (BitConverter.toWord isLittleEndian 8 src offset).map .int64
  else if tokenType = tokenTypeUInt64 then
    (BitConverter.toWord isLittleEndian 8 src offset).map .uint64
  else if tokenType = tokenTypeInt16 then
    (BitConverter.toWord isLittleEndian 2 src offset).map .int16
  else if tokenType = tokenTypeUInt16 then
    (BitConverter.toWord isLittleEndian 2 src offset).map .uint16
  else .error (unsupported isLittleEndian tokenType)

/-- The value a fresh array of a primitive type holds. -/
def defaultPrimitive (primitiveType : Word 2) : Except Fault Primitive :=
  if primitiveType = tokenTypeBool then .ok (.bool false)
  else if primitiveType = tokenTypeByte then .ok (.byte 0)
  else if primitiveType = tokenTypeChar then .ok (.char 0)
  else if primitiveType = tokenTypeDouble then .ok (.double 0)
  else if primitiveType = tokenTypeSingle then .ok (.single 0)
  else if primitiveType = tokenTypeInt32 then .ok (.int32 0)
  else if primitiveType = tokenTypeUInt32 then .ok (.uint32 0)
  else if primitiveType = tokenTypeInt64 then .ok (.int64 0)
  else if primitiveType = tokenTypeUInt64 then .ok (.uint64 0)
  else if primitiveType = tokenTypeInt16 then .ok (.int16 0)
  else if primitiveType = tokenTypeUInt16 then .ok (.uint16 0)
  else .error (unsupported isLittleEndian primitiveType)

/-- An array of a type with the default value in every place. -/
def allocateArrayOfPrimitives (primitiveType : Word 2) (elmSize : Nat) :
    Except Fault (List Primitive) :=
  (defaultPrimitive isLittleEndian primitiveType).map (List.replicate elmSize)

/-- `Append`, for an element of the type of the array. -/
def append (array : List Primitive) (index : Nat) (elm : Primitive) :
    Except Fault (List Primitive) :=
  if index < array.length then .ok (array.set index elm) else .error .indexOutOfRange

/-- The loop over the elements of an array, for the given number of rounds. -/
def readArray (primitiveType : Word 2) (elmSize : Nat) (src : List Byte) :
    Nat → Nat → Nat → List Primitive → Except Fault (List Primitive × Nat)
  | 0, _, offset, array => .ok (array, offset)
  | count + 1, i, offset, array => do
    let elm ← convertPrimitive isLittleEndian primitiveType src offset
    let array ← append array i elm
    readArray primitiveType elmSize src count (i + 1) (offset + elmSize) array

/-- `Read`: the token and the offset behind it. -/
def read (src : List Byte) (offset : Nat) : Except Fault (Token × Nat) := do
  let tokenType ← BitConverter.toWord isLittleEndian 2 src offset
  let offset := offset + 2
  if tokenType.toNat ≥ 0x0002 ∧ tokenType.toNat ≤ 0x000C then
    let content ← convertPrimitive isLittleEndian tokenType src offset
    let size ← primitiveSize tokenType
    .ok (⟨tokenType, .primitive content⟩, offset + size)
  else if tokenType.toNat ≥ 0x0012 ∧ tokenType.toNat ≤ 0x001C then
    let primitiveType := tokenType - 0x0010
    let arrayLength ← BitConverter.toWord isLittleEndian 4 src offset
    let offset := offset + 4
    -- The dictionary has no entry for an array type.
    let elmSize ← primitiveSize tokenType
    let array ← allocateArrayOfPrimitives isLittleEndian primitiveType elmSize
    let (array, offset) ←
      readArray isLittleEndian primitiveType elmSize src arrayLength.toNat 0 offset array
    .ok (⟨tokenType, .array array⟩, offset)
  else .error (unsupported isLittleEndian tokenType)

/-- Read a number of tokens, each at the offset the previous one returned. -/
def readAll (src : List Byte) : Nat → Nat → Except Fault (List Token × Nat)
  | 0, offset => .ok ([], offset)
  | count + 1, offset => do
    let (token, offset) ← read isLittleEndian src offset
    let (tokens, offset) ← readAll src count offset
    .ok (token :: tokens, offset)

end Token

end BananaApi.Client
