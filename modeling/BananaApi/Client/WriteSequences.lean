import BananaApi.Client.BytesUtils

/-!
# Sequences of writes

Any calls of the writing functions of `BytesUtils`, each at the offset the previous one
returned. The test for room of `WriteBytes`, which the integers go through as well, wants a
free position behind the data, the one of single characters does not: a sequence
that fits is written whole exactly when each block ends in front of the last position.
-/

namespace BananaApi.Client

/-- A character that `Convert.ToByte` accepts. -/
structure ByteChar where
  char : Word 2
  char_le : char.toNat ≤ 0xFF
  deriving DecidableEq

namespace ByteChar

/-- The byte that stands for the character. -/
def toByte (c : ByteChar) : Byte := c.char.setWidth _

/-- The character that a byte stands for. -/
def ofByte (b : Byte) : ByteChar where
  char := b.setWidth _
  char_le := by
    rw [BitVec.toNat_setWidth]
    omega

/-- A character comes back from its byte. -/
@[simp] theorem ofByte_toByte (c : ByteChar) : ofByte c.toByte = c := by
  obtain ⟨char, hle⟩ := c
  simp only [ofByte, toByte, ByteChar.mk.injEq]
  apply BitVec.eq_of_toNat_eq
  simp only [BitVec.toNat_setWidth]
  omega

end ByteChar

/-- One call of a writing function. -/
inductive WriteCall where
  | bytes (data : List Byte)
  | array (data : List ByteChar)
  | char (data : ByteChar)
  | uint16 (data : Word 2)
  | uint64 (data : Word 8)
  deriving DecidableEq

/-- What has to be known of a call to read its value back. -/
inductive WriteCall.Kind where
  | bytes (length : Nat)
  | array (length : Nat)
  | char
  | uint16
  | uint64

namespace WriteCall

/-- What a call tells the reader: its overload, and the length of an array. -/
def kind : WriteCall → Kind
  | bytes data => .bytes data.length
  | array data => .array data.length
  | char _ => .char
  | uint16 _ => .uint16
  | uint64 _ => .uint64

/-- The bytes of the value, most significant first. -/
def encoding : WriteCall → List Byte
  | bytes data => data
  | array data => data.map ByteChar.toByte
  | char data => [data.toByte]
  | uint16 data => beBytes 2 data
  | uint64 data => beBytes 8 data

/-- The call goes through `WriteBytes`. -/
def IsBlock : WriteCall → Prop
  | bytes _ | uint16 _ | uint64 _ => True
  | array _ | char _ => False

instance : DecidablePred IsBlock := fun w => by
  cases w <;> unfold IsBlock <;> infer_instance

variable (isLittleEndian : Bool)

/-- The call, at an offset. -/
def write (offset : Nat) : WriteCall → Run (List Byte) Nat
  | bytes data => BytesUtils.writeBytes offset data
  | array data => BytesUtils.writeArrayBytes offset (data.map ByteChar.char)
  | char data => BytesUtils.writeChar offset data.char
  | uint16 data => BytesUtils.writeUInt16 isLittleEndian offset data
  | uint64 data => BytesUtils.writeUInt64 isLittleEndian offset data

/-- Read a value back, bytes and characters by `ReadByte`. -/
def Kind.read : Kind → Run (List Byte) WriteCall
  | bytes length => do
    let data ← BytesUtils.readMany length
    pure (.bytes data)
  | array length => do
    let data ← BytesUtils.readMany length
    pure (.array (data.map ByteChar.ofByte))
  | char => do
    let b ← BytesUtils.readByte
    pure (.char (ByteChar.ofByte b))
  | uint16 => do
    let data ← BytesUtils.readUInt16 isLittleEndian
    pure (.uint16 data)
  | uint64 => do
    let data ← BytesUtils.readUInt64 isLittleEndian
    pure (.uint64 data)

/-- One call after another, each at the offset the previous one returned. -/
def writeAll (offset : Nat) : List WriteCall → Run (List Byte) Nat
  | [] => pure offset
  | w :: ws => do
    let offset ← w.write isLittleEndian offset
    writeAll offset ws

/-- One read after another, each of the kind of the value that was written. -/
def readAll : List Kind → Run (List Byte) (List WriteCall)
  | [] => pure []
  | k :: ks => do
    let w ← k.read isLittleEndian
    let ws ← readAll ks
    pure (w :: ws)

/-- The bytes of all calls in a row. -/
def encodings (ws : List WriteCall) : List Byte := ws.flatMap encoding

@[simp] theorem encodings_nil : encodings [] = [] := rfl

@[simp] theorem encodings_cons (w : WriteCall) (ws : List WriteCall) :
    encodings (w :: ws) = w.encoding ++ encodings ws := rfl

/-- No call throws, the array holds the encodings from the offset on and is as before
everywhere else, and the values can be read back. -/
structure WritesThrough (offset : Nat) (ws : List WriteCall) (dest : List Byte) : Prop where
  written : writeAll isLittleEndian offset ws dest =
    .ok (offset + (encodings ws).length) (overwrite dest offset (encodings ws))
  readBack : readAll isLittleEndian (ws.map kind)
    (((overwrite dest offset (encodings ws)).drop offset).take (encodings ws).length) = .ok ws []

/-- Each block in a sequence of calls ends in front of the last position. -/
def RoomBehind (offset : Nat) (ws : List WriteCall) (size : Nat) : Prop :=
  ∀ done w later, ws = done ++ w :: later → w.IsBlock →
    offset + (encodings (done ++ [w])).length < size

/-- Room is asked for call by call: a block must end in front of the last byte. -/
theorem roomBehind_cons (offset : Nat) (w : WriteCall) (ws : List WriteCall) (size : Nat) :
    RoomBehind offset (w :: ws) size ↔
      (w.IsBlock → offset + w.encoding.length < size) ∧
        RoomBehind (offset + w.encoding.length) ws size := by
  constructor
  · intro h
    refine ⟨fun hw => ?_, fun done w' later hws hw' => ?_⟩
    · have hfirst := h [] w ws rfl hw
      rwa [List.nil_append, encodings_cons, encodings_nil, List.append_nil] at hfirst
    · have hlater := h (w :: done) w' later (by rw [hws, List.cons_append]) hw'
      rwa [List.cons_append, encodings_cons, List.length_append, ← Nat.add_assoc] at hlater
  · rintro ⟨hfirst, hlater⟩ done w' later hws hw'
    cases done with
    | nil =>
      obtain ⟨rfl, rfl⟩ := List.cons.inj hws
      rw [List.nil_append, encodings_cons, encodings_nil, List.append_nil]
      exact hfirst hw'
    | cons w₀ done =>
      obtain ⟨rfl, rfl⟩ := List.cons.inj hws
      rw [List.cons_append, encodings_cons, List.length_append, ← Nat.add_assoc]
      exact hlater done w' later rfl hw'

/-! ## Writing -/

section Writing

variable {offset : Nat} {dest : List Byte}

/-- A character is one byte of the array. -/
theorem writeChar_eq (c : ByteChar) (h : offset < dest.length) :
    BytesUtils.writeChar offset c.char dest =
      .ok (offset + 1) (overwrite dest offset [c.toByte]) := by
  rw [overwrite_singleton h, BytesUtils.writeChar, if_neg (by omega),
    if_neg (Nat.not_lt.mpr c.char_le)]
  rfl

/-- Characters are written up to the last position. -/
theorem writeArrayBytes_eq (data : List ByteChar) (h : offset + data.length ≤ dest.length) :
    BytesUtils.writeArrayBytes offset (data.map ByteChar.char) dest =
      .ok (offset + data.length) (overwrite dest offset (data.map ByteChar.toByte)) := by
  induction data generalizing offset dest with
  | nil => rw [List.map_nil, List.map_nil, overwrite_nil]; rfl
  | cons c data ih =>
    rw [List.length_cons] at h
    have hfits : offset + [c.toByte].length ≤ dest.length := by
      rw [List.length_singleton]
      omega
    have hrest := @ih (offset + 1) (overwrite dest offset [c.toByte])
      (by rw [length_overwrite hfits]; omega)
    have hroom : offset ≤ dest.length := by omega
    have hjoin := overwrite_append hroom [c.toByte] (data.map ByteChar.toByte)
    rw [List.length_singleton] at hjoin
    rw [List.map_cons, BytesUtils.writeArrayBytes, run_bind (writeChar_eq c (by omega)), hrest,
      hjoin, List.length_cons, List.map_cons, List.singleton_append]
    congr 1
    omega

/-- A block is its encoding, written by `WriteBytes`. -/
theorem write_of_isBlock {w : WriteCall} (h : w.IsBlock) (offset : Nat) :
    w.write isLittleEndian offset = BytesUtils.writeBytes offset w.encoding := by
  cases w with
  | bytes data => rfl
  | uint16 data => exact BytesUtils.writeWord_eq isLittleEndian 2 offset data
  | uint64 data => exact BytesUtils.writeWord_eq isLittleEndian 8 offset data
  | array data => exact absurd h id
  | char data => exact absurd h id

/-- A call that fits is written, a block only where there is room behind it. -/
theorem write_eq (w : WriteCall) (h : offset + w.encoding.length ≤ dest.length)
    (hroom : w.IsBlock → offset + w.encoding.length < dest.length) :
    w.write isLittleEndian offset dest =
      .ok (offset + w.encoding.length) (overwrite dest offset w.encoding) := by
  by_cases hblock : w.IsBlock
  · rw [write_of_isBlock isLittleEndian hblock, BytesUtils.writeBytes_of_lt (hroom hblock)]
  · cases w with
    | array data =>
      rw [encoding, List.length_map] at h ⊢
      exact writeArrayBytes_eq data h
    | char data => exact writeChar_eq data h
    | bytes data => exact absurd trivial hblock
    | uint16 data => exact absurd trivial hblock
    | uint64 data => exact absurd trivial hblock

/-- Where the bytes fit, a sequence is written exactly if there is a byte behind every block. -/
theorem writeAll_iff {ws : List WriteCall} (h : offset + (encodings ws).length ≤ dest.length) :
    writeAll isLittleEndian offset ws dest =
        .ok (offset + (encodings ws).length) (overwrite dest offset (encodings ws)) ↔
      RoomBehind offset ws dest.length := by
  induction ws generalizing offset dest with
  | nil =>
    refine iff_of_true ?_ ?_
    · rw [encodings_nil, overwrite_nil]
      rfl
    · intro done w later hws
      exact absurd hws (List.append_ne_nil_of_right_ne_nil done (List.cons_ne_nil w later)).symm
  | cons w ws ih =>
    rw [encodings_cons, List.length_append] at h
    have hfits : offset + w.encoding.length ≤ dest.length := by omega
    rw [roomBehind_cons]
    by_cases hroom : w.IsBlock → offset + w.encoding.length < dest.length
    · have hlen := length_overwrite hfits
      have hrest := @ih (offset + w.encoding.length) (overwrite dest offset w.encoding)
        (by omega)
      rw [overwrite_append (by omega), hlen, Nat.add_assoc, ← List.length_append,
        ← encodings_cons] at hrest
      rw [and_iff_right hroom, ← hrest, writeAll, run_bind (write_eq isLittleEndian w hfits hroom)]
    · obtain ⟨hblock, hfull⟩ := Classical.not_imp.mp hroom
      have hle : dest.length ≤ offset + w.encoding.length := not_lt.mp hfull
      have hthrow := BytesUtils.writeBytes_of_le hle
      refine iff_of_false (fun hok => ?_) fun hall => hroom hall.1
      rw [writeAll, run_bind_error (by rw [write_of_isBlock isLittleEndian hblock, hthrow])] at hok
      cases hok

end Writing

/-! ## Reading back -/

/-- An integer is read from its bytes in the order of the network. -/
theorem readWord_beBytes {n : Nat} (hn : 0 < n) (data : Word n) (rest : List Byte) :
    BytesUtils.readWord isLittleEndian n (beBytes n data ++ rest) = .ok data rest := by
  rw [BytesUtils.readWord_append isLittleEndian hn (length_beBytes n data), beBytes,
    List.reverse_reverse, ofLeBytes_leBytes]

/-- A value is read back from its encoding. -/
theorem read_encoding (w : WriteCall) (rest : List Byte) :
    w.kind.read isLittleEndian (w.encoding ++ rest) = .ok w rest := by
  cases w with
  | bytes data =>
    rw [kind, Kind.read, encoding, run_bind (BytesUtils.readMany_append data rest)]
    rfl
  | array data =>
    have hread := BytesUtils.readMany_append (data.map ByteChar.toByte) rest
    rw [List.length_map] at hread
    have hchars : (data.map ByteChar.toByte).map ByteChar.ofByte = data := by
      rw [List.map_map]
      exact List.map_id'' ByteChar.ofByte_toByte data
    rw [kind, Kind.read, encoding, run_bind hread, run_pure, hchars]
  | char data =>
    have hread : BytesUtils.readByte ([data.toByte] ++ rest) = .ok data.toByte rest := rfl
    rw [kind, Kind.read, encoding, run_bind hread, run_pure, ByteChar.ofByte_toByte]
  | uint16 data =>
    have hread := readWord_beBytes isLittleEndian (n := 2) (by omega) data rest
    rw [kind, Kind.read, encoding, BytesUtils.readUInt16, run_bind hread]
    rfl
  | uint64 data =>
    have hread := readWord_beBytes isLittleEndian (n := 8) (by omega) data rest
    rw [kind, Kind.read, encoding, BytesUtils.readUInt64, run_bind hread]
    rfl

/-- What was written is read back, up to what follows. -/
theorem readAll_encodings (ws : List WriteCall) (rest : List Byte) :
    readAll isLittleEndian (ws.map kind) (encodings ws ++ rest) = .ok ws rest := by
  induction ws with
  | nil => rfl
  | cons w ws ih =>
    rw [List.map_cons, readAll, encodings_cons, List.append_assoc,
      run_bind (read_encoding isLittleEndian w _), run_bind ih]
    rfl

/-- A sequence of calls that fits into the array is written and read back exactly when each
block ends in front of the last position of the array. -/
theorem writesThrough_iff {offset : Nat} {ws : List WriteCall} {dest : List Byte}
    (hstart : offset ≤ dest.length) (hfits : (encodings ws).length ≤ dest.length - offset) :
    WritesThrough isLittleEndian offset ws dest ↔ RoomBehind offset ws dest.length := by
  rw [← writeAll_iff isLittleEndian (by omega)]
  refine ⟨WritesThrough.written, fun hwritten => ⟨hwritten, ?_⟩⟩
  have hread := readAll_encodings isLittleEndian ws []
  rw [List.append_nil] at hread
  rw [take_drop_overwrite hstart, hread]

/-- A request's magic number and one character behind it. -/
theorem writesThrough_iff_magic :
    WritesThrough true 0 [.uint64 0x79CB8912, .char ⟨65, by decide⟩] (List.replicate 9 0) ↔
      RoomBehind 0 [.uint64 0x79CB8912, .char ⟨65, by decide⟩]
        (List.replicate 9 (0 : Byte)).length :=
  writesThrough_iff true (by decide) (by decide)

/-- Two bytes do not fit into an array of two. -/
theorem not_writesThrough_exact :
    ¬ ∀ (isLittleEndian : Bool) (dest : List Byte) (offset : Nat) (ws : List WriteCall),
      offset ≤ dest.length → (encodings ws).length ≤ dest.length - offset →
        WritesThrough isLittleEndian offset ws dest := by
  intro h
  have hthrow : writeAll true 0 [.uint16 1] [0, 0] =
      .error (.exception "data too big for dest.") [0, 0] := rfl
  have hwritten := (h true [0, 0] 0 [.uint16 1] (by decide) (by decide)).written
  cases hthrow.symm.trans hwritten

end WriteCall

end BananaApi.Client
