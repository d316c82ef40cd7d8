import BananaApi.Client.Framing

/-!
# Responses with rooms

The calls of `Fill` that the loop of `TcpAdapter.Receiving` makes, and what they return
while a response with rooms is on the stream. The filler takes the number of rooms from
the bytes of the network in the order of the host, and adds the size of the rooms again
wherever a message should end: one with rooms is never returned.
-/

namespace BananaApi.Client

open NetworkMessage (maxMessageSize eventTypeSampleRooms)

/-- What a call of `Fill` returns or throws. -/
abbrev FillResult := Except Fault (Option (List Byte))

/-- The result of a call without the state it leaves. -/
def FillResult.of {σ : Type} : EStateM.Result Fault σ (Option (List Byte)) → FillResult
  | .ok a _ => .ok a
  | .error e _ => .error e

variable (isLittleEndian : Bool)

namespace MessageBytesFiller

/-- Bytes that do not complete a message begin with one that does not. -/
theorem fillAll_cons_none {b : Byte} {bytes : List Byte} {f f' : MessageBytesFiller}
    (h : f.fillAll isLittleEndian (b :: bytes) = .ok none f') :
    ∃ g, f.fill isLittleEndian b = .ok none g ∧
      g.fillAll isLittleEndian bytes = .ok none f' := by
  obtain ⟨a, g, hfill, hrest⟩ := run_bind_eq_ok h
  cases a with
  | none => exact ⟨g, hfill, hrest⟩
  | some buffer => cases hrest

/-- Bytes that fill nothing can be given in two parts. -/
theorem fillAll_append_none {bytes bytes' : List Byte} {f f' : MessageBytesFiller}
    (h : f.fillAll isLittleEndian (bytes ++ bytes') = .ok none f') :
    ∃ g, f.fillAll isLittleEndian bytes = .ok none g ∧
      g.fillAll isLittleEndian bytes' = .ok none f' := by
  induction bytes generalizing f with
  | nil => exact ⟨f, rfl, h⟩
  | cons b bytes ih =>
    obtain ⟨g, hfill, hrest⟩ := fillAll_cons_none isLittleEndian h
    obtain ⟨g', hbytes, hrest⟩ := ih hrest
    refine ⟨g', ?_, hrest⟩
    rw [fillAll, run_bind hfill]
    exact hbytes

end MessageBytesFiller

namespace Receiver

/-- The results of the calls of `Fill` in one round of the loop. -/
def roundFills (r : Receiver) : List FillResult :=
  match r.filler with
  | none =>
    match onStream (BytesUtils.readUInt16 isLittleEndian) r with
    | .error _ _ => []
    | .ok eventType r =>
      match findFiller r.messageBytesFillers eventType with
      | none => []
      | some i =>
        let raw := BitConverter.getBytes isLittleEndian 2 eventType
        match fillAt isLittleEndian i (raw.getD 0 0) r with
        | .error e _ => [.error e]
        | .ok a r => [.ok a, FillResult.of (fillAt isLittleEndian i (raw.getD 1 0) r)]
  | some i =>
    match onStream BytesUtils.readByte r with
    | .error _ _ => []
    | .ok b r => [FillResult.of (fillAt isLittleEndian i b r)]

/-- The results of the calls of `Fill` in a number of rounds. -/
def fills : Nat → Receiver → List FillResult
  | 0, _ => []
  | rounds + 1, r =>
    if r.running = true ∧ r.error = none then
      roundFills isLittleEndian r ++
        match step isLittleEndian r with
        | .ok _ r => fills rounds r
        | .error _ _ => []
    else []

/-- The calls of a round that returns are followed by those of the others. -/
theorem fills_step {r r' : Receiver} (hr : r.running = true) (he : r.error = none)
    (h : step isLittleEndian r = .ok () r') (rounds : Nat) :
    fills isLittleEndian (rounds + 1) r =
      roundFills isLittleEndian r ++ fills isLittleEndian rounds r' := by
  rw [fills, if_pos ⟨hr, he⟩, h]

/-- The calls of a round that throws are the last ones. -/
theorem fills_throw {r r' : Receiver} {e : Fault} (hr : r.running = true)
    (he : r.error = none) (h : step isLittleEndian r = .error e r') (rounds : Nat) :
    fills isLittleEndian (rounds + 1) r = roundFills isLittleEndian r := by
  rw [fills, if_pos ⟨hr, he⟩, h, List.append_nil]

/-- The first call of `Fill` is the one of the first round. -/
theorem fills_one {r : Receiver} (hr : r.running = true) (he : r.error = none) :
    fills isLittleEndian 1 r = roundFills isLittleEndian r := by
  cases h : step isLittleEndian r with
  | ok _ r' => rw [fills_step isLittleEndian hr he h, fills, List.append_nil]
  | error e r' => exact fills_throw isLittleEndian hr he h 0

/-! ## A filler of the list -/

/-- A receiver about to pass the bytes of the stream to the filler at an index. -/
def filling (fillers : List MessageBytesFiller) (i : Nat) (f : MessageBytesFiller)
    (stream : List Byte) : Receiver :=
  ⟨stream, true, none, [], fillers.set i f, some i⟩

section Filling

variable {fillers : List MessageBytesFiller} {i : Nat} (hi : i < fillers.length)
  {f f' : MessageBytesFiller} {b : Byte} {stream : List Byte}

include hi

/-- The filler in use is given a byte. -/
theorem fillAt_set_ok (filler : Option Nat) {a : Option (List Byte)}
    (h : f.fill isLittleEndian b = .ok a f') :
    fillAt isLittleEndian i b ⟨stream, true, none, [], fillers.set i f, filler⟩ =
      .ok a ⟨stream, true, none, [], fillers.set i f', filler⟩ := by
  have hget : (fillers.set i f)[i]? = some f := List.getElem?_set_self hi
  rw [fillAt_ok isLittleEndian hget h, List.set_set]

/-- The filler in use throws on a byte. -/
theorem fillAt_set_error (filler : Option Nat) {e : Fault}
    (h : f.fill isLittleEndian b = .error e f') :
    fillAt isLittleEndian i b ⟨stream, true, none, [], fillers.set i f, filler⟩ =
      .error e ⟨stream, true, none, [], fillers.set i f', filler⟩ := by
  have hget : (fillers.set i f)[i]? = some f := List.getElem?_set_self hi
  rw [fillAt_error isLittleEndian hget h, List.set_set]

/-- A round passes one byte to the filler. -/
theorem roundFills_filling :
    roundFills isLittleEndian (filling fillers i f (b :: stream)) =
      [FillResult.of (f.fill isLittleEndian b)] := by
  have hcall : roundFills isLittleEndian (filling fillers i f (b :: stream)) =
      [FillResult.of (fillAt isLittleEndian i b (filling fillers i f stream))] := rfl
  rw [hcall, filling]
  cases h : f.fill isLittleEndian b with
  | ok a f' =>
    rw [fillAt_set_ok isLittleEndian hi _ h]
    rfl
  | error e f' =>
    rw [fillAt_set_error isLittleEndian hi _ h]
    rfl

/-- A byte that completes no message is a round of its own. -/
theorem step_filling_none (h : f.fill isLittleEndian b = .ok none f') :
    step isLittleEndian (filling fillers i f (b :: stream)) =
      .ok () (filling fillers i f' stream) := by
  have hread : onStream BytesUtils.readByte (filling fillers i f (b :: stream)) =
      .ok b (filling fillers i f stream) := rfl
  rw [step_of_some isLittleEndian rfl, fillOne, run_bind hread, filling,
    run_bind (fillAt_set_ok isLittleEndian hi _ h)]
  rfl

/-- An exception of `Fill` ends the round. -/
theorem step_filling_error {e : Fault} (h : f.fill isLittleEndian b = .error e f') :
    step isLittleEndian (filling fillers i f (b :: stream)) =
      .error e (filling fillers i f' stream) := by
  have hread : onStream BytesUtils.readByte (filling fillers i f (b :: stream)) =
      .ok b (filling fillers i f stream) := rfl
  rw [step_of_some isLittleEndian rfl, fillOne, run_bind hread, filling,
    run_bind_error (fillAt_set_error isLittleEndian hi _ h), filling]

/-- Bytes that do not complete a message take one round each. -/
theorem fills_filling {data : List Byte} (h : f.fillAll isLittleEndian data = .ok none f')
    (rounds : Nat) :
    fills isLittleEndian (data.length + rounds) (filling fillers i f (data ++ stream)) =
      List.replicate data.length (.ok none) ++
        fills isLittleEndian rounds (filling fillers i f' stream) ∧
    receiving isLittleEndian (data.length + rounds) (filling fillers i f (data ++ stream)) =
      receiving isLittleEndian rounds (filling fillers i f' stream) := by
  induction data generalizing f with
  | nil =>
    cases h
    rw [List.length_nil, Nat.zero_add]
    exact ⟨rfl, rfl⟩
  | cons b data ih =>
    obtain ⟨g, hfill, hrest⟩ := MessageBytesFiller.fillAll_cons_none isLittleEndian h
    obtain ⟨hfills, hreceiving⟩ := ih hrest
    have hstep : step isLittleEndian (filling fillers i f (b :: (data ++ stream))) =
        .ok () (filling fillers i g (data ++ stream)) :=
      step_filling_none isLittleEndian hi hfill
    rw [List.length_cons, show data.length + 1 + rounds = data.length + rounds + 1 by omega,
      List.cons_append]
    constructor
    · rw [fills_step isLittleEndian rfl rfl hstep, roundFills_filling isLittleEndian hi,
        hfills, hfill, List.replicate_succ]
      rfl
    · rw [receiving_step isLittleEndian rfl rfl hstep, hreceiving]

end Filling

/-- An event type selects a filler, which gets its two bytes. -/
theorem fills_start {fillers : List MessageBytesFiller} {eventType : Word 2} {i : Nat}
    {f f' : MessageBytesFiller} (hfind : findFiller fillers eventType = some i)
    (hi : fillers[i]? = some f)
    (h : f.fillAll isLittleEndian (BitConverter.getBytes isLittleEndian 2 eventType) =
      .ok none f') (stream : List Byte) (rounds : Nat) :
    fills isLittleEndian (1 + rounds) (start (beBytes 2 eventType ++ stream) fillers) =
      List.replicate 2 (.ok none) ++
        fills isLittleEndian rounds (filling fillers i f' stream) ∧
    receiving isLittleEndian (1 + rounds) (start (beBytes 2 eventType ++ stream) fillers) =
      receiving isLittleEndian rounds (filling fillers i f' stream) := by
  obtain ⟨hlt, hget⟩ := List.getElem?_eq_some_iff.mp hi
  obtain ⟨b₀, b₁, hraw⟩ : ∃ b₀ b₁, BitConverter.getBytes isLittleEndian 2 eventType = [b₀, b₁] :=
    List.length_eq_two.mp (BitConverter.length_getBytes ..)
  rw [hraw] at h
  obtain ⟨f₀, hfill₀, h⟩ := MessageBytesFiller.fillAll_cons_none isLittleEndian h
  obtain ⟨f₁, hfill₁, h⟩ := MessageBytesFiller.fillAll_cons_none isLittleEndian h
  cases h
  have hset : fillers = fillers.set i f := by rw [← hget, List.set_getElem_self]
  have hfound : findFiller (fillers.set i f) eventType = some i := by rw [← hset, hfind]
  have hat₀ (filler : Option Nat) :
      fillAt isLittleEndian i b₀ ⟨stream, true, none, [], fillers.set i f, filler⟩ =
        .ok none ⟨stream, true, none, [], fillers.set i f₀, filler⟩ :=
    fillAt_set_ok isLittleEndian hlt filler hfill₀
  have hat₁ (filler : Option Nat) :
      fillAt isLittleEndian i b₁ ⟨stream, true, none, [], fillers.set i f₀, filler⟩ =
        .ok none ⟨stream, true, none, [], fillers.set i f', filler⟩ :=
    fillAt_set_ok isLittleEndian hlt filler hfill₁
  have hread : onStream (BytesUtils.readUInt16 isLittleEndian)
      (start (beBytes 2 eventType ++ stream) fillers) =
        .ok eventType ⟨stream, true, none, [], fillers.set i f, none⟩ := by
    rw [← hset]
    exact onStream_readUInt16 isLittleEndian rfl
  have hnone : (start (beBytes 2 eventType ++ stream) fillers).filler = none := rfl
  have hstep : step isLittleEndian (start (beBytes 2 eventType ++ stream) fillers) =
      .ok () (filling fillers i f' stream) := by
    have hat := hat₀ (some i)
    rw [← hset] at hat
    exact step_select isLittleEndian hnone rfl hfind hraw hat (hat₁ (some i))
  have hround : roundFills isLittleEndian (start (beBytes 2 eventType ++ stream) fillers) =
      List.replicate 2 (.ok none) := by
    simp only [roundFills, hnone, hread, hfound, hraw, List.getD_cons_zero,
      List.getD_cons_succ, hat₀, hat₁]
    rfl
  rw [Nat.add_comm]
  constructor
  · rw [fills_step isLittleEndian rfl rfl hstep, hround]
  · exact receiving_step isLittleEndian rfl rfl hstep rounds

/-! ## A filler of rooms -/

/-- The number of rooms the filler reads for a number on the network. -/
def roomsRead (numberOfRooms : Word 2) : Word 2 :=
  BitConverter.ofBytes isLittleEndian 2 (beBytes 2 numberOfRooms)

/-- The first four bytes of a response with rooms, as the filler holds them. -/
def roomsHeader (numberOfRooms : Word 2) : List Byte :=
  BitConverter.getBytes isLittleEndian 2 eventTypeSampleRooms ++ beBytes 2 numberOfRooms

/-- A filler of rooms behind these bytes. -/
def holdingRooms (numberOfRooms : Word 2) (size : Nat) (bytes : List Byte) :
    MessageBytesFiller :=
  ⟨.sampleRoomsResponse, size, roomsHeader isLittleEndian numberOfRooms ++ bytes⟩

section Rooms

variable (numberOfRooms : Word 2)

theorem length_roomsHeader : (roomsHeader isLittleEndian numberOfRooms).length = 4 := by
  rw [roomsHeader, List.length_append, BitConverter.length_getBytes, length_beBytes]

/-- No rooms are read exactly where none are announced. -/
theorem roomsRead_eq_zero_iff : roomsRead isLittleEndian numberOfRooms = 0 ↔
    numberOfRooms = 0 := by
  have hzero : roomsRead isLittleEndian 0 = 0 := by cases isLittleEndian <;> decide
  constructor
  · intro h
    have hbytes : beBytes 2 numberOfRooms = beBytes 2 0 := by
      have hlen := fun n : Word 2 => length_beBytes 2 n
      rw [← BitConverter.getBytes_ofBytes isLittleEndian (hlen numberOfRooms),
        ← BitConverter.getBytes_ofBytes isLittleEndian (hlen 0)]
      exact congrArg _ (h.trans hzero.symm)
    have hle : leBytes 2 numberOfRooms = leBytes 2 0 := List.reverse_injective hbytes
    rw [← ofLeBytes_leBytes 2 numberOfRooms, hle, ofLeBytes_leBytes]
  · rintro rfl
    exact hzero

/-- The number of rooms is taken from the header. -/
theorem getVariablePartMessageSize_rooms (bytes : List Byte) :
    FillerClass.sampleRoomsResponse.getVariablePartMessageSize isLittleEndian
        (roomsHeader isLittleEndian numberOfRooms ++ bytes) =
      .ok ((roomsRead isLittleEndian numberOfRooms).toNat * 4) := by
  have hrooms := BitConverter.toWord_append isLittleEndian (n := 2) (by omega)
    (BitConverter.getBytes isLittleEndian 2 eventTypeSampleRooms) (beBytes 2 numberOfRooms) bytes
    (length_beBytes 2 numberOfRooms)
  rw [BitConverter.length_getBytes] at hrooms
  rw [FillerClass.getVariablePartMessageSize, roomsHeader, hrooms]
  rfl

/-- The header is filled in without a result. -/
theorem fillAll_roomsHeader :
    (MessageBytesFiller.new .sampleRoomsResponse).fillAll isLittleEndian
        (roomsHeader isLittleEndian numberOfRooms) =
      .ok none (holdingRooms isLittleEndian numberOfRooms 5 []) := by
  obtain ⟨b₀, b₁, b₂, b₃, hheader⟩ : ∃ b₀ b₁ b₂ b₃,
      roomsHeader isLittleEndian numberOfRooms = [b₀, b₁, b₂, b₃] :=
    List.length_eq_four.mp (length_roomsHeader ..)
  rw [holdingRooms, hheader]
  rfl

variable {isLittleEndian numberOfRooms}

/-- A byte that ends neither part of the message. -/
theorem fill_rooms_of_ne (b : Byte) {size : Nat} {bytes : List Byte} (hlt : 4 + bytes.length < size)
    (hne : 4 + bytes.length + 1 ≠ size) :
    (holdingRooms isLittleEndian numberOfRooms size bytes).fill isLittleEndian b =
      (holdingRooms isLittleEndian numberOfRooms size (bytes ++ [b])).finish := by
  have hsize : size ≠ 0 := by omega
  have htested : (holdingRooms isLittleEndian numberOfRooms size bytes).testedSize = size :=
    if_neg hsize
  have hlen : (holdingRooms isLittleEndian numberOfRooms size bytes).buffer.length =
      4 + bytes.length := by rw [holdingRooms, List.length_append, length_roomsHeader]
  rw [MessageBytesFiller.fill_of_ne isLittleEndian b (by rw [hlen, htested]; exact hne), htested,
    holdingRooms, holdingRooms, List.append_assoc]

/-- A byte that ends a part of the message adds the size of the rooms. -/
theorem fill_rooms_of_eq (b : Byte) {bytes : List Byte} :
    (holdingRooms isLittleEndian numberOfRooms (4 + bytes.length + 1) bytes).fill
        isLittleEndian b =
      (holdingRooms isLittleEndian numberOfRooms
        (4 + bytes.length + 1 + (roomsRead isLittleEndian numberOfRooms).toNat * 4)
        (bytes ++ [b])).finish := by
  have hlen : (roomsHeader isLittleEndian numberOfRooms ++ bytes).length = 4 + bytes.length := by
    rw [List.length_append, length_roomsHeader]
  have hmore := getVariablePartMessageSize_rooms isLittleEndian numberOfRooms (bytes ++ [b])
  rw [← List.append_assoc] at hmore
  have hfill := MessageBytesFiller.fill_of_eq isLittleEndian b
    (f := holdingRooms isLittleEndian numberOfRooms (4 + bytes.length + 1) bytes)
    (congrArg (· + 1) hlen) hmore
  rw [hfill]
  simp only [holdingRooms, List.append_assoc]
  rfl

/-- A filler that has read a number of rooms never gets to the size it awaits. -/
theorem fill_rooms (b : Byte) (hrooms : numberOfRooms ≠ 0) {size : Nat} {bytes : List Byte}
    (hlt : 4 + bytes.length < size) :
    (∃ e f, (holdingRooms isLittleEndian numberOfRooms size bytes).fill isLittleEndian b =
        .error e f) ∨
      ∃ size', 4 + (bytes ++ [b]).length < size' ∧
        (holdingRooms isLittleEndian numberOfRooms size bytes).fill isLittleEndian b =
          .ok none (holdingRooms isLittleEndian numberOfRooms size' (bytes ++ [b])) := by
  have hfinish : ∀ size', 4 + (bytes ++ [b]).length < size' →
      (∃ e f, (holdingRooms isLittleEndian numberOfRooms size' (bytes ++ [b])).finish =
        .error e f) ∨
      (holdingRooms isLittleEndian numberOfRooms size' (bytes ++ [b])).finish =
        .ok none (holdingRooms isLittleEndian numberOfRooms size' (bytes ++ [b])) := by
    intro size' hsize'
    have hne : size' ≠ (roomsHeader isLittleEndian numberOfRooms ++ (bytes ++ [b])).length := by
      rw [List.length_append, length_roomsHeader]
      omega
    unfold MessageBytesFiller.finish holdingRooms
    by_cases hbig : size' > maxMessageSize
    · exact Or.inl ⟨_, _, if_pos hbig⟩
    · exact Or.inr (by rw [if_neg hbig, if_neg hne])
  have hlen : (bytes ++ [b]).length = bytes.length + 1 := List.length_append
  by_cases heq : 4 + bytes.length + 1 = size
  · subst heq
    have hread : roomsRead isLittleEndian numberOfRooms ≠ 0 :=
      mt (roomsRead_eq_zero_iff isLittleEndian numberOfRooms).mp hrooms
    have hpos : 0 < (roomsRead isLittleEndian numberOfRooms).toNat :=
      Nat.pos_of_ne_zero fun h => hread (BitVec.eq_of_toNat_eq h)
    rw [fill_rooms_of_eq b]
    exact (hfinish _ (by omega)).imp_right fun h => ⟨_, by omega, h⟩
  · rw [fill_rooms_of_ne b hlt heq]
    exact (hfinish size (by omega)).imp_right fun h => ⟨size, by omega, h⟩

/-- No call returns a message to the loop once a number of rooms was read. -/
theorem fills_rooms {fillers : List MessageBytesFiller} {i : Nat} (hi : i < fillers.length)
    (hrooms : numberOfRooms ≠ 0) (rounds : Nat) {size : Nat} {bytes : List Byte}
    (hlt : 4 + bytes.length < size) (stream message : List Byte) :
    .ok (some message) ∉ fills isLittleEndian rounds (filling fillers i
      (holdingRooms isLittleEndian numberOfRooms size bytes) stream) := by
  induction rounds generalizing size bytes stream with
  | zero => exact List.not_mem_nil
  | succ rounds ih =>
    cases stream with
    | nil =>
      have hnone : fills isLittleEndian (rounds + 1) (filling fillers i
          (holdingRooms isLittleEndian numberOfRooms size bytes) []) = [] := rfl
      rw [hnone]
      exact List.not_mem_nil
    | cons b stream =>
      have hround : roundFills isLittleEndian (filling fillers i
          (holdingRooms isLittleEndian numberOfRooms size bytes) (b :: stream)) =
            [FillResult.of ((holdingRooms isLittleEndian numberOfRooms size bytes).fill
              isLittleEndian b)] := roundFills_filling isLittleEndian hi
      obtain ⟨e, f, hfill⟩ | ⟨size', hlt', hfill⟩ :=
        @fill_rooms isLittleEndian numberOfRooms b hrooms size bytes hlt
      · rw [fills_throw isLittleEndian rfl rfl (step_filling_error isLittleEndian hi hfill),
          hround, hfill, List.mem_singleton]
        exact nofun
      · rw [fills_step isLittleEndian rfl rfl (step_filling_none isLittleEndian hi hfill),
          hround, hfill, List.mem_append, List.mem_singleton, not_or]
        exact ⟨nofun, ih hlt' stream⟩

end Rooms

/-! ## Responses on the stream -/

/-- The size of a response with a number of rooms. -/
def roomsSize (numberOfRooms : Word 2) : Nat := 5 + 4 * numberOfRooms.toNat

/-- A response with rooms is returned with its last byte if it is small enough, and refused
with the byte in front of its rooms if it is not. -/
def ReceivesRooms (fillers : List MessageBytesFiller) (numberOfRooms : Word 2) (flag : Byte)
    (rooms : List.Vector Byte (4 * numberOfRooms.toNat)) (rest : List Byte) : Prop :=
  let r := start (beBytes 2 eventTypeSampleRooms ++ (beBytes 2 numberOfRooms ++
    flag :: (rooms.toList ++ rest))) fillers
  let size := roomsSize numberOfRooms
  -- the first round makes two calls, and every other one
  (size ≤ maxMessageSize → ∃ buffer, buffer.length = size ∧
    fills isLittleEndian (size - 1) r =
      List.replicate (size - 1) (.ok none) ++ [.ok (some buffer)]) ∧
  (maxMessageSize < size → (∃ e, fills isLittleEndian 4 r =
      List.replicate 4 (.ok none) ++ [.error e]) ∧
    (receiving isLittleEndian 4 r).networkStream = rooms.toList ++ rest)

section Responses

variable {fillers : List MessageBytesFiller} {i : Nat}
  (hfind : findFiller fillers eventTypeSampleRooms = some i)
  (hi : fillers[i]? = some (.new .sampleRoomsResponse)) (numberOfRooms : Word 2) (flag : Byte)

include hfind hi

/-- Three rounds fill in the header. -/
theorem fills_roomsHeader (stream : List Byte) (rounds : Nat) :
    fills isLittleEndian (3 + rounds) (start (beBytes 2 eventTypeSampleRooms ++
        (beBytes 2 numberOfRooms ++ stream)) fillers) =
      List.replicate 4 (.ok none) ++ fills isLittleEndian rounds (filling fillers i
        (holdingRooms isLittleEndian numberOfRooms 5 []) stream) ∧
    receiving isLittleEndian (3 + rounds) (start (beBytes 2 eventTypeSampleRooms ++
        (beBytes 2 numberOfRooms ++ stream)) fillers) =
      receiving isLittleEndian rounds (filling fillers i
        (holdingRooms isLittleEndian numberOfRooms 5 []) stream) := by
  obtain ⟨g, hevent, hnumber⟩ := MessageBytesFiller.fillAll_append_none isLittleEndian
    (fillAll_roomsHeader isLittleEndian numberOfRooms)
  obtain ⟨hlt, -⟩ := List.getElem?_eq_some_iff.mp hi
  have hstart := fills_start isLittleEndian hfind hi hevent
    (beBytes 2 numberOfRooms ++ stream) (2 + rounds)
  have hfills := @fills_filling isLittleEndian fillers i hlt _ _ stream _ hnumber rounds
  rw [length_beBytes] at hfills
  rw [← Nat.add_assoc] at hstart
  constructor
  · rw [hstart.1, hfills.1, ← List.append_assoc, ← List.replicate_add]
  · rw [hstart.2, hfills.2]

/-- The fifth byte is compared with the largest size. -/
theorem fills_flag (stream : List Byte) :
    let r := start (beBytes 2 eventTypeSampleRooms ++ (beBytes 2 numberOfRooms ++
      flag :: stream)) fillers
    let f := holdingRooms isLittleEndian numberOfRooms
      (roomsSize (roomsRead isLittleEndian numberOfRooms)) [flag]
    fills isLittleEndian 4 r = List.replicate 4 (.ok none) ++ [FillResult.of f.finish] ∧
      (∀ e f', f.finish = .error e f' →
        (receiving isLittleEndian 4 r).networkStream = stream) := by
  obtain ⟨hlt, -⟩ := List.getElem?_eq_some_iff.mp hi
  obtain ⟨hfills, hreceiving⟩ := fills_roomsHeader isLittleEndian hfind hi numberOfRooms
    (flag :: stream) 1
  have hfill : (holdingRooms isLittleEndian numberOfRooms 5 []).fill isLittleEndian flag =
      (holdingRooms isLittleEndian numberOfRooms
        (roomsSize (roomsRead isLittleEndian numberOfRooms)) [flag]).finish := by
    rw [roomsSize, Nat.mul_comm]
    exact @fill_rooms_of_eq isLittleEndian numberOfRooms flag []
  refine ⟨?_, fun e f' herror => ?_⟩
  · rw [hfills, fills_one isLittleEndian rfl rfl, roundFills_filling isLittleEndian hlt, hfill]
  · rw [herror] at hfill
    rw [hreceiving, receiving_throw isLittleEndian rfl rfl
      (step_filling_error isLittleEndian hlt hfill)]
    rfl

/-- A response with rooms arrives as it should exactly when it has no rooms, or is too big and
has too many rooms also in the order in which the filler reads their number. -/
theorem receivesRooms_iff (rooms : List.Vector Byte (4 * numberOfRooms.toNat))
    (rest : List Byte) :
    ReceivesRooms isLittleEndian fillers numberOfRooms flag rooms rest ↔
      numberOfRooms = 0 ∨ maxMessageSize < roomsSize numberOfRooms ∧
        maxMessageSize < roomsSize (roomsRead isLittleEndian numberOfRooms) := by
  obtain ⟨hlt, -⟩ := List.getElem?_eq_some_iff.mp hi
  obtain ⟨hflag, hstream⟩ := fills_flag isLittleEndian hfind hi numberOfRooms flag
    (rooms.toList ++ rest)
  unfold ReceivesRooms
  constructor
  · rintro ⟨hsmall, hbig⟩
    refine or_iff_not_imp_left.mpr fun hrooms => ?_
    by_cases hsize : maxMessageSize < roomsSize numberOfRooms
    · obtain ⟨⟨e, he⟩, -⟩ := hbig hsize
      have hthrow := List.append_cancel_left (hflag.symm.trans he)
      refine ⟨hsize, ?_⟩
      by_contra hread
      rw [MessageBytesFiller.finish, if_neg (by exact hread)] at hthrow
      cases hthrow
    · obtain ⟨buffer, -, hfills⟩ := hsmall (not_lt.mp hsize)
      have hcount : roomsSize numberOfRooms - 1 = 3 + (roomsSize numberOfRooms - 4) := by
        rw [roomsSize]
        omega
      have hmem : FillResult.of (.ok (some buffer) ()) ∈ List.replicate 4 (.ok none) ++
          fills isLittleEndian (roomsSize numberOfRooms - 4) (filling fillers i
            (holdingRooms isLittleEndian numberOfRooms 5 [])
            (flag :: (rooms.toList ++ rest))) := by
        rw [← (fills_roomsHeader isLittleEndian hfind hi numberOfRooms _ _).1, ← hcount, hfills]
        exact List.mem_append_right _ (List.mem_singleton_self _)
      rcases List.mem_append.mp hmem with hheader | hlater
      · cases List.eq_of_mem_replicate hheader
      · exact absurd hlater (fills_rooms hlt hrooms _ (by decide) _ _)
  · rintro (rfl | ⟨hsize, hread⟩)
    · have hlen : (roomsHeader isLittleEndian 0 ++ [flag]).length = 5 := by
        rw [List.length_append, length_roomsHeader, List.length_singleton]
      have hfinish : (holdingRooms isLittleEndian 0
          (roomsSize (roomsRead isLittleEndian 0)) [flag]).finish =
            .ok (some (roomsHeader isLittleEndian 0 ++ [flag]))
              (holdingRooms isLittleEndian 0 5 [flag]) := by
        have hsmall : ¬ 5 > maxMessageSize := by decide
        have hsize : roomsSize 0 = 5 := rfl
        rw [(roomsRead_eq_zero_iff isLittleEndian 0).mpr rfl, hsize, holdingRooms,
          MessageBytesFiller.finish, if_neg hsmall, if_pos hlen.symm]
      rw [hfinish] at hflag
      exact ⟨fun _ => ⟨_, hlen, hflag⟩, fun hbig => absurd hbig (by decide)⟩
    · have hfinish : (holdingRooms isLittleEndian numberOfRooms
          (roomsSize (roomsRead isLittleEndian numberOfRooms)) [flag]).finish =
            .error (.exception "Message to be filled is too big.")
              (holdingRooms isLittleEndian numberOfRooms
                (roomsSize (roomsRead isLittleEndian numberOfRooms)) [flag]) := if_pos hread
      rw [hfinish] at hflag
      exact ⟨fun hsmall => absurd hsize (not_lt.mpr hsmall),
        fun _ => ⟨⟨_, hflag⟩, hstream _ _ hfinish⟩⟩

end Responses

/-- A response without rooms, with the fillers of the public constructor. -/
theorem receivesRooms_iff_no_rooms :
    ReceivesRooms true defaultFillers 0 0 ⟨[], rfl⟩ [] ↔
      (0 : Word 2) = 0 ∨ maxMessageSize < roomsSize 0 ∧
        maxMessageSize < roomsSize (roomsRead true 0) :=
  receivesRooms_iff true (i := 1) rfl rfl 0 0 ⟨[], rfl⟩ []

/-- The number 1 of rooms is read as 256. -/
theorem not_receivesRooms_one :
    ¬ ∀ (numberOfRooms : Word 2) (flag : Byte)
      (rooms : List.Vector Byte (4 * numberOfRooms.toNat)) (rest : List Byte),
      ReceivesRooms true defaultFillers numberOfRooms flag rooms rest := by
  intro h
  obtain ⟨buffer, -, hfills⟩ := (h 1 0 ⟨[1, 2, 3, 4], rfl⟩ []).1 (by decide)
  have hnone : fills true 8 (start [0, 7, 0, 1, 0, 1, 2, 3, 4] defaultFillers) =
      List.replicate 9 (.ok none) := rfl
  cases hnone.symm.trans hfills

end Receiver

end BananaApi.Client
