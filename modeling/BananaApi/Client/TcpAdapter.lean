import BananaApi.Client.BananaMessage

/-!
# The receiving thread

The loop of `TcpAdapter.Receiving` over a connected stream. An event type selects a
filler from the adapter's list, later fillers taking precedence, and the filler gets
the bytes of the event type in the order of the host; then it gets one byte after
another until it delivers the message. An exception ends the loop.
-/

namespace BananaApi.Client

/-- The fields of the adapter the thread uses, and its local variable `filler`, which
refers to an object in the list. -/
structure Receiver where
  networkStream : List Byte
  running : Bool
  error : Option Fault
  receivingQueue : List NetworkMessage
  messageBytesFillers : List MessageBytesFiller
  filler : Option Nat

namespace Receiver

/-- The fillers of the public constructor. -/
def defaultFillers : List MessageBytesFiller :=
  [.new .connectServerResponse, .new .sampleRoomsResponse]

/-- A started adapter over the given bytes, about to receive. -/
def start (networkStream : List Byte) (fillers : List MessageBytesFiller) : Receiver :=
  ⟨networkStream, true, none, [], fillers, none⟩

/-- The `foreach` over the fillers. -/
def findFiller (fillers : List MessageBytesFiller) (eventType : Word 2) : Option Nat :=
  fillers.zipIdx.foldl
    (fun found p => if p.1.fillerClass.eventType = eventType then some p.2 else found) none

/-- Use the network stream. -/
def onStream {α : Type} (x : Run (List Byte) α) : Run Receiver α := fun r =>
  match x r.networkStream with
  | .ok a stream => .ok a { r with networkStream := stream }
  | .error e stream => .error e { r with networkStream := stream }

variable (isLittleEndian : Bool)

/-- Call `Fill` on a filler of the list. -/
def fillAt (i : Nat) (b : Byte) : Run Receiver (Option (List Byte)) := fun r =>
  match r.messageBytesFillers[i]? with
  | none => .error .indexOutOfRange r
  | some f =>
    match f.fill isLittleEndian b with
    | .ok a f => .ok a { r with messageBytesFillers := r.messageBytesFillers.set i f }
    | .error e f => .error e { r with messageBytesFillers := r.messageBytesFillers.set i f }

section Calls

variable {r : Receiver} {i : Nat} {b : Byte} {f f' : MessageBytesFiller}

/-- A call of `Fill` that returns changes the filler it is given to. -/
theorem fillAt_ok (hi : r.messageBytesFillers[i]? = some f) {a : Option (List Byte)}
    (h : f.fill isLittleEndian b = .ok a f') :
    fillAt isLittleEndian i b r =
      .ok a { r with messageBytesFillers := r.messageBytesFillers.set i f' } := by
  simp only [fillAt, hi, h]

/-- A call of `Fill` that throws changes the filler as well. -/
theorem fillAt_error (hi : r.messageBytesFillers[i]? = some f) {e : Fault}
    (h : f.fill isLittleEndian b = .error e f') :
    fillAt isLittleEndian i b r =
      .error e { r with messageBytesFillers := r.messageBytesFillers.set i f' } := by
  simp only [fillAt, hi, h]

/-- The bytes of an event type on the stream are read as the event type. -/
theorem onStream_readUInt16 {eventType : Word 2} {stream : List Byte}
    (h : r.networkStream = beBytes 2 eventType ++ stream) :
    onStream (BytesUtils.readUInt16 isLittleEndian) r =
      .ok eventType { r with networkStream := stream } := by
  have hword := BytesUtils.readWord_append isLittleEndian (n := 2) (by omega)
    (length_beBytes 2 eventType) stream
  rw [beBytes, List.reverse_reverse, ofLeBytes_leBytes] at hword
  rw [beBytes] at h
  simp only [onStream, BytesUtils.readUInt16, h, hword]

end Calls

/-- The branch without a filler: read an event type and select one. -/
def selectFiller : Run Receiver Unit := do
  let eventType ← onStream (BytesUtils.readUInt16 isLittleEndian)
  let r ← get
  match findFiller r.messageBytesFillers eventType with
  | none => throw (.exception ("Could not find a filler for " ++ toString eventType.toNat))
  | some i =>
    modify fun r => { r with filler := some i }
    let raw := BitConverter.getBytes isLittleEndian 2 eventType
    let _ ← fillAt isLittleEndian i (raw.getD 0 0)
    let _ ← fillAt isLittleEndian i (raw.getD 1 0)

/-- The branch with a filler: pass it one byte. -/
def fillOne (i : Nat) : Run Receiver Unit := do
  let b ← onStream BytesUtils.readByte
  let buffer ← fillAt isLittleEndian i b
  match buffer with
  | none => pure ()
  | some buffer =>
    let message ← liftExcept (deserializeResponse isLittleEndian buffer)
    modify fun r => { r with receivingQueue := r.receivingQueue ++ [message], filler := none }

/-- The body of the loop. -/
def step : Run Receiver Unit := do
  let r ← get
  match r.filler with
  | none => selectFiller isLittleEndian
  | some i => fillOne isLittleEndian i

/-- Without a filler a round selects one. -/
theorem step_of_none {r : Receiver} (h : r.filler = none) :
    step isLittleEndian r = selectFiller isLittleEndian r := by
  simp only [step, run_get_bind, h]

/-- With a filler a round fills it. -/
theorem step_of_some {r : Receiver} {i : Nat} (h : r.filler = some i) :
    step isLittleEndian r = fillOne isLittleEndian i r := by
  simp only [step, run_get_bind, h]

/-- The event type selects a filler, which gets its two bytes in the order of the host. -/
theorem step_select {r r₀ r₁ : Receiver} {eventType : Word 2} {stream : List Byte} {i : Nat}
    {b₀ b₁ : Byte} {a₀ a₁ : Option (List Byte)} (hnone : r.filler = none)
    (hstream : r.networkStream = beBytes 2 eventType ++ stream)
    (hfind : findFiller r.messageBytesFillers eventType = some i)
    (hraw : BitConverter.getBytes isLittleEndian 2 eventType = [b₀, b₁])
    (h₀ : fillAt isLittleEndian i b₀ { r with networkStream := stream, filler := some i } =
      .ok a₀ r₀) (h₁ : fillAt isLittleEndian i b₁ r₀ = .ok a₁ r₁) :
    step isLittleEndian r = .ok () r₁ := by
  have hread := onStream_readUInt16 isLittleEndian hstream
  rw [step_of_none isLittleEndian hnone, selectFiller, run_bind hread, run_get_bind]
  simp only [hfind, hraw, run_modify_bind, List.getD_cons_zero, List.getD_cons_succ]
  rw [run_bind h₀, run_bind h₁]
  rfl

/-- A number of rounds of the loop; an exception is kept in `error`. -/
def receiving : Nat → Receiver → Receiver
  | 0, r => r
  | rounds + 1, r =>
    if r.running = true ∧ r.error = none then
      match step isLittleEndian r with
      | .ok _ r => receiving rounds r
      | .error e r => { r with error := some e }
    else r

/-- A round that returns is followed by the others. -/
theorem receiving_step {r r' : Receiver} (hr : r.running = true) (he : r.error = none)
    (h : step isLittleEndian r = .ok () r') (rounds : Nat) :
    receiving isLittleEndian (rounds + 1) r = receiving isLittleEndian rounds r' := by
  rw [receiving, if_pos ⟨hr, he⟩, h]

/-- A round that throws is the last one. -/
theorem receiving_throw {r r' : Receiver} {e : Fault} (hr : r.running = true)
    (he : r.error = none) (h : step isLittleEndian r = .error e r') (rounds : Nat) :
    receiving isLittleEndian (rounds + 1) r = { r' with error := some e } := by
  rw [receiving, if_pos ⟨hr, he⟩, h]

end Receiver

end BananaApi.Client
