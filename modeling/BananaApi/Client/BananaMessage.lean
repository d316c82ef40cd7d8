import BananaApi.Client.BytesUtils
import BananaApi.Client.NetworkAdapter

/-!
# Serialization and message fillers

How requests become bytes and bytes become responses, and the fillers that collect
the bytes of one message. C# picks the overload of `WritePrimitiveBytes` by the type
of its argument: there is none for `uint`, so the magic number is widened to a `ulong`.
A filler is an object that keeps its bytes and its size from one call to the next.
-/

namespace BananaApi.Client

open NetworkMessage (maxMessageSize eventTypeConnectServer eventTypeSampleRooms)

section SerializationUtils

variable (isLittleEndian : Bool)

/-- The size of the buffer `SerializeRequest` allocates. -/
def requestSize : Nat := 2 + 4 + 1 + 256 + 256

/-- The writes of `SerializeRequest`, from the start of a buffer. -/
def writeRequest (request : ConnectServerRequest) : Run (List Byte) Unit := do
  let offset ← BytesUtils.writeUInt16 isLittleEndian 0 request.eventType
  let offset ← BytesUtils.writeUInt64 isLittleEndian offset (request.magicNumber.setWidth _)
  let offset ← BytesUtils.writeChar offset request.authType
  let offset ← BytesUtils.writeArrayBytes offset request.username
  let zeros ← liftExcept (BytesUtils.zeros (256 - request.username.length))
  let offset ← BytesUtils.writeBytes offset zeros
  let offset ← BytesUtils.writeArrayBytes offset request.password
  let zeros ← liftExcept (BytesUtils.zeros (256 - request.password.length))
  let offset ← BytesUtils.writeBytes offset zeros
  if offset ≠ requestSize then throw (.exception "Message size is not matched")

/-- The bytes of a request, of which there is one class that can be sent. -/
def serializeRequest : NetworkMessage → Except Fault (List Byte)
  | .connectServerRequest request =>
    match writeRequest isLittleEndian request (List.replicate requestSize 0) with
    | .ok _ buffer => .ok buffer
    | .error e _ => .error e
  | .connectServerResponse _ =>
    .error (.exception "Unsupported type: BananaClient.ConnectServerResponse")

/-- The response a message stands for; its integers are read in the order of the host. -/
def deserializeResponse (data : List Byte) : Except Fault NetworkMessage := do
  let eventType ← BitConverter.toWord isLittleEndian 2 data 0
  if eventType = eventTypeConnectServer then
    let sessionId ← BytesUtils.slice data 2 20
    let userId ← BitConverter.toWord isLittleEndian 8 data 22
    match data[30]? with
    | some errorCode => .ok (.connectServerResponse ⟨eventType, sessionId, userId, errorCode⟩)
    | none => .error .indexOutOfRange
  else .error (.exception "Unknown NetworkMessage")

end SerializationUtils

/-- The classes derived from `IMessageBytesFiller`. -/
inductive FillerClass where
  | connectServerResponse | sampleRoomsResponse
  deriving DecidableEq, Repr

namespace FillerClass

/-- The event type at the front of a message, by which its filler is found. -/
def eventType : FillerClass → Word 2
  | connectServerResponse => eventTypeConnectServer
  | sampleRoomsResponse => eventTypeSampleRooms

/-- The part of a message whose size does not depend on its content. -/
def getFixedPartMessageSize : FillerClass → Nat
  | connectServerResponse => 2 + 20 + 8 + 1
  | sampleRoomsResponse => 2 + 2 + 1

/-- What follows the fixed part: 4 bytes for each room. -/
def getVariablePartMessageSize (isLittleEndian : Bool) :
    FillerClass → List Byte → Except Fault Nat
  | connectServerResponse, _ => .ok 0
  | sampleRoomsResponse, fixedPart => do
    let numberOfRooms ← BitConverter.toWord isLittleEndian 2 fixedPart 2
    .ok (numberOfRooms.toNat * 4)

end FillerClass

/-- A filler object. -/
structure MessageBytesFiller where
  fillerClass : FillerClass
  messageSize : Nat
  buffer : List Byte
  deriving DecidableEq, Repr

namespace MessageBytesFiller

/-- A filler as its constructor leaves it. -/
def new (fillerClass : FillerClass) : MessageBytesFiller := ⟨fillerClass, 0, []⟩

/-- `Fill`: the message when its last byte arrives, nothing before. -/
def fill (isLittleEndian : Bool) (b : Byte) : Run MessageBytesFiller (Option (List Byte)) := do
  let f ← get
  if f.messageSize = 0 then
    modify fun f => { f with messageSize := f.fillerClass.getFixedPartMessageSize }
  modify fun f => { f with buffer := f.buffer ++ [b] }
  let f ← get
  if f.buffer.length = f.messageSize then
    let more ← liftExcept (f.fillerClass.getVariablePartMessageSize isLittleEndian f.buffer)
    modify fun f => { f with messageSize := f.messageSize + more }
  let f ← get
  if f.messageSize > maxMessageSize then
    throw (.exception "Message to be filled is too big.")
  if f.messageSize = f.buffer.length then return some f.buffer else return none

end MessageBytesFiller

end BananaApi.Client
