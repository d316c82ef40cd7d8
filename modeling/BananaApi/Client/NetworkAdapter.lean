import BananaApi.Client.BitConverter

/-!
# Network messages

The messages of the client and the constants they are recognized by. A request
carries the bounds its constructor checks, so an unchecked request cannot be built.
-/

namespace BananaApi.Client

namespace NetworkMessage

/-- The size from which on a message is refused. -/
def maxMessageSize : Nat := 65535

/-- The event type of requests and responses of `ConnectServer`. -/
def eventTypeConnectServer : Word 2 := 0x0005

/-- The event type of a response with rooms. -/
def eventTypeSampleRooms : Word 2 := 0x0007

end NetworkMessage

/-- A request as its constructor lets it pass; characters have 16 bits. -/
structure ConnectServerRequest where
  eventType : Word 2
  magicNumber : Word 4
  authType : Word 2
  username : List (Word 2)
  password : List (Word 2)
  username_le : username.length ≤ 256
  password_le : password.length ≤ 256

/-- The constructor of `ConnectServerRequest`. -/
def ConnectServerRequest.new (eventType : Word 2) (magicNumber : Word 4) (authType : Word 2)
    (username password : List (Word 2)) : Except Fault ConnectServerRequest :=
  if h : username.length > 256 ∨ password.length > 256 then
    .error (.exception "Password or Username too long.")
  else .ok ⟨eventType, magicNumber, authType, username, password, by omega, by omega⟩

/-- The response of the server to a `ConnectServerRequest`. -/
structure ConnectServerResponse where
  eventType : Word 2
  sessionId : List Byte
  userId : Word 8
  errorCode : Byte
  deriving DecidableEq, Repr

/-- The subclasses of `NetworkMessage`. -/
inductive NetworkMessage where
  | connectServerRequest (request : ConnectServerRequest)
  | connectServerResponse (response : ConnectServerResponse)

/-- `EventType`, which every subclass overrides. -/
def NetworkMessage.eventType : NetworkMessage → Word 2
  | connectServerRequest request => request.eventType
  | connectServerResponse response => response.eventType

end BananaApi.Client
