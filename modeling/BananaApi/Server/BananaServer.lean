import BananaApi.Server.Types

/-!
# The messages of the server

The request the server reads from a connection, as its `IMPLEMENT_SERIALIZE` body
lists it. The server keeps the username only.
-/

namespace BananaApi.Server

/-- The members of the request; it has none for the password. -/
structure ConnectServerRequest where
  eventType : Word 2
  magicNumber : Word 4
  authType : Word 1
  username : List.Vector Byte 256

namespace ConnectServerRequest

/-- The members, in the order of the body. -/
def members :
    ConnectServerRequest ≃ Word 2 × Word 4 × Word 1 × List.Vector Byte 256 × Unit where
  toFun r := (r.eventType, r.magicNumber, r.authType, r.username, ())
  invFun m := ⟨m.1, m.2.1, m.2.2.1, m.2.2.2.1⟩
  left_inv _ := rfl
  right_inv _ := rfl

/-- The class with its `IMPLEMENT_SERIALIZE` body. -/
def ty : Ty (.object false) ConnectServerRequest :=
  .struct members
    (.readwrite (.integer .unsignedShort)
      (.readwrite (.integer .unsignedInt)
        (.readwrite (.integer .char)
          (.flatdata 256 .done))))

end ConnectServerRequest

end BananaApi.Server
