import BananaApi.Client.NetworkAdapter
import BananaApi.Server.BananaServer
import BananaApi.Server.HostileInput

/-!
# The request between client and server

The client defines a request with a username and a password; the server takes no
password off its stream. Whatever the width of the magic number, the server stops
in front of the password, so it never consumes the whole request.
-/

namespace BananaApi.Wire

open BananaApi.Server (CDataStream ByteQueue bytesLang blockLang)

/-- The bytes of characters, padded with zeros to 256. -/
def paddedBytes (characters : List (Word 2)) : List Byte :=
  characters.map (BitVec.setWidth 8) ++ List.replicate (256 - characters.length) 0

/-- A name is padded to 256 bytes. -/
theorem length_paddedBytes {characters : List (Word 2)} (h : characters.length ≤ 256) :
    (paddedBytes characters).length = 256 := by
  rw [paddedBytes, List.length_append, List.length_map, List.length_replicate]
  omega

/-- The request as the client defines it, with the magic number in `width` bytes: 4 for its
type `uint`, 8 for the overload that writes it. -/
def requestBytes (width : Nat) (request : Client.ConnectServerRequest) : List Byte :=
  beBytes 2 request.eventType ++ beBytes width (request.magicNumber.setWidth _) ++
    [request.authType.setWidth 8] ++ paddedBytes request.username ++ paddedBytes request.password

/-- A request has 515 bytes and its magic number. -/
theorem length_requestBytes (width : Nat) (request : Client.ConnectServerRequest) :
    (requestBytes width request).length = 515 + width := by
  simp only [requestBytes, List.length_append, length_beBytes, List.length_singleton,
    length_paddedBytes request.username_le, length_paddedBytes request.password_le]
  omega

/-- What the server should decode. -/
def decodedRequest (request : Client.ConnectServerRequest) : Server.ConnectServerRequest where
  eventType := request.eventType
  magicNumber := request.magicNumber
  authType := request.authType.setWidth _
  username := ⟨paddedBytes request.username, length_paddedBytes request.username_le⟩

/-- The server takes 263 bytes off its stream. -/
theorem connectServerRequest_lang :
    Server.ConnectServerRequest.ty.lang = bytesLang 263 := by
  have hblock (n : Nat) (h : n < 2 ^ 31) : blockLang n = bytesLang n := Server.blockLang_of_lt h
  change blockLang 2 * (blockLang 4 * (blockLang 1 * (blockLang 256 * 1))) = _
  rw [mul_one, hblock 2 (by omega), hblock 4 (by omega), hblock 1 (by omega),
    hblock 256 (by omega), ← Server.bytesLang_add, ← Server.bytesLang_add,
    ← Server.bytesLang_add]

/-- A stream the server takes a request off loses 263 bytes. -/
theorem unserialize_request {fuel : Nat} (hfuel : 2 ^ 32 ≤ fuel) {s s' : CDataStream}
    (hw : s.WellFormed) (hs : s.vch.length < 2 ^ 31) (hm : s.exceptmask = CDataStream.defaultMask)
    {prev request : Server.ConnectServerRequest}
    (h : Server.ConnectServerRequest.ty.unserialize fuel s prev = .returned (request, s')) :
    s.unread.length = 263 + s'.unread.length := by
  have hq : s.queue.Throws := CDataStream.throws_of_defaultMask hm
  obtain ⟨⟨v, q'⟩, hq', _, hrefines⟩ :=
    (Server.Ty.unserialize_queue fuel _ hw hs prev).returned_left h
  obtain ⟨e, he, hu⟩ := ((Server.Ty.unserialize_recognizes hfuel _ prev).accepts s.queue hq
    q'.unread).mp ⟨v, q', hq', rfl⟩
  rw [connectServerRequest_lang] at he
  have he : e.length = 263 := he
  have hu : s.unread = e ++ q'.unread := hu
  have hr : s'.unread = q'.unread := hrefines.unread
  rw [hu, List.length_append, he, hr]

/-- A short stream over a request keeps bytes the server does not take off it. -/
theorem unread_of_request {width : Nat} (hwidth : width = 4 ∨ width = 8) {fuel : Nat}
    (hfuel : 2 ^ 32 ≤ fuel) {request : Client.ConnectServerRequest}
    {prev decoded : Server.ConnectServerRequest} {s' : CDataStream}
    (h : Server.ConnectServerRequest.ty.unserialize fuel
      (CDataStream.init (requestBytes width request)) prev = .returned (decoded, s')) :
    s'.unread ≠ [] := by
  intro hempty
  have hbytes := length_requestBytes width request
  have hshort : (requestBytes width request).length < 2 ^ 31 := by omega
  have hlen : (requestBytes width request).length = 263 + s'.unread.length :=
    unserialize_request hfuel (CDataStream.wellFormed_init _) hshort rfl h
  rw [hbytes, hempty, List.length_nil] at hlen
  omega

/-- No request of the client is decoded and consumed by the server. -/
theorem request_not_consumed {width : Nat} (hwidth : width = 4 ∨ width = 8) {fuel : Nat}
    (hfuel : 2 ^ 32 ≤ fuel) (request : Client.ConnectServerRequest)
    (prev : Server.ConnectServerRequest) :
    ¬ ∃ s', Server.ConnectServerRequest.ty.unserialize fuel
        (CDataStream.init (requestBytes width request)) prev =
          .returned (decodedRequest request, s') ∧ s'.unread = [] := by
  rintro ⟨s', h, hempty⟩
  exact unread_of_request hwidth hfuel h hempty

/-- A request with a username and a password of five characters each. -/
def helloRequest : Client.ConnectServerRequest :=
  ⟨0x0005, 0x79CB8912, 65, [104, 101, 108, 108, 111], [112, 97, 115, 115, 33], by decide,
    by decide⟩

/-- The request with the magic number in 8 bytes. -/
theorem request_not_consumed_hello :
    ¬ ∃ s', Server.ConnectServerRequest.ty.unserialize (2 ^ 32)
        (CDataStream.init (requestBytes 8 helloRequest)) (decodedRequest helloRequest) =
          .returned (decodedRequest helloRequest, s') ∧ s'.unread = [] :=
  request_not_consumed (Or.inr rfl) le_rfl helloRequest (decodedRequest helloRequest)

/-- The request with the magic number in 4 bytes. -/
theorem request_hello :
    ¬ ∃ s', Server.ConnectServerRequest.ty.unserialize (2 ^ 32)
        (CDataStream.init (requestBytes 4 helloRequest)) (decodedRequest helloRequest) =
          .returned (decodedRequest helloRequest, s') ∧ s'.unread = [] := by
  rintro ⟨s', h, hempty⟩
  exact unread_of_request (Or.inl rfl) le_rfl h hempty

end BananaApi.Wire
