import BananaApi.Client.Filling
import BananaApi.Client.Receiving

/-!
# Framing against decoding

Which fillers deliver a message is decided by the list of the constructor, and which
messages are decoded by the tests of `DeserializeResponse`. A delivered buffer is a
prefix of the bytes that were passed to the filler, so its event type is the filler's:
every framed event type without a branch in `DeserializeResponse` ends the thread.
-/

namespace BananaApi.Client

open NetworkMessage (eventTypeConnectServer eventTypeSampleRooms)

variable (isLittleEndian : Bool)

namespace MessageBytesFiller

/-- Pass bytes to a filler until it delivers a message. -/
def fillAll : List Byte → Run MessageBytesFiller (Option (List Byte))
  | [] => pure none
  | b :: bytes => do
    let buffer ← fill isLittleEndian b
    match buffer with
    | some buffer => pure (some buffer)
    | none => fillAll bytes

/-- A byte is added to the buffer, and nothing but the buffer is delivered. -/
theorem fill_ok {b : Byte} {f f' : MessageBytesFiller} {a : Option (List Byte)}
    (h : f.fill isLittleEndian b = .ok a f') :
    f'.buffer = f.buffer ++ [b] ∧ ∀ buffer, a = some buffer → buffer = f'.buffer := by
  have hfinish : ∀ g : MessageBytesFiller, g.finish = .ok a f' →
      f' = g ∧ ∀ buffer, a = some buffer → buffer = f'.buffer := by
    intro g hg
    unfold finish at hg
    split at hg
    · cases hg
    · cases hg
      refine ⟨rfl, fun buffer ha => ?_⟩
      split at ha
      · cases ha
        rfl
      · cases ha
  by_cases hfull : f.buffer.length + 1 = f.testedSize
  · cases hmore : f.fillerClass.getVariablePartMessageSize isLittleEndian (f.buffer ++ [b]) with
    | error e =>
      rw [fill_of_throw isLittleEndian b hfull hmore] at h
      cases h
    | ok more =>
      rw [fill_of_eq isLittleEndian b hfull hmore] at h
      obtain ⟨rfl, hbuffer⟩ := hfinish _ h
      exact ⟨rfl, hbuffer⟩
  · rw [fill_of_ne isLittleEndian b hfull] at h
    obtain ⟨rfl, hbuffer⟩ := hfinish _ h
    exact ⟨rfl, hbuffer⟩

/-- A delivered message is a prefix of the bytes passed to the filler. -/
theorem fillAll_prefix {bytes buffer : List Byte} {f f' : MessageBytesFiller}
    (h : fillAll isLittleEndian bytes f = .ok (some buffer) f') :
    buffer <+: f.buffer ++ bytes := by
  induction bytes generalizing f with
  | nil => cases h
  | cons b bytes ih =>
    obtain ⟨a, g, hfill, hrest⟩ := run_bind_eq_ok h
    obtain ⟨hbuffer, hdelivered⟩ := fill_ok isLittleEndian hfill
    have hcons : f.buffer ++ b :: bytes = g.buffer ++ bytes := by
      rw [hbuffer, List.append_assoc, List.singleton_append]
    rw [hcons]
    cases a with
    | some delivered =>
      cases hrest
      rw [hdelivered buffer rfl]
      exact List.prefix_append _ _
    | none => exact ih hrest

/-- A filler of responses delivers the first 31 bytes. -/
theorem fillAll_response {bytes buffer : List Byte} {f f' : MessageBytesFiller}
    (hc : f.fillerClass = .connectServerResponse) (hs : f.messageSize = 0 ∨ f.messageSize = 31)
    (h : fillAll isLittleEndian bytes f = .ok (some buffer) f') : buffer.length = 31 := by
  induction bytes generalizing f with
  | nil => cases h
  | cons b bytes ih =>
    obtain ⟨a, g, hfill, hrest⟩ := run_bind_eq_ok h
    rw [fill_response isLittleEndian b hc hs] at hfill
    split at hfill
    · next hfull =>
      cases hfill
      cases hrest
      rw [List.length_append]
      exact hfull
    · cases hfill
      exact ih rfl (Or.inr rfl) hrest

end MessageBytesFiller

/-- A buffer that starts with the event type of another message is not decoded. -/
theorem deserializeResponse_unknown {eventType : Word 2} (h : eventType ≠ eventTypeConnectServer)
    {buffer rest : List Byte}
    (hfront : buffer <+: BitConverter.getBytes isLittleEndian 2 eventType ++ rest) :
    ∃ e, deserializeResponse isLittleEndian buffer = .error e := by
  have hraw := BitConverter.length_getBytes isLittleEndian 2 eventType
  rcases Nat.lt_or_ge buffer.length 2 with hshort | hlong
  · have herror : ∃ e, BitConverter.toWord isLittleEndian 2 buffer 0 = .error e := by
      rw [BitConverter.toWord]
      split
      · exact ⟨_, rfl⟩
      · exact ⟨_, rfl⟩
    obtain ⟨e, he⟩ := herror
    refine ⟨e, ?_⟩
    rw [deserializeResponse, he]
    rfl
  · obtain ⟨more, rfl⟩ : BitConverter.getBytes isLittleEndian 2 eventType <+: buffer :=
      List.prefix_of_prefix_length_le (List.prefix_append _ rest) hfront (by omega)
    have hevent := BitConverter.toWord_append isLittleEndian (n := 2) (by omega) []
      (BitConverter.getBytes isLittleEndian 2 eventType) more hraw
    rw [BitConverter.ofBytes_getBytes] at hevent
    refine ⟨.exception "Unknown NetworkMessage", ?_⟩
    rw [deserializeResponse]
    rw [List.nil_append, List.length_nil] at hevent
    simp only [hevent, bind, Except.bind, if_neg h]

/-- A delivered response is the event type and the next 29 bytes. -/
theorem delivered_response {payload buffer : List Byte} {f f' : MessageBytesFiller}
    (hf : f = .new .connectServerResponse)
    (h : f.fillAll isLittleEndian
      (BitConverter.getBytes isLittleEndian 2 eventTypeConnectServer ++ payload) =
        .ok (some buffer) f') :
    ∃ (response : List.Vector Byte 29) (rest : List Byte),
      payload = response.toList ++ rest ∧ buffer = filledResponse isLittleEndian response := by
  subst hf
  have hraw := BitConverter.length_getBytes isLittleEndian 2 eventTypeConnectServer
  have hlen := MessageBytesFiller.fillAll_response isLittleEndian rfl (Or.inl rfl) h
  have hfront := MessageBytesFiller.fillAll_prefix isLittleEndian h
  obtain ⟨bytes, rfl⟩ : BitConverter.getBytes isLittleEndian 2 eventTypeConnectServer <+: buffer :=
    List.prefix_of_prefix_length_le (List.prefix_append _ payload) hfront (by omega)
  obtain ⟨rest, hrest⟩ := hfront
  have hbytes : bytes.length = 29 := by
    rw [List.length_append] at hlen
    omega
  refine ⟨⟨bytes, hbytes⟩, rest, ?_, rfl⟩
  rw [List.append_assoc] at hrest
  exact (List.append_cancel_left hrest).symm

namespace Receiver

/-- While the bytes of one response arrive the adapter has no error. -/
theorem error_response (payload : List.Vector Byte 29) (stream : List Byte) {rounds : Nat}
    (h : rounds < 31) :
    (receiving isLittleEndian rounds
      (start (wireResponse payload ++ stream) defaultFillers)).error = none := by
  obtain ⟨others, hothers, hfind⟩ := ConstructorFillers.cons (Or.inl rfl)
  rw [hothers]
  rcases Nat.lt_or_ge rounds 30 with hlt | hge
  · cases rounds with
    | zero => rfl
    | succ k =>
      have hstart := receiving_start isLittleEndian hfind payload stream (k := k) (by omega) 0
      rw [show 1 + k + 0 = k + 1 by omega] at hstart
      rw [hstart]
      rfl
  · have hfirst := receiving_first isLittleEndian hfind payload stream 0
    rw [show rounds = 30 + 0 by omega, hfirst]
    rfl

/-- A delivered message is decoded as one with the event type of its filler, and the adapter
has no error up to its last byte, exactly when the filler is the one of responses. -/
theorem framed_iff {f f' : MessageBytesFiller} (hf : f ∈ defaultFillers)
    {payload buffer : List Byte}
    (h : f.fillAll isLittleEndian
      (BitConverter.getBytes isLittleEndian 2 f.fillerClass.eventType ++ payload) =
        .ok (some buffer) f') :
    ((∃ message, deserializeResponse isLittleEndian buffer = .ok message ∧
        message.eventType = f.fillerClass.eventType) ∧
      ∀ rounds < buffer.length, (receiving isLittleEndian rounds
        (start (beBytes 2 f.fillerClass.eventType ++ payload) defaultFillers)).error = none) ↔
    f.fillerClass = .connectServerResponse := by
  have hclass : f = .new .connectServerResponse ∨ f = .new .sampleRoomsResponse := by
    simpa [defaultFillers] using hf
  rcases hclass with hnew | rfl
  · subst hnew
    obtain ⟨response, rest, rfl, rfl⟩ := delivered_response isLittleEndian rfl h
    refine iff_of_true ⟨⟨_, deserializeResponse_filled isLittleEndian response, rfl⟩, ?_⟩ rfl
    intro rounds hrounds
    rw [length_filledResponse] at hrounds
    rw [← List.append_assoc]
    exact error_response isLittleEndian response rest hrounds
  · refine iff_of_false ?_ nofun
    rintro ⟨⟨message, hmessage, -⟩, -⟩
    have hfront := MessageBytesFiller.fillAll_prefix isLittleEndian h
    have hunknown : eventTypeSampleRooms ≠ eventTypeConnectServer := by decide
    obtain ⟨e, he⟩ := deserializeResponse_unknown isLittleEndian hunknown hfront
    rw [hmessage] at he
    cases he

/-- A response to a connection request. -/
theorem framed_response :
    (∃ message, deserializeResponse true ([5, 0] ++ List.replicate 29 0) = .ok message ∧
        message.eventType = FillerClass.connectServerResponse.eventType) ∧
      ∀ rounds < ([5, 0] ++ List.replicate 29 (0 : Byte)).length, (receiving true rounds
        (start (beBytes 2 FillerClass.connectServerResponse.eventType ++ List.replicate 29 0)
          defaultFillers)).error = none :=
  (framed_iff true (f := .new .connectServerResponse) (by decide) rfl).mpr rfl

/-- A response without rooms is delivered, not decoded, and ends the thread. -/
theorem not_framed_no_rooms :
    ¬ ∀ f ∈ defaultFillers, ∀ (payload buffer : List Byte) (f' : MessageBytesFiller),
      f.fillAll true (BitConverter.getBytes true 2 f.fillerClass.eventType ++ payload) =
        .ok (some buffer) f' →
      ((∃ message, deserializeResponse true buffer = .ok message ∧
          message.eventType = f.fillerClass.eventType) ∧
        ∀ rounds < buffer.length, (receiving true rounds
          (start (beBytes 2 f.fillerClass.eventType ++ payload) defaultFillers)).error = none) := by
  intro h
  have hrooms := h (.new .sampleRoomsResponse) (by decide) [0, 0, 0] [7, 0, 0, 0, 0]
    ⟨.sampleRoomsResponse, 5, [7, 0, 0, 0, 0]⟩ rfl
  have herror : (receiving true 4 (start (beBytes 2 eventTypeSampleRooms ++ [0, 0, 0])
      defaultFillers)).error = some (.exception "Unknown NetworkMessage") := rfl
  have hnone := hrooms.2 4 (by decide)
  cases herror.symm.trans hnone

end Receiver

end BananaApi.Client
