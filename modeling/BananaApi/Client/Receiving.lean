import BananaApi.Client.TcpAdapter
import Mathlib.Data.Vector.Basic

/-!
# What the receiving thread enqueues

A filler object keeps its buffer after it has delivered a message. The first
response on the stream is therefore enqueued, and every later one only makes the
buffer longer. The user id of that response is reversed on its way to the filler by
neither side and converted in the order of the host.
-/

namespace BananaApi.Client

open NetworkMessage (maxMessageSize eventTypeConnectServer)

/-- The bytes of one response on the network: its event type and 20 + 8 + 1 more bytes. -/
def wireResponse (payload : List.Vector Byte 29) : List Byte :=
  beBytes 2 eventTypeConnectServer ++ payload.toList

variable (isLittleEndian : Bool)

/-- The bytes the filler delivers for one response. -/
def filledResponse (payload : List.Vector Byte 29) : List Byte :=
  BitConverter.getBytes isLittleEndian 2 eventTypeConnectServer ++ payload.toList

/-- The response the filled bytes stand for. -/
def responseOf (payload : List.Vector Byte 29) : ConnectServerResponse where
  eventType := eventTypeConnectServer
  sessionId := payload.toList.take 20
  userId := BitConverter.ofBytes isLittleEndian 8 ((payload.toList.drop 20).take 8)
  errorCode := payload.get 28

theorem length_filledResponse (payload : List.Vector Byte 29) :
    (filledResponse isLittleEndian payload).length = 31 := by
  rw [filledResponse, List.length_append, BitConverter.length_getBytes, payload.toList_length]

/-- A filled response is decoded as the response it stands for. -/
theorem deserializeResponse_filled (payload : List.Vector Byte 29) :
    deserializeResponse isLittleEndian (filledResponse isLittleEndian payload) =
      .ok (.connectServerResponse (responseOf isLittleEndian payload)) := by
  have hpayload := payload.toList_length
  have hraw := BitConverter.length_getBytes isLittleEndian 2 eventTypeConnectServer
  have hevent : BitConverter.toWord isLittleEndian 2 (filledResponse isLittleEndian payload) 0 =
      .ok eventTypeConnectServer := by
    have hconv := BitConverter.toWord_append isLittleEndian (n := 2) (by omega) []
      (BitConverter.getBytes isLittleEndian 2 eventTypeConnectServer) payload.toList hraw
    rwa [BitConverter.ofBytes_getBytes] at hconv
  have hslice : BytesUtils.slice (filledResponse isLittleEndian payload) 2 20 =
      .ok (payload.toList.take 20) := by
    rw [BytesUtils.slice, if_neg (by rw [length_filledResponse]; omega), filledResponse,
      List.drop_left' hraw]
  have hlen : (filledResponse isLittleEndian payload).length = 31 := length_filledResponse ..
  have huser : BitConverter.toWord isLittleEndian 8 (filledResponse isLittleEndian payload) 22 =
      .ok (responseOf isLittleEndian payload).userId := by
    rw [BitConverter.toWord, if_neg (by omega), if_neg (by omega), filledResponse,
      show 22 = 2 + 20 from rfl, ← List.drop_drop, List.drop_left' hraw]
    rfl
  have herror : (filledResponse isLittleEndian payload)[30]? =
      some (responseOf isLittleEndian payload).errorCode := by
    rw [filledResponse, List.getElem?_append_right (by omega), hraw,
      List.getElem?_eq_getElem (by omega)]
    rfl
  simp only [deserializeResponse, hevent, hslice, huser, herror, if_true, bind, Except.bind]
  rfl

/-! ## One filler -/

/-- The filler of responses with the given bytes in its buffer. -/
def holding (bytes : List Byte) : MessageBytesFiller := ⟨.connectServerResponse, 31, bytes⟩

/-- A filler of responses delivers when its buffer gets exactly 31 bytes long. -/
theorem fill_response (b : Byte) {f : MessageBytesFiller}
    (hc : f.fillerClass = .connectServerResponse) (hs : f.messageSize = 0 ∨ f.messageSize = 31) :
    f.fill isLittleEndian b =
      .ok (if f.buffer.length + 1 = 31 then some (f.buffer ++ [b]) else none)
        (holding (f.buffer ++ [b])) := by
  obtain ⟨c, size, buffer⟩ := f
  have hc : c = .connectServerResponse := hc
  have hs : size = 0 ∨ size = 31 := hs
  have hmax : ¬ maxMessageSize < 31 := by decide
  subst hc
  unfold MessageBytesFiller.fill
  rcases hs with rfl | rfl
  · by_cases hfull : buffer.length = 30
    · simp [FillerClass.getFixedPartMessageSize, FillerClass.getVariablePartMessageSize, holding,
        hmax, hfull]
    · simp [FillerClass.getFixedPartMessageSize, holding, hmax, hfull]
  · by_cases hfull : buffer.length = 30
    · simp [FillerClass.getVariablePartMessageSize, holding, hmax, hfull]
    · simp [holding, hmax, hfull]

namespace Receiver

/-! ## One round -/

section Rounds

variable (stream : List Byte) (queue : List NetworkMessage) (f : MessageBytesFiller)
  (others : List MessageBytesFiller)

/-- The first filler is given a byte. -/
theorem fillAt_zero (b : Byte) (filler : Option Nat) {a : Option (List Byte)}
    {f' : MessageBytesFiller} (h : f.fill isLittleEndian b = .ok a f') :
    fillAt isLittleEndian 0 b ⟨stream, true, none, queue, f :: others, filler⟩ =
      .ok a ⟨stream, true, none, queue, f' :: others, filler⟩ := by
  exact fillAt_ok isLittleEndian rfl h

/-- One byte that does not complete the message. -/
theorem step_byte (b : Byte) {bytes : List Byte}
    (h : bytes.length + 1 ≠ 31) :
    step isLittleEndian ⟨b :: stream, true, none, queue, holding bytes :: others, some 0⟩ =
      .ok () ⟨stream, true, none, queue, holding (bytes ++ [b]) :: others, some 0⟩ := by
  have hfill : (holding bytes).fill isLittleEndian b = .ok none (holding (bytes ++ [b])) := by
    rw [fill_response isLittleEndian b rfl (Or.inr rfl), if_neg (by exact h)]
    rfl
  have hat := fillAt_zero isLittleEndian stream queue (holding bytes) others b (some 0) hfill
  have hread : onStream BytesUtils.readByte
      ⟨b :: stream, true, none, queue, holding bytes :: others, some 0⟩ =
        .ok b ⟨stream, true, none, queue, holding bytes :: others, some 0⟩ := rfl
  rw [step_of_some isLittleEndian rfl, fillOne, run_bind hread, run_bind hat]
  rfl

/-- The byte that completes the message. -/
theorem step_last_byte (b : Byte) {bytes : List Byte} (h : bytes.length + 1 = 31)
    {message : NetworkMessage}
    (hm : deserializeResponse isLittleEndian (bytes ++ [b]) = .ok message) :
    step isLittleEndian ⟨b :: stream, true, none, queue, holding bytes :: others, some 0⟩ =
      .ok () ⟨stream, true, none, queue ++ [message], holding (bytes ++ [b]) :: others, none⟩ := by
  have hfill : (holding bytes).fill isLittleEndian b =
      .ok (some (bytes ++ [b])) (holding (bytes ++ [b])) := by
    rw [fill_response isLittleEndian b rfl (Or.inr rfl), if_pos (by exact h)]
    rfl
  have hat := fillAt_zero isLittleEndian stream queue (holding bytes) others b (some 0) hfill
  have hread : onStream BytesUtils.readByte
      ⟨b :: stream, true, none, queue, holding bytes :: others, some 0⟩ =
        .ok b ⟨stream, true, none, queue, holding bytes :: others, some 0⟩ := rfl
  rw [step_of_some isLittleEndian rfl, fillOne, run_bind hread, run_bind hat]
  simp only [hm]
  rfl

/-- At the end of the stream a byte is missing. -/
theorem step_no_byte :
    step isLittleEndian ⟨[], true, none, queue, f :: others, some 0⟩ =
      .error (.exception "byte is -1") ⟨[], true, none, queue, f :: others, some 0⟩ := by
  have hread : onStream BytesUtils.readByte ⟨[], true, none, queue, f :: others, some 0⟩ =
      .error (.exception "byte is -1") ⟨[], true, none, queue, f :: others, some 0⟩ := rfl
  rw [step_of_some isLittleEndian rfl, fillOne, run_bind_error hread]

/-- At the end of the stream an event type is missing. -/
theorem step_no_event_type :
    step isLittleEndian ⟨[], true, none, queue, f :: others, none⟩ =
      .error (.exception "byte is -1") ⟨[], true, none, queue, f :: others, none⟩ := by
  have hread : onStream (BytesUtils.readUInt16 isLittleEndian)
      ⟨[], true, none, queue, f :: others, none⟩ =
        .error (.exception "byte is -1") ⟨[], true, none, queue, f :: others, none⟩ := rfl
  rw [step_of_none isLittleEndian rfl, selectFiller, run_bind_error hread]

/-- The event type of a response selects its filler, if no later filler takes it, and
goes to the filler in the order of the host. -/
theorem step_event_type (hc : f.fillerClass = .connectServerResponse)
    (hs : f.messageSize = 0 ∨ f.messageSize = 31) (h1 : f.buffer.length + 1 ≠ 31)
    (h2 : f.buffer.length + 2 ≠ 31)
    (hfind : ∀ g : MessageBytesFiller, g.fillerClass = .connectServerResponse →
      findFiller (g :: others) eventTypeConnectServer = some 0) :
    step isLittleEndian ⟨beBytes 2 eventTypeConnectServer ++ stream, true, none, queue,
        f :: others, none⟩ =
      .ok () ⟨stream, true, none, queue,
        holding (f.buffer ++ BitConverter.getBytes isLittleEndian 2 eventTypeConnectServer) ::
          others, some 0⟩ := by
  obtain ⟨b₀, b₁, hraw⟩ : ∃ b₀ b₁,
      BitConverter.getBytes isLittleEndian 2 eventTypeConnectServer = [b₀, b₁] :=
    List.length_eq_two.mp (BitConverter.length_getBytes ..)
  have hfill₀ := fill_response isLittleEndian b₀ hc hs
  have hfill₁ := fill_response isLittleEndian b₁ (f := holding (f.buffer ++ [b₀])) rfl (Or.inr rfl)
  rw [if_neg h1] at hfill₀
  rw [if_neg (by simpa [holding] using h2)] at hfill₁
  have hat₀ := fillAt_zero isLittleEndian stream queue f others b₀ (some 0) hfill₀
  have hat₁ := fillAt_zero isLittleEndian stream queue (holding (f.buffer ++ [b₀])) others b₁
    (some 0) hfill₁
  rw [step_select isLittleEndian rfl rfl (hfind f hc) hraw hat₀ hat₁, hraw]
  simp [holding]

end Rounds

/-! ## Runs -/

/-- The fillers of the two constructors of the adapter, with a filler of responses. -/
def ConstructorFillers (fillers : List MessageBytesFiller) : Prop :=
  fillers = defaultFillers ∨ fillers = [.new .connectServerResponse]

/-- A constructor makes a filler of responses the first one, and it is found whatever bytes it
holds. -/
theorem ConstructorFillers.cons {fillers : List MessageBytesFiller}
    (h : ConstructorFillers fillers) :
    ∃ others, fillers = .new .connectServerResponse :: others ∧
      ∀ g : MessageBytesFiller, g.fillerClass = .connectServerResponse →
        findFiller (g :: others) eventTypeConnectServer = some 0 := by
  rcases h with rfl | rfl
  · refine ⟨[.new .sampleRoomsResponse], rfl, ?_⟩
    rintro ⟨c, size, buffer⟩ hc
    have hc : c = .connectServerResponse := hc
    subst hc
    rfl
  · refine ⟨[], rfl, ?_⟩
    rintro ⟨c, size, buffer⟩ hc
    have hc : c = .connectServerResponse := hc
    subst hc
    rfl

section Runs

variable {others : List MessageBytesFiller}

/-- The bytes of a message are collected as long as they do not complete it. -/
theorem receiving_bytes (data stream : List Byte) (queue : List NetworkMessage)
    {bytes : List Byte} (h : bytes.length + data.length < 31) (rounds : Nat) :
    receiving isLittleEndian (data.length + rounds)
        ⟨data ++ stream, true, none, queue, holding bytes :: others, some 0⟩ =
      receiving isLittleEndian rounds
        ⟨stream, true, none, queue, holding (bytes ++ data) :: others, some 0⟩ := by
  induction data generalizing bytes with
  | nil => simp
  | cons b data ih =>
    rw [List.length_cons] at h
    have hroom : bytes.length + 1 ≠ 31 := by omega
    have hstep := step_byte isLittleEndian (data ++ stream) queue others b hroom
    rw [List.length_cons, show data.length + 1 + rounds = data.length + rounds + 1 by omega,
      List.cons_append, receiving_step isLittleEndian rfl rfl hstep,
      ih (by rw [List.length_append, List.length_singleton]; omega), List.append_assoc,
      List.singleton_append]

/-- A filler that holds a whole message swallows whatever follows. -/
theorem receiving_holding (rounds : Nat) (stream : List Byte) (queue : List NetworkMessage)
    {bytes : List Byte} (h : 31 ≤ bytes.length) :
    (receiving isLittleEndian rounds
      ⟨stream, true, none, queue, holding bytes :: others, some 0⟩).receivingQueue = queue := by
  induction rounds generalizing stream bytes with
  | zero => rfl
  | succ rounds ih =>
    cases stream with
    | nil =>
      rw [receiving_throw isLittleEndian rfl rfl (step_no_byte isLittleEndian queue _ others)]
    | cons b stream =>
      rw [receiving_step isLittleEndian rfl rfl
        (step_byte isLittleEndian stream queue others b (by omega))]
      exact ih stream (by rw [List.length_append]; omega)

variable (hfind : ∀ g : MessageBytesFiller, g.fillerClass = .connectServerResponse →
  findFiller (g :: others) eventTypeConnectServer = some 0)

include hfind

/-- The rounds up to the last byte of the first response. -/
theorem receiving_start (payload : List.Vector Byte 29) (stream : List Byte) {k : Nat}
    (hk : k ≤ 28) (rounds : Nat) :
    receiving isLittleEndian (1 + k + rounds)
        (start (wireResponse payload ++ stream) (.new .connectServerResponse :: others)) =
      receiving isLittleEndian rounds ⟨payload.toList.drop k ++ stream, true, none, [],
        holding (BitConverter.getBytes isLittleEndian 2 eventTypeConnectServer ++
          payload.toList.take k) :: others, some 0⟩ := by
  have hlen : (payload.toList.take k).length = k := by
    rw [List.length_take, payload.toList_length]
    omega
  have hraw := BitConverter.length_getBytes isLittleEndian 2 eventTypeConnectServer
  have hevent := step_event_type isLittleEndian (payload.toList ++ stream) []
    (.new .connectServerResponse) others rfl (Or.inl rfl) (by decide) (by decide) hfind
  have hroom : (BitConverter.getBytes isLittleEndian 2 eventTypeConnectServer).length +
      (payload.toList.take k).length < 31 := by omega
  have hbytes := @receiving_bytes isLittleEndian others (payload.toList.take k)
    (payload.toList.drop k ++ stream) [] _ hroom rounds
  rw [← List.append_assoc, List.take_append_drop, hlen] at hbytes
  rw [start, wireResponse, List.append_assoc, show 1 + k + rounds = k + rounds + 1 by omega,
    receiving_step isLittleEndian rfl rfl hevent]
  exact hbytes

/-- Thirty rounds enqueue the first response and leave its bytes in the filler. -/
theorem receiving_first (payload : List.Vector Byte 29) (stream : List Byte) (rounds : Nat) :
    receiving isLittleEndian (30 + rounds)
        (start (wireResponse payload ++ stream) (.new .connectServerResponse :: others)) =
      receiving isLittleEndian rounds ⟨stream, true, none,
        [.connectServerResponse (responseOf isLittleEndian payload)],
        holding (filledResponse isLittleEndian payload) :: others, none⟩ := by
  have hlen := payload.toList_length
  obtain ⟨b, hlast⟩ : ∃ b, payload.toList.drop 28 = [b] :=
    List.length_eq_one_iff.mp (by rw [List.length_drop, hlen])
  have hwhole : BitConverter.getBytes isLittleEndian 2 eventTypeConnectServer ++
      payload.toList.take 28 ++ [b] = filledResponse isLittleEndian payload := by
    rw [← hlast, List.append_assoc, List.take_append_drop, filledResponse]
  have hcount : (BitConverter.getBytes isLittleEndian 2 eventTypeConnectServer ++
      payload.toList.take 28).length + 1 = 31 := by
    rw [List.length_append, BitConverter.length_getBytes, List.length_take, hlen]
    rfl
  have hmessage := deserializeResponse_filled isLittleEndian payload
  rw [← hwhole] at hmessage
  have hstep := step_last_byte isLittleEndian stream [] others b hcount hmessage
  rw [show 30 + rounds = 1 + 28 + (rounds + 1) by omega,
    receiving_start isLittleEndian hfind payload stream le_rfl, hlast, List.singleton_append,
    receiving_step isLittleEndian rfl rfl hstep, hwhole, List.nil_append]

/-- Before its last byte the first response is not enqueued. -/
theorem receivingQueue_start (payload : List.Vector Byte 29) (stream : List Byte) {rounds : Nat}
    (h : rounds < 30) :
    (receiving isLittleEndian rounds
      (start (wireResponse payload ++ stream) (.new .connectServerResponse :: others))
      ).receivingQueue = [] := by
  cases rounds with
  | zero => rfl
  | succ k =>
    have hstart := receiving_start isLittleEndian hfind payload stream (k := k) (by omega) 0
    rw [show 1 + k + 0 = k + 1 by omega] at hstart
    rw [hstart]
    rfl

/-- Once the filler holds a whole message, no later response is enqueued. -/
theorem receivingQueue_after (payloads : List (List.Vector Byte 29)) (queue : List NetworkMessage)
    {bytes : List Byte} (h : 31 ≤ bytes.length) (rounds : Nat) :
    (receiving isLittleEndian rounds ⟨payloads.flatMap wireResponse, true, none, queue,
      holding bytes :: others, none⟩).receivingQueue = queue := by
  cases rounds with
  | zero => rfl
  | succ rounds =>
    cases payloads with
    | nil =>
      rw [List.flatMap_nil, receiving_throw isLittleEndian rfl rfl
        (step_no_event_type isLittleEndian queue _ others)]
    | cons payload payloads =>
      have hsize : (holding bytes).buffer.length = bytes.length := rfl
      have hevent := step_event_type isLittleEndian
        (payload.toList ++ payloads.flatMap wireResponse) queue (holding bytes) others rfl
        (Or.inr rfl) (by omega) (by omega) hfind
      rw [List.flatMap_cons, wireResponse, List.append_assoc,
        receiving_step isLittleEndian rfl rfl hevent]
      apply receiving_holding
      rw [List.length_append]
      omega

end Runs

/-- The queue of every run over responses: the first one is enqueued with its last byte,
and no other ever is. -/
theorem receivingQueue_eq {fillers : List MessageBytesFiller} (hf : ConstructorFillers fillers)
    (payload : List.Vector Byte 29) (payloads : List (List.Vector Byte 29)) (rounds : Nat) :
    (receiving isLittleEndian rounds
      (start ((payload :: payloads).flatMap wireResponse) fillers)).receivingQueue =
      if rounds < 30 then [] else
        [.connectServerResponse (responseOf isLittleEndian payload)] := by
  obtain ⟨others, rfl, hfind⟩ := hf.cons
  rw [List.flatMap_cons]
  by_cases h : rounds < 30
  · rw [if_pos h, receivingQueue_start isLittleEndian hfind _ _ h]
  · obtain ⟨more, rfl⟩ : ∃ more, rounds = 30 + more := ⟨rounds - 30, by omega⟩
    have hlen := length_filledResponse isLittleEndian payload
    rw [if_neg h, receiving_first isLittleEndian hfind]
    exact receivingQueue_after isLittleEndian hfind payloads _ (by omega) more

/-- The loop enqueues every response on the stream exactly when there is at most one. -/
theorem receiving_all_iff {fillers : List MessageBytesFiller} (hf : ConstructorFillers fillers)
    (payloads : List (List.Vector Byte 29)) :
    (∃ rounds,
      let r := receiving isLittleEndian rounds (start (payloads.flatMap wireResponse) fillers)
      r.networkStream = [] ∧ r.receivingQueue.map Except.ok =
        payloads.map fun p => deserializeResponse isLittleEndian
          (BitConverter.getBytes isLittleEndian 2 eventTypeConnectServer ++ p.toList)) ↔
    payloads.length ≤ 1 := by
  constructor
  · rintro ⟨rounds, _, hqueue⟩
    cases payloads with
    | nil => exact Nat.zero_le 1
    | cons payload payloads =>
      have hlen := congrArg List.length hqueue
      rw [List.length_map, List.length_map, receivingQueue_eq isLittleEndian hf] at hlen
      rw [← hlen]
      split
      · exact Nat.zero_le 1
      · exact le_rfl
  · intro hle
    cases payloads with
    | nil => exact ⟨0, rfl, rfl⟩
    | cons payload payloads =>
      have hnil : payloads = [] := List.eq_nil_of_length_eq_zero (by
        rw [List.length_cons] at hle
        omega)
      subst hnil
      refine ⟨30, ?_, ?_⟩
      · obtain ⟨others, rfl, hfind⟩ := hf.cons
        have hfirst := receiving_first isLittleEndian hfind payload [] 0
        rw [Nat.add_zero] at hfirst
        rw [List.flatMap_cons, List.flatMap_nil, hfirst]
        rfl
      · have hfilled := deserializeResponse_filled isLittleEndian payload
        rw [filledResponse] at hfilled
        rw [receivingQueue_eq isLittleEndian hf, if_neg (lt_irrefl 30), List.map_singleton,
          List.map_singleton, hfilled]

/-- One response, with the fillers of the public constructor. -/
theorem receiving_all_iff_one :
    (∃ rounds,
      let r := receiving true rounds
        (start ([List.Vector.replicate 29 0].flatMap wireResponse) defaultFillers)
      r.networkStream = [] ∧ r.receivingQueue.map Except.ok =
        [List.Vector.replicate 29 (0 : Byte)].map fun p => deserializeResponse true
          (BitConverter.getBytes true 2 eventTypeConnectServer ++ p.toList)) ↔
    [List.Vector.replicate 29 (0 : Byte)].length ≤ 1 :=
  receiving_all_iff true (Or.inl rfl) [List.Vector.replicate 29 0]

/-- Of two responses the second is lost. -/
theorem receiving_two :
    ¬ ∃ rounds,
      let r := receiving true rounds (start ([List.Vector.replicate 29 0,
        List.Vector.replicate 29 0].flatMap wireResponse) [.new .connectServerResponse])
      r.networkStream = [] ∧ r.receivingQueue.map Except.ok =
        [List.Vector.replicate 29 (0 : Byte), List.Vector.replicate 29 0].map fun p =>
          deserializeResponse true
            (BitConverter.getBytes true 2 eventTypeConnectServer ++ p.toList) := by
  rintro ⟨rounds, _, hqueue⟩
  have hlen := congrArg List.length hqueue
  rw [List.length_map, List.length_map, receivingQueue_eq true (Or.inr rfl)] at hlen
  split at hlen
  · cases hlen
  · cases hlen

/-- The bytes of a response behind its event type, with a big-endian user id. -/
def responsePayload (sessionId : List.Vector Byte 20) (userId : Word 8) (errorCode : Byte) :
    List.Vector Byte 29 :=
  ⟨sessionId.toList ++ beBytes 8 userId ++ [errorCode], by
    simp only [List.length_append, sessionId.toList_length, length_beBytes, List.length_singleton]⟩

/-- On a little-endian host the user id is read in the wrong order. -/
theorem responseOf_payload (sessionId : List.Vector Byte 20) (userId : Word 8)
    (errorCode : Byte) :
    responseOf true (responsePayload sessionId userId errorCode) =
      ⟨eventTypeConnectServer, sessionId.toList, ofLeBytes 8 (beBytes 8 userId), errorCode⟩ := by
  have hs : sessionId.toList.length = 20 := sessionId.toList_length
  have hu : (beBytes 8 userId).length = 8 := length_beBytes 8 userId
  have hlist : (responsePayload sessionId userId errorCode).toList =
      sessionId.toList ++ (beBytes 8 userId ++ [errorCode]) := List.append_assoc _ _ _
  have herror : (responsePayload sessionId userId errorCode).get 28 = errorCode := by
    have hget : (responsePayload sessionId userId errorCode).toList[28]? = some errorCode := by
      rw [hlist, List.getElem?_append_right (by omega), List.getElem?_append_right (by omega), hs,
        hu]
      rfl
    have hlen := (responsePayload sessionId userId errorCode).toList_length
    rw [List.getElem?_eq_getElem (by omega), Option.some.injEq] at hget
    exact hget
  simp only [responseOf, herror, hlist, List.take_left' hs, List.drop_left' hs, List.take_left' hu]
  rfl

/-- On a little-endian host the response is enqueued as it was sent exactly when the bytes
of its user id form a palindrome. -/
theorem receiving_userId_iff {fillers : List MessageBytesFiller}
    (hf : ConstructorFillers fillers) (sessionId : List.Vector Byte 20) (userId : Word 8)
    (errorCode : Byte) :
    (∃ rounds, (receiving true rounds
      (start (wireResponse (responsePayload sessionId userId errorCode)) fillers)).receivingQueue =
        [.connectServerResponse ⟨eventTypeConnectServer, sessionId.toList, userId, errorCode⟩]) ↔
    (leBytes 8 userId).Palindrome := by
  have hqueue := receivingQueue_eq true hf (responsePayload sessionId userId errorCode) []
  simp only [List.flatMap_cons, List.flatMap_nil, List.append_nil, responseOf_payload] at hqueue
  rw [← ofLeBytes_reverse_eq_iff]
  simp only [hqueue]
  constructor
  · rintro ⟨rounds, h⟩
    split at h
    · cases h
    · rw [List.cons.injEq, NetworkMessage.connectServerResponse.injEq,
        ConnectServerResponse.mk.injEq] at h
      exact h.1.2.2.1
  · intro h
    refine ⟨30, ?_⟩
    rw [if_neg (lt_irrefl 30), beBytes, h]

/-- The user id 0 is the same in both orders. -/
theorem receiving_userId_iff_zero :
    (∃ rounds, (receiving true rounds (start (wireResponse
      (responsePayload (List.Vector.replicate 20 0) 0 0)) defaultFillers)).receivingQueue =
        [.connectServerResponse ⟨eventTypeConnectServer,
          (List.Vector.replicate 20 (0 : Byte)).toList, 0, 0⟩]) ↔
    (leBytes 8 0).Palindrome :=
  receiving_userId_iff (Or.inl rfl) (List.Vector.replicate 20 0) 0 0

/-- The user id 41616 is not enqueued as such. -/
theorem receiving_userId_41616 :
    ¬ ∃ rounds, (receiving true rounds (start (wireResponse
      (responsePayload (List.Vector.replicate 20 0) 41616 0))
        [.new .connectServerResponse])).receivingQueue =
          [.connectServerResponse ⟨eventTypeConnectServer,
            (List.Vector.replicate 20 (0 : Byte)).toList, 41616, 0⟩] := by
  have hqueue := receivingQueue_eq true (Or.inr rfl)
    (responsePayload (List.Vector.replicate 20 0) 41616 0) []
  simp only [List.flatMap_cons, List.flatMap_nil, List.append_nil, responseOf_payload] at hqueue
  rintro ⟨rounds, h⟩
  rw [hqueue] at h
  split at h
  · cases h
  · rw [List.cons.injEq, NetworkMessage.connectServerResponse.injEq,
      ConnectServerResponse.mk.injEq] at h
    have hne : ofLeBytes 8 (beBytes 8 41616) ≠ 41616 := by decide
    exact hne h.1.2.2.1

end Receiver

end BananaApi.Client
