import BananaApi.Client.Framing
import BananaApi.Client.ReceivingLoop

/-!
# The one message of a client

The filler of responses keeps the bytes of the message it has delivered, and no other message
is decoded. Whatever bytes a server sends, and however the threads are interleaved, the client
hears one message at most, which is determined by the first 31 bytes: everything behind them
is swallowed, or ends the thread. Without a filler of responses it hears none.
-/

namespace BananaApi.Client

open NetworkMessage (eventTypeConnectServer)

/-- The response the first 31 bytes of a stream stand for. -/
def firstResponse (isLittleEndian : Bool) (stream : List Byte) : List NetworkMessage :=
  if h : stream.take 2 = beBytes 2 eventTypeConnectServer ∧ 31 ≤ stream.length then
    [.connectServerResponse (responseOf isLittleEndian ⟨(stream.drop 2).take 29, by
      rw [List.length_take, List.length_drop]
      omega⟩)]
  else []

variable (isLittleEndian : Bool)

/-- Fewer than 31 bytes are no response. -/
theorem firstResponse_short {stream : List Byte} (h : stream.length < 31) :
    firstResponse isLittleEndian stream = [] :=
  dif_neg fun hfirst => absurd hfirst.2 (Nat.not_le.mpr h)

/-- Behind another event type nothing is heard. -/
theorem firstResponse_other {eventType : Word 2} (h : eventType ≠ eventTypeConnectServer)
    (more : List Byte) : firstResponse isLittleEndian (beBytes 2 eventType ++ more) = [] := by
  apply dif_neg
  rintro ⟨htake, -⟩
  rw [List.take_left' (length_beBytes 2 eventType)] at htake
  have hbytes : leBytes 2 eventType = leBytes 2 eventTypeConnectServer :=
    List.reverse_injective htake
  apply h
  rw [← ofLeBytes_leBytes 2 eventType, hbytes, ofLeBytes_leBytes]

/-- A response in front is the one that is heard. -/
theorem firstResponse_wire (payload : List.Vector Byte 29) (more : List Byte) :
    firstResponse isLittleEndian (wireResponse payload ++ more) =
      [.connectServerResponse (responseOf isLittleEndian payload)] := by
  have htag := length_beBytes 2 eventTypeConnectServer
  have hpayload := payload.toList_length
  have hfirst : (wireResponse payload ++ more).take 2 = beBytes 2 eventTypeConnectServer ∧
      31 ≤ (wireResponse payload ++ more).length := by
    rw [wireResponse, List.append_assoc, List.take_left' htag]
    refine ⟨rfl, ?_⟩
    rw [List.length_append, List.length_append]
    omega
  have hbytes : ((wireResponse payload ++ more).drop 2).take 29 = payload.toList := by
    rw [wireResponse, List.append_assoc, List.drop_left' htag, List.take_left' hpayload]
  rw [firstResponse, dif_pos hfirst]
  congr 3
  exact Subtype.ext hbytes

/-! ## Rounds -/

namespace Receiver

/-- The filler in use delivers no message any more, or none that is decoded. -/
inductive Mute : List MessageBytesFiller × Option Nat → Prop
  | full {others : List MessageBytesFiller} {bytes : List Byte} :
      31 ≤ bytes.length → Mute (holding bytes :: others, some 0)
  | unknown {fillers : List MessageBytesFiller} {i : Nat} {g : MessageBytesFiller}
      {eventType : Word 2} : fillers[i]? = some g → eventType ≠ eventTypeConnectServer →
        BitConverter.getBytes isLittleEndian 2 eventType <+: g.buffer → Mute (fillers, some i)

variable {fillers others : List MessageBytesFiller} {g : MessageBytesFiller} {i : Nat} {b : Byte}
  {r r' : Receiver} {f f' : List MessageBytesFiller × Option Nat}

/-- A byte goes to the filler in use and to no other. -/
theorem fillAt_eq_ok {a : Option (List Byte)} (h : fillAt isLittleEndian i b r = .ok a r') :
    ∃ g g', r.messageBytesFillers[i]? = some g ∧ g.fill isLittleEndian b = .ok a g' ∧
      r' = { r with messageBytesFillers := r.messageBytesFillers.set i g' } := by
  unfold fillAt at h
  split at h
  · cases h
  · next g hg =>
    split at h
    · next g' hfill =>
      cases h
      exact ⟨g, g', hg, hfill, rfl⟩
    · cases h

/-- The filler of the list a call has filled. -/
theorem getElem?_set_of_some {g' : MessageBytesFiller} (h : fillers[i]? = some g) :
    (fillers.set i g')[i]? = some g' :=
  List.getElem?_set_self (List.getElem?_eq_some_iff.mp h).1

/-- A mute filler never returns a message. -/
theorem step_mute (hf : Mute isLittleEndian f)
    (h : step isLittleEndian (ahead [b] [] f) = .ok () r) :
    r.receivingQueue = [] ∧ Mute isLittleEndian (r.messageBytesFillers, r.filler) := by
  cases hf with
  | @full others bytes hlen =>
    rw [ahead, step_byte isLittleEndian [] [] others b (by omega)] at h
    cases h
    refine ⟨rfl, .full ?_⟩
    rw [List.length_append]
    omega
  | @unknown fillers i g eventType hg hother hfront =>
    rw [step_of_some isLittleEndian rfl, fillOne, run_bind (onStream_byte [] rfl)] at h
    obtain ⟨a, r₁, hat, h⟩ := run_bind_eq_ok h
    obtain ⟨g₀, g', hg₀, hfill, rfl⟩ := fillAt_eq_ok isLittleEndian hat
    obtain rfl : g = g₀ := Option.some.inj (hg.symm.trans hg₀)
    obtain ⟨hbuffer, hdelivered⟩ := MessageBytesFiller.fill_ok isLittleEndian hfill
    have hfront' : BitConverter.getBytes isLittleEndian 2 eventType <+: g'.buffer := by
      rw [hbuffer]
      exact hfront.trans (List.prefix_append _ _)
    cases a with
    | none =>
      cases h
      exact ⟨rfl, .unknown (getElem?_set_of_some hg) hother hfront'⟩
    | some buffer =>
      -- the message is not a response, so it is not decoded
      obtain ⟨rest, hrest⟩ := hfront'
      have hbytes : buffer = BitConverter.getBytes isLittleEndian 2 eventType ++ rest :=
        (hdelivered buffer rfl).trans hrest.symm
      obtain ⟨e, he⟩ := deserializeResponse_unknown isLittleEndian hother
        ⟨[], (List.append_nil _).trans hbytes⟩
      obtain ⟨message, r₂, hmessage, -⟩ := run_bind_eq_ok h
      rw [he] at hmessage
      cases hmessage

/-! ## Selecting a filler -/

/-- Responses have the first filler, and the filler of any other event type is as its constructor
left it. -/
structure Beside (others : List MessageBytesFiller) : Prop where
  response : ∀ g : MessageBytesFiller, g.fillerClass = .connectServerResponse →
    findFiller (g :: others) eventTypeConnectServer = some 0
  other : ∀ (g : MessageBytesFiller) (eventType : Word 2) (i : Nat),
    g.fillerClass = .connectServerResponse → eventType ≠ eventTypeConnectServer →
      findFiller (g :: others) eventType = some i → ∃ c, (g :: others)[i]? = some (.new c)

/-- The filler of responses is the first one. -/
theorem ConstructorFillers.beside (h : ConstructorFillers fillers) :
    ∃ others, fillers = .new .connectServerResponse :: others ∧ Beside others := by
  obtain ⟨others, hfillers, hfind⟩ := h.cons
  refine ⟨others, hfillers, hfind, ?_⟩
  intro g eventType i hclass hother hi
  have hnone : g.fillerClass.eventType ≠ eventType := by
    rw [hclass]
    exact hother.symm
  rcases h with rfl | rfl
  · obtain rfl : others = [.new .sampleRoomsResponse] := (List.cons.inj hfillers).2.symm
    have htwo : findFiller [g, .new .sampleRoomsResponse] eventType =
        if FillerClass.sampleRoomsResponse.eventType = eventType then some 1
        else if g.fillerClass.eventType = eventType then some 0 else none := rfl
    rw [htwo, if_neg hnone] at hi
    split at hi
    · cases hi
      exact ⟨_, rfl⟩
    · cases hi
  · obtain rfl : others = [] := (List.cons.inj hfillers).2.symm
    have hone : findFiller [g] eventType =
        if g.fillerClass.eventType = eventType then some 0 else none := rfl
    rw [hone, if_neg hnone] at hi
    cases hi

/-- An event type that is not the one of responses selects a filler that stays mute, if the
filler is as its constructor left it. -/
theorem step_selecting_other {eventType : Word 2} (htype : eventType ≠ eventTypeConnectServer)
    (hnew : ∀ i, findFiller fillers eventType = some i → ∃ c, fillers[i]? = some (.new c))
    (h : step isLittleEndian (ahead (beBytes 2 eventType) [] (fillers, none)) = .ok () r) :
    r.receivingQueue = [] ∧ Mute isLittleEndian (r.messageBytesFillers, r.filler) := by
  obtain ⟨b₀, b₁, hraw⟩ : ∃ b₀ b₁, BitConverter.getBytes isLittleEndian 2 eventType = [b₀, b₁] :=
    List.length_eq_two.mp (BitConverter.length_getBytes ..)
  have hstream : (ahead (beBytes 2 eventType) [] (fillers, none)).networkStream =
      beBytes 2 eventType ++ [] := (List.append_nil _).symm
  have hread := onStream_readUInt16 isLittleEndian hstream
  rw [step_of_none isLittleEndian rfl, selectFiller, run_bind hread, run_get_bind] at h
  cases hfind : findFiller fillers eventType with
  | none =>
    simp only [ahead, hfind] at h
    cases h
  | some i =>
    simp only [ahead, hfind, hraw, run_modify_bind] at h
    obtain ⟨c, hc⟩ := hnew i hfind
    obtain ⟨_, r₁, hat₀, h⟩ := run_bind_eq_ok h
    obtain ⟨_, r₂, hat₁, h⟩ := run_bind_eq_ok h
    cases h
    obtain ⟨g₀, g₁, hg₀, hfill₀, rfl⟩ := fillAt_eq_ok isLittleEndian hat₀
    obtain ⟨g₁', g₂, hg₁, hfill₁, rfl⟩ := fillAt_eq_ok isLittleEndian hat₁
    cases hc.symm.trans hg₀
    cases (getElem?_set_of_some hc).symm.trans hg₁
    have hbytes₀ := (MessageBytesFiller.fill_ok isLittleEndian hfill₀).1
    have hbytes₁ := (MessageBytesFiller.fill_ok isLittleEndian hfill₁).1
    refine ⟨rfl, .unknown (getElem?_set_of_some hg₁) htype ?_⟩
    rw [hbytes₁, hbytes₀, hraw]
    exact List.prefix_rfl

/-- An event type without a filler ends the loop. -/
theorem step_selecting_none {eventType : Word 2} (hnone : findFiller fillers eventType = none) :
    step isLittleEndian (ahead (beBytes 2 eventType) [] (fillers, none)) ≠ .ok () r := by
  have hstream : (ahead (beBytes 2 eventType) [] (fillers, none)).networkStream =
      beBytes 2 eventType ++ [] := (List.append_nil _).symm
  intro h
  rw [step_of_none isLittleEndian rfl, selectFiller,
    run_bind (onStream_readUInt16 isLittleEndian hstream), run_get_bind] at h
  simp only [ahead, hnone] at h
  cases h

/-- An event type selects the filler of responses, or one that stays mute. -/
theorem step_selecting (hothers : Beside others) (hclass : g.fillerClass = .connectServerResponse)
    (hsize : g.messageSize = 0 ∨ g.messageSize = 31)
    (hbuffer : g.buffer = [] ∨ 31 ≤ g.buffer.length) {eventType : Word 2}
    (h : step isLittleEndian (ahead (beBytes 2 eventType) [] (g :: others, none)) = .ok () r) :
    r.receivingQueue = [] ∧
      (eventType = eventTypeConnectServer ∧ (r.messageBytesFillers, r.filler) =
        (holding (g.buffer ++ BitConverter.getBytes isLittleEndian 2 eventTypeConnectServer) ::
          others, some 0) ∨
      eventType ≠ eventTypeConnectServer ∧
        Mute isLittleEndian (r.messageBytesFillers, r.filler)) := by
  by_cases htype : eventType = eventTypeConnectServer
  · subst htype
    have hroom : ∀ n, 0 < n → n < 31 → g.buffer.length + n ≠ 31 := by
      intro n hpos hlt
      rcases hbuffer with hnil | hlong
      · rw [hnil, List.length_nil]
        omega
      · omega
    have hevent := step_event_type isLittleEndian [] [] g others hclass hsize
      (hroom 1 (by decide) (by decide)) (hroom 2 (by decide) (by decide)) hothers.response
    rw [List.append_nil] at hevent
    rw [ahead, hevent] at h
    cases h
    exact ⟨rfl, Or.inl ⟨rfl, rfl⟩⟩
  · obtain ⟨hqueue, hmute⟩ := step_selecting_other isLittleEndian htype
      (fun i hfind => hothers.other g eventType i hclass htype hfind) h
    exact ⟨hqueue, Or.inr ⟨htype, hmute⟩⟩

/-! ## Stages of the loop -/

/-- Where the loop is after the bytes of whole rounds, which gave some messages. -/
inductive Stage (others : List MessageBytesFiller) :
    List Byte → List NetworkMessage → List MessageBytesFiller × Option Nat → Prop
  | nothing : Stage others [] [] (.new .connectServerResponse :: others, none)
  | collecting {bytes : List Byte} : bytes.length < 29 →
      Stage others (beBytes 2 eventTypeConnectServer ++ bytes) []
        (holding (BitConverter.getBytes isLittleEndian 2 eventTypeConnectServer ++ bytes) ::
          others, some 0)
  | heard (payload : List.Vector Byte 29) :
      Stage others (wireResponse payload)
        [.connectServerResponse (responseOf isLittleEndian payload)]
        (holding (filledResponse isLittleEndian payload) :: others, none)
  | mute {d : List Byte} {messages : List NetworkMessage}
      {f : List MessageBytesFiller × Option Nat} : Mute isLittleEndian f →
        (∀ more, firstResponse isLittleEndian (d ++ more) = messages) →
          Stage others d messages f

variable {d bytes : List Byte} {messages : List NetworkMessage}

/-- One more byte of the response. -/
theorem step_collecting (h : bytes.length < 28) :
    step isLittleEndian (ahead [b] []
      (holding (BitConverter.getBytes isLittleEndian 2 eventTypeConnectServer ++ bytes) ::
        others, some 0)) =
      .ok () (ahead [] []
        (holding (BitConverter.getBytes isLittleEndian 2 eventTypeConnectServer ++
          (bytes ++ [b])) :: others, some 0)) := by
  have hroom : (BitConverter.getBytes isLittleEndian 2 eventTypeConnectServer ++ bytes).length +
      1 ≠ 31 := by
    rw [List.length_append, BitConverter.length_getBytes]
    omega
  rw [ahead, ahead, step_byte isLittleEndian [] [] others b hroom, List.append_assoc]

/-- The last byte of the response. -/
theorem step_heard (payload : List.Vector Byte 29) (h : payload.toList = bytes ++ [b]) :
    step isLittleEndian (ahead [b] []
      (holding (BitConverter.getBytes isLittleEndian 2 eventTypeConnectServer ++ bytes) ::
        others, some 0)) =
      .ok () (ahead [] [.connectServerResponse (responseOf isLittleEndian payload)]
        (holding (filledResponse isLittleEndian payload) :: others, none)) := by
  have hwhole : BitConverter.getBytes isLittleEndian 2 eventTypeConnectServer ++ bytes ++ [b] =
      filledResponse isLittleEndian payload := by
    rw [filledResponse, h, List.append_assoc]
  have hcount := length_filledResponse isLittleEndian payload
  rw [← hwhole, List.length_append, List.length_singleton] at hcount
  have hmessage := deserializeResponse_filled isLittleEndian payload
  rw [← hwhole] at hmessage
  rw [ahead, ahead, step_last_byte isLittleEndian [] [] others b hcount hmessage, hwhole,
    List.nil_append]

/-- Two bytes are an event type. -/
theorem beBytes_of_length {bytes : List Byte} (h : bytes.length = 2) :
    ∃ eventType : Word 2, bytes = beBytes 2 eventType := by
  have hreverse : bytes.reverse.length = 2 := by rw [List.length_reverse, h]
  refine ⟨ofLeBytes 2 bytes.reverse, ?_⟩
  rw [beBytes, leBytes_ofLeBytes hreverse, List.reverse_reverse]

/-- A round leads from one stage to the next. -/
theorem Stage.round (hothers : Beside others) (hs : Stage isLittleEndian others d messages f)
    (hlen : bytes.length = bytesToRead f.2)
    (h : step isLittleEndian (ahead bytes [] f) = .ok () r) :
    Stage isLittleEndian others (d ++ bytes) (messages ++ r.receivingQueue)
      (r.messageBytesFillers, r.filler) := by
  cases hs with
  | nothing =>
    obtain ⟨eventType, rfl⟩ := beBytes_of_length hlen
    obtain ⟨hqueue, ⟨rfl, hf⟩ | ⟨hother, hmute⟩⟩ :=
      step_selecting isLittleEndian hothers rfl (Or.inl rfl) (Or.inl rfl) h
    · rw [hqueue, hf, List.append_nil, List.nil_append]
      have hnone : ([] : List Byte).length < 29 := by decide
      have hnext := @Stage.collecting isLittleEndian others [] hnone
      rwa [List.append_nil, List.append_nil] at hnext
    · rw [hqueue]
      exact .mute hmute (firstResponse_other isLittleEndian hother)
  | @collecting bytes' hfew =>
    obtain ⟨b, rfl⟩ := List.length_eq_one_iff.mp hlen
    by_cases hmore : bytes'.length < 28
    · rw [step_collecting isLittleEndian hmore] at h
      cases h
      rw [List.append_assoc]
      apply Stage.collecting
      rw [List.length_append, List.length_singleton]
      omega
    · have hpayload : (bytes' ++ [b]).length = 29 := by
        rw [List.length_append, List.length_singleton]
        omega
      rw [step_heard isLittleEndian ⟨bytes' ++ [b], hpayload⟩ rfl] at h
      cases h
      rw [List.append_assoc]
      exact .heard ⟨bytes' ++ [b], hpayload⟩
  | heard payload =>
    obtain ⟨eventType, rfl⟩ := beBytes_of_length hlen
    have hfull : 31 ≤ (holding (filledResponse isLittleEndian payload)).buffer.length :=
      (length_filledResponse isLittleEndian payload).ge
    have hfirst : ∀ more, firstResponse isLittleEndian
        (wireResponse payload ++ beBytes 2 eventType ++ more) =
          [.connectServerResponse (responseOf isLittleEndian payload)] := by
      intro more
      rw [List.append_assoc]
      exact firstResponse_wire isLittleEndian payload _
    obtain ⟨hqueue, hnext⟩ :=
      step_selecting isLittleEndian hothers rfl (Or.inr rfl) (Or.inr hfull) h
    rw [hqueue, List.append_nil]
    rcases hnext with ⟨rfl, hf⟩ | ⟨-, hmute⟩
    · rw [hf]
      refine .mute (.full ?_) hfirst
      rw [List.length_append]
      exact hfull.trans (Nat.le_add_right _ _)
    · exact .mute hmute hfirst
  | mute hmute hfirst =>
    have hfiller : f.2 ≠ none := by
      cases hmute <;> exact Option.some_ne_none _
    rw [bytesToRead, if_neg hfiller] at hlen
    obtain ⟨b, rfl⟩ := List.length_eq_one_iff.mp hlen
    obtain ⟨hqueue, hmute'⟩ := step_mute isLittleEndian hmute h
    rw [hqueue, List.append_nil]
    refine .mute hmute' fun more => ?_
    rw [List.append_assoc]
    exact hfirst _

/-- The messages so far are those of the stream, whatever part of a round, or round that throws,
is behind them. -/
theorem Stage.first (hs : Stage isLittleEndian others d messages f)
    (hbytes : bytes = [] ∨ bytes.length < bytesToRead f.2 ∨
      bytes.length = bytesToRead f.2 ∧
        ∀ r, step isLittleEndian (ahead bytes [] f) ≠ .ok () r) :
    firstResponse isLittleEndian (d ++ bytes) = messages := by
  have hle : bytes.length ≤ bytesToRead f.2 := by
    rcases hbytes with rfl | hfew | ⟨hall, -⟩
    · exact Nat.zero_le _
    · exact hfew.le
    · exact hall.le
  cases hs with
  | nothing =>
    apply firstResponse_short
    have htwo : bytes.length ≤ 2 := hle
    rw [List.nil_append]
    omega
  | @collecting bytes' hfew =>
    apply firstResponse_short
    rw [List.length_append, List.length_append, length_beBytes]
    have hone : bytes.length ≤ 1 := hle
    by_contra hlong
    -- the last byte of the response would be missing, but its round does not throw
    obtain ⟨b, rfl⟩ : ∃ b, bytes = [b] := List.length_eq_one_iff.mp (by omega)
    have hpayload : (bytes' ++ [b]).length = 29 := by
      rw [List.length_append]
      rw [List.length_singleton] at hlong ⊢
      omega
    rcases hbytes with hnil | hnone | ⟨-, hthrows⟩
    · cases hnil
    · exact absurd hnone (lt_irrefl 1)
    · exact hthrows _ (step_heard isLittleEndian ⟨bytes' ++ [b], hpayload⟩ rfl)
  | heard payload => exact firstResponse_wire isLittleEndian payload bytes
  | mute hmute hfirst => exact hfirst bytes

/-- Rounds lead through the stages. -/
theorem stage_of_decodes (hothers : Beside others)
    (h : (Codec.client isLittleEndian (.new .connectServerResponse :: others)).Decodes d messages
      f) : Stage isLittleEndian others d messages f := by
  induction h with
  | start => exact .nothing
  | @round d bytes messages f f' message hdecodes hlen hround ih =>
    have hread := length_round hlen
    cases hstep : step isLittleEndian (ahead bytes [] f) with
    | error e r => cases (round_of_error hstep).symm.trans hround
    | ok _ r =>
      have hnext := ih.round isLittleEndian hothers hread hstep
      obtain ⟨response, fillers', filler', rfl⟩ := step_frame isLittleEndian hread hstep
      cases (round_of_ok hstep).symm.trans hround
      cases response <;> exact hnext

/-- Without a filler of responses no round gives a message. -/
theorem silent_of_decodes
    (h : (Codec.client isLittleEndian [.new .sampleRoomsResponse]).Decodes d messages f) :
    messages = [] ∧
      (f = ([.new .sampleRoomsResponse], none) ∨ Mute isLittleEndian f) := by
  induction h with
  | start => exact ⟨rfl, Or.inl rfl⟩
  | @round d bytes messages f f' message hdecodes hlen hround ih =>
    obtain ⟨rfl, hf⟩ := ih
    have hread := length_round hlen
    cases hstep : step isLittleEndian (ahead bytes [] f) with
    | error e r => cases (round_of_error hstep).symm.trans hround
    | ok _ r =>
      cases (round_of_ok hstep).symm.trans hround
      have hnext : r.receivingQueue = [] ∧
          Mute isLittleEndian (r.messageBytesFillers, r.filler) := by
        rcases hf with rfl | hmute
        · obtain ⟨eventType, rfl⟩ := beBytes_of_length hread
          by_cases htype : eventType = eventTypeConnectServer
          · subst htype
            exact absurd hstep (step_selecting_none isLittleEndian rfl)
          · refine step_selecting_other isLittleEndian htype (fun i hfind => ?_) hstep
            have hone : findFiller [.new .sampleRoomsResponse] eventType =
                if FillerClass.sampleRoomsResponse.eventType = eventType then some 0
                else none := rfl
            rw [hone] at hfind
            split at hfind <;> cases hfind
            exact ⟨_, rfl⟩
        · have hfiller : f.2 ≠ none := by
            cases hmute <;> exact Option.some_ne_none _
          rw [bytesToRead, if_neg hfiller] at hread
          obtain ⟨b, rfl⟩ := List.length_eq_one_iff.mp hread
          exact step_mute isLittleEndian hmute hstep
      rw [hnext.1]
      exact ⟨rfl, Or.inr hnext.2⟩

/-- The fillers of the public constructor, or a new one that the other constructor is given. -/
def ProgramFillers (fillers : List MessageBytesFiller) : Prop :=
  fillers = defaultFillers ∨ ∃ c, fillers = [.new c]

/-- Without a filler of responses there is the one of rooms. -/
theorem ProgramFillers.cases (h : ProgramFillers fillers) :
    ConstructorFillers fillers ∧ .new .connectServerResponse ∈ fillers ∨
      fillers = [.new .sampleRoomsResponse] := by
  rcases h with rfl | ⟨c, rfl⟩
  · exact Or.inl ⟨Or.inl rfl, List.mem_cons_self⟩
  · cases c with
    | connectServerResponse => exact Or.inl ⟨Or.inr rfl, List.mem_cons_self⟩
    | sampleRoomsResponse => exact Or.inr rfl

end Receiver

/-- What a client hears of the bytes of a server: the response the first of them stand for, if it
has a filler of responses. -/
def heard (isLittleEndian : Bool) (fillers : List MessageBytesFiller) (stream : List Byte) :
    List NetworkMessage :=
  if .new .connectServerResponse ∈ fillers then firstResponse isLittleEndian stream else []

/-- It is one message at most. -/
theorem length_heard_le (isLittleEndian : Bool) (fillers : List MessageBytesFiller)
    (stream : List Byte) : (heard isLittleEndian fillers stream).length ≤ 1 := by
  unfold heard firstResponse
  repeat' split
  · exact le_rfl
  · exact Nat.zero_le 1
  · exact Nat.zero_le 1

namespace Adapter

open Transition (exec exec_keeps exec_history)

variable {ι : Type} [DecidableEq ι] {isLittleEndian : Bool} {fillers : List MessageBytesFiller}

/-- What has arrived and what is about to are what the client hears of the bytes that were read. -/
theorem exec_arrived (hfillers : Receiver.ProgramFillers fillers) (networkStream : Bool)
    {events : List (Event ι NetworkMessage)}
    {s : Adapter ι NetworkMessage NetworkMessage (List MessageBytesFiller × Option Nat)}
    (h : exec (step (Codec.client isLittleEndian fillers)) events (new networkStream) = some s) :
    s.log.arrived ++ s.receivingThread.pending =
      heard isLittleEndian fillers (delivered events) := by
  obtain ⟨d, bytes, f, hbytes, hdecodes, hwithin⟩ : s.Decoding _ events :=
    exec_history (fun _ _ _ _ => step_decoding) h (decoding_new networkStream)
  rcases hfillers.cases with ⟨hconstructor, hmem⟩ | rfl
  · obtain ⟨others, rfl, hothers⟩ := hconstructor.beside
    have hstage := Receiver.stage_of_decodes isLittleEndian hothers hdecodes
    rw [heard, if_pos hmem, hbytes]
    symm
    apply hstage.first isLittleEndian
    refine hwithin.bytes.imp_right (Or.imp_right ?_)
    rintro ⟨hlen, e, -, hround⟩
    refine ⟨Receiver.length_round hlen, fun r hstep => ?_⟩
    cases (Receiver.round_of_ok hstep).symm.trans hround
  · exact (Receiver.silent_of_decodes isLittleEndian hdecodes).1

/-- However the threads are interleaved and whatever bytes are read, what the application has
received, the queue and the message on its way are the one response that the first 31 bytes
stand for, if there is a filler for it, or nothing. -/
theorem exec_hearsOnce (hfillers : Receiver.ProgramFillers fillers) (networkStream : Bool)
    {events : List (Event ι NetworkMessage)}
    {s : Adapter ι NetworkMessage NetworkMessage (List MessageBytesFiller × Option Nat)}
    (h : exec (step (Codec.client isLittleEndian fillers)) events (new networkStream) = some s) :
    s.log.returned ++ s.receivingQueue ++ s.receivingThread.pending =
      heard isLittleEndian fillers (delivered events) := by
  have hkept : s.Kept := exec_keeps (fun _ _ _ => step_kept) h (kept_new networkStream)
  rw [← hkept]
  exact exec_arrived hfillers networkStream h

/-- The rounds of the loop over a response. -/
def hearingResponse {ι : Type} (b : Byte) : List (Event ι NetworkMessage) :=
  .receiving :: .receiving :: .readByte (.ok (some 0)) :: .readByte (.ok (some 5)) ::
    (List.replicate 29 b).flatMap fun b => [.receiving, .receiving, .readByte (.ok (some b))]

/-- A response is heard, and the bytes of a second one are read behind it. -/
def hearing : List (Event Unit NetworkMessage) :=
  .call () .start :: .resume () :: .resume () :: .receiving :: .receiving :: .receiving ::
    (hearingResponse 1).append (.receiving :: hearingResponse 2)

theorem exec_hearsOnce_two :
    ∃ s, exec (step (Codec.client true Receiver.defaultFillers)) hearing (new true) = some s ∧
      s.log.returned ++ s.receivingQueue ++ s.receivingThread.pending =
        heard true Receiver.defaultFillers (delivered hearing) := by
  have hruns : (exec (step (Codec.client true Receiver.defaultFillers)) hearing
    (new true)).isSome = true := by decide +kernel
  obtain ⟨s, hs⟩ := Option.isSome_iff_exists.mp hruns
  exact ⟨s, hs, exec_hearsOnce (Or.inl rfl) true hs⟩

end Adapter

end BananaApi.Client
