import BananaApi.Client.Requests
import BananaApi.Client.SendingQueue
import BananaApi.Client.WindingDown

/-!
# What becomes of a request

`SerializeRequest` converts the characters of a request until it runs out of room, so that
every request ends either with a character that is no byte or with the room. In the adapter
this is the end of the sending thread: of all the requests that `Send` has accepted the first
one is taken from the queue, and its exception becomes the error. Nothing is ever written.
-/

namespace BananaApi.Client

open BytesUtils

/-! ## The exception of a request -/

section Throwing

variable {σ α β : Type}

/-- A call throws. -/
def Throws (x : Run σ α) (s : σ) (e : Fault) : Prop := ∃ s', x s = .error e s'

variable {x : Run σ α} {f : α → Run σ β} {s s' : σ} {e : Fault}

/-- What throws first throws for the sequence. -/
theorem Throws.bind (h : Throws x s e) : Throws (x >>= f) s e :=
  h.imp fun _ => run_bind_error

/-- What follows on a call that returns throws. -/
theorem throws_bind {a : α} (h : x s = .ok a s') (hf : Throws (f a) s' e) :
    Throws (x >>= f) s e := by
  obtain ⟨t, ht⟩ := hf
  exact ⟨t, (run_bind h).trans ht⟩

end Throwing

section Writing

variable {offset : Nat} {dest : List Byte} {data : List (Word 2)}

/-- An integer with room behind it. -/
theorem writeWord_room (isLittleEndian : Bool) {n : Nat} (h : offset + n < dest.length)
    (data : Word n) :
    ∃ dest', dest'.length = dest.length ∧
      writeWord isLittleEndian n offset data dest = .ok (offset + n) dest' := by
  have hlen : (beBytes n data).length = n := length_beBytes n data
  have hroom : offset + (beBytes n data).length < dest.length := by rwa [hlen]
  refine ⟨overwrite dest offset (beBytes n data), length_overwrite hroom.le, ?_⟩
  rw [writeWord_eq, writeBytes_of_lt hroom, hlen]

/-- A character of one byte is written where there is room. -/
theorem writeChar_narrow {c : Word 2} (hroom : offset < dest.length) (hc : c.toNat ≤ 255) :
    ∃ dest', dest'.length = dest.length ∧ writeChar offset c dest = .ok (offset + 1) dest' := by
  refine ⟨dest.set offset (c.setWidth _), List.length_set, ?_⟩
  rw [writeChar, if_neg (Nat.not_le.mpr hroom), if_neg (Nat.not_lt.mpr hc)]

/-- Any other character overflows. -/
theorem writeChar_wide {c : Word 2} (hroom : offset < dest.length) (hc : 255 < c.toNat) :
    Throws (writeChar offset c) dest .overflow := by
  refine ⟨dest, ?_⟩
  rw [writeChar, if_neg (Nat.not_le.mpr hroom), if_pos hc]

/-- A character that is no byte is reached if there is room for those in front of it. -/
theorem writeArrayBytes_wide (h : ∃ c ∈ data.take (dest.length - offset), 255 < c.toNat) :
    Throws (writeArrayBytes offset data) dest .overflow := by
  induction data generalizing offset dest with
  | nil =>
    obtain ⟨c, hc, -⟩ := h
    rw [List.take_nil] at hc
    cases hc
  | cons c data ih =>
    have hroom : offset < dest.length := by
      by_contra hnone
      obtain ⟨c, hc, -⟩ := h
      rw [Nat.sub_eq_zero_of_le (Nat.le_of_not_lt hnone)] at hc
      cases hc
    by_cases hwide : 255 < c.toNat
    · exact (writeChar_wide hroom hwide).bind
    · obtain ⟨dest', hlen, hchar⟩ := writeChar_narrow hroom (Nat.le_of_not_lt hwide)
      apply throws_bind hchar
      apply ih
      obtain ⟨c', hmem, hwide'⟩ := h
      rw [show dest.length - offset = dest.length - (offset + 1) + 1 by omega, List.take_succ_cons,
        List.mem_cons] at hmem
      rcases hmem with rfl | hmem
      · exact absurd hwide' hwide
      · rw [hlen]
        exact ⟨c', hmem, hwide'⟩

/-- Characters of one byte are written where there is room for all of them. -/
theorem writeArrayBytes_narrow (hroom : offset + data.length ≤ dest.length)
    (h : ∀ c ∈ data, c.toNat ≤ 255) :
    ∃ dest', dest'.length = dest.length ∧
      writeArrayBytes offset data dest = .ok (offset + data.length) dest' := by
  induction data generalizing offset dest with
  | nil => exact ⟨dest, rfl, rfl⟩
  | cons c data ih =>
    rw [List.forall_mem_cons] at h
    rw [List.length_cons] at hroom
    have hfirst : offset < dest.length := by omega
    obtain ⟨dest₁, hlen₁, hchar⟩ := writeChar_narrow hfirst h.1
    have hothers : offset + 1 + data.length ≤ dest₁.length := by omega
    obtain ⟨dest₂, hlen₂, hrest⟩ := ih hothers h.2
    refine ⟨dest₂, hlen₂.trans hlen₁, ?_⟩
    rw [writeArrayBytes, run_bind hchar, hrest, List.length_cons, Nat.add_right_comm,
      Nat.add_assoc]

/-- Characters that are bytes, but too many of them. -/
theorem writeArrayBytes_long (hoffset : offset ≤ dest.length)
    (hroom : dest.length < offset + data.length)
    (h : ∀ c ∈ data.take (dest.length - offset), c.toNat ≤ 255) :
    Throws (writeArrayBytes offset data) dest (.exception "data too big for dest.") := by
  induction data generalizing offset dest with
  | nil =>
    rw [List.length_nil] at hroom
    omega
  | cons c data ih =>
    rw [List.length_cons] at hroom
    by_cases hfull : dest.length ≤ offset
    · have hchar : Throws (writeChar offset c) dest (.exception "data too big for dest.") :=
        ⟨dest, if_pos hfull⟩
      exact hchar.bind
    · rw [show dest.length - offset = dest.length - (offset + 1) + 1 by omega,
        List.take_succ_cons, List.forall_mem_cons] at h
      obtain ⟨dest', hlen, hchar⟩ := writeChar_narrow (Nat.lt_of_not_le hfull) h.1
      apply throws_bind hchar
      apply ih
      · omega
      · omega
      · rw [hlen]
        exact h.2

/-! A field of 256 bytes: its characters and the zeros behind them. -/

variable {α : Type} {rest : Nat → Run (List Byte) α}

/-- Behind a name of 256 characters or fewer there are zeros up to 256 bytes. -/
theorem zeros_behind (h : data.length ≤ 256) :
    ∃ bytes, bytes.length = 256 - data.length ∧ zeros (256 - data.length) = .ok bytes := by
  refine ⟨List.replicate (256 - (data.length : Int)).toNat 0, ?_, if_neg (by omega)⟩
  rw [List.length_replicate]
  omega

/-- What follows on a field with room behind it throws. -/
theorem writePadded_room {e : Fault} (hdata : data.length ≤ 256)
    (hroom : offset + 256 < dest.length) (h : ∀ c ∈ data, c.toNat ≤ 255)
    (hrest : ∀ dest', dest'.length = dest.length → Throws (rest (offset + 256)) dest' e) :
    Throws (writeArrayBytes offset data >>= fun offset =>
      liftExcept (zeros (256 - data.length)) >>= fun bytes =>
        writeBytes offset bytes >>= rest) dest e := by
  have hfits : offset + data.length ≤ dest.length := by omega
  obtain ⟨dest', hlen, hchars⟩ := writeArrayBytes_narrow hfits h
  obtain ⟨bytes, hbytes, hzeros⟩ := zeros_behind hdata
  have hall : offset + data.length + bytes.length = offset + 256 := by omega
  have hbehind : offset + data.length + bytes.length < dest'.length := by omega
  apply throws_bind hchars
  rw [hzeros]
  apply throws_bind rfl
  apply throws_bind (writeBytes_of_lt hbehind)
  rw [hall]
  exact hrest _ ((length_overwrite hbehind.le).trans hlen)

/-- A field without room behind it, whatever its length. -/
theorem writePadded_full (hdata : data.length ≤ 256) (hoffset : offset ≤ dest.length)
    (hroom : dest.length ≤ offset + 256)
    (h : ∀ c ∈ data.take (dest.length - offset), c.toNat ≤ 255) :
    Throws (writeArrayBytes offset data >>= fun offset =>
      liftExcept (zeros (256 - data.length)) >>= fun bytes =>
        writeBytes offset bytes >>= rest) dest (.exception "data too big for dest.") := by
  by_cases hlong : dest.length < offset + data.length
  · exact (writeArrayBytes_long hoffset hlong h).bind
  · have hfits : offset + data.length ≤ dest.length := Nat.le_of_not_lt hlong
    rw [List.take_of_length_le (by omega)] at h
    obtain ⟨dest', hlen, hchars⟩ := writeArrayBytes_narrow hfits h
    obtain ⟨bytes, hbytes, hzeros⟩ := zeros_behind hdata
    have hbehind : dest'.length ≤ offset + data.length + bytes.length := by omega
    apply throws_bind hchars
    rw [hzeros]
    exact throws_bind rfl (Throws.bind ⟨dest', writeBytes_of_le hbehind⟩)

end Writing

/-- The characters of a request that are converted before there is no more room. -/
def convertedCharacters (request : ConnectServerRequest) : List (Word 2) :=
  request.authType :: (request.username ++ request.password.take 252)

/-- What `SerializeRequest` throws. -/
def serializationFault : NetworkMessage → Fault
  | .connectServerRequest request =>
    if ∃ c ∈ convertedCharacters request, 255 < c.toNat then .overflow
    else .exception "data too big for dest."
  | .connectServerResponse _ =>
    .exception "Unsupported type: BananaClient.ConnectServerResponse"

/-- The fields of a request end at 2, 10, 11 and 267, and the last one has room for 252 of its
256 bytes. -/
theorem writeRequest_throws (isLittleEndian : Bool) (request : ConnectServerRequest) :
    Throws (writeRequest isLittleEndian request) (List.replicate requestSize 0)
      (serializationFault (.connectServerRequest request)) := by
  have hsize : (List.replicate requestSize (0 : Byte)).length = 519 := List.length_replicate
  unfold writeRequest
  generalize List.replicate requestSize (0 : Byte) = dest at hsize
  have hroom₁ : 0 + 2 < dest.length := by omega
  obtain ⟨dest₁, hlen₁, h₁⟩ := writeWord_room isLittleEndian hroom₁ request.eventType
  have hroom₂ : 0 + 2 + 8 < dest₁.length := by omega
  obtain ⟨dest₂, hlen₂, h₂⟩ :=
    writeWord_room isLittleEndian hroom₂ (request.magicNumber.setWidth (8 * 8))
  apply throws_bind h₁
  apply throws_bind h₂
  have hwide : ∀ c ∈ convertedCharacters request, 255 < c.toNat →
      serializationFault (.connectServerRequest request) = .overflow :=
    fun c hc hc' => if_pos ⟨c, hc, hc'⟩
  have hroom₃ : 0 + 2 + 8 < dest₂.length := by omega
  by_cases hauth : 255 < request.authType.toNat
  · rw [hwide _ List.mem_cons_self hauth]
    exact (writeChar_wide hroom₃ hauth).bind
  obtain ⟨dest₃, hlen₃, h₃⟩ := writeChar_narrow hroom₃ (Nat.le_of_not_lt hauth)
  apply throws_bind h₃
  have husername := request.username_le
  by_cases hname : ∃ c ∈ request.username, 255 < c.toNat
  · obtain ⟨c, hc, hc'⟩ := hname
    rw [hwide c (List.mem_cons_of_mem _ (List.mem_append_left _ hc)) hc']
    apply Throws.bind
    apply writeArrayBytes_wide
    rw [List.take_of_length_le (by omega)]
    exact ⟨c, hc, hc'⟩
  have hroom₄ : 0 + 2 + 8 + 1 + 256 < dest₃.length := by omega
  push Not at hname
  apply writePadded_room husername hroom₄ hname
  intro dest₄ hlen₄
  have hleft : dest₄.length - (0 + 2 + 8 + 1 + 256) = 252 := by omega
  by_cases hword : ∃ c ∈ request.password.take 252, 255 < c.toNat
  · obtain ⟨c, hc, hc'⟩ := hword
    rw [hwide c (List.mem_cons_of_mem _ (List.mem_append_right _ hc)) hc']
    apply Throws.bind
    apply writeArrayBytes_wide
    rw [hleft]
    exact ⟨c, hc, hc'⟩
  have hnarrow : serializationFault (.connectServerRequest request) =
      .exception "data too big for dest." := by
    apply if_neg
    rintro ⟨c, hc, hc'⟩
    rcases List.mem_cons.mp hc with rfl | hc
    · exact hauth hc'
    rcases List.mem_append.mp hc with hc | hc
    · exact absurd hc' (Nat.not_lt.mpr (hname c hc))
    · exact hword ⟨c, hc, hc'⟩
  push Not at hword
  rw [hnarrow]
  apply writePadded_full request.password_le (by omega) (by omega)
  rwa [hleft]

/-- `SerializeRequest` never returns, and this is the exception it ends with. -/
theorem serializeRequest_eq_error (isLittleEndian : Bool) (request : NetworkMessage) :
    serializeRequest isLittleEndian request = .error (serializationFault request) := by
  cases request with
  | connectServerRequest request =>
    obtain ⟨buffer, hbuffer⟩ := writeRequest_throws isLittleEndian request
    unfold serializeRequest
    generalize List.replicate requestSize (0 : Byte) = dest at hbuffer ⊢
    simp only [hbuffer]
  | connectServerResponse response => rfl

/-! ## The sending thread -/

variable {ι ρ μ φ : Type}

/-- The exception of a request is the error, unless the receiving thread has put its own there
since. -/
def Adapter.Blames (e : Fault) (s : Adapter ι ρ μ φ) : Prop :=
  s.error = some e ∨ ∃ e', s.receivingThread = .crashed e' ∧ s.error = some e'

/-- What became of the request the sending thread has taken. -/
def SendingThread.Failing (fault : ρ → Fault) (blames : Fault → Prop) : SendingThread ρ → Prop
  | .write _ _ => False
  | .caught taken e => ∀ request ∈ taken, e = fault request
  | .finallyTest taken | .close taken | .ended taken => ∀ request ∈ taken, blames (fault request)
  | _ => True

namespace Adapter

/-- Nothing has been written, and the request that was taken has failed or is about to. -/
structure Undelivered (fault : ρ → Fault) (s : Adapter ι ρ μ φ) : Prop where
  written : s.log.written = []
  bytes : s.bytesWritten = []
  thread : s.sendingThread.Failing fault s.Blames

variable {codec : Codec ρ μ φ} {fault : ρ → Fault} {s s' : Adapter ι ρ μ φ}

/-- What is blamed stays blamed. -/
theorem failing_mono {blames blames' : Fault → Prop} (h : ∀ e, blames e → blames' e)
    {thread : SendingThread ρ} (hs : thread.Failing fault blames) :
    thread.Failing fault blames' := by
  cases thread with
  | finallyTest taken | close taken | ended taken => exact fun request hr => h _ (hs request hr)
  | _ => exact hs

/-- A step of another thread, which writes nothing and keeps the blame. -/
theorem Undelivered.of_side (hs : s.Undelivered fault)
    (hstream : s'.networkStream = s.networkStream) (hwritten : s'.log.written = s.log.written)
    (hblames : ∀ e, s.Blames e → s'.Blames e)
    (hthread : s'.sendingThread = s.sendingThread ∨ s'.sendingThread = .testStream) :
    s'.Undelivered fault where
  written := hwritten.trans hs.written
  bytes := by
    rw [bytesWritten, hstream]
    exact hs.bytes
  thread := by
    rcases hthread with hthread | hthread <;> rw [hthread]
    · exact failing_mono hblames hs.thread
    · trivial

/-- The request that is taken throws in its serialization, and the thread ends with this exception.
-/
theorem sending_undelivered
    (hfails : ∀ request, codec.serializeRequest request = .error (fault request))
    (h : sending codec s = some s') (hs : s.Undelivered fault) : s'.Undelivered fault := by
  have hthread := hs.thread
  cases sending_step h with
  | serialized request data _ hdata => cases (hfails request).symm.trans hdata
  | notSerialized request e _ he =>
    cases (hfails request).symm.trans he
    refine ⟨hs.written, hs.bytes, ?_⟩
    rintro _ ⟨⟩
    rfl
  | caught request e hcaught =>
    rw [hcaught] at hthread
    exact ⟨hs.written, hs.bytes, fun request hr => Or.inl (congrArg some (hthread request hr))⟩
  | finallyNoStream request hfinally | finallyStream request _ hfinally =>
    rw [hfinally] at hthread
    exact ⟨hs.written, hs.bytes, hthread⟩
  | closed request hclose =>
    rw [hclose] at hthread
    refine ⟨hs.written, Eq.trans ?_ hs.bytes, hthread⟩
    unfold bytesWritten
    cases s.networkStream <;> rfl
  | stopped | error =>
    refine ⟨hs.written, hs.bytes, ?_⟩
    rintro _ ⟨⟩
  | _ => exact ⟨hs.written, hs.bytes, trivial⟩

/-- A failure to connect is in front of the first request. -/
theorem connected_undelivered {result : Except Fault Unit} (h : connected result s = some s')
    (hs : s.Undelivered fault) : s'.Undelivered fault := by
  unfold connected at h
  split at h <;> cases h
  · exact ⟨hs.written, rfl, trivial⟩
  · refine ⟨hs.written, hs.bytes, ?_⟩
    rintro _ ⟨⟩

/-- The error of the receiving thread may stand in place of the one of the request. -/
theorem receiving_undelivered (h : receiving codec s = some s') (hs : s.Undelivered fault) :
    s'.Undelivered fault := by
  have hblames : ∀ e, s.Blames e → s'.Blames e := by
    rintro e (he | ⟨e', hcrashed, he'⟩)
    · cases receiving_step h with
      | caught e' hthread => exact Or.inr ⟨e', rfl, rfl⟩
      | _ => exact Or.inl he
    · cases receiving_step h <;> cases ‹s.receivingThread = _›.symm.trans hcrashed
  obtain ⟨_, _, _, _, rfl⟩ := receiving_frame h
  exact hs.of_side rfl rfl hblames (Or.inl rfl)

theorem readByte_undelivered {result : Except Fault (Option Byte)}
    (h : readByte codec result s = some s') (hs : s.Undelivered fault) : s'.Undelivered fault := by
  obtain ⟨f, bytes, hthread⟩ := readByte_thread h
  obtain ⟨_, rfl⟩ := readByte_frame h
  refine hs.of_side rfl rfl ?_ (Or.inl rfl)
  rintro e (he | ⟨e', hcrashed, he'⟩)
  · exact Or.inl he
  · cases hthread.symm.trans hcrashed

/-- No step writes a byte or takes a second request. -/
theorem step_undelivered [DecidableEq ι]
    (hfails : ∀ request, codec.serializeRequest request = .error (fault request))
    {e : Event ι ρ} (h : step codec e s = some s') (hs : s.Undelivered fault) :
    s'.Undelivered fault := by
  cases e with
  | call i c =>
    obtain ⟨_, _, _, _, rfl⟩ := call_frame h
    exact hs.of_side rfl rfl (fun _ => id) (Or.inl rfl)
  | resume i =>
    obtain ⟨_, _, _, _, _, _, _, rfl, hsending, hreceiving⟩ := resume_frame h
    refine hs.of_side rfl rfl ?_ (hsending.imp_right And.right)
    rintro e (he | ⟨e', hcrashed, he'⟩)
    · exact Or.inl he
    · rcases hreceiving with rfl | ⟨hunstarted, -⟩
      · exact Or.inr ⟨e', hcrashed, he'⟩
      · cases hunstarted.symm.trans hcrashed
  | sending => exact sending_undelivered hfails h hs
  | connected result => exact connected_undelivered h hs
  | wrote result =>
    obtain ⟨request, data, hthread⟩ := wrote_thread h
    have hnone := hs.thread
    rw [hthread] at hnone
    cases hnone
  | receiving => exact receiving_undelivered h hs
  | readByte result => exact readByte_undelivered h hs

open Transition (exec exec_keeps)

/-- A new adapter has not taken a request. -/
theorem undelivered_new (networkStream : Bool) :
    (new networkStream : Adapter ι ρ μ φ).Undelivered fault :=
  ⟨rfl, by cases networkStream <;> rfl, trivial⟩

variable [DecidableEq ι]

/-- However the threads of the client are interleaved, not one byte is written. Of the requests
that `Send` accepted only null is dropped and the first other one taken, whose exception ends the
sending thread, which closes the stream. -/
theorem exec_undelivered {isLittleEndian : Bool} {fillers : List MessageBytesFiller}
    (networkStream : Bool) {events : List (Event ι NetworkMessage)}
    {s : Adapter ι NetworkMessage NetworkMessage (List MessageBytesFiller × Option Nat)}
    (h : exec (step (Codec.client isLittleEndian fillers)) events (new networkStream) = some s) :
    s.bytesWritten = [] ∧
    s.log.enqueued.reduceOption =
      s.sendingThread.request.toList ++ s.sendingQueue.reduceOption ∧
    ∀ request, s.sendingThread.request = some request →
      s.sendingThread = .serialize request ∨
      s.sendingThread = .caught (some request) (serializationFault request) ∨
      s.Blames (serializationFault request) ∧
        (s.sendingThread = .ended (some request) → s.isOpen = false) := by
  have hordered : s.Ordered := exec_keeps (fun _ _ _ => step_ordered) h (ordered_new networkStream)
  have hfailed : s.Undelivered serializationFault :=
    exec_keeps (fun _ _ _ => step_undelivered (serializeRequest_eq_error isLittleEndian)) h
      (undelivered_new networkStream)
  have hclosed : s.ClosedAtEnd := exec_keeps (fun _ _ _ => step_closedAtEnd) h
    fun request hended => by cases hended
  rw [Ordered, hfailed.written, List.nil_append] at hordered
  refine ⟨hfailed.bytes, hordered, ?_⟩
  intro request htaken
  have hthread := hfailed.thread
  cases hsending : s.sendingThread with
  | serialize request' =>
    rw [hsending] at htaken
    cases htaken
    exact Or.inl rfl
  | write request' data =>
    rw [hsending] at hthread
    cases hthread
  | caught taken e =>
    rw [hsending] at hthread htaken
    cases htaken
    cases hthread request rfl
    exact Or.inr (Or.inl rfl)
  | finallyTest taken | close taken | ended taken =>
    rw [hsending] at hthread htaken
    refine Or.inr (Or.inr ⟨hthread request htaken, ?_⟩)
    intro hended
    exact hclosed request (hsending.trans hended)
  | _ =>
    rw [hsending] at htaken
    cases htaken

/-- Null and a request are sent to a connected client, whose sending thread runs to its end. -/
def sendingOne : List (Event Unit NetworkMessage) :=
  [.call () .start, .resume (), .resume (), .sending, .sending, .sending,
    .call () (.send none), .resume (), .resume (), .sending, .sending, .sending, .sending,
    .call () (.send (some (.connectServerRequest ⟨5, 0x79CB8912, 65, [98, 111, 98],
      [49, 50, 51, 52, 53, 54, 55], by decide, by decide⟩))),
    .resume (), .resume (), .sending, .sending, .sending, .sending, .sending, .sending]

theorem exec_undelivered_one :
    ∃ s, exec (step (Codec.client true Receiver.defaultFillers)) sendingOne (new true) = some s ∧
      s.bytesWritten = [] := by
  have hruns : (exec (step (Codec.client true Receiver.defaultFillers)) sendingOne
    (new true)).isSome = true := by decide +kernel
  obtain ⟨s, hs⟩ := Option.isSome_iff_exists.mp hruns
  exact ⟨s, hs, (exec_undelivered true hs).1⟩

end Adapter

end BananaApi.Client
