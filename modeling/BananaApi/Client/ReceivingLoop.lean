import BananaApi.Client.ReceivingQueue
import BananaApi.Client.ReceiverFrames

/-!
# The receiving thread among the others

Whatever the other threads do in between, the receiving thread decodes the bytes that were
read the way its loop does when it runs alone. The messages the application has taken, the
queue, and the message about to be enqueued are together what the loop alone enqueues from
these bytes, and an exception that ends the thread is the one that ends the loop, unless it
came from the stream.
-/

namespace BananaApi.Client

variable {ι ρ μ φ : Type}

/-! ## Rounds over bytes -/

/-- The rounds of the loop over some bytes, with the messages of these rounds and the fillers
they leave behind. -/
inductive Codec.Decodes (codec : Codec ρ μ φ) : List Byte → List μ → φ → Prop
  | start : codec.Decodes [] [] codec.fillers
  | round {d bytes : List Byte} {messages : List μ} {f f' : φ} {message : Option μ} :
      codec.Decodes d messages f → bytes.length = max 1 (codec.bytesToRead f) →
        codec.round f bytes = .ok (f', message) →
          codec.Decodes (d ++ bytes) (messages ++ message.toList) f'

/-- The byte a read returns. -/
def Event.byte : Event ι ρ → Option Byte
  | .readByte (.ok b) => b
  | _ => none

/-- The bytes that were read. -/
def delivered (events : List (Event ι ρ)) : List Byte := events.filterMap Event.byte

/-- A read did not return a byte. -/
def ReadFault (events : List (Event ι ρ)) (e : Fault) : Prop :=
  .readByte (.error e) ∈ events ∨
    .readByte (.ok none) ∈ events ∧ e = .exception "byte is -1"

/-- A failure of the stream has happened in every longer run. -/
theorem ReadFault.append {past events : List (Event ι ρ)} {e : Fault} (h : ReadFault past e) :
    ReadFault (past ++ events) e :=
  h.imp (List.mem_append_left _) (And.imp_left (List.mem_append_left _))

/-- The message that has been decoded but not enqueued. -/
def ReceivingThread.pending : ReceivingThread μ φ → List μ
  | .enqueue _ message => [message]
  | _ => []

/-- Where the thread is after whole rounds and some bytes of the next one. -/
def ReceivingThread.Within (codec : Codec ρ μ φ) (events : List (Event ι ρ)) (f : φ)
    (bytes : List Byte) : ReceivingThread μ φ → Prop
  | .unstarted | .waitRunning | .waitError | .waitStream => f = codec.fillers ∧ bytes = []
  | .testRunning f' | .testError f' | .enqueue f' _ => f' = f ∧ bytes = []
  | .reading f' bytes' =>
    f' = f ∧ bytes' = bytes ∧ (bytes = [] ∨ bytes.length < codec.bytesToRead f)
  | .caught e | .crashed e =>
    ReadFault events e ∧ (bytes = [] ∨ bytes.length < codec.bytesToRead f) ∨
      bytes.length = max 1 (codec.bytesToRead f) ∧ codec.round f bytes = .error e
  | .ended => bytes = []

/-- The bytes behind the whole rounds are part of one, or those of one whose exception has ended
the thread. -/
theorem ReceivingThread.Within.bytes {codec : Codec ρ μ φ} {events : List (Event ι ρ)} {f : φ}
    {bytes : List Byte} {thread : ReceivingThread μ φ} (h : thread.Within codec events f bytes) :
    bytes = [] ∨ bytes.length < codec.bytesToRead f ∨
      bytes.length = max 1 (codec.bytesToRead f) ∧
        ∃ e, (thread = .caught e ∨ thread = .crashed e) ∧ codec.round f bytes = .error e := by
  cases thread with
  | unstarted | waitRunning | waitError | waitStream | testRunning | testError | enqueue =>
    exact Or.inl h.2
  | reading f' bytes' => exact h.2.2.imp_right Or.inl
  | caught e =>
    rcases h with ⟨-, hfew⟩ | ⟨hlen, hround⟩
    · exact hfew.imp_right Or.inl
    · exact Or.inr (Or.inr ⟨hlen, e, Or.inl rfl, hround⟩)
  | crashed e =>
    rcases h with ⟨-, hfew⟩ | ⟨hlen, hround⟩
    · exact hfew.imp_right Or.inl
    · exact Or.inr (Or.inr ⟨hlen, e, Or.inr rfl, hround⟩)
  | ended => exact Or.inl h

/-- The exception of the thread is one of the stream, or the one of its last round. -/
theorem ReceivingThread.Within.fault {codec : Codec ρ μ φ} {events : List (Event ι ρ)} {f : φ}
    {bytes : List Byte} {thread : ReceivingThread μ φ} (h : thread.Within codec events f bytes)
    {e : Fault} (hthread : thread = .caught e ∨ thread = .crashed e) :
    ReadFault events e ∨
      bytes.length = max 1 (codec.bytesToRead f) ∧ codec.round f bytes = .error e := by
  rcases hthread with rfl | rfl <;> exact h.imp_left And.left

namespace Adapter

/-- The bytes that were read are those of whole rounds, which gave the messages that arrived
and the one on its way, and of the round the thread is in. -/
def Decoding (codec : Codec ρ μ φ) (events : List (Event ι ρ)) (s : Adapter ι ρ μ φ) : Prop :=
  ∃ d bytes f, delivered events = d ++ bytes ∧
    codec.Decodes d (s.log.arrived ++ s.receivingThread.pending) f ∧
    s.receivingThread.Within codec events f bytes

variable {codec : Codec ρ μ φ} {past : List (Event ι ρ)} {s s' : Adapter ι ρ μ φ}

/-- Nothing has been read by a new adapter. -/
theorem decoding_new (networkStream : Bool) :
    Decoding codec [] (new networkStream : Adapter ι ρ μ φ) :=
  ⟨[], [], codec.fillers, rfl, .start, rfl, rfl⟩

/-- One event delivers one byte or none. -/
theorem delivered_append (events : List (Event ι ρ)) (e : Event ι ρ) :
    delivered (events ++ [e]) = delivered events ++ e.byte.toList := by
  rw [delivered, List.filterMap_append, delivered, List.filterMap_cons, List.filterMap_nil]
  cases e.byte <;> rfl

/-- What the thread knows outlives other events. -/
theorem within_append {t : ReceivingThread μ φ} {f : φ} {bytes : List Byte}
    (h : t.Within codec past f bytes) (events : List (Event ι ρ)) :
    t.Within codec (past ++ events) f bytes := by
  cases t with
  | caught e | crashed e => exact h.imp_left (And.imp_left ReadFault.append)
  | _ => exact h

/-- A step without a byte, after which the thread is still within the same round. -/
theorem Decoding.of_same (hs : s.Decoding codec past) {e : Event ι ρ}
    (he : e.byte = none)
    (hmessages : s'.log.arrived ++ s'.receivingThread.pending =
      s.log.arrived ++ s.receivingThread.pending)
    (hthread : ∀ f bytes, s.receivingThread.Within codec past f bytes →
      s'.receivingThread.Within codec (past ++ [e]) f bytes) :
    s'.Decoding codec (past ++ [e]) := by
  obtain ⟨d, bytes, f, hbytes, hdecodes, hwithin⟩ := hs
  refine ⟨d, bytes, f, ?_, ?_, hthread f bytes hwithin⟩
  · rw [delivered_append, he, hbytes]
    exact List.append_nil _
  · rwa [hmessages]

/-- A step of another thread. -/
theorem Decoding.of_side (hs : s.Decoding codec past) {e : Event ι ρ}
    (he : e.byte = none) (hlog : s'.log.arrived = s.log.arrived)
    (hthread : s'.receivingThread = s.receivingThread) : s'.Decoding codec (past ++ [e]) := by
  apply hs.of_same he
  · rw [hlog, hthread]
  · intro f bytes h
    rw [hthread]
    exact within_append h [e]

/-- The thread goes through a round with the bytes it has read, and enqueues what the round made. -/
theorem receiving_decoding (h : receiving codec s = some s') (hs : s.Decoding codec past) :
    s'.Decoding codec (past ++ [.receiving]) := by
  cases receiving_step h with
  | waitRunning hthread | waitNoError hthread | waitNoStream hthread | noError f hthread
  | running f hthread =>
    apply hs.of_same rfl (by rw [hthread]; rfl)
    intro f bytes hwithin
    rw [hthread] at hwithin
    first
      | exact hwithin
      | exact ⟨hwithin.1, hwithin.2.symm, Or.inl hwithin.2⟩
  | waitStopped hthread | waitError e hthread | waitStream stream hthread =>
    apply hs.of_same rfl (by rw [hthread]; rfl)
    intro f bytes hwithin
    rw [hthread] at hwithin
    exact ⟨hwithin.1.symm, hwithin.2⟩
  | stopped f hthread | error f e hthread =>
    apply hs.of_same rfl (by rw [hthread]; rfl)
    intro f bytes hwithin
    rw [hthread] at hwithin
    exact hwithin.2
  | enqueued f message hthread =>
    apply hs.of_same rfl
    · rw [hthread]
      exact List.append_nil _
    · intro f bytes hwithin
      rw [hthread] at hwithin
      exact hwithin
  | caught e hthread =>
    apply hs.of_same rfl (by rw [hthread]; rfl)
    intro f bytes hwithin
    rw [hthread] at hwithin
    exact within_append (t := .caught e) hwithin _

/-- The byte that completes a round is decoded with the others, any other one is kept. -/
theorem decoding_received {d bytes : List Byte} {f : φ} {b : Byte} {arrived : List μ}
    (hdecodes : codec.Decodes d arrived f)
    (hfew : bytes = [] ∨ bytes.length < codec.bytesToRead f) (events : List (Event ι ρ)) :
    ∃ d' bytes' f', d' ++ bytes' = d ++ (bytes ++ [b]) ∧
      codec.Decodes d' (arrived ++ (received codec f (bytes ++ [b])).pending) f' ∧
      (received codec f (bytes ++ [b])).Within codec events f' bytes' := by
  by_cases hmore : (bytes ++ [b]).length < codec.bytesToRead f
  · rw [received, if_pos hmore]
    refine ⟨d, bytes ++ [b], f, rfl, ?_, rfl, rfl, Or.inr hmore⟩
    change codec.Decodes d (arrived ++ []) f
    rwa [List.append_nil]
  · have hlen : (bytes ++ [b]).length = max 1 (codec.bytesToRead f) := by
      rw [List.length_append, List.length_singleton] at hmore ⊢
      rcases hfew with rfl | hfew
      · rw [List.length_nil] at hmore ⊢
        omega
      · omega
    rw [received, if_neg hmore]
    cases hround : codec.round f (bytes ++ [b]) with
    | error e =>
      refine ⟨d, bytes ++ [b], f, rfl, ?_, Or.inr ⟨hlen, hround⟩⟩
      change codec.Decodes d (arrived ++ []) f
      rwa [List.append_nil]
    | ok p =>
      obtain ⟨f', message⟩ := p
      have hnext := hdecodes.round hlen hround
      cases message with
      | none => exact ⟨_, [], f', List.append_nil _, hnext, rfl, rfl⟩
      | some message => exact ⟨_, [], f', List.append_nil _, hnext, rfl, rfl⟩

/-- A byte goes behind those that were read in the round, and a failure is caught with all of them
read. -/
theorem readByte_decoding {result : Except Fault (Option Byte)}
    (h : readByte codec result s = some s') (hs : s.Decoding codec past) :
    s'.Decoding codec (past ++ [.readByte result]) := by
  obtain ⟨f, bytes, hthread⟩ := readByte_thread h
  obtain ⟨d, bytes', f', hbytes, hdecodes, hwithin⟩ := hs
  rw [hthread] at hdecodes hwithin
  obtain ⟨rfl, rfl, hfew⟩ := hwithin
  have hdecodes : codec.Decodes d s.log.arrived f := by
    rwa [ReceivingThread.pending, List.append_nil] at hdecodes
    exact nofun
  -- a failed read leaves the thread with the bytes it has
  have hfault : ∀ e, ReadFault (past ++ [.readByte result]) e →
      (Event.readByte result : Event ι ρ).byte = none →
        ({ s with receivingThread := .caught e } : Adapter ι ρ μ φ).Decoding codec
          (past ++ [.readByte result]) := by
    intro e he hnone
    refine ⟨d, bytes, f, ?_, ?_, Or.inl ⟨he, hfew⟩⟩
    · rw [delivered_append, hnone, hbytes]
      exact List.append_nil _
    · change codec.Decodes d (s.log.arrived ++ []) f
      rwa [List.append_nil]
  have hmem : Event.readByte result ∈ past ++ [.readByte result] :=
    List.mem_append_right _ (List.mem_singleton_self _)
  unfold readByte at h
  rw [hthread] at h
  cases result with
  | error e =>
    cases h
    exact hfault e (Or.inl hmem) rfl
  | ok read =>
    cases read with
    | none =>
      dsimp only at h
      split at h
      · cases h
        exact hfault _ (Or.inr ⟨hmem, rfl⟩) rfl
      · cases h
    | some b =>
      dsimp only at h
      split at h
      · cases h
        obtain ⟨d', bytes', f', hall, hdecodes', hwithin'⟩ :=
          decoding_received (b := b) hdecodes hfew (past ++ [.readByte (.ok (some b))])
        refine ⟨d', bytes', f', ?_, hdecodes', hwithin'⟩
        rw [delivered_append, hbytes, List.append_assoc]
        exact hall.symm
      · cases h

/-- The other threads leave the receiving thread and its fillers alone. -/
theorem step_decoding [DecidableEq ι] {e : Event ι ρ} (h : step codec e s = some s')
    (hs : s.Decoding codec past) : s'.Decoding codec (past ++ [e]) := by
  cases e with
  | call i c =>
    obtain ⟨_, _, _, _, rfl⟩ := call_frame h
    exact hs.of_side rfl rfl rfl
  | resume i =>
    obtain ⟨_, _, _, _, _, _, _, rfl, -, hthread⟩ := resume_frame h
    rcases hthread with rfl | ⟨hunstarted, rfl⟩
    · exact hs.of_side rfl rfl rfl
    · apply hs.of_same rfl (by rw [hunstarted]; rfl)
      intro f bytes hwithin
      rwa [hunstarted] at hwithin
  | sending =>
    obtain ⟨_, _, _, _, rfl⟩ := sending_frame h
    exact hs.of_side rfl rfl rfl
  | connected result =>
    obtain ⟨_, _, rfl⟩ := connected_frame h
    exact hs.of_side rfl rfl rfl
  | wrote result =>
    obtain ⟨_, _, _, rfl⟩ := wrote_frame h
    exact hs.of_side rfl rfl rfl
  | receiving => exact receiving_decoding h hs
  | readByte result => exact readByte_decoding h hs

end Adapter

/-! ## The loop of the client alone -/

namespace Receiver

variable (isLittleEndian : Bool)

/-- Rounds that follow on others. -/
theorem receiving_add (rounds rounds' : Nat) (r : Receiver) :
    receiving isLittleEndian (rounds + rounds') r =
      receiving isLittleEndian rounds' (receiving isLittleEndian rounds r) := by
  have hstays : ∀ (rounds : Nat) (r : Receiver), ¬ (r.running = true ∧ r.error = none) →
      receiving isLittleEndian rounds r = r := by
    intro rounds r h
    cases rounds with
    | zero => rfl
    | succ rounds => exact if_neg h
  induction rounds generalizing r with
  | zero => rw [Nat.zero_add, receiving]
  | succ rounds ih =>
    rw [Nat.succ_add, receiving, receiving]
    split
    · cases step isLittleEndian r with
      | ok _ r => exact ih r
      | error e r => exact (hstays rounds' _ (by rintro ⟨-, h⟩; cases h)).symm
    · exact (hstays rounds' r ‹_›).symm

variable {isLittleEndian} {fillers : List MessageBytesFiller}
  {f : List MessageBytesFiller × Option Nat} {messages : List NetworkMessage}

/-- The receiver of a round that is about to begin. -/
def ahead (stream : List Byte) (messages : List NetworkMessage)
    (f : List MessageBytesFiller × Option Nat) : Receiver :=
  ⟨stream, true, none, messages, f.1, f.2⟩

/-- Bytes ahead and messages queued are beside a round that does not need them. -/
theorem ahead_append (bytes more : List Byte) :
    ahead (bytes ++ more) messages f = (ahead bytes [] f).beside messages more := by
  rw [beside, ahead, ahead, List.append_nil]

/-- Every round reads something. -/
theorem bytesToRead_pos (filler : Option Nat) : 0 < bytesToRead filler := by
  unfold bytesToRead
  split
  · exact Nat.two_pos
  · exact Nat.one_pos

/-- The bytes of a round are as many as the loop reads. -/
theorem length_round {bytes : List Byte}
    (h : bytes.length = max 1 ((Codec.client isLittleEndian fillers).bytesToRead f)) :
    bytes.length = bytesToRead f.2 := by
  exact h.trans (max_eq_right (bytesToRead_pos f.2))

/-- A round of the thread is a round of the loop over its bytes. -/
theorem round_of_ok {bytes : List Byte} {r : Receiver}
    (h : step isLittleEndian (ahead bytes [] f) = .ok () r) :
    (Codec.client isLittleEndian fillers).round f bytes =
      .ok ((r.messageBytesFillers, r.filler), r.receivingQueue.head?) := by
  rw [ahead] at h
  simp only [Codec.client, h]

/-- The exception of a round is the one of the codec. -/
theorem round_of_error {bytes : List Byte} {e : Fault} {r : Receiver}
    (h : step isLittleEndian (ahead bytes [] f) = .error e r) :
    (Codec.client isLittleEndian fillers).round f bytes = .error e := by
  rw [ahead] at h
  simp only [Codec.client, h]

/-- The loop alone, over the bytes of the rounds and more. -/
theorem receiving_of_decodes {d : List Byte}
    (h : (Codec.client isLittleEndian fillers).Decodes d messages f) (more : List Byte) :
    ∃ rounds, receiving isLittleEndian rounds (start (d ++ more) fillers) =
      ahead more messages f := by
  induction h generalizing more with
  | start => exact ⟨0, rfl⟩
  | @round d bytes messages f f' message hdecodes hlen hround ih =>
    obtain ⟨rounds, hrounds⟩ := ih (bytes ++ more)
    have hread := length_round hlen
    have hframe := framed_step isLittleEndian (r := ahead bytes [] f) hread messages more
    rw [← ahead_append] at hframe
    cases hstep : step isLittleEndian (ahead bytes [] f) with
    | error e r => cases (round_of_error hstep).symm.trans hround
    | ok _ r =>
      obtain ⟨response, fillers', filler', rfl⟩ := step_frame isLittleEndian hread hstep
      cases (round_of_ok hstep).symm.trans hround
      rw [hstep] at hframe
      refine ⟨rounds + 1, ?_⟩
      rw [List.append_assoc, receiving_add, hrounds,
        receiving_step isLittleEndian (r := ahead (bytes ++ more) messages f) rfl rfl hframe]
      cases response <;> rfl

/-- A round that throws in the thread throws in the loop alone. -/
theorem receiving_of_fault {d bytes : List Byte} {e : Fault}
    (hlen : bytes.length = max 1 ((Codec.client isLittleEndian fillers).bytesToRead f))
    (hround : (Codec.client isLittleEndian fillers).round f bytes = .error e) {rounds : Nat}
    (hrounds : receiving isLittleEndian rounds (start (d ++ bytes) fillers) =
      ahead bytes messages f) :
    (receiving isLittleEndian (rounds + 1) (start (d ++ bytes) fillers)).error = some e := by
  have hread := length_round hlen
  have hframe := framed_step isLittleEndian (r := ahead bytes [] f) hread messages []
  rw [← ahead_append, List.append_nil] at hframe
  cases hstep : step isLittleEndian (ahead bytes [] f) with
  | ok _ r => cases (round_of_ok hstep).symm.trans hround
  | error e' r =>
    cases (round_of_error hstep).symm.trans hround
    rw [hstep] at hframe
    rw [receiving_add, hrounds,
      receiving_throw isLittleEndian (r := ahead bytes messages f) rfl rfl hframe]

end Receiver

namespace Adapter

open Transition (exec exec_keeps exec_history)

variable [DecidableEq ι] {isLittleEndian : Bool} {fillers : List MessageBytesFiller}

/-- However the threads are interleaved, what the application has received, the queue and the
message on its way are what the loop alone enqueues from the bytes that were read, in all the
rounds for which they are enough or up to the one that throws; and the exception that ends the
thread is the one that ends the loop, or a failure of the stream. -/
theorem exec_decodesAlone (networkStream : Bool) {events : List (Event ι NetworkMessage)}
    {s : Adapter ι NetworkMessage NetworkMessage (List MessageBytesFiller × Option Nat)}
    (h : exec (step (Codec.client isLittleEndian fillers)) events (new networkStream) = some s) :
    ∃ rounds,
      let alone := fun more => Receiver.receiving isLittleEndian (rounds + more)
        (Receiver.start (delivered events) fillers)
      (alone 0).error = none ∧
      (alone 0).receivingQueue =
        s.log.returned ++ s.receivingQueue ++ s.receivingThread.pending ∧
      (∀ f bytes, s.receivingThread = .reading f bytes → (alone 0).networkStream = bytes ∧
        ((alone 0).messageBytesFillers, (alone 0).filler) = f) ∧
      (∀ e, s.receivingThread = .caught e ∨ s.receivingThread = .crashed e →
        ReadFault events e ∨ (alone 1).error = some e) ∧
      ((alone 0).networkStream.length < Receiver.bytesToRead (alone 0).filler ∨
        ∃ e, (s.receivingThread = .caught e ∨ s.receivingThread = .crashed e) ∧
          (alone 1).error = some e) := by
  have hkept : s.Kept := exec_keeps (fun _ _ _ => step_kept) h (kept_new networkStream)
  obtain ⟨d, bytes, f, hbytes, hdecodes, hwithin⟩ : s.Decoding _ events :=
    exec_history (fun _ _ _ _ => step_decoding) h (decoding_new networkStream)
  obtain ⟨rounds, hrounds⟩ := Receiver.receiving_of_decodes hdecodes bytes
  rw [← hbytes] at hrounds
  refine ⟨rounds, ?_⟩
  dsimp only
  rw [Nat.add_zero, hrounds]
  have hthrows : ∀ e, bytes.length =
        max 1 ((Codec.client isLittleEndian fillers).bytesToRead f) →
      (Codec.client isLittleEndian fillers).round f bytes = .error e →
        (Receiver.receiving isLittleEndian (rounds + 1)
          (Receiver.start (delivered events) fillers)).error = some e := by
    intro e hlen hround
    rw [hbytes] at hrounds ⊢
    exact Receiver.receiving_of_fault hlen hround hrounds
  refine ⟨rfl, ?_, ?_, ?_, ?_⟩
  · change s.log.arrived ++ _ = _
    rw [hkept]
  · intro f' bytes' hthread
    rw [hthread] at hwithin
    exact ⟨hwithin.2.1.symm, hwithin.1.symm⟩
  · intro e hthread
    exact (hwithin.fault hthread).imp_right fun hround => hthrows e hround.1 hround.2
  · rcases hwithin.bytes with hnil | hfew | ⟨hlen, e, hthread, hround⟩
    · left
      rw [hnil]
      exact Receiver.bytesToRead_pos f.2
    · exact Or.inl hfew
    · exact Or.inr ⟨e, hthread, hthrows e hlen hround⟩

/-- A thread that has read an event type for which there is no filler. -/
theorem exec_decodesAlone_unknown :
    ∃ s rounds, exec (step (Codec.client true Receiver.defaultFillers))
        [.call () .start, .resume (), .resume (), .receiving, .receiving, .receiving, .receiving,
          .receiving, .readByte (.ok (some 7)), .readByte (.ok (some 7))] (new true) = some s ∧
      (Receiver.receiving true (rounds + 0)
        (Receiver.start [7, 7] Receiver.defaultFillers)).receivingQueue =
          s.log.returned ++ s.receivingQueue ++ s.receivingThread.pending := by
  obtain ⟨s, hs⟩ : ∃ s, exec (step (Codec.client true Receiver.defaultFillers))
      [.call () .start, .resume (), .resume (), .receiving, .receiving, .receiving, .receiving,
        .receiving, .readByte (.ok (some 7)), .readByte (.ok (some 7))] (new true) = some s :=
    ⟨_, rfl⟩
  obtain ⟨rounds, -, hqueue, -⟩ := exec_decodesAlone true hs
  exact ⟨s, rounds, hs, hqueue⟩

end Adapter

end BananaApi.Client
