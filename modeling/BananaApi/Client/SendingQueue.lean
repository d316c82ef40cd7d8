import BananaApi.Client.ThreadSteps
import BananaApi.Core.Transition
import Mathlib.Data.Finset.Card
import Mathlib.Data.List.ReduceOption

/-!
# The sending queue

The requests of all callers go through one queue to one thread. At every moment the
requests that were enqueued are the written ones, at most one that the thread has taken,
and those in the queue, but for null: `Send` accepts it like a request, and the thread
drops it. A caller that has passed the count check but has not enqueued yet makes the
queue longer by one at most, so the callers between the two bound it.
-/

namespace BananaApi.Client

variable {ι ρ μ φ : Type}

/-- The request that was taken from the queue and is not written, or was not when an
exception ended the loop. -/
def SendingThread.request : SendingThread ρ → Option ρ
  | .serialize request => some request
  | .write request _ => some request
  | .caught request _ => request
  | .finallyTest request => request
  | .close request => request
  | .ended request => request
  | _ => none

/-- The loop has been left. -/
def SendingThread.Left : SendingThread ρ → Prop
  | .caught _ _ => True
  | .finallyTest _ => True
  | .close _ => True
  | .ended _ => True
  | _ => False

/-- A call of `Send` between its count check and its `Enqueue`. -/
def Caller.sends : Caller ρ μ → Bool
  | .sendError _ => true
  | .sendEnqueue _ => true
  | _ => false

/-- The thread that calls `Send`. -/
def Event.sender : Event ι ρ → Option ι
  | .call i (.send _) => some i
  | _ => none

/-- The threads that call `Send` in a run. -/
def senders [DecidableEq ι] (events : List (Event ι ρ)) : Finset ι :=
  (events.filterMap Event.sender).toFinset

/-- The requests of the calls of `Send` that returned, in the order of their `Enqueue`. -/
def Log.enqueued (log : Log ι ρ μ) : List (Option ρ) :=
  log.sends.filterMap fun call =>
    match call.2 with
    | .ok () => some call.1
    | .error _ => none

namespace Adapter

/-- The bytes written to the stream. -/
def bytesWritten (s : Adapter ι ρ μ φ) : List Byte :=
  match s.networkStream with
  | none => []
  | some stream => stream.written

variable {codec : Codec ρ μ φ} {s s' : Adapter ι ρ μ φ}

/-! ## Order -/

/-- The enqueued requests are the written ones, the one that was taken, and those in the queue. -/
def Ordered (s : Adapter ι ρ μ φ) : Prop :=
  s.log.enqueued.reduceOption =
    s.log.written ++ s.sendingThread.request.toList ++ s.sendingQueue.reduceOption

/-- A step that moves a request at most from the queue to the thread keeps the order. -/
theorem Ordered.of_request (hs : s.Ordered) (hsends : s'.log.sends = s.log.sends)
    (hwritten : s'.log.written = s.log.written)
    (h : s'.sendingThread.request.toList ++ s'.sendingQueue.reduceOption =
      s.sendingThread.request.toList ++ s.sendingQueue.reduceOption) : s'.Ordered := by
  rw [Ordered, Log.enqueued, hsends, hwritten, List.append_assoc, h, ← List.append_assoc]
  exact hs

/-- The loop takes the oldest request, or drops null, which is none. -/
theorem sending_ordered (h : sending codec s = some s') (hs : s.Ordered) : s'.Ordered := by
  have hrequest : s'.sendingThread.request.toList ++ s'.sendingQueue.reduceOption =
      s.sendingThread.request.toList ++ s.sendingQueue.reduceOption := by
    cases sending_step h with
    | dequeuedNull rest hthread hqueue =>
      rw [hthread, hqueue, List.reduceOption_cons_of_none]
      rfl
    | dequeued request rest hthread hqueue =>
      -- the oldest request goes from the queue to the thread
      rw [hthread, hqueue, List.reduceOption_cons_of_some]
      rfl
    | _ => rw [‹s.sendingThread = _›]; rfl
  obtain ⟨_, _, _, _, rfl⟩ := sending_frame h
  exact hs.of_request rfl rfl hrequest

theorem connected_ordered {result : Except Fault Unit} (h : connected result s = some s')
    (hs : s.Ordered) : s'.Ordered := by
  have hrequest : s'.sendingThread.request = none ∧ s.sendingThread.request = none := by
    unfold connected at h
    split at h
    · next hthread =>
      cases h
      exact ⟨rfl, by rw [hthread]; rfl⟩
    · next hthread =>
      cases h
      exact ⟨rfl, by rw [hthread]; rfl⟩
    · cases h
  obtain ⟨_, _, rfl⟩ := connected_frame h
  exact hs.of_request rfl rfl (by rw [hrequest.1, hrequest.2])

/-- The request in flight has been written, or is the one whose write threw. -/
theorem wrote_ordered {result : Except Fault Unit} (h : wrote result s = some s')
    (hs : s.Ordered) : s'.Ordered := by
  unfold wrote at h
  split at h
  · next request data hthread =>
    split at h
    · -- the taken request becomes the last written one
      cases h
      rw [Ordered, hthread] at hs
      change s.log.enqueued.reduceOption =
        s.log.written ++ [request] ++ [] ++ s.sendingQueue.reduceOption
      rw [List.append_nil]
      exact hs
    · cases h
  · next request data e hthread =>
    cases h
    exact hs.of_request rfl rfl (by rw [hthread]; rfl)
  · cases h

theorem receiving_ordered (h : receiving codec s = some s') (hs : s.Ordered) : s'.Ordered := by
  obtain ⟨_, _, _, _, rfl⟩ := receiving_frame h
  exact hs

theorem readByte_ordered {result : Except Fault (Option Byte)}
    (h : readByte codec result s = some s') (hs : s.Ordered) : s'.Ordered := by
  obtain ⟨_, rfl⟩ := readByte_frame h
  exact hs

section Callers

variable [DecidableEq ι] {i : ι}

omit [DecidableEq ι] in
/-- A call of `Send` that throws has enqueued nothing. -/
theorem Ordered.refused (hs : s.Ordered) (request : Option ρ) (refusal : Refusal) :
    (s.sent request (.error refusal)).Ordered := by
  have henqueued : (s.sent request (.error refusal)).log.enqueued = s.log.enqueued := by
    simp [sent, Log.enqueued]
  exact (congrArg List.reduceOption henqueued).trans hs

omit [DecidableEq ι] in
/-- The `Enqueue` of a call appends its request. -/
theorem Ordered.enqueued (hs : s.Ordered) (request : Option ρ) :
    ({ s with sendingQueue := s.sendingQueue ++ [request] }.sent request (.ok ())).Ordered := by
  have henqueued : (s.sent request (.ok ())).log.enqueued = s.log.enqueued ++ [request] := by
    simp [sent, Log.enqueued]
  calc (s.sent request (.ok ())).log.enqueued.reduceOption
      = s.log.written ++ s.sendingThread.request.toList ++ s.sendingQueue.reduceOption ++
          [request].reduceOption := by rw [henqueued, List.reduceOption_append, hs]
    _ = s.log.written ++ s.sendingThread.request.toList ++
          (s.sendingQueue ++ [request]).reduceOption := by
        rw [List.reduceOption_append, List.append_assoc]

/-- A call of `Send` only counts at first. -/
theorem call_ordered {c : Call ρ} (h : call i c s = some s') (hs : s.Ordered) : s'.Ordered := by
  cases call_step h with
  | sendMany request => exact hs.refused _ _
  | _ => exact hs

/-- An accepted request goes to the end of the queue. -/
theorem resume_ordered (h : resume i s = some s') (hs : s.Ordered) : s'.Ordered := by
  cases resume_step h with
  | sendError request e => exact hs.refused _ _
  | enqueued request => exact hs.enqueued request
  | sendingStarted hcaller hthread => exact hs.of_request rfl rfl (by rw [hthread]; rfl)
  | _ => exact hs

/-- No step loses a request, doubles one or changes the order. -/
theorem step_ordered {e : Event ι ρ} (h : step codec e s = some s') (hs : s.Ordered) :
    s'.Ordered := by
  cases e with
  | call i c => exact call_ordered h hs
  | resume i => exact resume_ordered h hs
  | sending => exact sending_ordered h hs
  | connected result => exact connected_ordered h hs
  | wrote result => exact wrote_ordered h hs
  | receiving => exact receiving_ordered h hs
  | readByte result => exact readByte_ordered h hs

end Callers

/-! ## Bytes -/

/-- The bytes on the stream are those of the written requests. -/
structure Delivered (codec : Codec ρ μ φ) (s : Adapter ι ρ μ φ) : Prop where
  bytes : ∃ datas, List.Forall₂ (fun request data => codec.serializeRequest request = .ok data)
    s.log.written datas ∧ s.bytesWritten = datas.flatten
  write : ∀ request data, s.sendingThread = .write request data →
    codec.serializeRequest request = .ok data
  connect : s.sendingThread = .connect → s.networkStream = none

/-- A step that writes nothing and leads neither to a connection nor to a write. -/
theorem Delivered.of_thread (hs : s.Delivered codec) (hwritten : s'.log.written = s.log.written)
    (hbytes : s'.bytesWritten = s.bytesWritten)
    (hwrite : ∀ request data, s'.sendingThread ≠ .write request data)
    (hconnect : s'.sendingThread ≠ .connect) : s'.Delivered codec where
  bytes := by
    rw [hwritten, hbytes]
    exact hs.bytes
  write := fun request data h => absurd h (hwrite request data)
  connect := fun h => absurd h hconnect

/-- The bytes about to be written are those of the request in flight. -/
theorem sending_delivered (h : sending codec s = some s') (hs : s.Delivered codec) :
    s'.Delivered codec := by
  cases sending_step h with
  | noStream hthread hstream => exact ⟨hs.bytes, nofun, fun _ => hstream⟩
  | serialized request data hthread hdata =>
    refine ⟨hs.bytes, ?_, nofun⟩
    rintro _ _ ⟨⟩
    exact hdata
  | closed request hthread =>
    refine hs.of_thread rfl ?_ nofun nofun
    unfold bytesWritten
    cases s.networkStream <;> rfl
  | _ => exact hs.of_thread rfl rfl nofun nofun

theorem connected_delivered {result : Except Fault Unit} (h : connected result s = some s')
    (hs : s.Delivered codec) : s'.Delivered codec := by
  unfold connected at h
  split at h
  · next hthread =>
    cases h
    have hbytes : s.bytesWritten = [] := by rw [bytesWritten, hs.connect hthread]
    exact hs.of_thread rfl hbytes.symm nofun nofun
  · cases h
    exact hs.of_thread rfl rfl nofun nofun
  · cases h

/-- A write that comes back has put the bytes of its request behind those of the others. -/
theorem wrote_delivered {result : Except Fault Unit} (h : wrote result s = some s')
    (hs : s.Delivered codec) : s'.Delivered codec := by
  unfold wrote at h
  split at h
  · next request data hthread =>
    split at h
    · next hopen =>
      cases h
      obtain ⟨datas, hdatas, hbytes⟩ := hs.bytes
      refine ⟨⟨datas ++ [data], ?_, ?_⟩, nofun, nofun⟩
      · exact List.rel_append hdatas (.cons (hs.write request data hthread) .nil)
      · cases hstream : s.networkStream with
        | none =>
          rw [isOpen, hstream] at hopen
          cases hopen
        | some stream =>
          rw [bytesWritten, hstream] at hbytes
          change stream.written ++ data = (datas ++ [data]).flatten
          rw [List.flatten_append, ← hbytes, List.flatten_singleton]
    · cases h
  · cases h
    exact hs.of_thread rfl rfl nofun nofun
  · cases h

/-- The steps of the other threads. -/
theorem Delivered.of_side (hs : s.Delivered codec) (hstream : s'.networkStream = s.networkStream)
    (hwritten : s'.log.written = s.log.written)
    (hthread : s'.sendingThread = s.sendingThread ∨
      s.sendingThread = .unstarted ∧ s'.sendingThread = .testStream) : s'.Delivered codec := by
  have hbytes : s'.bytesWritten = s.bytesWritten := by rw [bytesWritten, bytesWritten, hstream]
  rcases hthread with hsame | ⟨-, hstarted⟩
  · refine ⟨?_, ?_, ?_⟩
    · rw [hwritten, hbytes]
      exact hs.bytes
    · rw [hsame]
      exact hs.write
    · rw [hsame, hstream]
      exact hs.connect
  · exact hs.of_thread hwritten hbytes (by rw [hstarted]; nofun) (by rw [hstarted]; nofun)

/-- The bytes on the stream are those of the written requests. -/
theorem step_delivered [DecidableEq ι] {e : Event ι ρ} (h : step codec e s = some s')
    (hs : s.Delivered codec) : s'.Delivered codec := by
  cases e with
  | call i c =>
    obtain ⟨_, _, _, _, rfl⟩ := call_frame h
    exact hs.of_side rfl rfl (Or.inl rfl)
  | resume i =>
    obtain ⟨_, _, _, _, _, _, _, rfl, hthread, -⟩ := resume_frame h
    exact hs.of_side rfl rfl hthread
  | sending => exact sending_delivered h hs
  | connected result => exact connected_delivered h hs
  | wrote result => exact wrote_delivered h hs
  | receiving =>
    obtain ⟨_, _, _, _, rfl⟩ := receiving_frame h
    exact hs.of_side rfl rfl (Or.inl rfl)
  | readByte result =>
    obtain ⟨_, rfl⟩ := readByte_frame h
    exact hs.of_side rfl rfl (Or.inl rfl)

/-! ## After the loop -/

/-- The loop has been left with the given requests and bytes written. -/
def LeftWith (written : List ρ) (bytes : List Byte) (s : Adapter ι ρ μ φ) : Prop :=
  s.sendingThread.Left ∧ s.log.written = written ∧ s.bytesWritten = bytes

variable {written : List ρ} {bytes : List Byte}

/-- Behind its loop the sending thread takes no request and writes nothing. -/
theorem sending_leftWith (h : sending codec s = some s') (hs : s.LeftWith written bytes) :
    s'.LeftWith written bytes := by
  obtain ⟨hleft, hwritten, hbytes⟩ := hs
  cases sending_step h with
  | caught | finallyNoStream | finallyStream => exact ⟨trivial, hwritten, hbytes⟩
  | closed request hthread =>
    refine ⟨trivial, hwritten, Eq.trans ?_ hbytes⟩
    unfold bytesWritten
    cases s.networkStream <;> rfl
  | _ =>
    rw [‹s.sendingThread = _›] at hleft
    cases hleft

/-- Once the loop has been left, no step of any thread writes. -/
theorem step_leftWith [DecidableEq ι] {e : Event ι ρ} (h : step codec e s = some s')
    (hs : s.LeftWith written bytes) : s'.LeftWith written bytes := by
  cases e with
  | call i c =>
    obtain ⟨_, _, _, _, rfl⟩ := call_frame h
    exact hs
  | resume i =>
    obtain ⟨_, _, _, _, _, _, _, rfl, hthread, -⟩ := resume_frame h
    rcases hthread with rfl | ⟨hunstarted, -⟩
    · exact hs
    · have hleft := hs.1
      rw [hunstarted] at hleft
      cases hleft
  | sending => exact sending_leftWith h hs
  | connected result =>
    have hleft := hs.1
    rw [connected_thread h] at hleft
    cases hleft
  | wrote result =>
    have hleft := hs.1
    obtain ⟨request, data, hthread⟩ := wrote_thread h
    rw [hthread] at hleft
    cases hleft
  | receiving =>
    obtain ⟨_, _, _, _, rfl⟩ := receiving_frame h
    exact hs
  | readByte result =>
    obtain ⟨_, rfl⟩ := readByte_frame h
    exact hs

/-! ## Length -/

section Length

variable [DecidableEq ι] {threads : Finset ι}

/-- The queue with a place for every caller between the two checks and its `Enqueue`. -/
structure Bounded (threads : Finset ι) (s : Adapter ι ρ μ φ) : Prop where
  mem : ∀ i, (s.callers i).sends = true → i ∈ threads
  length : s.sendingQueue.length + (threads.filter fun i => (s.callers i).sends = true).card ≤
    100 + threads.card

omit [DecidableEq ι] in
/-- Neither a longer queue nor another caller on its way to it. -/
theorem Bounded.of_callers (hs : s.Bounded threads)
    (hcallers : ∀ j, (s'.callers j).sends = true → (s.callers j).sends = true)
    (hlength : s'.sendingQueue.length ≤ s.sendingQueue.length) : s'.Bounded threads where
  mem := fun j hj => hs.mem j (hcallers j hj)
  length := by
    have hcard := Finset.card_le_card
      (Finset.monotone_filter_right threads fun j _ hj => hcallers j hj)
    have hle := hs.length
    omega

/-- A caller that moves on without a place kept for it in the queue. -/
theorem Bounded.callerAt (hs : s.Bounded threads) (i : ι) {c : Caller ρ μ}
    (hc : c.sends = true → (s.callers i).sends = true) : (s.callerAt i c).Bounded threads := by
  refine hs.of_callers ?_ le_rfl
  intro j hj
  by_cases hij : j = i
  · subst hij
    rw [callers_callerAt_self] at hj
    exact hc hj
  · rwa [callers_callerAt_of_ne hij] at hj

/-- The count check passes: there is a place for the request. -/
theorem Bounded.counted (hs : s.Bounded threads) {i : ι} (hi : i ∈ threads)
    (hlength : s.sendingQueue.length ≤ 100) (request : Option ρ) :
    (s.callerAt i (.sendError request)).Bounded threads where
  mem := by
    intro j hj
    by_cases hij : j = i
    · rwa [hij]
    · rw [callers_callerAt_of_ne hij] at hj
      exact hs.mem j hj
  length := Nat.add_le_add hlength (Finset.card_filter_le _ _)

/-- The `Enqueue` takes the place of the caller. -/
theorem Bounded.enqueued (hs : s.Bounded threads) {i : ι} {request : Option ρ}
    (hi : s.callers i = .sendEnqueue request) :
    (({ s with sendingQueue := s.sendingQueue ++ [request] }.sent request
      (.ok ())).callerAt i .idle).Bounded threads where
  mem := by
    intro j hj
    by_cases hij : j = i
    · rw [hij, callers_callerAt_self] at hj
      cases hj
    · rw [callers_callerAt_of_ne hij] at hj
      exact hs.mem j hj
  length := by
    have hsends : (s.callers i).sends = true := by rw [hi]; rfl
    have hle := hs.length
    have hsubset : (threads.filter fun j => ((({ s with
        sendingQueue := s.sendingQueue ++ [request] }.sent request
          (.ok ())).callerAt i .idle).callers j).sends = true) ⊆
        (threads.filter fun j => (s.callers j).sends = true).erase i := by
      intro j hj
      rw [Finset.mem_filter] at hj
      have hij : j ≠ i := by
        rintro rfl
        rw [callers_callerAt_self] at hj
        cases hj.2
      rw [callers_callerAt_of_ne hij] at hj
      exact Finset.mem_erase.mpr ⟨hij, Finset.mem_filter.mpr hj⟩
    have hmem : i ∈ threads.filter fun j => (s.callers j).sends = true :=
      Finset.mem_filter.mpr ⟨hs.mem i hsends, hsends⟩
    have hcard := Finset.card_le_card hsubset
    have hpos := Finset.card_pos.mpr ⟨i, hmem⟩
    rw [Finset.card_erase_of_mem hmem] at hcard
    change (s.sendingQueue ++ [request]).length + _ ≤ _
    rw [List.length_append, List.length_singleton]
    omega

omit [DecidableEq ι] in
/-- The sending thread only takes requests away. -/
theorem sending_bounded (h : sending codec s = some s') (hs : s.Bounded threads) :
    s'.Bounded threads := by
  have hlength : s'.sendingQueue.length ≤ s.sendingQueue.length := by
    cases sending_step h with
    | dequeuedNull rest hthread hqueue | dequeued request rest hthread hqueue =>
      rw [hqueue]
      exact Nat.le_succ _
    | _ => exact le_rfl
  obtain ⟨_, _, _, _, rfl⟩ := sending_frame h
  exact hs.of_callers (fun _ hj => hj) hlength

/-- A thread that calls `Send` has counted the queue. -/
theorem call_bounded {i : ι} {c : Call ρ} (hi : ∀ request, c = .send request → i ∈ threads)
    (h : call i c s = some s') (hs : s.Bounded threads) : s'.Bounded threads := by
  have hbegan : (s.began i c).Bounded threads := hs.of_callers (fun _ hj => hj) le_rfl
  cases call_step h with
  | send request hidle hcount => exact hbegan.counted (hi request rfl) hcount request
  | receive => exact hbegan.callerAt i fun hc => by cases hc
  | start =>
    refine Bounded.callerAt ?_ i nofun
    exact hbegan.of_callers (fun _ hj => hj) le_rfl
  | _ => exact hbegan.of_callers (fun _ hj => hj) le_rfl

/-- A thread enqueues one request behind a count of 100 at most. -/
theorem resume_bounded {i : ι} (h : resume i s = some s') (hs : s.Bounded threads) :
    s'.Bounded threads := by
  cases resume_step h with
  | sendNoError request hcaller => exact hs.callerAt i fun _ => by rw [hcaller]; rfl
  | enqueued request hcaller => exact hs.enqueued hcaller
  | _ =>
    refine Bounded.callerAt ?_ i nofun
    exact hs.of_callers (fun _ hj => hj) le_rfl

/-- The queue exceeds 100 by the threads behind their counts at most. -/
theorem step_bounded {e : Event ι ρ} (he : ∀ i, e.sender = some i → i ∈ threads)
    (h : step codec e s = some s') (hs : s.Bounded threads) : s'.Bounded threads := by
  cases e with
  | call i c =>
    refine call_bounded ?_ h hs
    rintro request rfl
    exact he i rfl
  | resume i => exact resume_bounded h hs
  | sending => exact sending_bounded h hs
  | connected result =>
    obtain ⟨_, _, rfl⟩ := connected_frame h
    exact hs.of_callers (fun _ hj => hj) le_rfl
  | wrote result =>
    obtain ⟨_, _, _, rfl⟩ := wrote_frame h
    exact hs.of_callers (fun _ hj => hj) le_rfl
  | receiving =>
    obtain ⟨_, _, _, _, rfl⟩ := receiving_frame h
    exact hs.of_callers (fun _ hj => hj) le_rfl
  | readByte result =>
    obtain ⟨_, rfl⟩ := readByte_frame h
    exact hs.of_callers (fun _ hj => hj) le_rfl

end Length

/-! ## Runs -/

open Transition (exec exec_keeps exec_invariant throughout_of_forall_mem)

/-- No request has been made of a new adapter. -/
theorem ordered_new (networkStream : Bool) :
    (new networkStream : Adapter ι ρ μ φ).Ordered := rfl

/-- A new adapter has written nothing. -/
theorem delivered_new (networkStream : Bool) :
    (new networkStream : Adapter ι ρ μ φ).Delivered codec := by
  refine ⟨⟨[], .nil, ?_⟩, nofun, nofun⟩
  cases networkStream <;> rfl

/-- The queue of a new adapter is empty. -/
theorem bounded_new (networkStream : Bool) (threads : Finset ι) :
    (new networkStream : Adapter ι ρ μ φ).Bounded threads := by
  refine ⟨nofun, ?_⟩
  have hcard := Finset.card_filter_le threads fun i =>
    ((new networkStream : Adapter ι ρ μ φ).callers i).sends = true
  exact Nat.add_le_add (Nat.zero_le 100) hcard

variable [DecidableEq ι] {events : List (Event ι ρ)}

/-- However the threads interleave: no request but null is lost, doubled or overtaken on its way
to the stream, the stream has the bytes of the written requests, nothing is written behind the
loop, and the queue is longer than 100 by at most the number of threads that call `Send`. -/
theorem exec_sendingQueue (networkStream : Bool) {s : Adapter ι ρ μ φ}
    (h : exec (step codec) events (new networkStream) = some s) :
    s.log.enqueued.reduceOption =
      s.log.written ++ s.sendingThread.request.toList ++ s.sendingQueue.reduceOption ∧
    (∃ datas, List.Forall₂ (fun request data => codec.serializeRequest request = .ok data)
      s.log.written datas ∧ s.bytesWritten = datas.flatten) ∧
    (s.sendingThread.Left → ∀ events' s', exec (step codec) events' s = some s' →
      s'.log.written = s.log.written ∧ s'.bytesWritten = s.bytesWritten) ∧
    s.sendingQueue.length ≤ 100 + (senders events).card := by
  refine ⟨?_, ?_, ?_, ?_⟩
  · exact exec_keeps (fun _ _ _ => step_ordered) h (ordered_new networkStream)
  · exact (exec_keeps (fun _ _ _ => step_delivered) h (delivered_new networkStream)).bytes
  · intro hleft events' s' h'
    exact (exec_keeps (fun _ _ _ => step_leftWith) h' ⟨hleft, rfl, rfl⟩).2
  · have hsenders : ∀ e ∈ events, ∀ i, e.sender = some i → i ∈ senders events := by
      intro e he i hi
      exact List.mem_toFinset.mpr (List.mem_filterMap.mpr ⟨e, he, hi⟩)
    have hbounded := exec_invariant (fun e _ _ he hstep => step_bounded he hstep)
      (throughout_of_forall_mem hsenders _) h (bounded_new networkStream (senders events))
    exact le_trans (Nat.le_add_right _ _) hbounded.length

/-- A started adapter whose application sends a request that is taken from the queue. -/
theorem exec_sendingQueue_one :
    ∃ s, exec (step (Codec.client true Receiver.defaultFillers))
      [.call () .start, .resume (), .resume (), .sending, .sending, .sending,
        .call () (.send (some (.connectServerRequest ⟨5, 0, 0, [], [], by decide, by decide⟩))),
        .resume (), .resume (), .sending, .sending] (new true) = some s ∧
      s.log.enqueued.reduceOption =
        s.log.written ++ s.sendingThread.request.toList ++ s.sendingQueue.reduceOption :=
  Exists.imp (fun _ hs => ⟨hs, (exec_sendingQueue true hs).1⟩) ⟨_, rfl⟩

/-- `Send` accepts null, and the thread takes it from the queue and goes on without it. -/
theorem exec_sendingQueue_null :
    ¬ ∀ (events : List (Event Unit NetworkMessage)) (s : Adapter Unit NetworkMessage NetworkMessage
        (List MessageBytesFiller × Option Nat)),
      exec (step (Codec.client true Receiver.defaultFillers)) events (new true) = some s →
        s.log.enqueued =
          (s.log.written ++ s.sendingThread.request.toList).map some ++ s.sendingQueue := by
  intro h
  obtain ⟨s, hs, hdropped⟩ : ∃ s, exec (step (Codec.client true Receiver.defaultFillers))
      [.call () .start, .resume (), .resume (), .sending, .sending, .sending,
        .call () (.send none), .resume (), .resume (), .sending, .sending] (new true) = some s ∧
      s.log.enqueued = [none] ∧ s.log.written = [] ∧ s.sendingThread.request = none ∧
        s.sendingQueue = [] := ⟨_, rfl, rfl, rfl, rfl, rfl⟩
  obtain ⟨henqueued, hwritten, hrequest, hqueue⟩ := hdropped
  have hlost := h _ s hs
  rw [henqueued, hwritten, hrequest, hqueue] at hlost
  cases hlost

end Adapter

end BananaApi.Client
