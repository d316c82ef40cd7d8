import BananaApi.Client.Threads

/-!
# The steps of the threads

What one step of each thread can do, by cases: the tests it has passed and the state it
leads to. What a step leaves alone follows from the cases.
-/

namespace BananaApi.Client.Adapter

variable {ι ρ μ φ : Type}

/-! ## What one step can do -/

section Cases

variable (codec : Codec ρ μ φ)

/-- A step of `Sending`, with what it has found. -/
inductive SendingStep (s : Adapter ι ρ μ φ) : Adapter ι ρ μ φ → Prop
  | noStream : s.sendingThread = .testStream → s.networkStream = none →
      SendingStep s { s with sendingThread := .connect }
  | stream (stream : NetworkStream) : s.sendingThread = .testStream →
      s.networkStream = some stream → SendingStep s { s with sendingThread := .testRunning }
  | running : s.sendingThread = .testRunning → s.running = true →
      SendingStep s { s with sendingThread := .testError }
  | stopped : s.sendingThread = .testRunning → s.running = false →
      SendingStep s { s with sendingThread := .finallyTest none }
  | noError : s.sendingThread = .testError → s.error = none →
      SendingStep s { s with sendingThread := .count }
  | error (e : Fault) : s.sendingThread = .testError → s.error = some e →
      SendingStep s { s with sendingThread := .finallyTest none }
  | counted : s.sendingThread = .count → 0 < s.sendingQueue.length →
      SendingStep s { s with sendingThread := .tryDequeue }
  | countedNone : s.sendingThread = .count → s.sendingQueue = [] →
      SendingStep s { s with sendingThread := .testRunning }
  | dequeuedNone : s.sendingThread = .tryDequeue → s.sendingQueue = [] →
      SendingStep s { s with sendingThread := .testRunning }
  | dequeuedNull (rest : List (Option ρ)) : s.sendingThread = .tryDequeue →
      s.sendingQueue = none :: rest →
        SendingStep s { s with sendingQueue := rest, sendingThread := .testRunning }
  | dequeued (request : ρ) (rest : List (Option ρ)) : s.sendingThread = .tryDequeue →
      s.sendingQueue = some request :: rest →
        SendingStep s { s with sendingQueue := rest, sendingThread := .serialize request }
  | serialized (request : ρ) (data : List Byte) : s.sendingThread = .serialize request →
      codec.serializeRequest request = .ok data →
        SendingStep s { s with sendingThread := .write request data }
  | notSerialized (request : ρ) (e : Fault) : s.sendingThread = .serialize request →
      codec.serializeRequest request = .error e →
        SendingStep s { s with sendingThread := .caught (some request) e }
  | caught (request : Option ρ) (e : Fault) : s.sendingThread = .caught request e →
      SendingStep s { s with error := some e, sendingThread := .finallyTest request }
  | finallyNoStream (request : Option ρ) : s.sendingThread = .finallyTest request →
      s.networkStream = none → SendingStep s { s with sendingThread := .ended request }
  | finallyStream (request : Option ρ) (stream : NetworkStream) :
      s.sendingThread = .finallyTest request → s.networkStream = some stream →
        SendingStep s { s with sendingThread := .close request }
  | closed (request : Option ρ) : s.sendingThread = .close request →
      SendingStep s { s with
        networkStream := s.networkStream.map fun stream => { stream with opened := false }
        sendingThread := .ended request }

/-- A step of `Receiving`, with what it has found. -/
inductive ReceivingStep (s : Adapter ι ρ μ φ) : Adapter ι ρ μ φ → Prop
  | waitRunning : s.receivingThread = .waitRunning → s.running = true →
      ReceivingStep s { s with receivingThread := .waitError }
  | waitStopped : s.receivingThread = .waitRunning → s.running = false →
      ReceivingStep s { s with receivingThread := .testRunning codec.fillers }
  | waitNoError : s.receivingThread = .waitError → s.error = none →
      ReceivingStep s { s with receivingThread := .waitStream }
  | waitError (e : Fault) : s.receivingThread = .waitError → s.error = some e →
      ReceivingStep s { s with receivingThread := .testRunning codec.fillers }
  | waitNoStream : s.receivingThread = .waitStream → s.networkStream = none →
      ReceivingStep s { s with receivingThread := .waitRunning }
  | waitStream (stream : NetworkStream) : s.receivingThread = .waitStream →
      s.networkStream = some stream →
        ReceivingStep s { s with receivingThread := .testRunning codec.fillers }
  | running (f : φ) : s.receivingThread = .testRunning f → s.running = true →
      ReceivingStep s { s with receivingThread := .testError f }
  | stopped (f : φ) : s.receivingThread = .testRunning f → s.running = false →
      ReceivingStep s { s with receivingThread := .ended }
  | noError (f : φ) : s.receivingThread = .testError f → s.error = none →
      ReceivingStep s { s with receivingThread := .reading f [] }
  | error (f : φ) (e : Fault) : s.receivingThread = .testError f → s.error = some e →
      ReceivingStep s { s with receivingThread := .ended }
  | enqueued (f : φ) (message : μ) : s.receivingThread = .enqueue f message →
      ReceivingStep s { s with
        receivingQueue := s.receivingQueue ++ [message]
        receivingThread := .testRunning f
        log := { s.log with arrived := s.log.arrived ++ [message] } }
  | caught (e : Fault) : s.receivingThread = .caught e →
      ReceivingStep s { s with error := some e, receivingThread := .crashed e }

variable {codec} {s s' : Adapter ι ρ μ φ}

/-- The cases are all that a step of `Sending` can do. -/
theorem sending_step (h : sending codec s = some s') : SendingStep codec s s' := by
  unfold sending at h
  split at h
  · next hthread =>
    split at h <;> cases h
    · exact .noStream hthread ‹_›
    · exact .stream _ hthread ‹_›
  · next hthread =>
    split at h <;> cases h
    · exact .running hthread ‹_›
    · exact .stopped hthread (Bool.eq_false_iff.mpr ‹_›)
  · next hthread =>
    split at h <;> cases h
    · exact .noError hthread ‹_›
    · exact .error _ hthread ‹_›
  · next hthread =>
    split at h <;> cases h
    · exact .counted hthread ‹_›
    · exact .countedNone hthread (List.length_eq_zero_iff.mp (Nat.eq_zero_of_not_pos ‹_›))
  · next hthread =>
    split at h <;> cases h
    · exact .dequeuedNone hthread ‹_›
    · exact .dequeuedNull _ hthread ‹_›
    · exact .dequeued _ _ hthread ‹_›
  · next hthread =>
    split at h <;> cases h
    · exact .serialized _ _ hthread ‹_›
    · exact .notSerialized _ _ hthread ‹_›
  · next hthread =>
    cases h
    exact .caught _ _ hthread
  · next hthread =>
    split at h <;> cases h
    · exact .finallyNoStream _ hthread ‹_›
    · exact .finallyStream _ _ hthread ‹_›
  · next hthread =>
    cases h
    exact .closed _ hthread
  · cases h

/-- The cases are all that a step of `Receiving` can do. -/
theorem receiving_step (h : receiving codec s = some s') : ReceivingStep codec s s' := by
  unfold receiving at h
  split at h
  · next hthread =>
    split at h <;> cases h
    · exact .waitRunning hthread ‹_›
    · exact .waitStopped hthread (Bool.eq_false_iff.mpr ‹_›)
  · next hthread =>
    split at h <;> cases h
    · exact .waitNoError hthread ‹_›
    · exact .waitError _ hthread ‹_›
  · next hthread =>
    split at h <;> cases h
    · exact .waitNoStream hthread ‹_›
    · exact .waitStream _ hthread ‹_›
  · next hthread =>
    split at h <;> cases h
    · exact .running _ hthread ‹_›
    · exact .stopped _ hthread (Bool.eq_false_iff.mpr ‹_›)
  · next hthread =>
    split at h <;> cases h
    · exact .noError _ hthread ‹_›
    · exact .error _ _ hthread ‹_›
  · next hthread =>
    cases h
    exact .enqueued _ _ hthread
  · next hthread =>
    cases h
    exact .caught _ hthread
  · cases h

end Cases

section CallerCases

variable [DecidableEq ι]

/-- The first step of a call, with what it has counted. -/
inductive CallStep (i : ι) (s : Adapter ι ρ μ φ) : Call ρ → Adapter ι ρ μ φ → Prop
  | sendMany (request : Option ρ) : s.callers i = .idle → 100 < s.sendingQueue.length →
      CallStep i s (.send request) ((s.began i (.send request)).sent request
        (.error (.indexOutOfRange "Too many request queued...")))
  | send (request : Option ρ) : s.callers i = .idle → s.sendingQueue.length ≤ 100 →
      CallStep i s (.send request) ((s.began i (.send request)).callerAt i (.sendError request))
  | receiveMany : s.callers i = .idle → 100 < s.receivingQueue.length →
      CallStep i s .receive ((s.began i .receive).returned s.receivingQueue
        (.error (.indexOutOfRange "Too many responses queued...")))
  | receive : s.callers i = .idle → s.receivingQueue.length ≤ 100 →
      CallStep i s .receive ((s.began i .receive).callerAt i (.receiveError s.receivingQueue))
  | start : s.callers i = .idle →
      CallStep i s .start ({ s.began i .start with running := true }.callerAt i .startSending)
  | stop : s.callers i = .idle → CallStep i s .stop { s.began i .stop with running := false }

/-- A later step of a call, with what it has found. -/
inductive ResumeStep (i : ι) (s : Adapter ι ρ μ φ) : Adapter ι ρ μ φ → Prop
  | sendNoError (request : Option ρ) : s.callers i = .sendError request → s.error = none →
      ResumeStep i s (s.callerAt i (.sendEnqueue request))
  | sendError (request : Option ρ) (e : Fault) : s.callers i = .sendError request →
      s.error = some e →
        ResumeStep i s ((s.sent request (.error (.underlyingNetworkError e))).callerAt i .idle)
  | enqueued (request : Option ρ) : s.callers i = .sendEnqueue request →
      ResumeStep i s (({ s with sendingQueue := s.sendingQueue ++ [request] }.sent request
        (.ok ())).callerAt i .idle)
  | receiveNoError (counted : List μ) : s.callers i = .receiveError counted → s.error = none →
      ResumeStep i s (s.callerAt i (.receiveDequeue counted))
  | receiveError (counted : List μ) (e : Fault) : s.callers i = .receiveError counted →
      s.error = some e → ResumeStep i s
        ((s.returned counted (.error (.underlyingNetworkError e))).callerAt i .idle)
  | dequeuedNone (counted : List μ) : s.callers i = .receiveDequeue counted →
      s.receivingQueue = [] →
        ResumeStep i s ((s.returned counted (.ok none)).callerAt i .idle)
  | dequeued (counted : List μ) (response : μ) (rest : List μ) :
      s.callers i = .receiveDequeue counted → s.receivingQueue = response :: rest →
        ResumeStep i s (({ s with receivingQueue := rest }.returned counted
          (.ok (some response))).callerAt i .idle)
  | sendingStarted : s.callers i = .startSending → s.sendingThread = .unstarted →
      ResumeStep i s ({ s with sendingThread := .testStream }.callerAt i .startReceiving)
  | sendingNotStarted : s.callers i = .startSending → s.sendingThread ≠ .unstarted →
      ResumeStep i s (s.callerAt i .idle)
  | receivingStarted : s.callers i = .startReceiving → s.receivingThread = .unstarted →
      ResumeStep i s ({ s with receivingThread := .waitRunning }.callerAt i .idle)
  | receivingNotStarted : s.callers i = .startReceiving → s.receivingThread ≠ .unstarted →
      ResumeStep i s (s.callerAt i .idle)

variable {i : ι} {s s' : Adapter ι ρ μ φ}

/-- The cases are all that the first step of a call can do. -/
theorem call_step {c : Call ρ} (h : call i c s = some s') : CallStep i s c s' := by
  unfold call at h
  split at h
  · next hidle =>
    cases c with
    | send request =>
      dsimp only at h
      split at h <;> cases h
      · exact .sendMany request hidle ‹_›
      · exact .send request hidle (Nat.le_of_not_lt ‹_›)
    | receive =>
      dsimp only at h
      split at h <;> cases h
      · exact .receiveMany hidle ‹_›
      · exact .receive hidle (Nat.le_of_not_lt ‹_›)
    | start =>
      cases h
      exact .start hidle
    | stop =>
      cases h
      exact .stop hidle
  · cases h

/-- The cases are all that a later step of a call can do. -/
theorem resume_step (h : resume i s = some s') : ResumeStep i s s' := by
  unfold resume at h
  split at h
  · cases h
  · next hcaller =>
    split at h <;> cases h
    · exact .sendNoError _ hcaller ‹_›
    · exact .sendError _ _ hcaller ‹_›
  · next hcaller =>
    cases h
    exact .enqueued _ hcaller
  · next hcaller =>
    split at h <;> cases h
    · exact .receiveNoError _ hcaller ‹_›
    · exact .receiveError _ _ hcaller ‹_›
  · next hcaller =>
    split at h <;> cases h
    · exact .dequeuedNone _ hcaller ‹_›
    · exact .dequeued _ _ _ hcaller ‹_›
  · next hcaller =>
    split at h <;> cases h
    · exact .sendingStarted hcaller ‹_›
    · exact .sendingNotStarted hcaller ‹_›
  · next hcaller =>
    split at h <;> cases h
    · exact .receivingStarted hcaller ‹_›
    · exact .receivingNotStarted hcaller ‹_›

end CallerCases

/-! ## What the steps leave alone -/

section Frames

variable {codec : Codec ρ μ φ} {s s' : Adapter ι ρ μ φ}

/-- A step of `Sending` leaves the log, the received messages and the other threads alone. -/
theorem sending_frame (h : sending codec s = some s') :
    ∃ networkStream error sendingQueue sendingThread, s' = { s with
      networkStream := networkStream
      error := error
      sendingQueue := sendingQueue
      sendingThread := sendingThread } := by
  cases sending_step h <;> exact ⟨_, _, _, _, rfl⟩

/-- What `Connect` came to leaves everything alone but the stream and the thread. -/
theorem connected_frame {result : Except Fault Unit} (h : connected result s = some s') :
    ∃ networkStream sendingThread, s' = { s with
      networkStream := networkStream
      sendingThread := sendingThread } := by
  unfold connected at h
  split at h
  · cases h
    exact ⟨_, _, rfl⟩
  · cases h
    exact ⟨_, _, rfl⟩
  · cases h

/-- A connection is made for a thread that is in `Connect`. -/
theorem connected_thread {result : Except Fault Unit} (h : connected result s = some s') :
    s.sendingThread = .connect := by
  unfold connected at h
  split at h
  · assumption
  · assumption
  · cases h

/-- A write ends for a thread that is in `Write`. -/
theorem wrote_thread {result : Except Fault Unit} (h : wrote result s = some s') :
    ∃ request data, s.sendingThread = .write request data := by
  unfold wrote at h
  split at h
  · next hthread => exact ⟨_, _, hthread⟩
  · next hthread => exact ⟨_, _, hthread⟩
  · cases h

/-- A write that has ended leaves the queues, the error and the other threads alone. -/
theorem wrote_frame {result : Except Fault Unit} (h : wrote result s = some s') :
    ∃ networkStream sendingThread written, s' = { s with
      networkStream := networkStream
      sendingThread := sendingThread
      log := { s.log with written := written } } := by
  unfold wrote at h
  split at h
  · split at h
    · cases h
      exact ⟨_, _, _, rfl⟩
    · cases h
  · cases h
    exact ⟨_, _, s.log.written, rfl⟩
  · cases h

/-- A step of `Receiving` leaves the stream, the requests and the other threads alone. -/
theorem receiving_frame (h : receiving codec s = some s') :
    ∃ error receivingQueue receivingThread arrived, s' = { s with
      error := error
      receivingQueue := receivingQueue
      receivingThread := receivingThread
      log := { s.log with arrived := arrived } } := by
  cases receiving_step h with
  | enqueued f message => exact ⟨_, _, _, _, rfl⟩
  | _ => exact ⟨_, _, _, s.log.arrived, rfl⟩

/-- A read ends for a thread that is in `ReadByte`. -/
theorem readByte_thread {result : Except Fault (Option Byte)}
    (h : readByte codec result s = some s') : ∃ f bytes, s.receivingThread = .reading f bytes := by
  unfold readByte at h
  split at h
  · next hthread => exact ⟨_, _, hthread⟩
  · next hthread => exact ⟨_, _, hthread⟩
  · next hthread => exact ⟨_, _, hthread⟩
  · cases h

/-- A read that has ended moves its thread on, and nothing else. -/
theorem readByte_frame {result : Except Fault (Option Byte)}
    (h : readByte codec result s = some s') :
    ∃ receivingThread, s' = { s with receivingThread := receivingThread } := by
  unfold readByte at h
  split at h
  · split at h
    · cases h
      exact ⟨_, rfl⟩
    · cases h
  · split at h
    · cases h
      exact ⟨_, rfl⟩
    · cases h
  · cases h
    exact ⟨_, rfl⟩
  · cases h

end Frames

section CallerFrames

variable [DecidableEq ι] {i : ι} {s s' : Adapter ι ρ μ φ}

/-- The first step of a call is logged, and leaves the stream, the queues and the two threads
alone. -/
theorem call_frame {c : Call ρ} (h : call i c s = some s') :
    ∃ running callers sends receives, s' = { s with
      running := running
      callers := callers
      log := { s.log with
        calls := s.log.calls ++ [(i, c)]
        sends := sends
        receives := receives } } := by
  cases call_step h with
  | sendMany request => exact ⟨_, s.callers, _, s.log.receives, rfl⟩
  | receiveMany => exact ⟨_, s.callers, s.log.sends, _, rfl⟩
  | stop => exact ⟨false, s.callers, s.log.sends, s.log.receives, rfl⟩
  | start => exact ⟨true, _, s.log.sends, s.log.receives, rfl⟩
  | _ => exact ⟨s.running, _, s.log.sends, s.log.receives, rfl⟩

/-- A thread is started at most. -/
theorem resume_frame (h : resume i s = some s') :
    ∃ sendingQueue receivingQueue sendingThread receivingThread callers sends receives,
      s' = { s with
        sendingQueue := sendingQueue
        receivingQueue := receivingQueue
        sendingThread := sendingThread
        receivingThread := receivingThread
        callers := callers
        log := { s.log with sends := sends, receives := receives } } ∧
      (sendingThread = s.sendingThread ∨
        s.sendingThread = .unstarted ∧ sendingThread = .testStream) ∧
      (receivingThread = s.receivingThread ∨
        s.receivingThread = .unstarted ∧ receivingThread = .waitRunning) := by
  cases resume_step h with
  | sendingStarted hcaller hthread =>
    exact ⟨_, _, _, _, _, s.log.sends, s.log.receives, rfl, Or.inr ⟨hthread, rfl⟩, Or.inl rfl⟩
  | receivingStarted hcaller hthread =>
    exact ⟨_, _, _, _, _, s.log.sends, s.log.receives, rfl, Or.inl rfl, Or.inr ⟨hthread, rfl⟩⟩
  | sendError | enqueued =>
    exact ⟨_, _, _, _, _, _, s.log.receives, rfl, Or.inl rfl, Or.inl rfl⟩
  | _ => exact ⟨_, _, _, _, _, s.log.sends, _, rfl, Or.inl rfl, Or.inl rfl⟩

/-- No call is ever blocked: its next step can be taken at once, and leaves fewer of them. -/
theorem resume_defined (h : s.callers i ≠ .idle) :
    ∃ s', resume i s = some s' ∧ (s'.callers i).stepsLeft < (s.callers i).stepsLeft := by
  unfold resume
  cases hcaller : s.callers i with
  | idle => exact absurd hcaller h
  | _ =>
    dsimp only
    (repeat' split) <;>
      exact ⟨_, rfl, by rw [callers_callerAt_self]; simp only [Caller.stepsLeft]; omega⟩

end CallerFrames

end BananaApi.Client.Adapter
