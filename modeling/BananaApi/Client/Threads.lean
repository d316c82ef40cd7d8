import BananaApi.Client.TcpAdapter
import Mathlib.Logic.Function.Basic

/-!
# The threads of the adapter

`TcpAdapter` with its sending thread, its receiving thread and the threads of the
application, which share its fields. Every read and write of a field is a step of its
own, and so is every call on a queue or the stream; the steps of all threads interleave
freely. What lies outside the program comes with the event: whether a connection is
made, whether a write throws, and what a read returns.
-/

namespace BananaApi.Client

/-- What the loops do with requests and with the bytes of a round. -/
structure Codec (ρ μ φ : Type) where
  serializeRequest : ρ → Except Fault (List Byte)
  fillers : φ
  bytesToRead : φ → Nat
  round : φ → List Byte → Except Fault (φ × Option μ)

/-- The codec of the client. -/
def Codec.client (isLittleEndian : Bool) (messageBytesFillers : List MessageBytesFiller) :
    Codec NetworkMessage NetworkMessage (List MessageBytesFiller × Option Nat) where
  serializeRequest := BananaApi.Client.serializeRequest isLittleEndian
  fillers := (messageBytesFillers, none)
  bytesToRead f := if f.2 = none then 2 else 1
  round f bytes :=
    match Receiver.step isLittleEndian ⟨bytes, true, none, [], f.1, f.2⟩ with
    | .ok _ r => .ok ((r.messageBytesFillers, r.filler), r.receivingQueue.head?)
    | .error e _ => .error e

/-- The stream of a connection, with the bytes the adapter has written. -/
structure NetworkStream where
  opened : Bool
  written : List Byte
  deriving DecidableEq, Repr

/-- Where `Sending` is. Behind the loop it remembers the request whose serialization or
write threw. -/
inductive SendingThread (ρ : Type) where
  | unstarted
  | testStream
  | connect
  | testRunning
  | testError
  | count
  | tryDequeue
  | serialize (request : ρ)
  | write (request : ρ) (data : List Byte)
  | caught (request : Option ρ) (e : Fault)
  | finallyTest (request : Option ρ)
  | close (request : Option ρ)
  | ended (request : Option ρ)

/-- Where `Receiving` is, with the bytes a round has read. -/
inductive ReceivingThread (μ φ : Type) where
  | unstarted
  | waitRunning
  | waitError
  | waitStream
  | testRunning (f : φ)
  | testError (f : φ)
  | reading (f : φ) (bytes : List Byte)
  | enqueue (f : φ) (message : μ)
  | caught (e : Fault)
  | crashed (e : Fault)
  | ended

/-- The public methods of the adapter. A request is a reference, which may be null. -/
inductive Call (ρ : Type) where
  | send (request : Option ρ)
  | receive
  | start
  | stop

/-- Where a thread of the application is. A `Receive` remembers the queue it counted. -/
inductive Caller (ρ μ : Type) where
  | idle
  | sendError (request : Option ρ)
  | sendEnqueue (request : Option ρ)
  | receiveError (counted : List μ)
  | receiveDequeue (counted : List μ)
  | startSending
  | startReceiving

/-- The steps a call has still to take. -/
def Caller.stepsLeft {ρ μ : Type} : Caller ρ μ → Nat
  | .idle => 0
  | .sendError _ => 2
  | .sendEnqueue _ => 1
  | .receiveError _ => 2
  | .receiveDequeue _ => 1
  | .startSending => 2
  | .startReceiving => 1

/-- The exceptions of `Send` and `Receive`. -/
inductive Refusal where
  | indexOutOfRange (message : String)
  | underlyingNetworkError (error : Fault)
  deriving DecidableEq, Repr

/-- What has happened: the calls begun, the calls of `Send` and `Receive` that came back, the
requests written, and the messages that were received. -/
structure Log (ι ρ μ : Type) where
  calls : List (ι × Call ρ)
  sends : List (Option ρ × Except Refusal Unit)
  receives : List (List μ × Except Refusal (Option μ))
  written : List ρ
  arrived : List μ

/-- The adapter and its threads. -/
structure Adapter (ι ρ μ φ : Type) where
  networkStream : Option NetworkStream
  running : Bool
  error : Option Fault
  sendingQueue : List (Option ρ)
  receivingQueue : List μ
  sendingThread : SendingThread ρ
  receivingThread : ReceivingThread μ φ
  callers : ι → Caller ρ μ
  log : Log ι ρ μ

/-- A step of one of the threads. -/
inductive Event (ι ρ : Type) where
  | call (i : ι) (c : Call ρ)
  | resume (i : ι)
  | sending
  | connected (result : Except Fault Unit)
  | wrote (result : Except Fault Unit)
  | receiving
  | readByte (result : Except Fault (Option Byte))

namespace Adapter

variable {ι ρ μ φ : Type}

/-- A constructed adapter: one constructor is given a connected stream, the other none. -/
def new (networkStream : Bool) : Adapter ι ρ μ φ where
  networkStream := if networkStream then some ⟨true, []⟩ else none
  running := false
  error := none
  sendingQueue := []
  receivingQueue := []
  sendingThread := .unstarted
  receivingThread := .unstarted
  callers := fun _ => .idle
  log := ⟨[], [], [], [], []⟩

/-- The stream is there and has not been closed. -/
def isOpen (s : Adapter ι ρ μ φ) : Bool := s.networkStream.any (·.opened)

variable (codec : Codec ρ μ φ)

/-- The steps of `Sending` that need nothing from outside. -/
def sending (s : Adapter ι ρ μ φ) : Option (Adapter ι ρ μ φ) :=
  match s.sendingThread with
  | .testStream =>
    match s.networkStream with
    | none => some { s with sendingThread := .connect }
    | some _ => some { s with sendingThread := .testRunning }
  | .testRunning =>
    if s.running then some { s with sendingThread := .testError }
    else some { s with sendingThread := .finallyTest none }
  | .testError =>
    match s.error with
    | none => some { s with sendingThread := .count }
    | some _ => some { s with sendingThread := .finallyTest none }
  | .count =>
    if s.sendingQueue.length > 0 then some { s with sendingThread := .tryDequeue }
    else some { s with sendingThread := .testRunning }
  | .tryDequeue =>
    match s.sendingQueue with
    | [] => some { s with sendingThread := .testRunning }
    -- a null request is the same to the loop as none, but it is off the queue
    | none :: rest => some { s with sendingQueue := rest, sendingThread := .testRunning }
    | some request :: rest =>
      some { s with sendingQueue := rest, sendingThread := .serialize request }
  | .serialize request =>
    match codec.serializeRequest request with
    | .ok data => some { s with sendingThread := .write request data }
    | .error e => some { s with sendingThread := .caught (some request) e }
  | .caught request e => some { s with error := some e, sendingThread := .finallyTest request }
  | .finallyTest request =>
    match s.networkStream with
    | none => some { s with sendingThread := .ended request }
    | some _ => some { s with sendingThread := .close request }
  | .close request =>
    some { s with
      networkStream := s.networkStream.map fun stream => { stream with opened := false }
      sendingThread := .ended request }
  | _ => none

/-- `Connect` returns a stream or throws. -/
def connected (result : Except Fault Unit) (s : Adapter ι ρ μ φ) : Option (Adapter ι ρ μ φ) :=
  match s.sendingThread, result with
  | .connect, .ok () =>
    some { s with networkStream := some ⟨true, []⟩, sendingThread := .testRunning }
  | .connect, .error e => some { s with sendingThread := .caught none e }
  | _, _ => none

/-- `Write` writes all the data to a stream that is open, or throws. -/
def wrote (result : Except Fault Unit) (s : Adapter ι ρ μ φ) : Option (Adapter ι ρ μ φ) :=
  match s.sendingThread, result with
  | .write request data, .ok () =>
    if s.isOpen then
      some { s with
        networkStream := s.networkStream.map fun stream =>
          { stream with written := stream.written ++ data }
        sendingThread := .testRunning
        log := { s.log with written := s.log.written ++ [request] } }
    else none
  | .write request _, .error e => some { s with sendingThread := .caught (some request) e }
  | _, _ => none

/-- The steps of `Receiving` that need nothing from outside. -/
def receiving (s : Adapter ι ρ μ φ) : Option (Adapter ι ρ μ φ) :=
  match s.receivingThread with
  | .waitRunning =>
    if s.running then some { s with receivingThread := .waitError }
    else some { s with receivingThread := .testRunning codec.fillers }
  | .waitError =>
    match s.error with
    | none => some { s with receivingThread := .waitStream }
    | some _ => some { s with receivingThread := .testRunning codec.fillers }
  | .waitStream =>
    match s.networkStream with
    | none => some { s with receivingThread := .waitRunning }
    | some _ => some { s with receivingThread := .testRunning codec.fillers }
  | .testRunning f =>
    if s.running then some { s with receivingThread := .testError f }
    else some { s with receivingThread := .ended }
  | .testError f =>
    match s.error with
    | none => some { s with receivingThread := .reading f [] }
    | some _ => some { s with receivingThread := .ended }
  | .enqueue f message =>
    some { s with
      receivingQueue := s.receivingQueue ++ [message]
      receivingThread := .testRunning f
      log := { s.log with arrived := s.log.arrived ++ [message] } }
  | .caught e => some { s with error := some e, receivingThread := .crashed e }
  | _ => none

/-- The bytes of a round so far: it reads on, or it passes them to the fillers. -/
def received (f : φ) (bytes : List Byte) : ReceivingThread μ φ :=
  if bytes.length < codec.bytesToRead f then .reading f bytes
  else
    match codec.round f bytes with
    | .ok (f, none) => .testRunning f
    | .ok (f, some message) => .enqueue f message
    | .error e => .caught e

/-- `ReadByte` returns a byte of a stream that is open, or its end, or throws. -/
def readByte (result : Except Fault (Option Byte)) (s : Adapter ι ρ μ φ) :
    Option (Adapter ι ρ μ φ) :=
  match s.receivingThread, result with
  | .reading f bytes, .ok (some b) =>
    if s.isOpen then some { s with receivingThread := received codec f (bytes ++ [b]) } else none
  | .reading _ _, .ok none =>
    if s.isOpen then some { s with receivingThread := .caught (.exception "byte is -1") } else none
  | .reading _ _, .error e => some { s with receivingThread := .caught e }
  | _, _ => none

variable [DecidableEq ι]

/-- Move a thread of the application on. -/
def callerAt (i : ι) (c : Caller ρ μ) (s : Adapter ι ρ μ φ) : Adapter ι ρ μ φ :=
  { s with callers := Function.update s.callers i c }

/-- The thread that moves is where it has moved to. -/
@[simp] theorem callers_callerAt_self (i : ι) (c : Caller ρ μ) (s : Adapter ι ρ μ φ) :
    (s.callerAt i c).callers i = c := Function.update_self ..

/-- The other threads of the application stay where they are. -/
theorem callers_callerAt_of_ne {i j : ι} (h : j ≠ i) (c : Caller ρ μ) (s : Adapter ι ρ μ φ) :
    (s.callerAt i c).callers j = s.callers j := Function.update_of_ne h ..

/-- A call begins. -/
def began (i : ι) (c : Call ρ) (s : Adapter ι ρ μ φ) : Adapter ι ρ μ φ :=
  { s with log := { s.log with calls := s.log.calls ++ [(i, c)] } }

/-- A call of `Send` comes back. -/
def sent (request : Option ρ) (result : Except Refusal Unit) (s : Adapter ι ρ μ φ) :
    Adapter ι ρ μ φ :=
  { s with log := { s.log with sends := s.log.sends ++ [(request, result)] } }

/-- A call of `Receive` comes back. -/
def returned (counted : List μ) (result : Except Refusal (Option μ)) (s : Adapter ι ρ μ φ) :
    Adapter ι ρ μ φ :=
  { s with log := { s.log with receives := s.log.receives ++ [(counted, result)] } }

/-- The first step of a call. -/
def call (i : ι) (c : Call ρ) (s : Adapter ι ρ μ φ) : Option (Adapter ι ρ μ φ) :=
  match s.callers i with
  | .idle =>
    let s := s.began i c
    match c with
    | .send request =>
      if s.sendingQueue.length > 100 then
        some (s.sent request (.error (.indexOutOfRange "Too many request queued...")))
      else some (s.callerAt i (.sendError request))
    | .receive =>
      if s.receivingQueue.length > 100 then
        some (s.returned s.receivingQueue
          (.error (.indexOutOfRange "Too many responses queued...")))
      else some (s.callerAt i (.receiveError s.receivingQueue))
    | .start => some ({ s with running := true }.callerAt i .startSending)
    | .stop => some { s with running := false }
  | _ => none

/-- The next step of a call. A thread that has been started cannot be started again. -/
def resume (i : ι) (s : Adapter ι ρ μ φ) : Option (Adapter ι ρ μ φ) :=
  match s.callers i with
  | .idle => none
  | .sendError request =>
    match s.error with
    | none => some (s.callerAt i (.sendEnqueue request))
    | some e => some ((s.sent request (.error (.underlyingNetworkError e))).callerAt i .idle)
  | .sendEnqueue request =>
    some (({ s with sendingQueue := s.sendingQueue ++ [request] }.sent request
      (.ok ())).callerAt i .idle)
  | .receiveError counted =>
    match s.error with
    | none => some (s.callerAt i (.receiveDequeue counted))
    | some e => some ((s.returned counted (.error (.underlyingNetworkError e))).callerAt i .idle)
  | .receiveDequeue counted =>
    match s.receivingQueue with
    | [] => some ((s.returned counted (.ok none)).callerAt i .idle)
    | response :: rest =>
      some (({ s with receivingQueue := rest }.returned counted (.ok (some response))).callerAt i
        .idle)
  | .startSending =>
    match s.sendingThread with
    | .unstarted => some ({ s with sendingThread := .testStream }.callerAt i .startReceiving)
    | _ => some (s.callerAt i .idle)
  | .startReceiving =>
    match s.receivingThread with
    | .unstarted => some ({ s with receivingThread := .waitRunning }.callerAt i .idle)
    | _ => some (s.callerAt i .idle)

/-- One step of one thread. -/
def step : Event ι ρ → Adapter ι ρ μ φ → Option (Adapter ι ρ μ φ)
  | .call i c => call i c
  | .resume i => resume i
  | .sending => sending codec
  | .connected result => connected result
  | .wrote result => wrote result
  | .receiving => receiving codec
  | .readByte result => readByte codec result

end Adapter

end BananaApi.Client
