import BananaApi.Client.WindingDown

/-!
# Making the connection

`Connect` runs in the sending thread, while the other threads of the adapter go on: it makes a TCP
connection and authenticates the server over it, where `ValidateServerCertificate` decides on the
certificate. The stream it returns is the one the adapter writes to and reads from. For the other
threads `Connect` is a single step.
-/

namespace BananaApi.Client

/-- `SslPolicyErrors`, a set of flags. -/
structure SslPolicyErrors where
  remoteCertificateNotAvailable : Bool
  remoteCertificateNameMismatch : Bool
  remoteCertificateChainErrors : Bool
  deriving DecidableEq, Repr

/-- `SslPolicyErrors.None`. -/
def SslPolicyErrors.none : SslPolicyErrors := ⟨false, false, false⟩

/-- The callback of the authentication: a certificate without any error is accepted. -/
def validateServerCertificate (sslPolicyErrors : SslPolicyErrors) : Bool :=
  sslPolicyErrors = .none

/-- A connection, with the policy errors of the certificate its server was authenticated by. -/
structure TcpClient where
  opened : Bool
  authenticated : Option SslPolicyErrors
  deriving DecidableEq, Repr

/-- How the handshake of `AuthenticateAsClient` goes: the server shows a certificate, and the
exception for the one that is refused; or an exception is thrown for another reason. -/
inductive Handshake where
  | certificate (sslPolicyErrors : SslPolicyErrors) (refusal : Fault)
  | authenticationException (e : Fault)
  | otherException (e : Fault)

/-- Where `Connect` is, with its connection. -/
inductive Connecting where
  | newTcpClient
  | testSkipSsl (client : Nat)
  | authenticate (client : Nat)
  | closeClient (client : Nat) (e : Fault)
  | returns (client : Nat)
  | throws (e : Fault)
  deriving DecidableEq, Repr

/-- An adapter with what `Connect` uses, the connections it has made, and the one below
`networkStream`. -/
structure ConnectingAdapter (ι ρ μ φ : Type) where
  adapter : Adapter ι ρ μ φ
  host : Option String
  skipSsl : Bool
  connecting : Connecting
  tcpClients : List TcpClient
  stream : Option Nat

/-- A step of `Connect`, with what its calls come to. -/
inductive ConnectEvent where
  | newTcpClient (result : Except Fault Unit)
  | testSkipSsl
  | authenticateAsClient (handshake : Handshake)
  | closeClient
  | comesBack

/-- A step of one of the threads, or of `Connect` in the sending thread. -/
inductive ConnectingEvent (ι ρ : Type) where
  | thread (e : Event ι ρ)
  | connect (e : ConnectEvent)

/-- The event closes the stream of the adapter. -/
def Adapter.closes {ι ρ μ φ : Type} (s : Adapter ι ρ μ φ) : Event ι ρ → Bool
  | .sending =>
    match s.sendingThread with
    | .close _ => true
    | _ => false
  | _ => false

namespace ConnectingAdapter

variable {ι ρ μ φ : Type}

/-- The adapter that is given a host and a port. -/
def ofHost (host : String) : ConnectingAdapter ι ρ μ φ :=
  ⟨.new false, some host, false, .newTcpClient, [], none⟩

/-- The adapter that is given a stream, which may be null, and has no host. -/
def ofStream (networkStream : Bool) : ConnectingAdapter ι ρ μ φ :=
  ⟨.new networkStream, none, true, .newTcpClient, [], none⟩

/-- `client.Close()`. -/
def close (i : Nat) (tcpClients : List TcpClient) : List TcpClient :=
  tcpClients.modify i fun client => { client with opened := false }

/-- One step of `Connect`. There is no connection without a host. -/
def connect : ConnectEvent → ConnectingAdapter ι ρ μ φ → Option (ConnectingAdapter ι ρ μ φ)
  | .newTcpClient result, s =>
    match s.connecting, result with
    | .newTcpClient, .ok () => s.host.map fun _ =>
      { s with
        tcpClients := s.tcpClients ++ [⟨true, none⟩]
        connecting := .testSkipSsl s.tcpClients.length }
    | .newTcpClient, .error e => some { s with connecting := .throws e }
    | _, _ => none
  | .testSkipSsl, s =>
    match s.connecting with
    | .testSkipSsl i =>
      some { s with connecting := if s.skipSsl then .returns i else .authenticate i }
    | _ => none
  | .authenticateAsClient handshake, s =>
    match s.connecting, handshake with
    | .authenticate i, .certificate sslPolicyErrors refusal =>
      if validateServerCertificate sslPolicyErrors then
        some { s with
          tcpClients := s.tcpClients.modify i fun client =>
            { client with authenticated := some sslPolicyErrors }
          connecting := .returns i }
      else some { s with connecting := .closeClient i refusal }
    | .authenticate i, .authenticationException e =>
      some { s with connecting := .closeClient i e }
    | .authenticate _, .otherException e => some { s with connecting := .throws e }
    | _, _ => none
  | .closeClient, s =>
    match s.connecting with
    | .closeClient i e =>
      some { s with tcpClients := close i s.tcpClients, connecting := .throws e }
    | _ => none
  | .comesBack, s =>
    match s.connecting with
    | .returns i => (s.adapter.connected (.ok ())).map fun adapter =>
      { s with adapter := adapter, stream := some i }
    | .throws e => (s.adapter.connected (.error e)).map fun adapter =>
      { s with adapter := adapter }
    | _ => none

variable [DecidableEq ι] (codec : Codec ρ μ φ)

/-- One step. Closing the stream closes the connection below it. -/
def step : ConnectingEvent ι ρ → ConnectingAdapter ι ρ μ φ → Option (ConnectingAdapter ι ρ μ φ)
  | .thread (.connected _), _ => none
  | .thread e, s => (s.adapter.step codec e).map fun adapter =>
    { s with
      adapter := adapter
      tcpClients :=
        match s.stream with
        | some i => if s.adapter.closes e then close i s.tcpClients else s.tcpClients
        | none => s.tcpClients }
  | .connect e, s =>
    match s.adapter.sendingThread with
    | .connect => s.connect e
    | _ => none

end ConnectingAdapter

/-! ## What the threads leave to `Connect` -/

/-- The sending thread is in front of `Connect`, in it, or behind it. -/
inductive SendingThread.Stage where
  | before | connecting | behind

/-- Where the sending thread stands relative to `Connect`. -/
def SendingThread.stage {ρ : Type} : SendingThread ρ → Stage
  | .unstarted | .testStream => .before
  | .connect => .connecting
  | _ => .behind

namespace Adapter

variable {ι ρ μ φ : Type} {codec : Codec ρ μ φ} {s s' : Adapter ι ρ μ φ}

/-- How a step moves the sending thread: `Connect` is entered where there is no stream, passed by
where there is one, and not left. -/
def Moves (s s' : Adapter ι ρ μ φ) : Prop :=
  match s.sendingThread.stage with
  | .before => s'.sendingThread.stage = .before ∨
      s'.sendingThread.stage = .connecting ∧ s.networkStream.isSome = false ∨
      s'.sendingThread.stage = .behind ∧ s.networkStream.isSome = true
  | .connecting => s'.sendingThread.stage = .connecting
  | .behind => s'.sendingThread.stage = .behind

/-- A thread that does not move stays where it stands. -/
theorem moves_of_eq (h : s'.sendingThread = s.sendingThread) : s.Moves s' := by
  unfold Moves
  rw [h]
  cases hstage : s.sendingThread.stage
  · exact Or.inl rfl
  · rfl
  · rfl

/-- Behind `Connect` the thread stays behind it. -/
theorem moves_of_behind (h : s.sendingThread.stage = .behind)
    (h' : s'.sendingThread.stage = .behind) : s.Moves s' := by
  rw [Moves, h]
  exact h'

/-- A step that is not in `Connect` makes no stream, and only `Close` closes it. -/
structure Leaves (e : Event ι ρ) (s s' : Adapter ι ρ μ φ) : Prop where
  isSome : s'.networkStream.isSome = s.networkStream.isSome
  isOpen : s'.isOpen = (s.isOpen && !s.closes e)
  moves : s.Moves s'

/-- A step that touches neither the stream nor the open connections leaves them to `Connect`. -/
theorem leaves_of_same {e : Event ι ρ} (hstream : s'.networkStream = s.networkStream)
    (hcloses : s.closes e = false) (hmoves : s.Moves s') : s.Leaves e s' where
  isSome := by rw [hstream]
  isOpen := by rw [isOpen, hstream, hcloses, Bool.not_false, Bool.and_true, isOpen]
  moves := hmoves

/-- The sending thread closes the stream, and goes up to `Connect`, or on from behind it. -/
theorem sending_leaves (h : sending codec s = some s') : s.Leaves .sending s' := by
  cases sending_step h with
  | noStream hthread hnone =>
    refine leaves_of_same rfl (by rw [closes, hthread]) ?_
    rw [Moves, hthread]
    exact Or.inr (Or.inl ⟨rfl, by rw [hnone]; rfl⟩)
  | stream stream hthread hsome =>
    refine leaves_of_same rfl (by rw [closes, hthread]) ?_
    rw [Moves, hthread]
    exact Or.inr (Or.inr ⟨rfl, by rw [hsome]; rfl⟩)
  | closed request hthread =>
    refine ⟨Option.isSome_map, ?_, moves_of_behind (by rw [hthread]; rfl) rfl⟩
    rw [closes, hthread, Bool.not_true, Bool.and_false]
    change (s.networkStream.map _).any _ = false
    cases s.networkStream <;> rfl
  | running hthread | stopped hthread | noError hthread | error e hthread | counted hthread
  | countedNone hthread | dequeuedNone hthread | dequeuedNull rest hthread
  | dequeued request rest hthread | serialized request data hthread
  | notSerialized request e hthread | caught request e hthread | finallyNoStream request hthread
  | finallyStream request stream hthread =>
    exact leaves_of_same rfl (by rw [closes, hthread]) (moves_of_behind (by rw [hthread]; rfl) rfl)

/-- A write is behind `Connect`. -/
theorem wrote_leaves {result : Except Fault Unit} (h : wrote result s = some s') :
    s.Leaves (.wrote result) s' := by
  obtain ⟨request, data, hthread⟩ := wrote_thread h
  unfold wrote at h
  rw [hthread] at h
  cases result with
  | error e =>
    cases h
    exact leaves_of_same rfl rfl (moves_of_behind (by rw [hthread]; rfl) rfl)
  | ok u =>
    dsimp only at h
    split at h <;> cases h
    refine ⟨Option.isSome_map, ?_, moves_of_behind (by rw [hthread]; rfl) rfl⟩
    rw [show s.closes (.wrote (.ok u)) = false from rfl, Bool.not_false, Bool.and_true, isOpen,
      isOpen]
    cases s.networkStream <;> rfl

/-- No step but the end of `Connect` gives the adapter a stream. -/
theorem step_leaves [DecidableEq ι] {e : Event ι ρ} (he : ∀ result, e ≠ .connected result)
    (h : step codec e s = some s') : s.Leaves e s' := by
  cases e with
  | call i c =>
    obtain ⟨_, _, _, _, rfl⟩ := call_frame h
    exact leaves_of_same rfl rfl (moves_of_eq rfl)
  | resume i =>
    obtain ⟨_, _, _, _, _, _, _, rfl, hsending, -⟩ := resume_frame h
    refine leaves_of_same rfl rfl ?_
    rcases hsending with rfl | ⟨hthread, rfl⟩
    · exact moves_of_eq rfl
    · rw [Moves, hthread]
      exact Or.inl rfl
  | sending => exact sending_leaves h
  | connected result => exact absurd rfl (he result)
  | wrote result => exact wrote_leaves h
  | receiving =>
    obtain ⟨_, _, _, _, rfl⟩ := receiving_frame h
    exact leaves_of_same rfl rfl (moves_of_eq rfl)
  | readByte result =>
    obtain ⟨_, rfl⟩ := readByte_frame h
    exact leaves_of_same rfl rfl (moves_of_eq rfl)

/-- Only an open stream is written to or read from. -/
theorem isOpen_of_exchange [DecidableEq ι] {e : Event ι ρ}
    (he : e = .wrote (.ok ()) ∨ ∃ b, e = .readByte (.ok b)) (h : step codec e s = some s') :
    s.isOpen = true := by
  rcases he with rfl | ⟨b, rfl⟩
  · obtain ⟨request, data, hthread⟩ := wrote_thread h
    change wrote (.ok ()) s = some s' at h
    unfold wrote at h
    rw [hthread] at h
    dsimp only at h
    split at h
    · assumption
    · cases h
  · obtain ⟨f, bytes, hthread⟩ := readByte_thread h
    change readByte codec (.ok b) s = some s' at h
    unfold readByte at h
    rw [hthread] at h
    cases b <;> dsimp only at h <;> split at h
    · assumption
    · cases h
    · assumption
    · cases h

end Adapter

/-! ## What `Connect` has done -/

section Abandoned

variable {ι ρ : Type}

/-- `AuthenticateAsClient` has thrown an exception that `Connect` does not catch. -/
def Abandoned (past : List (ConnectingEvent ι ρ)) : Prop :=
  ∃ e, .connect (.authenticateAsClient (.otherException e)) ∈ past

/-- Another event leaves it as it is. -/
theorem abandoned_concat {past : List (ConnectingEvent ι ρ)} {e : ConnectingEvent ι ρ}
    (he : ∀ fault, e ≠ .connect (.authenticateAsClient (.otherException fault))) :
    Abandoned (past ++ [e]) ↔ Abandoned past := by
  refine exists_congr fun fault => ?_
  rw [List.mem_append, List.mem_singleton]
  exact or_iff_left fun h => he fault h.symm

end Abandoned

/-- Some connection is open. -/
def LeftOpen (tcpClients : List TcpClient) : Prop := ∃ client ∈ tcpClients, client.opened = true

/-- The connections while `Connect` runs: there is one at most, it is authenticated where `Connect`
returns, and it is open where `Connect` throws just when the exception was not caught. -/
def Connecting.Holds (abandoned : Prop) (s : List TcpClient) : Connecting → Prop
  | .newTcpClient => s = [] ∧ ¬ abandoned
  | .testSkipSsl i | .authenticate i | .closeClient i _ => i = 0 ∧ s = [⟨true, none⟩] ∧ ¬ abandoned
  | .returns i => i = 0 ∧ s = [⟨true, some .none⟩] ∧ ¬ abandoned
  | .throws _ => s.length ≤ 1 ∧ (LeftOpen s ↔ abandoned)

namespace ConnectingAdapter

variable {ι ρ μ φ : Type} {codec : Codec ρ μ φ} {s s' : ConnectingAdapter ι ρ μ φ}

/-- A step of `Connect`, with what it has found. -/
inductive ConnectStep (s : ConnectingAdapter ι ρ μ φ) :
    ConnectEvent → ConnectingAdapter ι ρ μ φ → Prop
  | made (host : String) : s.connecting = .newTcpClient → s.host = some host →
      ConnectStep s (.newTcpClient (.ok ())) { s with
        tcpClients := s.tcpClients ++ [⟨true, none⟩]
        connecting := .testSkipSsl s.tcpClients.length }
  | notMade (e : Fault) : s.connecting = .newTcpClient →
      ConnectStep s (.newTcpClient (.error e)) { s with connecting := .throws e }
  | tested (i : Nat) : s.connecting = .testSkipSsl i →
      ConnectStep s .testSkipSsl { s with
        connecting := if s.skipSsl then .returns i else .authenticate i }
  | authenticated (i : Nat) (sslPolicyErrors : SslPolicyErrors) (refusal : Fault) :
      s.connecting = .authenticate i → validateServerCertificate sslPolicyErrors = true →
        ConnectStep s (.authenticateAsClient (.certificate sslPolicyErrors refusal)) { s with
          tcpClients := s.tcpClients.modify i fun client =>
            { client with authenticated := some sslPolicyErrors }
          connecting := .returns i }
  | rejected (i : Nat) (sslPolicyErrors : SslPolicyErrors) (refusal : Fault) :
      s.connecting = .authenticate i →
        ConnectStep s (.authenticateAsClient (.certificate sslPolicyErrors refusal))
          { s with connecting := .closeClient i refusal }
  | refused (i : Nat) (e : Fault) : s.connecting = .authenticate i →
      ConnectStep s (.authenticateAsClient (.authenticationException e))
        { s with connecting := .closeClient i e }
  | failed (i : Nat) (e : Fault) : s.connecting = .authenticate i →
      ConnectStep s (.authenticateAsClient (.otherException e)) { s with connecting := .throws e }
  | closed (i : Nat) (e : Fault) : s.connecting = .closeClient i e →
      ConnectStep s .closeClient { s with
        tcpClients := close i s.tcpClients
        connecting := .throws e }
  | returned (i : Nat) (adapter : Adapter ι ρ μ φ) : s.connecting = .returns i →
      s.adapter.connected (.ok ()) = some adapter →
        ConnectStep s .comesBack { s with adapter := adapter, stream := some i }
  | threw (e : Fault) (adapter : Adapter ι ρ μ φ) : s.connecting = .throws e →
      s.adapter.connected (.error e) = some adapter →
        ConnectStep s .comesBack { s with adapter := adapter }

/-- A step of `Connect` goes through its statements in order, or ends it with a result. -/
theorem connect_step {e : ConnectEvent} (h : s.connect e = some s') : s.ConnectStep e s' := by
  unfold connect at h
  split at h
  · split at h
    · next hconnecting =>
      obtain ⟨host, hhost, rfl⟩ := Option.map_eq_some_iff.mp h
      exact .made host hconnecting hhost
    · next hconnecting =>
      cases h
      exact .notMade _ hconnecting
    · cases h
  · split at h
    · next hconnecting =>
      cases h
      exact .tested _ hconnecting
    · cases h
  · split at h
    · next hconnecting =>
      split at h <;> cases h
      · exact .authenticated _ _ _ hconnecting ‹_›
      · exact .rejected _ _ _ hconnecting
    · next hconnecting =>
      cases h
      exact .refused _ _ hconnecting
    · next hconnecting =>
      cases h
      exact .failed _ _ hconnecting
    · cases h
  · split at h
    · next hconnecting =>
      cases h
      exact .closed _ _ hconnecting
    · cases h
  · split at h
    · next hconnecting =>
      obtain ⟨adapter, hadapter, rfl⟩ := Option.map_eq_some_iff.mp h
      exact .returned _ adapter hconnecting hadapter
    · next hconnecting =>
      obtain ⟨adapter, hadapter, rfl⟩ := Option.map_eq_some_iff.mp h
      exact .threw _ adapter hconnecting hadapter
    · cases h

/-- Behind `Connect` the stream is the one the adapter was given, or one over the authenticated
connection; or there is none. -/
inductive Behind (given : Bool) (abandoned : Prop) (s : ConnectingAdapter ι ρ μ φ) : Prop
  | given : given = true → s.adapter.networkStream.isSome = true → s.tcpClients = [] →
      s.stream = none → ¬ abandoned → Behind given abandoned s
  | made : given = false → s.adapter.networkStream.isSome = true →
      s.tcpClients = [⟨s.adapter.isOpen, some .none⟩] → s.stream = some 0 → ¬ abandoned →
        Behind given abandoned s
  | failed : given = false → s.adapter.networkStream.isSome = false → s.tcpClients.length ≤ 1 →
      (LeftOpen s.tcpClients ↔ abandoned) → s.stream = none → Behind given abandoned s

/-- What holds of an adapter, by the place of its sending thread. -/
structure Connects (given : Bool) (abandoned : Prop) (s : ConnectingAdapter ι ρ μ φ) : Prop where
  skipSsl : s.skipSsl = true → s.host = none
  secure : ∀ i, s.connecting = .testSkipSsl i → s.skipSsl = false
  stages : match s.adapter.sendingThread.stage with
    | .before => s.adapter.networkStream.isSome = given ∧ s.tcpClients = [] ∧
        s.connecting = .newTcpClient ∧ s.stream = none ∧ ¬ abandoned
    | .connecting => given = false ∧ s.adapter.networkStream.isSome = false ∧ s.stream = none ∧
        s.connecting.Holds abandoned s.tcpClients
    | .behind => s.Behind given abandoned

/-- An adapter with a host has neither a stream nor a connection. -/
theorem connects_ofHost (host : String) :
    (ofHost host : ConnectingAdapter ι ρ μ φ).Connects false False where
  skipSsl h := by cases h
  secure i h := by cases h
  stages := ⟨rfl, rfl, rfl, rfl, not_false⟩

/-- An adapter with a stream has no host and no connection. -/
theorem connects_ofStream (given : Bool) :
    (ofStream given : ConnectingAdapter ι ρ μ φ).Connects given False where
  skipSsl _ := rfl
  secure i h := by cases h
  stages := ⟨by cases given <;> rfl, rfl, rfl, rfl, not_false⟩

variable {given : Bool} {abandoned : Prop}

section Threads

variable [DecidableEq ι] {e : Event ι ρ}

/-- A step of a thread, with the connections behind it. -/
theorem thread_step (h : step codec (.thread e) s = some s') :
    ∃ adapter tcpClients, s' = { s with adapter := adapter, tcpClients := tcpClients } ∧
      s.adapter.step codec e = some adapter ∧ s.adapter.Leaves e adapter ∧
      (s.stream = none → tcpClients = s.tcpClients) ∧
      ∀ i, s.stream = some i →
        tcpClients = if s.adapter.closes e then close i s.tcpClients else s.tcpClients := by
  have he : ∀ result, e ≠ .connected result := by
    rintro result rfl
    cases h
  have hmap : step codec (.thread e) s = (s.adapter.step codec e).map fun adapter =>
      { s with
        adapter := adapter
        tcpClients :=
          match s.stream with
          | some i => if s.adapter.closes e then close i s.tcpClients else s.tcpClients
          | none => s.tcpClients } := by
    cases e with
    | connected result => exact absurd rfl (he result)
    | _ => rfl
  obtain ⟨adapter, hadapter, rfl⟩ := Option.map_eq_some_iff.mp (hmap.symm.trans h)
  refine ⟨adapter, _, rfl, hadapter, Adapter.step_leaves he hadapter, ?_, ?_⟩
  · intro hnone
    rw [hnone]
  · intro i hsome
    rw [hsome]

/-- The other threads leave the connections as they are, apart from a close of the stream. -/
theorem thread_connects (h : step codec (.thread e) s = some s') (hs : s.Connects given abandoned) :
    s'.Connects given abandoned := by
  obtain ⟨adapter, tcpClients, rfl, -, hleaves, hnone, hsome⟩ := thread_step h
  refine ⟨hs.skipSsl, hs.secure, ?_⟩
  have hmoves := hleaves.moves
  have hstages := hs.stages
  unfold Adapter.Moves at hmoves
  cases hstage : s.adapter.sendingThread.stage <;> rw [hstage] at hmoves hstages
  case before =>
    obtain ⟨hgiven, hclients, hconnecting, hstream, hnot⟩ := hstages
    obtain rfl := hnone hstream
    rcases hmoves with hstage' | ⟨hstage', hno⟩ | ⟨hstage', hyes⟩ <;> dsimp only <;> rw [hstage']
    · exact ⟨hleaves.isSome.trans hgiven, hclients, hconnecting, hstream, hnot⟩
    · refine ⟨hgiven.symm.trans hno, hleaves.isSome.trans hno, hstream, ?_⟩
      rw [hconnecting]
      exact ⟨hclients, hnot⟩
    · exact .given (hgiven.symm.trans hyes) (hleaves.isSome.trans hyes) hclients hstream hnot
  case connecting =>
    obtain ⟨hgiven, hno, hstream, hholds⟩ := hstages
    obtain rfl := hnone hstream
    dsimp only
    rw [hmoves]
    exact ⟨hgiven, hleaves.isSome.trans hno, hstream, hholds⟩
  case behind =>
    dsimp only
    rw [hmoves]
    cases hstages with
    | given hgiven hyes hclients hstream hnot =>
      exact .given hgiven (hleaves.isSome.trans hyes) ((hnone hstream).trans hclients) hstream hnot
    | made hgiven hyes hclients hstream hnot =>
      refine .made hgiven (hleaves.isSome.trans hyes) ?_ hstream hnot
      dsimp only
      rw [hsome 0 hstream, hclients, hleaves.isOpen]
      cases s.adapter.closes e
      · rw [if_neg Bool.false_ne_true, Bool.not_false, Bool.and_true]
      · rw [if_pos rfl, Bool.not_true, Bool.and_false]
        rfl
    | failed hgiven hno hlength hopen hstream =>
      obtain rfl := hnone hstream
      exact .failed hgiven (hleaves.isSome.trans hno) hlength hopen hstream

end Threads

/-- A step inside `Connect`. -/
theorem connects_of_holds (hthread : s.adapter.sendingThread = .connect)
    (hs : s.Connects given abandoned) {connecting : Connecting} {tcpClients : List TcpClient}
    {abandoned' : Prop} (hsecure : ∀ i, connecting = .testSkipSsl i → s.skipSsl = false)
    (hholds : connecting.Holds abandoned' tcpClients) :
    { s with connecting := connecting, tcpClients := tcpClients }.Connects given abandoned' := by
  have hstages := hs.stages
  rw [hthread] at hstages
  obtain ⟨hgiven, hno, hstream, -⟩ := hstages
  refine ⟨hs.skipSsl, hsecure, ?_⟩
  dsimp only
  rw [hthread]
  exact ⟨hgiven, hno, hstream, hholds⟩

/-- The one connection is left open if it is open. -/
theorem leftOpen_singleton (client : TcpClient) : LeftOpen [client] ↔ client.opened = true := by
  simp [LeftOpen]

/-- Without connections none is left open. -/
theorem leftOpen_nil : ¬ LeftOpen [] := by simp [LeftOpen]

/-- A step of `Connect` keeps what is known about the stream and the connections; only the third
kind of exception abandons one. -/
theorem connect_connects {e : ConnectEvent} (hthread : s.adapter.sendingThread = .connect)
    (h : s.connect e = some s') (hs : s.Connects given abandoned) {abandoned' : Prop}
    (hsame : (∀ fault, e ≠ .authenticateAsClient (.otherException fault)) →
      (abandoned' ↔ abandoned))
    (hother : ∀ fault, e = .authenticateAsClient (.otherException fault) → abandoned') :
    s'.Connects given abandoned' := by
  have hstages := hs.stages
  rw [hthread] at hstages
  obtain ⟨hgiven, hno, hstream, hholds⟩ := hstages
  cases connect_step h with
  | failed i e hconnecting =>
    rw [hconnecting] at hholds
    obtain ⟨rfl, hclients, -⟩ := hholds
    refine connects_of_holds hthread hs (fun i h => by cases h) ?_
    rw [hclients]
    exact ⟨Nat.le_refl 1, iff_of_true ((leftOpen_singleton _).mpr rfl) (hother e rfl)⟩
  | made host hconnecting hhost =>
    obtain rfl := propext (hsame (by simp))
    rw [hconnecting] at hholds
    obtain ⟨hclients, hnot⟩ := hholds
    refine connects_of_holds hthread hs (fun i _ => ?_) (by rw [hclients]; exact ⟨rfl, rfl, hnot⟩)
    exact Bool.eq_false_iff.mpr fun hskip => by cases hhost.symm.trans (hs.skipSsl hskip)
  | notMade e hconnecting =>
    obtain rfl := propext (hsame (by simp))
    rw [hconnecting] at hholds
    obtain ⟨hclients, hnot⟩ := hholds
    refine connects_of_holds hthread hs (fun i h => by cases h) ?_
    rw [hclients]
    exact ⟨Nat.zero_le 1, iff_of_false leftOpen_nil hnot⟩
  | tested i hconnecting =>
    obtain rfl := propext (hsame (by simp))
    rw [hconnecting] at hholds
    rw [if_neg (Bool.eq_false_iff.mp (hs.secure i hconnecting))]
    exact connects_of_holds hthread hs (fun i h => by cases h) hholds
  | authenticated i errors refusal hconnecting hvalid =>
    obtain rfl := propext (hsame (by simp))
    rw [hconnecting] at hholds
    obtain ⟨rfl, hclients, hnot⟩ := hholds
    refine connects_of_holds hthread hs (fun i h => by cases h) ⟨rfl, ?_, hnot⟩
    rw [hclients, of_decide_eq_true hvalid]
    rfl
  | rejected i errors e hconnecting | refused i e hconnecting =>
    obtain rfl := propext (hsame (by simp))
    rw [hconnecting] at hholds
    exact connects_of_holds hthread hs (fun i h => by cases h) hholds
  | closed i e hconnecting =>
    obtain rfl := propext (hsame (by simp))
    rw [hconnecting] at hholds
    obtain ⟨rfl, hclients, hnot⟩ := hholds
    refine connects_of_holds hthread hs (fun i h => by cases h) ?_
    rw [hclients]
    exact ⟨Nat.le_refl 1, iff_of_false (by simp [close, leftOpen_singleton]) hnot⟩
  | returned i adapter hconnecting hadapter =>
    obtain rfl := propext (hsame (by simp))
    rw [hconnecting] at hholds
    obtain ⟨rfl, hclients, hnot⟩ := hholds
    unfold Adapter.connected at hadapter
    rw [hthread] at hadapter
    cases hadapter
    exact ⟨hs.skipSsl, hs.secure, .made hgiven rfl hclients rfl hnot⟩
  | threw e adapter hconnecting hadapter =>
    obtain rfl := propext (hsame (by simp))
    rw [hconnecting] at hholds
    unfold Adapter.connected at hadapter
    rw [hthread] at hadapter
    cases hadapter
    exact ⟨hs.skipSsl, hs.secure, .failed hgiven hno hholds.1 hholds.2 hstream⟩

/-- The adapter as its two constructors make it, and whether it was given a stream. -/
inductive Constructed : Bool → ConnectingAdapter ι ρ μ φ → Prop
  | ofHost (host : String) : Constructed false (ofHost host)
  | ofStream (networkStream : Bool) : Constructed networkStream (ofStream networkStream)

/-- A constructed adapter has abandoned no connection. -/
theorem Constructed.connects (hs : Constructed given s) :
    s.Connects given (Abandoned ([] : List (ConnectingEvent ι ρ))) := by
  rw [show Abandoned ([] : List (ConnectingEvent ι ρ)) = False by simp [Abandoned]]
  cases hs
  · exact connects_ofHost _
  · exact connects_ofStream _

/-- The sending thread of a constructed adapter has not ended. -/
theorem Constructed.closedAtEnd (hs : Constructed given s) : s.adapter.ClosedAtEnd := by
  intro request hended
  cases hs <;> cases hended

/-! ## What the states show -/

/-- While `Connect` runs there is one connection at most. -/
theorem Connecting.Holds.length_le {c : Connecting} {tcpClients : List TcpClient}
    (h : c.Holds abandoned tcpClients) : tcpClients.length ≤ 1 := by
  cases c with
  | newTcpClient => simp [h.1]
  | throws e => exact h.1
  | testSkipSsl i | authenticate i | closeClient i e | returns i => simp [h.2.1]

/-- There is one connection at most. -/
theorem Connects.length_le (hs : s.Connects given abandoned) : s.tcpClients.length ≤ 1 := by
  have hstages := hs.stages
  split at hstages
  · simp [hstages.2.1]
  · exact Connecting.Holds.length_le hstages.2.2.2
  · cases hstages with
    | given _ _ hclients => simp [hclients]
    | made _ _ hclients => simp [hclients]
    | failed _ _ hlength => exact hlength

/-- An open stream was given, or is over the authenticated connection. -/
theorem Connects.of_isOpen (hs : s.Connects given abandoned) (hopen : s.adapter.isOpen = true) :
    given = true ∧ s.tcpClients = [] ∨ given = false ∧ s.tcpClients = [⟨true, some .none⟩] := by
  have hsome : s.adapter.networkStream.isSome = true := Option.isSome_of_any hopen
  have hstages := hs.stages
  split at hstages
  · exact Or.inl ⟨hstages.1.symm.trans hsome, hstages.2.1⟩
  · cases hsome.symm.trans hstages.2.1
  · cases hstages with
    | given hgiven _ hclients => exact Or.inl ⟨hgiven, hclients⟩
    | made hgiven _ hclients => exact Or.inr ⟨hgiven, by rw [hclients, hopen]⟩
    | failed _ hno => cases hsome.symm.trans hno

/-- A connection that is open at the end has been abandoned. -/
theorem Connects.of_ended (hs : s.Connects given abandoned) {request : Option ρ}
    (hended : s.adapter.sendingThread = .ended request) (hclosed : s.adapter.isOpen = false) :
    LeftOpen s.tcpClients ↔ abandoned := by
  have hstages := hs.stages
  rw [hended] at hstages
  cases hstages with
  | given _ _ hclients _ hnot => exact iff_of_false (hclients ▸ leftOpen_nil) hnot
  | made _ _ hclients _ hnot =>
    rw [hclients, leftOpen_singleton, hclosed]
    exact iff_of_false Bool.false_ne_true hnot
  | failed _ _ _ hopen => exact hopen

/-! ## Runs -/

open Transition (exec exec_keeps exec_history exec_cons_of_step exec_append_of_exec)

variable [DecidableEq ι]

/-- `Connect` takes its steps in the sending thread. -/
theorem connect_thread {e : ConnectEvent} (h : step codec (.connect e) s = some s') :
    s.adapter.sendingThread = .connect ∧ s.connect e = some s' := by
  have hmatch : (match s.adapter.sendingThread with
    | .connect => s.connect e
    | _ => none) = some s' := h
  split at hmatch
  · exact ⟨‹_›, hmatch⟩
  · cases hmatch

/-- Every step keeps the invariant, with the exceptions seen so far. -/
theorem step_connects {past : List (ConnectingEvent ι ρ)} {e : ConnectingEvent ι ρ}
    (h : step codec e s = some s') (hs : s.Connects given (Abandoned past)) :
    s'.Connects given (Abandoned (past ++ [e])) := by
  cases e with
  | thread e =>
    rw [propext (abandoned_concat fun fault h => by cases h)]
    exact thread_connects h hs
  | connect e =>
    obtain ⟨hthread, h⟩ := connect_thread h
    refine connect_connects hthread h hs ?_ ?_
    · exact fun he => abandoned_concat fun fault h => he fault (by cases h; rfl)
    · rintro fault rfl
      exact ⟨fault, List.mem_append_right past List.mem_cons_self⟩

/-- For the other threads a run of `Connect` is one step, or none as long as it has not come
back. -/
theorem step_adapter {e : ConnectingEvent ι ρ} (h : step codec e s = some s') :
    ∃ events, exec (Adapter.step codec) events s.adapter = some s'.adapter := by
  cases e with
  | thread e =>
    obtain ⟨adapter, _, rfl, hadapter, -⟩ := thread_step h
    exact ⟨[e], exec_cons_of_step _ hadapter []⟩
  | connect e =>
    obtain ⟨-, h⟩ := connect_thread h
    cases connect_step h with
    | returned i adapter hconnecting hadapter =>
      have hstep : Adapter.step codec (.connected (.ok ())) s.adapter = some adapter := hadapter
      exact ⟨[.connected (.ok ())], exec_cons_of_step _ hstep []⟩
    | threw e adapter hconnecting hadapter =>
      have hstep : Adapter.step codec (.connected (.error e)) s.adapter = some adapter := hadapter
      exact ⟨[.connected (.error e)], exec_cons_of_step _ hstep []⟩
    | _ => exact ⟨[], rfl⟩

/-- Without the steps inside `Connect`, a run is one of the adapter alone. -/
theorem exec_adapter {events : List (ConnectingEvent ι ρ)}
    (h : exec (step codec) events s = some s') :
    ∃ events, exec (Adapter.step codec) events s.adapter = some s'.adapter := by
  refine exec_keeps (I := fun t => ∃ events, exec (Adapter.step codec) events s.adapter =
    some t.adapter) ?_ h ⟨[], rfl⟩
  rintro e t t' hstep ⟨events, hevents⟩
  obtain ⟨more, hmore⟩ := step_adapter hstep
  exact ⟨events ++ more, (exec_append_of_exec _ hevents more).trans hmore⟩

/-- In every run of an adapter made by one of its constructors, whatever the other threads do:
`Connect` makes one connection at most; what is written to the stream or read from it goes over the
stream that was given, or over a connection that is open and whose server has shown a certificate
without policy errors; and when the sending thread has ended, a connection is left open exactly if
`AuthenticateAsClient` has thrown an exception that is not caught. -/
theorem exec_authenticates {s₀ : ConnectingAdapter ι ρ μ φ} (hs₀ : Constructed given s₀)
    {events : List (ConnectingEvent ι ρ)} (h : exec (step codec) events s₀ = some s) :
    s.tcpClients.length ≤ 1 ∧
    (∀ e s', (e = .wrote (.ok ()) ∨ ∃ b, e = .readByte (.ok b)) →
      step codec (.thread e) s = some s' →
        given = true ∧ s.tcpClients = [] ∨ given = false ∧ s.tcpClients = [⟨true, some .none⟩]) ∧
    ∀ request, s.adapter.sendingThread = .ended request →
      ((∃ client ∈ s.tcpClients, client.opened = true) ↔
        ∃ e, .connect (.authenticateAsClient (.otherException e)) ∈ events) := by
  have hs : s.Connects given (Abandoned events) :=
    exec_history (I := fun past t => t.Connects given (Abandoned past))
      (fun _ _ _ _ => step_connects) h hs₀.connects
  refine ⟨hs.length_le, ?_, ?_⟩
  · intro e s' he hstep
    obtain ⟨adapter, _, -, hadapter, -⟩ := thread_step hstep
    exact hs.of_isOpen (Adapter.isOpen_of_exchange he hadapter)
  · intro request hended
    obtain ⟨events', hevents'⟩ := exec_adapter h
    have hclosed : s.adapter.ClosedAtEnd :=
      exec_keeps (fun _ _ _ => Adapter.step_closedAtEnd) hevents' hs₀.closedAtEnd
    exact hs.of_ended hended (hclosed request hended)

/-- A server with a valid certificate, from which the first byte is about to be read. -/
def authenticating : List (ConnectingEvent Unit NetworkMessage) :=
  [.thread (.call () .start), .thread (.resume ()), .thread (.resume ()), .thread .sending,
    .connect (.newTcpClient (.ok ())), .connect .testSkipSsl,
    .connect (.authenticateAsClient (.certificate .none .argument)), .connect .comesBack,
    .thread .receiving, .thread .receiving, .thread .receiving, .thread .receiving,
    .thread .receiving]

theorem exec_authenticates_byte :
    ∃ s : ConnectingAdapter Unit NetworkMessage NetworkMessage
        (List MessageBytesFiller × Option Nat),
      exec (step (Codec.client true Receiver.defaultFillers)) authenticating (ofHost "localhost") =
        some s ∧
      s.tcpClients = [⟨true, some .none⟩] := by
  obtain ⟨s, s', hrun, hread⟩ : ∃ s s' : ConnectingAdapter Unit NetworkMessage NetworkMessage
        (List MessageBytesFiller × Option Nat),
      exec (step (Codec.client true Receiver.defaultFillers)) authenticating (ofHost "localhost") =
        some s ∧
      step (Codec.client true Receiver.defaultFillers) (.thread (.readByte (.ok (some 5)))) s =
        some s' :=
    ⟨_, _, rfl, rfl⟩
  obtain ⟨-, hexchange, -⟩ := exec_authenticates (.ofHost "localhost") hrun
  rcases hexchange _ s' (Or.inr ⟨some 5, rfl⟩) hread with ⟨hgiven, -⟩ | ⟨-, hclients⟩
  · cases hgiven
  · exact ⟨s, hrun, hclients⟩

end ConnectingAdapter

end BananaApi.Client
