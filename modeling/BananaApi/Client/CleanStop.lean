import BananaApi.Client.ThreadSteps
import BananaApi.Core.Transition

/-!
# Stopping

An application starts the adapter, sends nothing and stops it, over a stream on which the
server stays silent and which fails only after it has been closed. `Stop` clears a flag;
the sending thread sees it and closes the stream, whether or not the receiving thread is
still waiting for a byte. A receiving thread that is in a round at that moment takes the
close for a failure, and any other one sees the flag.
-/

namespace BananaApi.Client

variable {ι ρ μ φ : Type}

/-- In a round, behind its test of `running` and before the end of its read. -/
def ReceivingThread.InRound : ReceivingThread μ φ → Prop
  | .testError _ => True
  | .reading _ _ => True
  | _ => False

/-- Neither with a message nor with an exception. -/
def ReceivingThread.Calm : ReceivingThread μ φ → Prop
  | .enqueue _ _ => False
  | .caught _ => False
  | .crashed _ => False
  | _ => True

/-- Neither with a request nor with an exception. -/
def SendingThread.Calm : SendingThread ρ → Prop
  | .serialize _ => False
  | .write _ _ => False
  | .caught _ _ => False
  | _ => True

/-- Behind the loop. -/
def SendingThread.Closing : SendingThread ρ → Prop
  | .finallyTest _ => True
  | .close _ => True
  | .ended _ => True
  | _ => False

/-- What is begun in a list of two is the first of them or the second. -/
theorem append_prefix_pair {α : Type} {xs : List α} {x a b : α} (h : xs ++ [x] <+: [a, b]) :
    xs = [] ∧ x = a ∨ xs = [a] ∧ x = b := by
  cases xs with
  | nil =>
    obtain ⟨rfl, -⟩ := List.cons_prefix_cons.mp h
    exact Or.inl ⟨rfl, rfl⟩
  | cons y ys =>
    obtain ⟨rfl, hrest⟩ := List.cons_prefix_cons.mp h
    cases ys with
    | nil =>
      obtain ⟨rfl, -⟩ := List.cons_prefix_cons.mp hrest
      exact Or.inr ⟨rfl, rfl⟩
    | cons z zs =>
      obtain ⟨-, hnil⟩ := List.cons_prefix_cons.mp hrest
      rw [List.prefix_nil] at hnil
      exact absurd hnil (List.append_ne_nil_of_right_ne_nil zs (List.cons_ne_nil x []))

namespace Adapter

/-- The application calls `Start` and then `Stop`, a connection is made if one is needed, and
a read returns nothing: it throws once the stream is not open. -/
def Silent (i : ι) (s : Adapter ι ρ μ φ) : Event ι ρ → Prop
  | .call j c => s.log.calls ++ [(j, c)] <+: [(i, .start), (i, .stop)]
  | .connected result => result = .ok ()
  | .wrote result => result = .ok ()
  | .readByte result => s.isOpen = false ∧ ∃ e, result = .error e
  | _ => True

/-- The stream is not closed while the receiving thread is in a round. -/
def Timely (s : Adapter ι ρ μ φ) (e : Event ι ρ) : Prop :=
  e = .sending → ∀ request, s.sendingThread = .close request → ¬ s.receivingThread.InRound

variable {codec : Codec ρ μ φ} {i : ι} {s s' : Adapter ι ρ μ φ}

/-- What holds of an adapter that has no error: it runs between the two calls, the sending
thread leaves its loop after the second one only, and the receiving thread is in a round only
while the stream is open. -/
structure Quiet (i : ι) (s : Adapter ι ρ μ φ) : Prop where
  calls : s.log.calls <+: [(i, .start), (i, .stop)]
  running : s.running = true ↔ s.log.calls = [(i, .start)]
  fresh : s.log.calls = [] →
    s.sendingThread = .unstarted ∧ s.receivingThread = .unstarted ∧ ∀ j, s.callers j = .idle
  callers : ∀ j, s.callers j = .idle ∨ s.callers j = .startSending ∨ s.callers j = .startReceiving
  error : s.error = none
  queue : s.sendingQueue = []
  sending : s.sendingThread.Calm
  left : s.sendingThread.Closing → s.running = false
  receiving : s.receivingThread.Calm
  ahead : ∀ f, s.receivingThread = .testRunning f → s.running = true → s.networkStream ≠ none
  round : s.receivingThread.InRound → s.isOpen = true
  closed : s.networkStream ≠ none → s.isOpen = false → ∃ request, s.sendingThread = .ended request

/-- A new adapter has not been called. -/
theorem quiet_new (i : ι) (networkStream : Bool) :
    (new networkStream : Adapter ι ρ μ φ).Quiet i where
  calls := List.nil_prefix
  running := by simp [new]
  fresh := fun _ => ⟨rfl, rfl, fun _ => rfl⟩
  callers := fun _ => Or.inl rfl
  error := rfl
  queue := rfl
  sending := trivial
  left := False.elim
  receiving := trivial
  ahead := nofun
  round := False.elim
  closed := by
    intro hstream hclosed
    cases networkStream with
    | true => cases hclosed
    | false => exact absurd rfl hstream

/-- The sending thread moves on and leaves the rest alone. -/
theorem Quiet.of_sending (hs : s.Quiet i) {t t' : SendingThread ρ} (hthread : s.sendingThread = t)
    (hstarted : t ≠ .unstarted) (hended : ∀ request, t ≠ .ended request) (hcalm : t'.Calm)
    (hleft : t'.Closing → s.running = false) :
    ({ s with sendingThread := t' } : Adapter ι ρ μ φ).Quiet i :=
  { hs with
    fresh := fun hcalls => absurd (hthread.symm.trans (hs.fresh hcalls).1) hstarted
    sending := hcalm
    left := hleft
    closed := fun hstream hclosed =>
      let ⟨request, h⟩ := hs.closed hstream hclosed
      absurd (hthread.symm.trans h) (hended request) }

/-- The receiving thread moves on and leaves the rest alone. -/
theorem Quiet.of_receiving (hs : s.Quiet i) {t t' : ReceivingThread μ φ}
    (hthread : s.receivingThread = t) (hstarted : t ≠ .unstarted) (hcalm : t'.Calm)
    (hahead : ∀ f, t' = .testRunning f → s.running = true → s.networkStream ≠ none)
    (hround : t'.InRound → s.isOpen = true) :
    ({ s with receivingThread := t' } : Adapter ι ρ μ φ).Quiet i :=
  { hs with
    fresh := fun hcalls => absurd (hthread.symm.trans (hs.fresh hcalls).2.1) hstarted
    receiving := hcalm
    ahead := hahead
    round := hround }

/-- The sending thread closes the stream only behind the loop, in which case no round is going on.
-/
theorem sending_quiet (h : sending codec s = some s')
    (htimely : ∀ request, s.sendingThread = .close request → ¬ s.receivingThread.InRound)
    (hs : s.Quiet i) : s'.Quiet i := by
  have hleft := hs.left
  cases sending_step h with
  | noStream hthread | stream _ hthread | running hthread | noError hthread | counted hthread
  | countedNone hthread | dequeuedNone hthread =>
    exact hs.of_sending hthread nofun nofun trivial nofun
  | stopped hthread hstopped => exact hs.of_sending hthread nofun nofun trivial fun _ => hstopped
  | error e hthread he => cases hs.error.symm.trans he
  | dequeuedNull rest hthread hqueue | dequeued request rest hthread hqueue =>
    cases hs.queue.symm.trans hqueue
  | finallyNoStream request hthread | finallyStream request _ hthread =>
    rw [hthread] at hleft
    exact hs.of_sending hthread nofun nofun trivial fun _ => hleft trivial
  | closed request hthread =>
    rw [hthread] at hleft
    exact { hs with
      fresh := fun hcalls => by cases hthread.symm.trans (hs.fresh hcalls).1
      sending := trivial
      left := fun _ => hleft trivial
      ahead := fun f hf hrunning hnone =>
        hs.ahead f hf hrunning (Option.map_eq_none_iff.mp hnone)
      round := fun hround => absurd hround (htimely request hthread)
      closed := fun _ _ => ⟨request, rfl⟩ }
  | serialized _ _ hthread | notSerialized _ _ hthread | caught _ _ hthread =>
    have hcalm := hs.sending
    rw [hthread] at hcalm
    cases hcalm

/-- Without a failure to connect the loop begins. -/
theorem connected_quiet {result : Except Fault Unit} (hresult : result = .ok ())
    (h : connected result s = some s') (hs : s.Quiet i) : s'.Quiet i := by
  subst hresult
  have hthread := connected_thread h
  unfold connected at h
  rw [hthread] at h
  cases h
  exact { hs with
    fresh := fun hcalls => by cases hthread.symm.trans (hs.fresh hcalls).1
    sending := trivial
    left := nofun
    ahead := nofun
    round := fun _ => rfl
    closed := nofun }

/-- Nothing is sent, so the thread is never in a write. -/
theorem wrote_quiet {result : Except Fault Unit} (h : wrote result s = some s') (hs : s.Quiet i) :
    s'.Quiet i := by
  have hcalm := hs.sending
  obtain ⟨request, data, hthread⟩ := wrote_thread h
  rw [hthread] at hcalm
  cases hcalm

/-- The receiving thread goes into a round only where the stream is open. -/
theorem receiving_quiet (h : receiving codec s = some s') (hs : s.Quiet i) : s'.Quiet i := by
  cases receiving_step h with
  | waitRunning hthread | waitNoError hthread | waitNoStream hthread | stopped _ hthread
  | error _ _ hthread => exact hs.of_receiving hthread nofun trivial nofun nofun
  | waitStopped hthread hstopped =>
    refine hs.of_receiving hthread nofun trivial (fun _ _ hrunning => ?_) nofun
    cases hstopped.symm.trans hrunning
  | waitError e hthread he => cases hs.error.symm.trans he
  | waitStream stream hthread hstream =>
    refine hs.of_receiving hthread nofun trivial (fun _ _ _ hnone => ?_) nofun
    cases hstream.symm.trans hnone
  | running f hthread hrunning =>
    refine hs.of_receiving hthread nofun trivial nofun fun _ => ?_
    -- the stream is there, and it is closed behind the loop of the sending thread only
    have hstream := hs.ahead f hthread hrunning
    by_contra hclosed
    obtain ⟨request, hended⟩ := hs.closed hstream (Bool.eq_false_iff.mpr hclosed)
    have hstopped := hs.left (by rw [hended]; trivial)
    cases hrunning.symm.trans hstopped
  | noError f hthread =>
    exact hs.of_receiving hthread nofun trivial nofun fun _ => hs.round (by rw [hthread]; trivial)
  | enqueued _ _ hthread | caught _ hthread =>
    have hcalm := hs.receiving
    rw [hthread] at hcalm
    cases hcalm

/-- No round is going on over a closed stream, so no read of it comes back. -/
theorem readByte_quiet {result : Except Fault (Option Byte)} (hopen : s.isOpen = false)
    (h : readByte codec result s = some s') (hs : s.Quiet i) : s'.Quiet i := by
  obtain ⟨f, bytes, hthread⟩ := readByte_thread h
  have hround := hs.round (by rw [hthread]; trivial)
  rw [hopen] at hround
  cases hround

section Callers

variable [DecidableEq ι]

/-- The calls are `Start` and `Stop` of one thread, in this order. -/
theorem call_quiet {j : ι} {c : Call ρ}
    (hcalls : s.log.calls ++ [(j, c)] <+: [(i, .start), (i, .stop)])
    (h : call j c s = some s') (hs : s.Quiet i) : s'.Quiet i := by
  rcases append_prefix_pair hcalls with ⟨hnone, hfirst⟩ | ⟨hone, hsecond⟩
  · obtain ⟨rfl, rfl⟩ := Prod.mk.inj hfirst
    obtain ⟨hsending, hreceiving, -⟩ := hs.fresh hnone
    cases call_step h
    exact { hs with
      calls := hcalls
      running := iff_of_true rfl (by rw [callerAt, began, hnone]; rfl)
      fresh := fun hnil => absurd hnil (List.append_ne_nil_of_right_ne_nil _ (List.cons_ne_nil _ _))
      callers := fun k => by
        by_cases hk : k = j
        · rw [hk, callers_callerAt_self]
          exact Or.inr (Or.inl rfl)
        · rw [callers_callerAt_of_ne hk]
          exact hs.callers k
      left := fun hclosing => by
        have hclosing : s.sendingThread.Closing := hclosing
        rw [hsending] at hclosing
        cases hclosing
      ahead := fun f hf => by cases hreceiving.symm.trans hf }
  · obtain ⟨rfl, rfl⟩ := Prod.mk.inj hsecond
    cases call_step h
    exact { hs with
      calls := hcalls
      running := by
        refine iff_of_false nofun ?_
        rw [began, hone]
        nofun
      fresh := fun hnil => absurd hnil (List.append_ne_nil_of_right_ne_nil _ (List.cons_ne_nil _ _))
      left := fun _ => rfl
      ahead := nofun }

/-- A caller goes on with starting the threads. -/
theorem Quiet.callerAt (hs : s.Quiet i) (hcalls : s.log.calls ≠ []) (j : ι) {c : Caller ρ μ}
    (hc : c = .idle ∨ c = .startSending ∨ c = .startReceiving) : (s.callerAt j c).Quiet i :=
  { hs with
    fresh := fun hnil => absurd hnil hcalls
    callers := fun k => by
      by_cases hk : k = j
      · rw [hk, callers_callerAt_self]
        exact hc
      · rw [callers_callerAt_of_ne hk]
        exact hs.callers k }

/-- `Start` starts the two threads, each once. -/
theorem resume_quiet {j : ι} (h : resume j s = some s') (hs : s.Quiet i) : s'.Quiet i := by
  have hcalls : s.callers j ≠ .idle → s.log.calls ≠ [] := fun hj hnil =>
    hj ((hs.fresh hnil).2.2 j)
  cases resume_step h with
  | sendingStarted hcaller hthread =>
    have hcalls := hcalls (by rw [hcaller]; nofun)
    refine Quiet.callerAt ?_ (by exact hcalls) j (Or.inr (Or.inr rfl))
    exact { hs with
      fresh := fun hnil => absurd hnil hcalls
      sending := trivial
      left := nofun
      closed := fun hstream hclosed => by
        obtain ⟨request, hended⟩ := hs.closed hstream hclosed
        cases hthread.symm.trans hended }
  | receivingStarted hcaller =>
    have hcalls := hcalls (by rw [hcaller]; nofun)
    refine Quiet.callerAt ?_ (by exact hcalls) j (Or.inl rfl)
    exact { hs with
      fresh := fun hnil => absurd hnil hcalls
      receiving := trivial
      ahead := nofun
      round := nofun }
  | sendingNotStarted hcaller | receivingNotStarted hcaller =>
    exact hs.callerAt (hcalls (by rw [hcaller]; nofun)) j (Or.inl rfl)
  | _ =>
    have hcaller := hs.callers j
    rw [‹s.callers j = _›] at hcaller
    rcases hcaller with h | h | h <;> cases h

/-- Every step of a silent run in which the stream is closed in time leaves the adapter quiet. -/
theorem step_quiet {e : Event ι ρ} (hsilent : Silent i s e) (htimely : Timely s e)
    (h : step codec e s = some s') (hs : s.Quiet i) : s'.Quiet i := by
  cases e with
  | call j c => exact call_quiet hsilent h hs
  | resume j => exact resume_quiet h hs
  | sending => exact sending_quiet h (htimely rfl) hs
  | connected result => exact connected_quiet hsilent h hs
  | wrote result => exact wrote_quiet h hs
  | receiving => exact receiving_quiet h hs
  | readByte result => exact readByte_quiet hsilent.1 h hs

end Callers

/-! ## A close in a round -/

/-- The stream has been closed, and the receiving thread has not noticed what it will take for
a failure, or has thrown it. -/
structure Doomed (s : Adapter ι ρ μ φ) : Prop where
  ended : ∃ request, s.sendingThread = .ended request
  closed : s.isOpen = false
  thread : s.error = none ∧ (s.receivingThread.InRound ∨ ∃ e, s.receivingThread = .caught e) ∨
    s.error ≠ none ∧ ∃ e, s.receivingThread = .crashed e

/-- A thread that is to fail goes on to its failure. -/
theorem receiving_doomed (h : receiving codec s = some s') (hs : s.Doomed) : s'.Doomed := by
  cases receiving_step h with
  | noError f hthread herror => exact ⟨hs.ended, hs.closed, Or.inl ⟨herror, Or.inl trivial⟩⟩
  | error f e hthread he =>
    rcases hs.thread with ⟨herror, -⟩ | ⟨-, e', hcrashed⟩
    · cases herror.symm.trans he
    · cases hthread.symm.trans hcrashed
  | caught e hthread => exact ⟨hs.ended, hs.closed, Or.inr ⟨nofun, e, rfl⟩⟩
  | _ =>
    have hthread := hs.thread
    rw [‹s.receivingThread = _›] at hthread
    rcases hthread with ⟨-, hround | ⟨e, he⟩⟩ | ⟨-, e, he⟩
    · cases hround
    · cases he
    · cases he

/-- A failed read brings the thread to its failure. -/
theorem readByte_doomed {e : Fault} (h : readByte codec (.error e) s = some s') (hs : s.Doomed) :
    s'.Doomed := by
  obtain ⟨f, bytes, hthread⟩ := readByte_thread h
  unfold readByte at h
  rw [hthread] at h
  cases h
  rcases hs.thread with ⟨herror, -⟩ | ⟨-, e', hcrashed⟩
  · exact ⟨hs.ended, hs.closed, Or.inl ⟨herror, Or.inr ⟨e, rfl⟩⟩⟩
  · cases hthread.symm.trans hcrashed

/-- No other thread keeps the receiving thread from failing. -/
theorem step_doomed [DecidableEq ι] {e : Event ι ρ} (hsilent : Silent i s e)
    (h : step codec e s = some s') (hs : s.Doomed) : s'.Doomed := by
  obtain ⟨request, hended⟩ := hs.ended
  cases e with
  | call j c =>
    obtain ⟨_, _, _, _, rfl⟩ := call_frame h
    exact ⟨hs.ended, hs.closed, hs.thread⟩
  | resume j =>
    obtain ⟨_, _, _, _, _, _, _, rfl, hsending, hreceiving⟩ := resume_frame h
    rcases hsending with rfl | ⟨hunstarted, -⟩
    · rcases hreceiving with rfl | ⟨hunstarted, -⟩
      · exact ⟨hs.ended, hs.closed, hs.thread⟩
      · have hthread := hs.thread
        rw [hunstarted] at hthread
        rcases hthread with ⟨-, hround | ⟨e, he⟩⟩ | ⟨-, e, he⟩
        · cases hround
        · cases he
        · cases he
    · cases hended.symm.trans hunstarted
  | sending =>
    cases sending_step h <;> cases hended.symm.trans ‹s.sendingThread = _›
  | connected result => cases hended.symm.trans (connected_thread h)
  | wrote result =>
    obtain ⟨_, _, hthread⟩ := wrote_thread h
    cases hended.symm.trans hthread
  | receiving => exact receiving_doomed h hs
  | readByte result =>
    obtain ⟨-, e, rfl⟩ := hsilent
    exact readByte_doomed h hs

open Transition (exec exec_cons_eq_some exec_cons_of_step exec_invariant Throughout throughout_cons
  throughout_and)

variable [DecidableEq ι]

/-- Some run goes on to an error, with the receiving thread ended by an exception. -/
def Crashes (codec : Codec ρ μ φ) (i : ι) (s : Adapter ι ρ μ φ) : Prop :=
  ∃ events s', exec (step codec) events s = some s' ∧
    Throughout (step codec) (Silent i) events s ∧
    s'.error ≠ none ∧ ∃ e, s'.receivingThread = .crashed e

/-- What can crash behind a step can crash in front of it. -/
theorem Crashes.of_step {e : Event ι ρ} (h : step codec e s = some s') (he : Silent i s e)
    (hs' : Crashes codec i s') : Crashes codec i s := by
  obtain ⟨events, t, hexec, hsilent, ht⟩ := hs'
  refine ⟨e :: events, t, ?_, throughout_cons h he hsilent, ht⟩
  rw [exec_cons_of_step _ h, hexec]

/-- A caught exception is thrown once more. -/
theorem crashes_of_caught {e : Fault} (hthread : s.receivingThread = .caught e) :
    Crashes codec i s := by
  have hstep : step codec .receiving s =
      some { s with error := some e, receivingThread := .crashed e } := by
    simp only [step, receiving, hthread]
  exact Crashes.of_step hstep trivial ⟨[], _, rfl, trivial, nofun, e, rfl⟩

/-- A read from the closed stream throws, and the thread crashes. -/
theorem crashes_of_reading {f : φ} {bytes : List Byte} (hclosed : s.isOpen = false)
    (hthread : s.receivingThread = .reading f bytes) : Crashes codec i s := by
  have hstep : step codec (.readByte (.error .argument)) s =
      some { s with receivingThread := .caught .argument } := by
    simp only [step, readByte, hthread]
  exact Crashes.of_step hstep ⟨hclosed, _, rfl⟩ (crashes_of_caught rfl)

/-- The receiving thread goes on to its exception. -/
theorem Doomed.crashes (hs : s.Doomed) : Crashes codec i s := by
  rcases hs.thread with ⟨herror, hround | ⟨e, hthread⟩⟩ | hcrashed
  · cases hthread : s.receivingThread with
    | testError f =>
      have hstep : step codec .receiving s = some { s with receivingThread := .reading f [] } := by
        simp only [step, receiving, hthread, herror]
      exact Crashes.of_step hstep trivial (crashes_of_reading hs.closed rfl)
    | reading f bytes => exact crashes_of_reading hs.closed hthread
    | _ =>
      rw [hthread] at hround
      cases hround
  · exact crashes_of_caught hthread
  · exact ⟨[], s, rfl, trivial, hcrashed⟩

/-! ## Runs -/

/-- A close in a round dooms the receiving thread. -/
theorem Quiet.doomed {e : Event ι ρ} (hs : s.Quiet i) (htimely : ¬ Timely s e)
    (h : step codec e s = some s') : s'.Doomed := by
  obtain ⟨rfl, request, hthread, hround⟩ : e = .sending ∧
      ∃ request, s.sendingThread = .close request ∧ s.receivingThread.InRound := by
    simpa [Timely] using htimely
  change Adapter.sending codec s = some s' at h
  rw [Adapter.sending, hthread] at h
  cases h
  refine ⟨⟨request, rfl⟩, ?_, Or.inl ⟨hs.error, Or.inl hround⟩⟩
  unfold isOpen
  cases s.networkStream <;> rfl

/-- A run in which the stream is closed in a round can go on to an error. -/
theorem crashes_of_not_timely {events : List (Event ι ρ)}
    (hsilent : Throughout (step codec) (Silent i) events s)
    (htimely : ¬ Throughout (step codec) Timely events s)
    (h : exec (step codec) events s = some s') (hs : s.Quiet i) : Crashes codec i s' := by
  induction events generalizing s with
  | nil => exact absurd trivial htimely
  | cons e events ih =>
    obtain ⟨t, hstep, hrest⟩ := (exec_cons_eq_some _).mp h
    obtain ⟨he, hes⟩ := hsilent t hstep
    by_cases ht : Timely s e
    · exact ih hes (fun hrun => htimely (throughout_cons hstep ht hrun)) hrest
        (step_quiet he ht hstep hs)
    · have hdoomed := exec_invariant (fun _ _ _ => step_doomed) hes hrest (hs.doomed ht hstep)
      exact hdoomed.crashes

/-- An application that starts the adapter, sends nothing and stops it, over a silent stream
that fails only when it is closed: in every run whose closes are outside the rounds of the
receiving thread there is no error and no exception, and any other run can go on to both. -/
theorem exec_cleanStop (networkStream : Bool) {events : List (Event ι ρ)}
    (hsilent : Throughout (step codec) (Silent i) events (new networkStream))
    {s : Adapter ι ρ μ φ} (h : exec (step codec) events (new networkStream) = some s) :
    (Throughout (step codec) Timely events (new networkStream : Adapter ι ρ μ φ) →
      s.error = none ∧ ∀ e, s.receivingThread ≠ .crashed e) ∧
    (¬ Throughout (step codec) Timely events (new networkStream : Adapter ι ρ μ φ) →
      Crashes codec i s) := by
  refine ⟨fun htimely => ?_, fun htimely =>
    crashes_of_not_timely hsilent htimely h (quiet_new i networkStream)⟩
  have hquiet := exec_invariant (fun _ _ _ he => step_quiet he.1 he.2)
    (throughout_and hsilent htimely) h (quiet_new i networkStream)
  refine ⟨hquiet.error, fun e he => ?_⟩
  have hcalm := hquiet.receiving
  rw [he] at hcalm
  cases hcalm

/-- The threads see the flag one after the other. -/
theorem exec_cleanStop_early :
    ∃ s, exec (step (Codec.client true Receiver.defaultFillers))
      [.call () .start, .resume (), .resume (), .sending, .receiving, .call () .stop, .receiving,
        .receiving, .receiving, .sending, .sending, .sending] (new true) = some s ∧
      s.error = none ∧ ∀ e, s.receivingThread ≠ .crashed e := by
  refine Exists.imp (fun s hs => ⟨hs, (exec_cleanStop (i := ()) true ?_ hs).1 ?_⟩) ⟨_, rfl⟩
  · iterate 12 refine throughout_cons rfl (by first | trivial | exact ⟨_, rfl⟩) ?_
    trivial
  · iterate 12 refine throughout_cons rfl nofun ?_
    trivial

/-- Stopped in a read, the adapter has an error. -/
theorem exec_cleanStop_reading :
    ¬ ∀ (events : List (Event Unit NetworkMessage)) (s : Adapter Unit NetworkMessage
        NetworkMessage (List MessageBytesFiller × Option Nat)),
      Throughout (step (Codec.client true Receiver.defaultFillers)) (Silent ()) events (new true) →
      exec (step (Codec.client true Receiver.defaultFillers)) events (new true) = some s →
      s.error = none ∧ ∀ e, s.receivingThread ≠ .crashed e := by
  intro h
  have hrun := h [.call () .start, .resume (), .resume (), .receiving, .receiving, .receiving,
    .receiving, .receiving, .sending, .sending, .sending, .sending, .call () .stop, .sending,
    .sending, .sending, .readByte (.error .argument), .receiving] _ ?_ rfl
  · cases hrun.1
  · iterate 18
      refine throughout_cons rfl (by first | trivial | exact ⟨_, rfl⟩ | exact ⟨rfl, _, rfl⟩) ?_
    trivial

end Adapter

end BananaApi.Client
