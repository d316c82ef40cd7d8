import BananaApi.Client.ReceivingQueue

/-!
# Winding down

`Stop` and an error have the same effect on both threads: neither begins another round.
What a thread is in the middle of it finishes, one request or one message, and then it
takes a bounded number of steps to its end, whatever the other threads do meanwhile. None
of them keeps it from taking these steps; only in `Connect`, `Write` and `ReadByte` it waits
until the network answers. The stream is closed when the sending thread has ended.
-/

namespace BananaApi.Client

variable {ι ρ μ φ : Type}

/-- A step of the sending thread. -/
def Event.ofSending : Event ι ρ → Bool
  | .sending | .connected _ | .wrote _ => true
  | _ => false

/-- The thread waits for the network, in `Connect` or in `Write`. -/
def SendingThread.Waits : SendingThread ρ → Prop
  | .connect | .write _ _ => True
  | _ => False

/-- The thread waits for the network, in `ReadByte`. -/
def ReceivingThread.Waits : ReceivingThread μ φ → Prop
  | .reading _ _ => True
  | _ => False

/-- A step of the receiving thread. -/
def Event.ofReceiving : Event ι ρ → Bool
  | .receiving | .readByte _ => true
  | _ => false

namespace Adapter

/-- Both loops find their condition false. -/
def Stopping (s : Adapter ι ρ μ φ) : Prop := s.running = false ∨ s.error ≠ none

/-- The steps the sending thread has at most before it ends. -/
def sendingLeft (s : Adapter ι ρ μ φ) : Nat :=
  match s.sendingThread with
  | .ended _ => 0
  | .close _ => 1
  | .finallyTest _ => 2
  | .caught _ _ => 3
  | .testRunning => 4
  | .write _ _ | .connect => 5
  | .serialize _ | .testStream => 6
  | .tryDequeue | .unstarted => 7
  | .count => 8
  | .testError => if s.error = none then 9 else 3

/-- The steps the receiving thread has at most before it ends. -/
def receivingLeft (codec : Codec ρ μ φ) (s : Adapter ι ρ μ φ) : Nat :=
  match s.receivingThread with
  | .ended | .crashed _ => 0
  | .caught _ => 1
  | .testRunning _ => 2
  | .enqueue _ _ => 3
  | .waitRunning => 4
  | .waitStream | .unstarted => 5
  | .waitError => if s.error = none then 6 else 3
  | .reading f bytes => 4 + (codec.bytesToRead f - bytes.length)
  | .testError f => if s.error = none then 5 + codec.bytesToRead f else 1

/-- The requests the sending thread may still write. -/
def writesLeft (s : Adapter ι ρ μ φ) : Nat :=
  match s.sendingThread with
  | .testError => if s.error = none then 1 else 0
  | .count | .tryDequeue | .serialize _ | .write _ _ => 1
  | _ => 0

/-- The messages the receiving thread may still enqueue. -/
def arrivalsLeft (s : Adapter ι ρ μ φ) : Nat :=
  match s.receivingThread with
  | .testError _ => if s.error = none then 1 else 0
  | .reading _ _ | .enqueue _ _ => 1
  | _ => 0

/-- One request more is written at most. -/
theorem writesLeft_le (s : Adapter ι ρ μ φ) : s.writesLeft ≤ 1 := by
  unfold writesLeft
  repeat' split
  all_goals omega

/-- One message more arrives at most. -/
theorem arrivalsLeft_le (s : Adapter ι ρ μ φ) : s.arrivalsLeft ≤ 1 := by
  unfold arrivalsLeft
  repeat' split
  all_goals omega

/-- From wherever it stands, the sending thread ends in 9 steps. -/
theorem sendingLeft_le (s : Adapter ι ρ μ φ) : s.sendingLeft ≤ 9 := by
  unfold sendingLeft
  repeat' split
  all_goals omega

variable {codec : Codec ρ μ φ} {s s' : Adapter ι ρ μ φ}

/-- The test of the error is passed by a thread that found the adapter running only if there is no
error, and then the adapter is not stopping. -/
theorem Stopping.error_of_running (hs : s.Stopping) (h : s.running = true) : s.error ≠ none := by
  rcases hs with hrunning | herror
  · cases hrunning.symm.trans h
  · exact herror

/-! ## The two threads -/

/-- What the sending thread may still do when it has taken some steps. -/
structure SendingWindsDown (steps : Nat) (s s' : Adapter ι ρ μ φ) : Prop where
  steps : steps + s'.sendingLeft ≤ s.sendingLeft
  written : ∃ more, s'.log.written = s.log.written ++ more ∧
    more.length + s'.writesLeft ≤ s.writesLeft

/-- What the receiving thread may still do when it has taken some steps. -/
structure ReceivingWindsDown (codec : Codec ρ μ φ) (steps : Nat) (s s' : Adapter ι ρ μ φ) :
    Prop where
  steps : steps + s'.receivingLeft codec ≤ s.receivingLeft codec
  arrived : ∃ more, s'.log.arrived = s.log.arrived ++ more ∧
    more.length + s'.arrivalsLeft ≤ s.arrivalsLeft

/-- What two parts of a run leave to the sending thread adds up. -/
theorem SendingWindsDown.trans {n m : Nat} {s'' : Adapter ι ρ μ φ} (h : SendingWindsDown n s s')
    (h' : SendingWindsDown m s' s'') : SendingWindsDown (n + m) s s'' where
  steps := by
    have hsteps := h.steps
    have hsteps' := h'.steps
    omega
  written := by
    obtain ⟨more, hmore, hle⟩ := h.written
    obtain ⟨more', hmore', hle'⟩ := h'.written
    refine ⟨more ++ more', ?_, ?_⟩
    · rw [hmore', hmore, List.append_assoc]
    · rw [List.length_append]
      omega

/-- What two parts of a run leave to the receiving thread adds up. -/
theorem ReceivingWindsDown.trans {n m : Nat} {s'' : Adapter ι ρ μ φ}
    (h : ReceivingWindsDown codec n s s') (h' : ReceivingWindsDown codec m s' s'') :
    ReceivingWindsDown codec (n + m) s s'' where
  steps := by
    have hsteps := h.steps
    have hsteps' := h'.steps
    omega
  arrived := by
    obtain ⟨more, hmore, hle⟩ := h.arrived
    obtain ⟨more', hmore', hle'⟩ := h'.arrived
    refine ⟨more ++ more', ?_, ?_⟩
    · rw [hmore', hmore, List.append_assoc]
    · rw [List.length_append]
      omega

/-- The sending thread stays where it is while others move, and an error is not cleared. -/
theorem sendingWindsDown_of_side (hthread : s'.sendingThread = s.sendingThread)
    (herror : s'.error = none → s.error = none) (hlog : s'.log.written = s.log.written) :
    SendingWindsDown 0 s s' where
  steps := by
    unfold sendingLeft
    rw [hthread]
    cases s.sendingThread
    case testError => grind
    all_goals exact (Nat.zero_add _).le
  written := by
    refine ⟨[], by rw [hlog, List.append_nil], ?_⟩
    unfold writesLeft
    rw [hthread]
    cases s.sendingThread
    case testError => grind
    all_goals exact (Nat.zero_add _).le

/-- The receiving thread stays where it is while others move, and an error is not cleared. -/
theorem receivingWindsDown_of_side (hthread : s'.receivingThread = s.receivingThread)
    (herror : s'.error = none → s.error = none) (hlog : s'.log.arrived = s.log.arrived) :
    ReceivingWindsDown codec 0 s s' where
  steps := by
    unfold receivingLeft
    rw [hthread]
    cases s.receivingThread
    case waitError | testError => grind
    all_goals exact (Nat.zero_add _).le
  arrived := by
    refine ⟨[], by rw [hlog, List.append_nil], ?_⟩
    unfold arrivalsLeft
    rw [hthread]
    cases s.receivingThread
    case testError => grind
    all_goals exact (Nat.zero_add _).le

/-! ## One step -/

/-- A step of the sending thread brings it nearer to its end, since its loop is not entered again.
-/
theorem sending_windsDown (h : sending codec s = some s') (hs : s.Stopping) :
    SendingWindsDown 1 s s' := by
  have hleft : 1 + s'.sendingLeft ≤ s.sendingLeft ∧ s'.writesLeft ≤ s.writesLeft := by
    cases sending_step h with
    | running hthread hrunning =>
      simp [sendingLeft, writesLeft, hthread, hs.error_of_running hrunning]
    | _ => simp [sendingLeft, writesLeft, *]
  obtain ⟨_, _, _, _, rfl⟩ := sending_frame h
  exact ⟨hleft.1, [], (List.append_nil _).symm, (Nat.zero_add _).trans_le hleft.2⟩

/-- The end of `Connect` is a step towards the test of the loop. -/
theorem connected_windsDown {result : Except Fault Unit} (h : connected result s = some s') :
    SendingWindsDown 1 s s' := by
  have hthread := connected_thread h
  unfold connected at h
  rw [hthread] at h
  cases result <;> cases h <;>
    exact ⟨by simp [sendingLeft, hthread], [], (List.append_nil _).symm, by
      simp [writesLeft, hthread]⟩

/-- The write that comes back is the last one. -/
theorem wrote_windsDown {result : Except Fault Unit} (h : wrote result s = some s') :
    SendingWindsDown 1 s s' := by
  obtain ⟨request, data, hthread⟩ := wrote_thread h
  unfold wrote at h
  rw [hthread] at h
  cases result with
  | error e =>
    cases h
    exact ⟨by simp [sendingLeft, hthread], [], (List.append_nil _).symm, by
      simp [writesLeft, hthread]⟩
  | ok u =>
    dsimp only at h
    split at h
    · cases h
      exact ⟨by simp [sendingLeft, hthread], [request], rfl, by simp [writesLeft, hthread]⟩
    · cases h

/-- A step of the receiving thread brings it nearer to its end, since its loop is not entered again.
-/
theorem receiving_windsDown (h : receiving codec s = some s') (hs : s.Stopping) :
    ReceivingWindsDown codec 1 s s' := by
  cases receiving_step h with
  | waitRunning hthread hrunning =>
    have herror := hs.error_of_running hrunning
    exact ⟨by simp [receivingLeft, hthread, herror], [], (List.append_nil _).symm, by
      simp [arrivalsLeft, hthread]⟩
  | running f hthread hrunning =>
    have herror := hs.error_of_running hrunning
    exact ⟨by simp [receivingLeft, hthread, herror], [], (List.append_nil _).symm, by
      simp [arrivalsLeft, hthread, herror]⟩
  | enqueued f message hthread =>
    exact ⟨by simp [receivingLeft, hthread], [message], rfl, by simp [arrivalsLeft, hthread]⟩
  | noError f hthread herror =>
    refine ⟨?_, [], (List.append_nil _).symm, by simp [arrivalsLeft, hthread, herror]⟩
    simp only [receivingLeft, hthread, herror, if_true, List.length_nil]
    omega
  | _ =>
    exact ⟨by simp [receivingLeft, *], [], (List.append_nil _).symm, by simp [arrivalsLeft, *]⟩

/-- The byte that was read is a step of the round, which has one less to read. -/
theorem received_left (f : φ) (bytes : List Byte) (b : Byte) (u : Adapter ι ρ μ φ)
    (h : u.receivingThread = received codec f (bytes ++ [b])) :
    1 + u.receivingLeft codec ≤ 4 + (codec.bytesToRead f - bytes.length) := by
  by_cases hmore : (bytes ++ [b]).length < codec.bytesToRead f
  · rw [received, if_pos hmore] at h
    simp only [List.length_append, List.length_singleton] at hmore
    simp only [receivingLeft, h, List.length_append, List.length_singleton]
    omega
  · rw [received, if_neg hmore] at h
    split at h <;> simp only [receivingLeft, h] <;> omega

/-- A read brings the round nearer to its end. -/
theorem readByte_windsDown {result : Except Fault (Option Byte)}
    (h : readByte codec result s = some s') : ReceivingWindsDown codec 1 s s' := by
  obtain ⟨f, bytes, hthread⟩ := readByte_thread h
  have hleft : s.receivingLeft codec = 4 + (codec.bytesToRead f - bytes.length) := by
    simp only [receivingLeft, hthread]
  have harrivals : s.arrivalsLeft = 1 := by simp only [arrivalsLeft, hthread]
  refine ⟨?_, [], ?_, ?_⟩
  · rw [hleft]
    unfold readByte at h
    rw [hthread] at h
    cases result with
    | error e =>
      cases h
      simp only [receivingLeft]
      omega
    | ok read =>
      cases read with
      | none =>
        dsimp only at h
        split at h <;> cases h
        simp only [receivingLeft]
        omega
      | some b =>
        dsimp only at h
        split at h <;> cases h
        exact received_left f bytes b _ rfl
  · obtain ⟨_, rfl⟩ := readByte_frame h
    exact (List.append_nil _).symm
  · rw [harrivals]
    exact (Nat.zero_add _).trans_le s'.arrivalsLeft_le

/-! ## Runs -/

/-- What a stopping adapter may still do when some events have happened. -/
structure WindsDown (codec : Codec ρ μ φ) (events : List (Event ι ρ)) (s s' : Adapter ι ρ μ φ) :
    Prop where
  stopping : s'.Stopping
  sending : SendingWindsDown (events.countP Event.ofSending) s s'
  receiving : ReceivingWindsDown codec (events.countP Event.ofReceiving) s s'

section Callers

variable [DecidableEq ι]

/-- The threads are started at most, which brings them closer to their ends. -/
theorem resume_windsDown {i : ι} (codec : Codec ρ μ φ) (h : resume i s = some s') :
    SendingWindsDown 0 s s' ∧ ReceivingWindsDown codec 0 s s' := by
  obtain ⟨_, _, _, _, _, _, _, rfl, hsending, hreceiving⟩ := resume_frame h
  constructor
  · rcases hsending with rfl | ⟨hunstarted, rfl⟩
    · exact sendingWindsDown_of_side rfl id rfl
    · exact ⟨by simp [sendingLeft, hunstarted], [], (List.append_nil _).symm, by simp [writesLeft]⟩
  · rcases hreceiving with rfl | ⟨hunstarted, rfl⟩
    · exact receivingWindsDown_of_side rfl id rfl
    · exact ⟨by simp [receivingLeft, hunstarted], [], (List.append_nil _).symm, by
        simp [arrivalsLeft]⟩

/-- Any step but a call of `Start` brings its thread nearer to its end and leaves the other one
where it is. -/
theorem step_windsDown {e : Event ι ρ} (he : ∀ i, e ≠ .call i .start)
    (h : step codec e s = some s') (hs : s.Stopping) : WindsDown codec [e] s s' := by
  cases e with
  | call i c =>
    have hrunning : s'.running = true → s.running = true := by
      cases call_step h with
      | start => exact absurd rfl (he i)
      | stop => exact nofun
      | _ => exact id
    obtain ⟨_, _, _, _, rfl⟩ := call_frame h
    refine ⟨?_, sendingWindsDown_of_side rfl id rfl, receivingWindsDown_of_side rfl id rfl⟩
    refine hs.imp_left fun hstopped => ?_
    rw [Bool.eq_false_iff] at hstopped ⊢
    exact fun h => hstopped (hrunning h)
  | resume i =>
    obtain ⟨hsending, hreceiving⟩ := resume_windsDown codec h
    obtain ⟨_, _, _, _, _, _, _, rfl, -⟩ := resume_frame h
    exact ⟨hs, hsending, hreceiving⟩
  | sending =>
    have hleft := sending_windsDown h hs
    have herror := sending_error h
    obtain ⟨_, _, _, _, rfl⟩ := sending_frame h
    exact ⟨hs.imp_right (mt herror), hleft, receivingWindsDown_of_side rfl herror rfl⟩
  | connected result =>
    have hleft := connected_windsDown h
    obtain ⟨_, _, rfl⟩ := connected_frame h
    exact ⟨hs, hleft, receivingWindsDown_of_side rfl id rfl⟩
  | wrote result =>
    have hleft := wrote_windsDown h
    obtain ⟨_, _, _, rfl⟩ := wrote_frame h
    exact ⟨hs, hleft, receivingWindsDown_of_side rfl id rfl⟩
  | receiving =>
    have hleft := receiving_windsDown h hs
    have herror := receiving_error h
    obtain ⟨_, _, _, _, rfl⟩ := receiving_frame h
    exact ⟨hs.imp_right (mt herror), sendingWindsDown_of_side rfl herror rfl, hleft⟩
  | readByte result =>
    have hleft := readByte_windsDown h
    obtain ⟨_, rfl⟩ := readByte_frame h
    exact ⟨hs, sendingWindsDown_of_side rfl id rfl, hleft⟩

open Transition (exec exec_keeps exec_cons_eq_some)

/-- A whole run takes no more steps of a thread than were left to it. -/
theorem exec_windsDown {events : List (Event ι ρ)} (hstart : ∀ i, Event.call i .start ∉ events)
    (h : exec (step codec) events s = some s') (hs : s.Stopping) :
    WindsDown codec events s s' := by
  induction events generalizing s with
  | nil =>
    cases h
    exact ⟨hs, sendingWindsDown_of_side rfl id rfl, receivingWindsDown_of_side rfl id rfl⟩
  | cons e events ih =>
    obtain ⟨t, hfirst, hrest⟩ := (exec_cons_eq_some _).mp h
    have hone := step_windsDown (fun i hi => hstart i (hi ▸ List.mem_cons_self)) hfirst hs
    have hmore := ih (fun i hi => hstart i (List.mem_cons_of_mem e hi)) hrest hone.stopping
    rw [← List.singleton_append]
    refine ⟨hmore.stopping, ?_, ?_⟩
    · rw [List.countP_append]
      exact hone.sending.trans hmore.sending
    · rw [List.countP_append]
      exact hone.receiving.trans hmore.receiving

end Callers

/-! ## The end -/

/-- A sending thread that has been started and has not ended waits for the network or takes its
next step, whatever state the others are in. -/
theorem sending_goesOn (codec : Codec ρ μ φ) (s : Adapter ι ρ μ φ) :
    s.sendingThread = .unstarted ∨ (∃ request, s.sendingThread = .ended request) ∨
      s.sendingThread.Waits ∨ (sending codec s).isSome = true := by
  cases hthread : s.sendingThread with
  | unstarted => exact Or.inl rfl
  | ended request => exact Or.inr (Or.inl ⟨request, rfl⟩)
  | connect | write => exact Or.inr (Or.inr (Or.inl trivial))
  | _ =>
    refine Or.inr (Or.inr (Or.inr ?_))
    simp only [sending, hthread]
    repeat' split
    all_goals rfl

/-- The same of the receiving thread. -/
theorem receiving_goesOn (codec : Codec ρ μ φ) (s : Adapter ι ρ μ φ) :
    s.receivingThread = .unstarted ∨
      (s.receivingThread = .ended ∨ ∃ e, s.receivingThread = .crashed e) ∨
      s.receivingThread.Waits ∨ (receiving codec s).isSome = true := by
  cases hthread : s.receivingThread with
  | unstarted => exact Or.inl rfl
  | ended => exact Or.inr (Or.inl (Or.inl rfl))
  | crashed e => exact Or.inr (Or.inl (Or.inr ⟨e, rfl⟩))
  | reading => exact Or.inr (Or.inr (Or.inl trivial))
  | _ =>
    refine Or.inr (Or.inr (Or.inr ?_))
    simp only [receiving, hthread]
    repeat' split
    all_goals rfl

/-- The stream has been closed when the sending thread has ended. -/
def ClosedAtEnd (s : Adapter ι ρ μ φ) : Prop :=
  ∀ request, s.sendingThread = .ended request → s.isOpen = false

/-- The thread ends behind `Close`, or without a stream. -/
theorem sending_closedAtEnd (h : sending codec s = some s') : s'.ClosedAtEnd := by
  intro request hended
  cases sending_step h with
  | finallyNoStream request' hthread hnone =>
    change s.networkStream.any _ = false
    rw [hnone]
    rfl
  | closed request' hthread =>
    change (s.networkStream.map _).any _ = false
    cases s.networkStream <;> rfl
  | _ => cases hended

/-- The thread does not end in `Connect`. -/
theorem connected_closedAtEnd {result : Except Fault Unit} (h : connected result s = some s') :
    s'.ClosedAtEnd := by
  have hthread := connected_thread h
  unfold connected at h
  rw [hthread] at h
  cases result <;> cases h <;> exact fun request hended => by cases hended

/-- The thread does not end in a write. -/
theorem wrote_closedAtEnd {result : Except Fault Unit} (h : wrote result s = some s') :
    s'.ClosedAtEnd := by
  obtain ⟨request, data, hthread⟩ := wrote_thread h
  unfold wrote at h
  rw [hthread] at h
  cases result with
  | error e =>
    cases h
    exact fun request hended => by cases hended
  | ok u =>
    dsimp only at h
    split at h <;> cases h
    exact fun request hended => by cases hended

/-- No step opens the stream again. -/
theorem step_closedAtEnd [DecidableEq ι] {e : Event ι ρ} (h : step codec e s = some s')
    (hs : s.ClosedAtEnd) : s'.ClosedAtEnd := by
  cases e with
  | call i c =>
    obtain ⟨_, _, _, _, rfl⟩ := call_frame h
    exact hs
  | resume i =>
    obtain ⟨_, _, _, _, _, _, _, rfl, hsending, -⟩ := resume_frame h
    rcases hsending with rfl | ⟨-, rfl⟩
    · exact hs
    · intro request hended
      cases hended
  | sending => exact sending_closedAtEnd h
  | connected result => exact connected_closedAtEnd h
  | wrote result => exact wrote_closedAtEnd h
  | receiving =>
    obtain ⟨_, _, _, _, rfl⟩ := receiving_frame h
    exact hs
  | readByte result =>
    obtain ⟨_, rfl⟩ := readByte_frame h
    exact hs

/-- The steps left to the receiving thread are those of one round and 6 more. -/
theorem receivingLeft_le {n : Nat} (hn : ∀ f, codec.bytesToRead f ≤ n) :
    s.receivingLeft codec ≤ 6 + n := by
  unfold receivingLeft
  cases s.receivingThread with
  | reading f bytes =>
    have hf := hn f
    dsimp only
    omega
  | testError f =>
    have hf := hn f
    dsimp only
    split <;> omega
  | waitError =>
    dsimp only
    split <;> omega
  | _ =>
    dsimp only
    omega

open Transition (exec exec_keeps)

variable [DecidableEq ι]

/-- Once a reachable adapter has been stopped or has an error, and is not started again, one
more request is written at most and one more message arrives at most. Each thread takes a
bounded number of steps more, and is kept from the next one by nothing but the network it waits
for; when the sending thread has ended the stream is closed. -/
theorem exec_windsDown_bounded {n : Nat} (hn : ∀ f, codec.bytesToRead f ≤ n) (networkStream : Bool)
    {before events : List (Event ι ρ)} (hs : exec (step codec) before (new networkStream) = some s)
    (hstopping : s.Stopping) (hstart : ∀ i, Event.call i .start ∉ events)
    (h : exec (step codec) events s = some s') :
    (∃ more, s'.log.written = s.log.written ++ more ∧ more.length ≤ 1) ∧
    (∃ more, s'.log.arrived = s.log.arrived ++ more ∧ more.length ≤ 1) ∧
    (events.countP Event.ofSending ≤ 9 ∧ (s'.sendingThread = .unstarted ∨
      (∃ request, s'.sendingThread = .ended request) ∧ s'.isOpen = false ∨
      s'.sendingThread.Waits ∨ (step codec .sending s').isSome = true)) ∧
    (events.countP Event.ofReceiving ≤ 6 + n ∧ (s'.receivingThread = .unstarted ∨
      (s'.receivingThread = .ended ∨ ∃ e, s'.receivingThread = .crashed e) ∨
      s'.receivingThread.Waits ∨ (step codec .receiving s').isSome = true)) := by
  have hdown := exec_windsDown hstart h hstopping
  have hclosed : s'.ClosedAtEnd := exec_keeps (fun _ _ _ => step_closedAtEnd) h
    (exec_keeps (fun _ _ _ => step_closedAtEnd) hs fun request hended => by cases hended)
  refine ⟨?_, ?_, ⟨?_, ?_⟩, ⟨?_, ?_⟩⟩
  · obtain ⟨more, hmore, hle⟩ := hdown.sending.written
    have hone := s.writesLeft_le
    exact ⟨more, hmore, by omega⟩
  · obtain ⟨more, hmore, hle⟩ := hdown.receiving.arrived
    have hone := s.arrivalsLeft_le
    exact ⟨more, hmore, by omega⟩
  · have hsteps := hdown.sending.steps
    have hle := s.sendingLeft_le
    omega
  · refine (sending_goesOn codec s').imp_right (Or.imp_left ?_)
    rintro ⟨request, hended⟩
    exact ⟨⟨request, hended⟩, hclosed request hended⟩
  · have hsteps := hdown.receiving.steps
    have hle := receivingLeft_le (s := s) hn
    omega
  · exact receiving_goesOn codec s'

/-- An adapter that is stopped while its sending thread is behind the test of `running`. -/
theorem exec_windsDown_bounded_stop :
    ∃ s s' : Adapter Unit NetworkMessage NetworkMessage (List MessageBytesFiller × Option Nat),
      exec (step (Codec.client true Receiver.defaultFillers))
        [.call () .start, .resume (), .resume (), .sending, .sending, .call () .stop] (new true) =
          some s ∧
      exec (step (Codec.client true Receiver.defaultFillers))
        [.sending, .sending, .sending, .sending, .sending] s = some s' ∧
      ∃ more, s'.log.written = s.log.written ++ more ∧ more.length ≤ 1 := by
  obtain ⟨s, hs, hstopping, s', hs'⟩ :
      ∃ s : Adapter Unit NetworkMessage NetworkMessage (List MessageBytesFiller × Option Nat),
        exec (step (Codec.client true Receiver.defaultFillers))
          [.call () .start, .resume (), .resume (), .sending, .sending, .call () .stop] (new true) =
            some s ∧ s.Stopping ∧
        ∃ s', exec (step (Codec.client true Receiver.defaultFillers))
          [.sending, .sending, .sending, .sending, .sending] s = some s' :=
    ⟨_, rfl, Or.inl rfl, _, rfl⟩
  have hn : ∀ f, (Codec.client true Receiver.defaultFillers).bytesToRead f ≤ 2 := by
    intro f
    change (if f.2 = none then 2 else 1) ≤ 2
    split <;> omega
  exact ⟨s, s', hs, hs', (exec_windsDown_bounded hn true hs hstopping (by simp) hs').1⟩

end Adapter

end BananaApi.Client
