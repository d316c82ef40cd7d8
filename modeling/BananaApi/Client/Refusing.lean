import BananaApi.Client.ReceivingQueue
import Mathlib.Data.Finset.Card

/-!
# After an error

An error of either thread is final. `Send` and `Receive` test for it before they touch
their queue, so that of the calls that come back afterwards only those succeed that had
passed the test already, one for each thread of the application at most; every other one is
refused, also after another `Start`. The messages in the queue are not handed out any more.
-/

namespace BananaApi.Client

variable {ι ρ μ φ : Type}

/-- Behind the test of the error. -/
def Caller.Admitted : Caller ρ μ → Prop
  | .sendEnqueue _ => True
  | .receiveDequeue _ => True
  | _ => False

/-- The calls that did not throw. -/
def succeeded {α β : Type} (calls : List (α × Except Refusal β)) : Nat :=
  calls.countP fun call => call.2.isOk

/-- One more call adds one success or none. -/
theorem succeeded_append {α β : Type} (calls : List (α × Except Refusal β)) (a : α)
    (result : Except Refusal β) :
    succeeded (calls ++ [(a, result)]) = succeeded calls + if result.isOk then 1 else 0 := by
  rw [succeeded, List.countP_append, List.countP_singleton, succeeded]

namespace Adapter

/-- There is an error, and only some threads may still succeed, which together with the calls
that succeeded since are bounded. -/
structure Refuses (sends : List (Option ρ × Except Refusal Unit))
    (receives : List (List μ × Except Refusal (Option μ))) (n : Nat) (threads : Finset ι)
    (s : Adapter ι ρ μ φ) : Prop where
  error : s.error ≠ none
  admitted : ∀ i, (s.callers i).Admitted → i ∈ threads
  answered : ∃ sends' receives', s.log.sends = sends ++ sends' ∧
    s.log.receives = receives ++ receives' ∧
      succeeded sends' + succeeded receives' + threads.card ≤ n

variable {codec : Codec ρ μ φ} {s s' : Adapter ι ρ μ φ} {n : Nat} {threads : Finset ι}
  {sends : List (Option ρ × Except Refusal Unit)}
  {receives : List (List μ × Except Refusal (Option μ))}

/-- A step of another thread. -/
theorem Refuses.of_side (hs : s.Refuses sends receives n threads)
    (herror : s'.error = none → s.error = none) (hcallers : s'.callers = s.callers)
    (hsends : s'.log.sends = s.log.sends) (hreceives : s'.log.receives = s.log.receives) :
    s'.Refuses sends receives n threads where
  error := mt herror hs.error
  admitted := by
    rw [hcallers]
    exact hs.admitted
  answered := by
    rw [hsends, hreceives]
    exact hs.answered

/-- A call of `Send` is refused. -/
theorem Refuses.sent (hs : s.Refuses sends receives n threads) (request : Option ρ)
    (refusal : Refusal) : (s.sent request (.error refusal)).Refuses sends receives n threads where
  error := hs.error
  admitted := hs.admitted
  answered := by
    obtain ⟨sends', receives', hsends, hreceives, hle⟩ := hs.answered
    refine ⟨sends' ++ [(request, .error refusal)], receives', ?_, hreceives, ?_⟩
    · rw [Adapter.sent, hsends, List.append_assoc]
    · rw [succeeded_append]
      exact hle

/-- A call of `Receive` is refused. -/
theorem Refuses.returned (hs : s.Refuses sends receives n threads) (counted : List μ)
    (refusal : Refusal) :
    (s.returned counted (.error refusal)).Refuses sends receives n threads where
  error := hs.error
  admitted := hs.admitted
  answered := by
    obtain ⟨sends', receives', hsends, hreceives, hle⟩ := hs.answered
    refine ⟨sends', receives' ++ [(counted, .error refusal)], hsends, ?_, ?_⟩
    · rw [Adapter.returned, hreceives, List.append_assoc]
    · rw [succeeded_append]
      exact hle

section Callers

variable [DecidableEq ι] {i : ι}

/-- A caller moves on to where it is not behind the test. -/
theorem Refuses.callerAt (hs : s.Refuses sends receives n threads) (i : ι) {c : Caller ρ μ}
    (hc : ¬ c.Admitted) : (s.callerAt i c).Refuses sends receives n threads where
  error := hs.error
  admitted := by
    intro j hj
    by_cases hij : j = i
    · rw [hij, callers_callerAt_self] at hj
      exact absurd hj hc
    · rw [callers_callerAt_of_ne hij] at hj
      exact hs.admitted j hj
  answered := hs.answered

/-- A call that was behind the test succeeds, which its thread will not do again. -/
theorem Refuses.succeed (hs : s.Refuses sends receives n threads)
    (hi : (s.callers i).Admitted) (herror : s'.error = s.error)
    (hcallers : s'.callers = Function.update s.callers i .idle)
    (hanswered : (∃ a, s'.log.sends = s.log.sends ++ [a] ∧ s'.log.receives = s.log.receives) ∨
      ∃ a, s'.log.receives = s.log.receives ++ [a] ∧ s'.log.sends = s.log.sends) :
    s'.Refuses sends receives n (threads.erase i) where
  error := by
    rw [herror]
    exact hs.error
  admitted := by
    intro j hj
    rw [hcallers] at hj
    by_cases hij : j = i
    · rw [hij, Function.update_self] at hj
      cases hj
    · rw [Function.update_of_ne hij] at hj
      exact Finset.mem_erase.mpr ⟨hij, hs.admitted j hj⟩
  answered := by
    obtain ⟨sends', receives', hsends, hreceives, hle⟩ := hs.answered
    have hcard := Finset.card_erase_add_one (hs.admitted i hi)
    have hone : ∀ {α β : Type} (calls : List (α × Except Refusal β)) (a : α × Except Refusal β),
        succeeded (calls ++ [a]) ≤ succeeded calls + 1 := by
      intro α β calls a
      rw [succeeded_append]
      split <;> omega
    rcases hanswered with ⟨a, hnew, hold⟩ | ⟨a, hnew, hold⟩
    · have hcount := hone sends' a
      refine ⟨sends' ++ [a], receives', ?_, hold.trans hreceives, by omega⟩
      rw [hnew, hsends, List.append_assoc]
    · have hcount := hone receives' a
      refine ⟨sends', receives' ++ [a], hold.trans hsends, ?_, by omega⟩
      rw [hnew, hreceives, List.append_assoc]

/-- A call that begins behind the error will be refused. -/
theorem call_refuses {c : Call ρ} (h : call i c s = some s')
    (hs : s.Refuses sends receives n threads) : s'.Refuses sends receives n threads := by
  have hbegan : (s.began i c).Refuses sends receives n threads := hs.of_side id rfl rfl rfl
  cases call_step h with
  | sendMany request => exact hbegan.sent request _
  | send request => exact hbegan.callerAt i id
  | receiveMany => exact hbegan.returned _ _
  | receive => exact hbegan.callerAt i id
  | start =>
    have hrunning : ({ s.began i .start with running := true } : Adapter ι ρ μ φ).Refuses sends
      receives n threads := hbegan.of_side id rfl rfl rfl
    exact hrunning.callerAt i id
  | stop => exact hbegan.of_side id rfl rfl rfl

/-- A call behind the test may still succeed, and is then one of those counted. -/
theorem resume_refuses (h : resume i s = some s') (hs : s.Refuses sends receives n threads) :
    ∃ threads', s'.Refuses sends receives n threads' := by
  cases resume_step h with
  | sendNoError request hcaller herror | receiveNoError counted hcaller herror =>
    exact absurd herror hs.error
  | sendError request e => exact ⟨threads, (hs.sent request _).callerAt i id⟩
  | receiveError counted e => exact ⟨threads, (hs.returned counted _).callerAt i id⟩
  | enqueued request hcaller =>
    exact ⟨_, hs.succeed (by rw [hcaller]; trivial) rfl rfl (Or.inl ⟨_, rfl, rfl⟩)⟩
  | dequeuedNone counted hcaller | dequeued counted response rest hcaller =>
    exact ⟨_, hs.succeed (by rw [hcaller]; trivial) rfl rfl (Or.inr ⟨_, rfl, rfl⟩)⟩
  | sendingStarted =>
    have hstarted : ({ s with sendingThread := .testStream } : Adapter ι ρ μ φ).Refuses sends
      receives n threads := hs.of_side id rfl rfl rfl
    exact ⟨threads, hstarted.callerAt i id⟩
  | receivingStarted =>
    have hstarted : ({ s with receivingThread := .waitRunning } : Adapter ι ρ μ φ).Refuses sends
      receives n threads := hs.of_side id rfl rfl rfl
    exact ⟨threads, hstarted.callerAt i id⟩
  | sendingNotStarted | receivingNotStarted => exact ⟨threads, hs.callerAt i id⟩

/-- No step lets another call pass the test. -/
theorem step_refuses {e : Event ι ρ} (h : step codec e s = some s')
    (hs : ∃ threads, s.Refuses sends receives n threads) :
    ∃ threads, s'.Refuses sends receives n threads := by
  obtain ⟨threads, hs⟩ := hs
  cases e with
  | call i c => exact ⟨threads, call_refuses h hs⟩
  | resume i => exact resume_refuses h hs
  | sending =>
    have herror := sending_error h
    obtain ⟨_, _, _, _, rfl⟩ := sending_frame h
    exact ⟨threads, hs.of_side herror rfl rfl rfl⟩
  | connected result =>
    obtain ⟨_, _, rfl⟩ := connected_frame h
    exact ⟨threads, hs.of_side id rfl rfl rfl⟩
  | wrote result =>
    obtain ⟨_, _, _, rfl⟩ := wrote_frame h
    exact ⟨threads, hs.of_side id rfl rfl rfl⟩
  | receiving =>
    have herror := receiving_error h
    obtain ⟨_, _, _, _, rfl⟩ := receiving_frame h
    exact ⟨threads, hs.of_side herror rfl rfl rfl⟩
  | readByte result =>
    obtain ⟨_, rfl⟩ := readByte_frame h
    exact ⟨threads, hs.of_side id rfl rfl rfl⟩

open Transition (exec exec_keeps)

/-- In every run from a state with an error, the error stays, and of the calls of `Send` and
`Receive` that come back at most as many succeed as there were threads behind the test. -/
theorem exec_refuses {events : List (Event ι ρ)} (herror : s.error ≠ none)
    (hthreads : ∀ i, (s.callers i).Admitted → i ∈ threads)
    (h : exec (step codec) events s = some s') :
    s'.error ≠ none ∧ ∃ sends receives, s'.log.sends = s.log.sends ++ sends ∧
      s'.log.receives = s.log.receives ++ receives ∧
        succeeded sends + succeeded receives ≤ threads.card := by
  have hstart : s.Refuses s.log.sends s.log.receives threads.card threads :=
    ⟨herror, hthreads, [], [], (List.append_nil _).symm, (List.append_nil _).symm,
      (Nat.zero_add _).le⟩
  obtain ⟨threads', hs'⟩ := exec_keeps (fun _ _ _ => step_refuses) h ⟨threads, hstart⟩
  obtain ⟨sends, receives, hsends, hreceives, hle⟩ := hs'.answered
  exact ⟨hs'.error, sends, receives, hsends, hreceives, (Nat.le_add_right _ _).trans hle⟩

/-- A client with a read that failed after the request of one thread had passed the test. -/
def failing (request : NetworkMessage) : List (Event Bool NetworkMessage) :=
  [.call true .start, .resume true, .resume true, .receiving, .receiving, .receiving, .receiving,
    .receiving, .call true (.send (some request)), .resume true, .readByte (.error .overflow),
    .receiving]

/-- The request that has passed the test, and two calls that have not. -/
def late (request : NetworkMessage) : List (Event Bool NetworkMessage) :=
  [.call false (.send (some request)), .resume false, .resume true, .call true .receive,
    .resume true]

/-- A request that was behind the test when a read failed, and one that was not. -/
theorem exec_refuses_late :
    ∃ s s', exec (step (Codec.client true Receiver.defaultFillers))
        (failing (.connectServerRequest ⟨5, 0, 65, [97], [], by decide, by decide⟩)) (new true) =
          some s ∧
      exec (step (Codec.client true Receiver.defaultFillers))
        (late (.connectServerRequest ⟨5, 0, 65, [98], [], by decide, by decide⟩)) s = some s' ∧
      ∃ sends receives, s'.log.sends = s.log.sends ++ sends ∧
        s'.log.receives = s.log.receives ++ receives ∧
          succeeded sends + succeeded receives ≤ 1 := by
  obtain ⟨s, hs, herror, hcallers, s', hs'⟩ :
      ∃ s, exec (step (Codec.client true Receiver.defaultFillers))
        (failing (.connectServerRequest ⟨5, 0, 65, [97], [], by decide, by decide⟩)) (new true) =
          some s ∧ s.error ≠ none ∧ s.callers false = .idle ∧
      ∃ s', exec (step (Codec.client true Receiver.defaultFillers))
        (late (.connectServerRequest ⟨5, 0, 65, [98], [], by decide, by decide⟩)) s = some s' :=
    ⟨_, rfl, Option.some_ne_none _, rfl, _, rfl⟩
  have hthreads : ∀ i, (s.callers i).Admitted → i ∈ ({true} : Finset Bool) := by
    intro i hi
    cases i with
    | true => exact Finset.mem_singleton_self true
    | false =>
      rw [hcallers] at hi
      cases hi
  exact ⟨s, s', hs, hs', (exec_refuses herror hthreads hs').2⟩

end Callers

end Adapter

end BananaApi.Client
