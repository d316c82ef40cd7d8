import BananaApi.Client.ThreadSteps
import BananaApi.Core.Transition

/-!
# The receiving queue

One thread enqueues the messages, the callers of `Receive` take them. The messages that
arrived are those that were returned and the queue, whatever the interleaving. A call
counts the queue first and takes from it last; what it has counted is still in front if
no other call takes messages, so it returns the oldest one, unless it counts more than
100: then it throws, and takes none. Where calls overlap, one of them may find that others
have taken the messages it has counted.
-/

namespace BananaApi.Client

variable {ι ρ μ φ : Type}

/-- The messages the calls of `Receive` returned, in the order they were taken. -/
def Log.returned (log : Log ι ρ μ) : List μ :=
  log.receives.filterMap fun call =>
    match call.2 with
    | .ok response => response
    | .error _ => none

/-- The queue a call of `Receive` that has passed its count check has counted. -/
def Caller.counted : Caller ρ μ → Option (List μ)
  | .receiveError counted => some counted
  | .receiveDequeue counted => some counted
  | _ => none

/-- A call of `Receive` returns the oldest of up to 100 messages and refuses more. -/
def Answered (call : List μ × Except Refusal (Option μ)) : Prop :=
  (100 < call.1.length → call.2 = .error (.indexOutOfRange "Too many responses queued...")) ∧
    (call.1 ≠ [] → call.1.length ≤ 100 → call.2 = .ok call.1.head?)

namespace Adapter

variable {codec : Codec ρ μ φ} {s s' : Adapter ι ρ μ φ}

/-- An error is never cleared. -/
theorem sending_error (h : sending codec s = some s') (he : s'.error = none) : s.error = none := by
  cases sending_step h with
  | caught request e hthread => cases he
  | _ => exact he

/-- The receiving thread never clears the error. -/
theorem receiving_error (h : receiving codec s = some s') (he : s'.error = none) :
    s.error = none := by
  cases receiving_step h with
  | caught e hthread => cases he
  | _ => exact he

/-- The queue grows at its end only. -/
theorem receiving_prefix (h : receiving codec s = some s') :
    ∃ more, s'.receivingQueue = s.receivingQueue ++ more ∧
      s'.log.arrived = s.log.arrived ++ more := by
  cases receiving_step h with
  | enqueued f message hthread => exact ⟨[message], rfl, rfl⟩
  | _ => exact ⟨[], (List.append_nil _).symm, (List.append_nil _).symm⟩

/-! ## Order -/

/-- The messages that arrived are the returned ones and the queue. -/
def Kept (s : Adapter ι ρ μ φ) : Prop := s.log.arrived = s.log.returned ++ s.receivingQueue

/-- A call comes back without a message. -/
theorem Kept.unanswered (hs : s.Kept) (counted : List μ) {result : Except Refusal (Option μ)}
    (h : ∀ response, result ≠ .ok (some response)) : (s.returned counted result).Kept := by
  have hreturned : (s.returned counted result).log.returned = s.log.returned := by
    cases result with
    | error refusal => simp [Adapter.returned, Log.returned]
    | ok response =>
      cases response with
      | none => simp [Adapter.returned, Log.returned]
      | some response => exact absurd rfl (h response)
  calc s.log.arrived = s.log.returned ++ s.receivingQueue := hs
    _ = (s.returned counted result).log.returned ++ s.receivingQueue := by rw [hreturned]

/-- A call takes the oldest message. -/
theorem Kept.answered (hs : s.Kept) (counted : List μ) {response : μ} {rest : List μ}
    (hqueue : s.receivingQueue = response :: rest) :
    ({ s with receivingQueue := rest }.returned counted (.ok (some response))).Kept := by
  have hreturned : ({ s with receivingQueue := rest }.returned counted
      (.ok (some response))).log.returned = s.log.returned ++ [response] := by
    simp [Adapter.returned, Log.returned]
  calc s.log.arrived = s.log.returned ++ response :: rest := by
        rw [← hqueue]
        exact hs
    _ = s.log.returned ++ [response] ++ rest := by rw [List.append_assoc, List.singleton_append]
    _ = _ := by rw [← hreturned]; rfl

/-- A message that arrives goes to the end of the queue. -/
theorem receiving_kept (h : receiving codec s = some s') (hs : s.Kept) : s'.Kept := by
  obtain ⟨more, hqueue, harrived⟩ := receiving_prefix h
  obtain ⟨_, _, _, _, rfl⟩ := receiving_frame h
  have hreturned : s.log.returned ++ (s.receivingQueue ++ more) =
      s.log.returned ++ s.receivingQueue ++ more := (List.append_assoc ..).symm
  rw [Kept, harrived, hqueue, hs]
  exact hreturned.symm

section Callers

variable [DecidableEq ι] {i : ι}

/-- A call of `Receive` only counts at first. -/
theorem call_kept {c : Call ρ} (h : call i c s = some s') (hs : s.Kept) : s'.Kept := by
  cases call_step h with
  | receiveMany => exact Kept.unanswered (s := s.began i .receive) hs _ nofun
  | _ => exact hs

/-- A message leaves the queue as the answer of the call that dequeued it. -/
theorem resume_kept (h : resume i s = some s') (hs : s.Kept) : s'.Kept := by
  cases resume_step h with
  | receiveError counted e => exact hs.unanswered counted nofun
  | dequeuedNone counted => exact hs.unanswered counted nofun
  | dequeued counted response rest hcaller hqueue => exact hs.answered counted hqueue
  | _ => exact hs

/-- No step loses a message, doubles one or changes the order. -/
theorem step_kept {e : Event ι ρ} (h : step codec e s = some s') (hs : s.Kept) : s'.Kept := by
  cases e with
  | call i c => exact call_kept h hs
  | resume i => exact resume_kept h hs
  | sending =>
    obtain ⟨_, _, _, _, rfl⟩ := sending_frame h
    exact hs
  | connected result =>
    obtain ⟨_, _, rfl⟩ := connected_frame h
    exact hs
  | wrote result =>
    obtain ⟨_, _, _, rfl⟩ := wrote_frame h
    exact hs
  | receiving => exact receiving_kept h hs
  | readByte result =>
    obtain ⟨_, rfl⟩ := readByte_frame h
    exact hs

end Callers

/-! ## Calls of `Receive` one after another -/

/-- A call of `Receive` begins after every other one has come back. -/
def Apart (s : Adapter ι ρ μ φ) (e : Event ι ρ) : Prop :=
  ∀ i, e = .call i .receive → ∀ j, (s.callers j).counted = none

/-- What the only call of `Receive` has counted stays in front of the queue until it takes from
it, and while there is no error every call is answered. -/
structure Serving (s : Adapter ι ρ μ φ) : Prop where
  one : ∀ i j, (s.callers i).counted ≠ none → (s.callers j).counted ≠ none → i = j
  counted : ∀ i counted, (s.callers i).counted = some counted →
    counted <+: s.receivingQueue ∧ counted.length ≤ 100
  answered : s.error = none → ∀ call ∈ s.log.receives, Answered call

/-- A step that is not one of a call of `Receive`. -/
theorem Serving.of_side (hs : s.Serving) (hcallers : ∀ j, (s'.callers j).counted = none ∨
      (s'.callers j).counted = (s.callers j).counted)
    (hqueue : s.receivingQueue <+: s'.receivingQueue) (herror : s'.error = none → s.error = none)
    (hreceives : s'.log.receives = s.log.receives) : s'.Serving where
  one := by
    intro i j hi hj
    rcases hcallers i with hnone | hsame
    · exact absurd hnone hi
    · rcases hcallers j with hnone' | hsame'
      · exact absurd hnone' hj
      · exact hs.one i j (hsame ▸ hi) (hsame' ▸ hj)
  counted := by
    intro i counted hcounted
    rcases hcallers i with hnone | hsame
    · rw [hnone] at hcounted
      cases hcounted
    · obtain ⟨hfront, hle⟩ := hs.counted i counted (hsame.symm.trans hcounted)
      exact ⟨hfront.trans hqueue, hle⟩
  answered := by
    rw [hreceives]
    exact fun he => hs.answered (herror he)

/-- The only call of `Receive` comes back. -/
theorem Serving.returned (hs : s.Serving) {call : List μ × Except Refusal (Option μ)}
    (hcallers : ∀ j, (s'.callers j).counted = none) (herror : s'.error = s.error)
    (hreceives : s'.log.receives = s.log.receives ++ [call])
    (h : s.error = none → Answered call) : s'.Serving where
  one := fun i _ hi _ => absurd (hcallers i) hi
  counted := by
    intro i counted hcounted
    rw [hcallers i] at hcounted
    cases hcounted
  answered := by
    intro he other hother
    rw [herror] at he
    rw [hreceives] at hother
    rcases List.mem_append.mp hother with hold | hnew
    · exact hs.answered he other hold
    · rw [List.mem_singleton.mp hnew]
      exact h he

section Callers

variable [DecidableEq ι] {i : ι}

/-- A caller moves on to something else than a call of `Receive`. -/
theorem counted_callerAt {c : Caller ρ μ} (hc : c.counted = none) (j : ι) :
    ((s.callerAt i c).callers j).counted = none ∨
      ((s.callerAt i c).callers j).counted = (s.callers j).counted := by
  by_cases hij : j = i
  · left
    rw [hij, callers_callerAt_self, hc]
  · right
    rw [callers_callerAt_of_ne hij]

/-- A call of `Receive` goes on while the others are elsewhere. -/
theorem Serving.callerAt (hs : s.Serving) {c : Caller ρ μ} {counted : List μ}
    (hothers : ∀ j, j ≠ i → (s.callers j).counted = none) (hc : c.counted = some counted)
    (hfront : counted <+: s.receivingQueue) (hle : counted.length ≤ 100) :
    (s.callerAt i c).Serving where
  one := by
    have hi : ∀ j, ((s.callerAt i c).callers j).counted ≠ none → j = i := by
      intro j hj
      by_contra hij
      rw [callers_callerAt_of_ne hij] at hj
      exact hj (hothers j hij)
    exact fun j k hj hk => (hi j hj).trans (hi k hk).symm
  counted := by
    intro j counted' hcounted
    by_cases hij : j = i
    · rw [hij, callers_callerAt_self, hc] at hcounted
      cases hcounted
      exact ⟨hfront, hle⟩
    · rw [callers_callerAt_of_ne hij] at hcounted
      exact hs.counted j counted' hcounted
  answered := hs.answered

omit [DecidableEq ι] in
/-- The others are not in a call of `Receive` while one is. -/
theorem Serving.others (hs : s.Serving) {counted : List μ}
    (hi : (s.callers i).counted = some counted) (j : ι) (hj : j ≠ i) :
    (s.callers j).counted = none := by
  by_contra hcounted
  exact hj (hs.one j i hcounted (by rw [hi]; nofun))

/-- The only call of `Receive` has come back. -/
theorem counted_idle (hothers : ∀ j, j ≠ i → (s.callers j).counted = none)
    (j : ι) : ((s.callerAt i .idle).callers j).counted = none := by
  by_cases hij : j = i
  · rw [hij, callers_callerAt_self]
    rfl
  · rw [callers_callerAt_of_ne hij]
    exact hothers j hij

/-- A call counts the queue when no other call is under way. -/
theorem call_serving {c : Call ρ} (hi : c = .receive → ∀ j, (s.callers j).counted = none)
    (h : call i c s = some s') (hs : s.Serving) : s'.Serving := by
  cases call_step h with
  | send request =>
    exact hs.of_side (counted_callerAt (s := s.began i (.send request)) rfl)
      (List.prefix_refl _) id rfl
  | receiveMany hidle hmany =>
    refine hs.returned (hi rfl) rfl rfl fun _ => ⟨fun _ => rfl, ?_⟩
    intro _ hle
    exact absurd hmany (Nat.not_lt.mpr hle)
  | receive hidle hfew =>
    refine Serving.callerAt (s := s.began i .receive) ?_ (fun j _ => hi rfl j) rfl
      (List.prefix_refl _) hfew
    exact hs.of_side (fun _ => Or.inr rfl) (List.prefix_refl _) id rfl
  | start =>
    exact hs.of_side (counted_callerAt (s := { s.began i .start with running := true }) rfl)
      (List.prefix_refl _) id rfl
  | _ => exact hs.of_side (fun _ => Or.inr rfl) (List.prefix_refl _) id rfl

/-- Between the count and the dequeue no other call takes the message. -/
theorem resume_serving (h : resume i s = some s') (hs : s.Serving) : s'.Serving := by
  cases resume_step h with
  | receiveNoError counted hcaller =>
    have hcounted : (s.callers i).counted = some counted := by rw [hcaller]; rfl
    obtain ⟨hfront, hle⟩ := hs.counted i counted hcounted
    exact hs.callerAt (hs.others hcounted) rfl hfront hle
  | receiveError counted e hcaller he =>
    have hcounted : (s.callers i).counted = some counted := by rw [hcaller]; rfl
    refine hs.returned (counted_idle (hs.others hcounted)) rfl rfl fun hnone => ?_
    cases he.symm.trans hnone
  | dequeuedNone counted hcaller hqueue =>
    have hcounted : (s.callers i).counted = some counted := by rw [hcaller]; rfl
    obtain ⟨hfront, -⟩ := hs.counted i counted hcounted
    rw [hqueue, List.prefix_nil] at hfront
    subst hfront
    exact hs.returned (counted_idle (hs.others hcounted)) rfl rfl fun _ =>
      ⟨fun hmany => absurd hmany (Nat.not_lt_zero _), fun hne => absurd rfl hne⟩
  | dequeued counted response rest hcaller hqueue =>
    have hcounted : (s.callers i).counted = some counted := by rw [hcaller]; rfl
    obtain ⟨hfront, hle⟩ := hs.counted i counted hcounted
    rw [hqueue] at hfront
    refine hs.returned (counted_idle (hs.others hcounted)) rfl rfl fun _ =>
      ⟨fun hmany => absurd hmany (Nat.not_lt.mpr hle), fun hne _ => ?_⟩
    cases counted with
    | nil => exact absurd rfl hne
    | cons oldest more =>
      obtain ⟨rfl, -⟩ := List.cons_prefix_cons.mp hfront
      rfl
  | _ => exact hs.of_side (counted_callerAt rfl) (List.prefix_refl _) id rfl

/-- Where the calls are made one after another, each finds what it has counted. -/
theorem step_serving {e : Event ι ρ} (he : Apart s e) (h : step codec e s = some s')
    (hs : s.Serving) : s'.Serving := by
  cases e with
  | call i c =>
    refine call_serving ?_ h hs
    rintro rfl
    exact he i rfl
  | resume i => exact resume_serving h hs
  | sending =>
    have herror := sending_error h
    obtain ⟨_, _, _, _, rfl⟩ := sending_frame h
    exact hs.of_side (fun _ => Or.inr rfl) (List.prefix_refl _) herror rfl
  | connected result =>
    obtain ⟨_, _, rfl⟩ := connected_frame h
    exact hs.of_side (fun _ => Or.inr rfl) (List.prefix_refl _) id rfl
  | wrote result =>
    obtain ⟨_, _, _, rfl⟩ := wrote_frame h
    exact hs.of_side (fun _ => Or.inr rfl) (List.prefix_refl _) id rfl
  | receiving =>
    have herror := receiving_error h
    obtain ⟨more, hqueue, -⟩ := receiving_prefix h
    obtain ⟨_, _, _, _, rfl⟩ := receiving_frame h
    exact hs.of_side (fun _ => Or.inr rfl) ⟨more, hqueue.symm⟩ herror rfl
  | readByte result =>
    obtain ⟨_, rfl⟩ := readByte_frame h
    exact hs.of_side (fun _ => Or.inr rfl) (List.prefix_refl _) id rfl

end Callers

/-! ## Calls of `Receive` at the same time -/

/-- A call has counted messages that arrived. If these were up to 100 it did not throw, and if it
found the queue empty afterwards they have all been returned. -/
structure CameBack (log : Log ι ρ μ) (call : List μ × Except Refusal (Option μ)) : Prop where
  arrived : call.1 <:+: log.arrived
  ok : call.1.length ≤ 100 → ∃ response, call.2 = .ok response
  taken : call.2 = .ok none → call.1 ⊆ log.returned

/-- What the calls have counted arrived. -/
structure Counting (s : Adapter ι ρ μ φ) : Prop where
  counted : ∀ i counted, (s.callers i).counted = some counted →
    counted <:+: s.log.arrived ∧ counted.length ≤ 100
  cameBack : s.error = none → ∀ call ∈ s.log.receives, CameBack s.log call

/-- More messages arrive, and more are returned. -/
theorem CameBack.mono {log log' : Log ι ρ μ} {call : List μ × Except Refusal (Option μ)}
    (h : CameBack log call) (harrived : log.arrived <+: log'.arrived)
    (hreturned : log.returned ⊆ log'.returned) : CameBack log' call where
  arrived := h.arrived.trans harrived.isInfix
  ok := h.ok
  taken := fun hnone => List.Subset.trans (h.taken hnone) hreturned

/-- A step after which no other call has come back. -/
theorem Counting.of_side (hs : s.Counting) (hcallers : ∀ j, (s'.callers j).counted = none ∨
      (s'.callers j).counted = (s.callers j).counted)
    (harrived : s.log.arrived <+: s'.log.arrived) (herror : s'.error = none → s.error = none)
    (hreceives : s'.log.receives = s.log.receives) : s'.Counting where
  counted := by
    intro i counted hcounted
    rcases hcallers i with hnone | hsame
    · rw [hnone] at hcounted
      cases hcounted
    · obtain ⟨hpart, hle⟩ := hs.counted i counted (hsame.symm.trans hcounted)
      exact ⟨hpart.trans harrived.isInfix, hle⟩
  cameBack := by
    have hreturned : s.log.returned ⊆ s'.log.returned := by
      rw [Log.returned, Log.returned, hreceives]
      exact List.Subset.refl _
    rw [hreceives]
    intro he call hcall
    exact (hs.cameBack (herror he) call hcall).mono harrived hreturned

/-- A call comes back. -/
theorem Counting.returned (hs : s.Counting) {call : List μ × Except Refusal (Option μ)}
    (hcallers : ∀ j, (s'.callers j).counted = none ∨
      (s'.callers j).counted = (s.callers j).counted)
    (harrived : s'.log.arrived = s.log.arrived) (herror : s'.error = s.error)
    (hreceives : s'.log.receives = s.log.receives ++ [call])
    (h : s.error = none → CameBack s'.log call) : s'.Counting where
  counted := by
    intro i counted hcounted
    rcases hcallers i with hnone | hsame
    · rw [hnone] at hcounted
      cases hcounted
    · rw [harrived]
      exact hs.counted i counted (hsame.symm.trans hcounted)
  cameBack := by
    have hreturned : s.log.returned ⊆ s'.log.returned := by
      rw [Log.returned, Log.returned, hreceives, List.filterMap_append]
      exact List.subset_append_left _ _
    intro he other hother
    rw [herror] at he
    rw [hreceives] at hother
    rcases List.mem_append.mp hother with hold | hnew
    · exact (hs.cameBack he other hold).mono (harrived ▸ List.prefix_refl _) hreturned
    · rw [List.mem_singleton.mp hnew]
      exact h he

/-- The messages in the queue arrived. -/
theorem Kept.queue (hs : s.Kept) : s.receivingQueue <:+: s.log.arrived := by
  rw [Kept] at hs
  rw [hs]
  exact List.infix_append_right

section Callers

variable [DecidableEq ι] {i : ι}

/-- A call counts the messages in the queue. -/
theorem call_counting {c : Call ρ} (h : call i c s = some s') (hkept : s.Kept)
    (hs : s.Counting) : s'.Counting := by
  cases call_step h with
  | send request =>
    exact hs.of_side (counted_callerAt (s := s.began i (.send request)) rfl)
      (List.prefix_refl _) id rfl
  | receiveMany hidle hmany =>
    refine hs.returned (fun _ => Or.inr rfl) rfl rfl rfl fun _ => ⟨hkept.queue, ?_, nofun⟩
    exact fun hle => absurd hmany (Nat.not_lt.mpr hle)
  | receive hidle hfew =>
    have hsame : ∀ call, CameBack s.log call → CameBack (s.began i .receive).log call :=
      fun _ hcall => hcall.mono (List.prefix_refl _) (List.Subset.refl _)
    refine ⟨fun j counted hcounted => ?_, fun he call hcall => hsame _ (hs.cameBack he call hcall)⟩
    by_cases hij : j = i
    · rw [hij, callers_callerAt_self] at hcounted
      cases hcounted
      exact ⟨hkept.queue, hfew⟩
    · rw [callers_callerAt_of_ne hij] at hcounted
      exact hs.counted j counted hcounted
  | start =>
    exact hs.of_side (counted_callerAt (s := { s.began i .start with running := true }) rfl)
      (List.prefix_refl _) id rfl
  | _ => exact hs.of_side (fun _ => Or.inr rfl) (List.prefix_refl _) id rfl

/-- A call that passes the test of the error comes back with what is then the oldest message, or
finds that others have taken all that it counted. -/
theorem resume_counting (h : resume i s = some s') (hkept : s.Kept) (hs : s.Counting) :
    s'.Counting := by
  have hkept' : s'.Kept := resume_kept h hkept
  cases resume_step h with
  | receiveNoError counted hcaller =>
    refine ⟨fun j counted' hcounted => ?_, hs.cameBack⟩
    by_cases hij : j = i
    · rw [hij, callers_callerAt_self] at hcounted
      cases hcounted
      exact hs.counted i _ (by rw [hcaller]; rfl)
    · rw [callers_callerAt_of_ne hij] at hcounted
      exact hs.counted j counted' hcounted
  | receiveError counted e hcaller he =>
    refine hs.returned (counted_callerAt (s := s.returned counted _) rfl) rfl rfl rfl ?_
    intro hnone
    cases he.symm.trans hnone
  | dequeuedNone counted hcaller hqueue =>
    obtain ⟨hpart, -⟩ := hs.counted i counted (by rw [hcaller]; rfl)
    refine hs.returned (counted_callerAt (s := s.returned counted _) rfl) rfl rfl rfl fun _ =>
      ⟨hpart, fun _ => ⟨none, rfl⟩, fun _ => ?_⟩
    have hall : s.log.arrived = (s.returned counted (.ok none)).log.returned ++ s.receivingQueue :=
      hkept'
    rw [hqueue, List.append_nil] at hall
    rw [hall] at hpart
    exact hpart.subset
  | dequeued counted response rest hcaller hqueue =>
    obtain ⟨hpart, -⟩ := hs.counted i counted (by rw [hcaller]; rfl)
    exact hs.returned
      (counted_callerAt (s := { s with receivingQueue := rest }.returned counted _) rfl) rfl rfl rfl
      fun _ => ⟨hpart, fun _ => ⟨some response, rfl⟩, nofun⟩
  | _ => exact hs.of_side (counted_callerAt rfl) (List.prefix_refl _) id rfl

/-- What a call has counted has arrived, and either is in the queue or has been taken. -/
theorem step_counting {e : Event ι ρ} (h : step codec e s = some s') (hkept : s.Kept)
    (hs : s.Counting) : s'.Counting := by
  cases e with
  | call i c => exact call_counting h hkept hs
  | resume i => exact resume_counting h hkept hs
  | sending =>
    have herror := sending_error h
    obtain ⟨_, _, _, _, rfl⟩ := sending_frame h
    exact hs.of_side (fun _ => Or.inr rfl) (List.prefix_refl _) herror rfl
  | connected result =>
    obtain ⟨_, _, rfl⟩ := connected_frame h
    exact hs.of_side (fun _ => Or.inr rfl) (List.prefix_refl _) id rfl
  | wrote result =>
    obtain ⟨_, _, _, rfl⟩ := wrote_frame h
    exact hs.of_side (fun _ => Or.inr rfl) (List.prefix_refl _) id rfl
  | receiving =>
    have herror := receiving_error h
    obtain ⟨more, -, harrived⟩ := receiving_prefix h
    obtain ⟨_, _, _, _, rfl⟩ := receiving_frame h
    exact hs.of_side (fun _ => Or.inr rfl) ⟨more, harrived.symm⟩ herror rfl
  | readByte result =>
    obtain ⟨_, rfl⟩ := readByte_frame h
    exact hs.of_side (fun _ => Or.inr rfl) (List.prefix_refl _) id rfl

end Callers

/-! ## One thread that receives -/

open Transition (exec exec_keeps exec_invariant Throughout)

variable [DecidableEq ι] {events : List (Event ι ρ)}

/-- The first step of a call other than `Receive` counts nothing. -/
theorem call_counted {i : ι} {c : Call ρ} (hc : c ≠ .receive) (h : call i c s = some s') (j : ι) :
    (s'.callers j).counted = none ∨ (s'.callers j).counted = (s.callers j).counted := by
  cases call_step h with
  | receiveMany | receive => exact absurd rfl hc
  | send | start => exact counted_callerAt rfl j
  | sendMany | stop => exact Or.inr rfl

/-- The next step of a call keeps what it has counted or forgets it. -/
theorem resume_counted {i : ι} (h : resume i s = some s') (j : ι) :
    (s'.callers j).counted = none ∨ (s'.callers j).counted = (s.callers j).counted := by
  cases resume_step h with
  | receiveNoError counted hcaller =>
    right
    by_cases hij : j = i
    · rw [hij, callers_callerAt_self, hcaller]
      rfl
    · rw [callers_callerAt_of_ne hij]
  | _ => exact counted_callerAt rfl j

/-- A step that is not the count check of `Receive` counts nothing. -/
theorem step_counted {e : Event ι ρ} (he : ∀ i, e ≠ .call i .receive)
    (h : step codec e s = some s') (j : ι) :
    (s'.callers j).counted = none ∨ (s'.callers j).counted = (s.callers j).counted := by
  cases e with
  | call i c =>
    refine call_counted ?_ h j
    rintro rfl
    exact he i rfl
  | resume i => exact resume_counted h j
  | sending =>
    obtain ⟨_, _, _, _, rfl⟩ := sending_frame h
    exact Or.inr rfl
  | connected result =>
    obtain ⟨_, _, rfl⟩ := connected_frame h
    exact Or.inr rfl
  | wrote result =>
    obtain ⟨_, _, _, rfl⟩ := wrote_frame h
    exact Or.inr rfl
  | receiving =>
    obtain ⟨_, _, _, _, rfl⟩ := receiving_frame h
    exact Or.inr rfl
  | readByte result =>
    obtain ⟨_, rfl⟩ := readByte_frame h
    exact Or.inr rfl

/-- The count check of `Receive` is a step of a thread that is in no call, and moves no other. -/
theorem call_receive {i : ι} (h : call i .receive s = some s') :
    s.callers i = .idle ∧ ∀ j, j ≠ i → s'.callers j = s.callers j := by
  cases call_step h with
  | receiveMany hidle => exact ⟨hidle, fun _ _ => rfl⟩
  | receive hidle => exact ⟨hidle, fun j hj => callers_callerAt_of_ne hj ..⟩

/-- The calls of one thread are made one after another. -/
theorem throughout_apart {i : ι} (hi : ∀ j, Event.call j .receive ∈ events → j = i)
    (networkStream : Bool) :
    Throughout (step codec) Apart events (new networkStream : Adapter ι ρ μ φ) := by
  have hone : ∀ e ∈ events, ∀ j, e = .call j .receive → j = i := by
    rintro e he j rfl
    exact hi j he
  refine Transition.throughout_of_invariant
    (I := fun s : Adapter ι ρ μ φ => ∀ j, j ≠ i → (s.callers j).counted = none)
    (fun e s s' he h hI => ?_) hone fun _ _ => rfl
  by_cases hreceive : ∃ j, e = .call j .receive
  · obtain ⟨j, rfl⟩ := hreceive
    obtain rfl := he j rfl
    obtain ⟨hidle, hsame⟩ := call_receive h
    constructor
    · intro _ _ k
      by_cases hk : k = j
      · rw [hk, hidle]
        rfl
      · exact hI k hk
    · intro k hk
      rw [hsame k hk]
      exact hI k hk
  · constructor
    · intro j hj
      exact absurd ⟨j, hj⟩ hreceive
    · intro j hj
      rcases step_counted (fun j hj => hreceive ⟨j, hj⟩) h j with hnone | hsame
      · exact hnone
      · rw [hsame]
        exact hI j hj

/-! ## Runs -/

omit [DecidableEq ι] in
/-- Nothing has arrived at a new adapter. -/
theorem kept_new (networkStream : Bool) : (new networkStream : Adapter ι ρ μ φ).Kept := rfl

omit [DecidableEq ι] in
/-- No call has been made of a new adapter. -/
theorem serving_new (networkStream : Bool) : (new networkStream : Adapter ι ρ μ φ).Serving :=
  ⟨fun _ _ hi => absurd rfl hi, nofun, fun _ => nofun⟩

omit [DecidableEq ι] in
/-- No call has counted anything in a new adapter. -/
theorem counting_new (networkStream : Bool) : (new networkStream : Adapter ι ρ μ φ).Counting :=
  ⟨nofun, fun _ _ hcall => absurd hcall List.not_mem_nil⟩

/-- While there is no error every call of `Receive`, made after the one before it has come back,
returns the oldest of up to 100 messages; with more it throws. -/
theorem exec_answered (networkStream : Bool) {s : Adapter ι ρ μ φ}
    (h : exec (step codec) events (new networkStream) = some s)
    (hapart : Throughout (step codec) Apart events (new networkStream)) (he : s.error = none) :
    ∀ call ∈ s.log.receives, Answered call :=
  (exec_invariant (fun _ _ _ he hstep => step_serving he hstep) hapart h
    (serving_new networkStream)).answered he

/-- While there is no error every call of `Receive`, whatever others there are at the same time,
has counted messages that arrived, and comes back unless they are more than 100. -/
theorem exec_cameBack (networkStream : Bool) {s : Adapter ι ρ μ φ}
    (h : exec (step codec) events (new networkStream) = some s) (he : s.error = none) :
    ∀ call ∈ s.log.receives, CameBack s.log call :=
  (exec_keeps (I := fun s : Adapter ι ρ μ φ => s.Kept ∧ s.Counting)
    (fun _ _ _ hstep hs => ⟨step_kept hstep hs.1, step_counting hstep hs.1 hs.2⟩) h
    ⟨kept_new networkStream, counting_new networkStream⟩).2.cameBack he

end Adapter

end BananaApi.Client
