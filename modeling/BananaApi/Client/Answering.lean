import BananaApi.Client.FirstResponse

/-!
# What `Receive` answers

One message arrives at most, so the queue never reaches the length from which on `Receive`
refuses to serve it: while there is no error no call throws. A call that finds the message
returns it, unless another call takes it between the two, which no call does where they are
made one after another.
-/

namespace BananaApi.Client.Adapter

variable {ι : Type} {isLittleEndian : Bool} {fillers : List MessageBytesFiller}
  {s : Adapter ι NetworkMessage NetworkMessage (List MessageBytesFiller × Option Nat)}

/-- Where one message has arrived at most, a call that has counted some has counted this one, and
returns it or finds it taken. -/
theorem CameBack.answer {log : Log ι NetworkMessage NetworkMessage}
    {call : List NetworkMessage × Except Refusal (Option NetworkMessage)} (h : CameBack log call)
    (hone : log.arrived.length ≤ 1) (hreturned : log.returned <+: log.arrived)
    (hmem : call ∈ log.receives) (hne : call.1 ≠ []) :
    call.2 = .ok call.1.head? ∨ call.2 = .ok none ∧ call.1 ⊆ log.returned := by
  have hpos : 0 < call.1.length := List.length_pos_iff.mpr hne
  have hall : call.1 = log.arrived := h.arrived.eq_of_length_le (hone.trans hpos)
  obtain ⟨response, hresponse⟩ := h.ok (by rw [hall]; omega)
  cases response with
  | none => exact Or.inr ⟨hresponse, h.taken hresponse⟩
  | some response =>
    left
    have htaken : response ∈ log.returned := by
      rw [Log.returned]
      exact List.mem_filterMap.mpr ⟨call, hmem, by rw [hresponse]⟩
    have harrived : response ∈ call.1 := by
      rw [hall]
      exact hreturned.subset htaken
    obtain ⟨message, hmessage⟩ : ∃ message, call.1 = [message] :=
      List.length_eq_one_iff.mp (by rw [hall] at hpos ⊢; omega)
    rw [hmessage] at harrived ⊢
    rw [hresponse, List.mem_singleton.mp harrived, List.head?_cons]

open Transition (exec exec_keeps Throughout)

variable [DecidableEq ι] {events : List (Event ι NetworkMessage)}

/-- However the threads interleave: no message is lost, doubled or overtaken on its way to the
application, and no call is blocked. With the fillers of the program and while there is no error,
every call of `Receive` that counted messages returns the oldest, or null where another call has
taken what it counted; calls that are made one after another all return the oldest. -/
theorem exec_receivingQueue (networkStream : Bool)
    (h : exec (step (Codec.client isLittleEndian fillers)) events (new networkStream) = some s) :
    s.log.arrived = s.log.returned ++ s.receivingQueue ∧
    (Receiver.ProgramFillers fillers → s.error = none → ∀ call ∈ s.log.receives, call.1 ≠ [] →
      (call.2 = .ok call.1.head? ∨ call.2 = .ok none ∧ call.1 ⊆ s.log.returned) ∧
      (Throughout (step (Codec.client isLittleEndian fillers)) Apart events (new networkStream) →
        call.2 = .ok call.1.head?)) ∧
    ∀ i, s.callers i ≠ .idle → ∃ s', step (Codec.client isLittleEndian fillers) (.resume i) s =
      some s' ∧ (s'.callers i).stepsLeft < (s.callers i).stepsLeft := by
  have hkept : s.Kept := exec_keeps (fun _ _ _ => step_kept) h (kept_new networkStream)
  refine ⟨hkept, ?_, fun _ => resume_defined⟩
  intro hfillers he call hcall hne
  have hone : s.log.arrived.length ≤ 1 := by
    have hheard := length_heard_le isLittleEndian fillers (delivered events)
    rw [← exec_arrived hfillers networkStream h, List.length_append] at hheard
    omega
  have hcameBack := exec_cameBack networkStream h he call hcall
  refine ⟨hcameBack.answer hone ⟨_, hkept.symm⟩ hcall hne, fun hapart => ?_⟩
  have hfew : call.1.length ≤ 100 :=
    hcameBack.arrived.length_le.trans (hone.trans (by decide))
  exact (exec_answered networkStream h hapart he call hcall).2 hne hfew

/-- A response that is received, and returned by one call. -/
def receivingOne : List (Event Unit NetworkMessage) :=
  (.call () .start :: .resume () :: .resume () :: .receiving :: .receiving :: .receiving ::
    hearingResponse 3).append [.receiving, .call () .receive, .resume (), .resume ()]

theorem exec_receivingQueue_one :
    ∃ s, exec (step (Codec.client true Receiver.defaultFillers)) receivingOne (new true) = some s ∧
      s.error = none ∧ ∀ call ∈ s.log.receives, call.1 ≠ [] → call.2 = .ok call.1.head? := by
  have hruns : ((exec (step (Codec.client true Receiver.defaultFillers)) receivingOne
    (new true)).any fun s => s.error.isNone) = true := by decide +kernel
  obtain ⟨s, hs, herror⟩ := (Option.any_eq_true _ _).mp hruns
  have he : s.error = none := Option.isNone_iff_eq_none.mp herror
  obtain ⟨-, hanswered, -⟩ := exec_receivingQueue true hs
  have hapart : Throughout (step (Codec.client true Receiver.defaultFillers)) Apart receivingOne
      (new true) := throughout_apart (i := ()) (fun _ _ => rfl) true
  exact ⟨s, hs, he, fun call hcall hne => (hanswered (Or.inl rfl) he call hcall hne).2 hapart⟩

/-- Two threads have counted the same response, and both go on to take it. -/
def receivingBoth : List (Event Bool NetworkMessage) :=
  (.call true .start :: .resume true :: .resume true :: .receiving :: .receiving :: .receiving ::
    hearingResponse 4).append [.receiving, .call true .receive, .call false .receive,
      .resume true, .resume false, .resume true, .resume false]

/-- The second one returns null, although the queue was not empty when it was called. -/
theorem exec_receivingQueue_both :
    ¬ ∀ (events : List (Event Bool NetworkMessage)) (s : Adapter Bool NetworkMessage NetworkMessage
        (List MessageBytesFiller × Option Nat)),
      exec (step (Codec.client true Receiver.defaultFillers)) events (new true) = some s →
        s.error = none → ∀ call ∈ s.log.receives, call.1 ≠ [] → call.2 = .ok call.1.head? := by
  intro h
  have hruns : ((exec (step (Codec.client true Receiver.defaultFillers)) receivingBoth
    (new true)).any fun s => s.error.isNone && s.log.receives.any fun call =>
      !call.1.isEmpty && call.2.toOption.any Option.isNone) = true := by decide +kernel
  obtain ⟨s, hs, hfound⟩ := (Option.any_eq_true _ _).mp hruns
  rw [Bool.and_eq_true, List.any_eq_true] at hfound
  obtain ⟨herror, call, hcall, hnull⟩ := hfound
  rw [Bool.and_eq_true, Bool.not_eq_true', List.isEmpty_eq_false_iff] at hnull
  have hanswer := h _ s hs (Option.isNone_iff_eq_none.mp herror) call hcall hnull.1
  have hnone := hnull.2
  rw [hanswer] at hnone
  change (call.1.head?).isNone = true at hnone
  exact hnull.1 (List.head?_eq_none_iff.mp (Option.isNone_iff_eq_none.mp hnone))

end BananaApi.Client.Adapter
