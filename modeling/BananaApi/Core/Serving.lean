import BananaApi.Core.Outcome
import Mathlib.Data.List.Basic

/-!
# Queues of messages behind a store

A store that accepts messages and is asked for them one at a time, in any order of the
two. It behaves like a queue when there is a relation between the store and the messages
still pending that every single operation keeps; a budget bounds what may be put in. The
messages it serves are then those of the queue, in their order.
-/

namespace BananaApi

universe u v w

section Queues

variable {M : Type v} {T : Type w}

/-- Put a message into the store, or ask for the next one. -/
inductive QueueOp (M : Type v) (T : Type w) where
  | put (m : M)
  | take (t : T)

/-- The messages a run of operations puts in. -/
def messagesPut : List (QueueOp M T) → List M
  | [] => []
  | .put m :: ops => m :: messagesPut ops
  | .take _ :: ops => messagesPut ops

/-- The sizes of some messages together. -/
def totalSize (size : M → Nat) : List M → Nat
  | [] => 0
  | m :: ms => size m + totalSize size ms

/-- On a queue with some messages pending, the operations serve these messages in turn and leave
those pending; every request is one that the message at the front `answers`. -/
inductive Serves (answers : T → M → Prop) :
    List M → List (QueueOp M T) → List M → List M → Prop
  | nil (pending : List M) : Serves answers pending [] [] pending
  | put {pending served left : List M} {m : M} {ops : List (QueueOp M T)} :
      Serves answers (pending ++ [m]) ops served left →
        Serves answers pending (.put m :: ops) served left
  | take {pending served left : List M} {m : M} {t : T} {ops : List (QueueOp M T)} :
      answers t m → Serves answers pending ops served left →
        Serves answers (m :: pending) (.take t :: ops) (m :: served) left

/-- What was pending and what was put in is served in this order, as far as it is served. -/
theorem Serves.append_eq {answers : T → M → Prop} {pending served left : List M}
    {ops : List (QueueOp M T)} (h : Serves answers pending ops served left) :
    served ++ left = pending ++ messagesPut ops := by
  induction h with
  | nil pending => exact (List.append_nil pending).symm
  | put h ih => rw [ih, messagesPut, List.append_assoc, List.singleton_append]
  | take ht h ih => rw [List.cons_append, ih, messagesPut, List.cons_append]

variable {σ : Type u} (put : M → σ → Outcome σ σ) (take : T → σ → Outcome σ (M × σ))

/-- Run operations on a store, with the messages it serves. -/
def serve : List (QueueOp M T) → σ → Outcome σ (List M × σ)
  | [], s => .returned ([], s)
  | .put m :: ops, s => (put m s).bind (serve ops)
  | .take t :: ops, s =>
    (take t s).bind fun p => (serve ops p.2).bind fun r => .returned (p.1 :: r.1, r.2)

/-- A relation between a store, the messages it holds and the room it has left, which both
operations keep. -/
structure HoldsMessages (answers : T → M → Prop) (size : M → Nat) (Good : M → Prop)
    (Holds : σ → List M → Nat → Prop) : Prop where
  put : ∀ s pending room m, Holds s pending room → Good m → size m ≤ room →
    ∃ s', put m s = .returned s' ∧ Holds s' (pending ++ [m]) (room - size m)
  take : ∀ s pending room m t, Holds s (m :: pending) room → answers t m →
    ∃ s', take t s = .returned (m, s') ∧ Holds s' pending room

variable {put take} {answers : T → M → Prop} {size : M → Nat} {Good : M → Prop}
  {Holds : σ → List M → Nat → Prop}

/-- Whatever the order of the operations, the store serves what the queue does. -/
theorem HoldsMessages.serve (h : HoldsMessages put take answers size Good Holds)
    {pending served left : List M} {ops : List (QueueOp M T)}
    (hops : Serves answers pending ops served left) (hgood : ∀ m ∈ messagesPut ops, Good m)
    {room : Nat} (hroom : totalSize size (messagesPut ops) ≤ room) {s : σ}
    (hs : Holds s pending room) :
    ∃ s', BananaApi.serve put take ops s = .returned (served, s') ∧
      Holds s' left (room - totalSize size (messagesPut ops)) := by
  induction hops generalizing s room with
  | nil pending => exact ⟨s, rfl, hs⟩
  | @put pending served left m ops hops ih =>
    rw [messagesPut, totalSize] at hroom
    obtain ⟨hm, hrest⟩ := List.forall_mem_cons.mp hgood
    obtain ⟨s₁, hput, hs₁⟩ := h.put s pending room m hs hm (by omega)
    obtain ⟨s', hserve, hs'⟩ := ih hrest (by omega) hs₁
    refine ⟨s', by rw [BananaApi.serve, hput]; exact hserve, ?_⟩
    rwa [messagesPut, totalSize, ← Nat.sub_sub]
  | @take pending served left m t ops ht hops ih =>
    obtain ⟨s₁, htake, hs₁⟩ := h.take s pending room m t hs ht
    obtain ⟨s', hserve, hs'⟩ := ih hgood hroom hs₁
    refine ⟨s', ?_, hs'⟩
    rw [BananaApi.serve, htake]
    change (BananaApi.serve put take ops s₁).bind _ = _
    rw [hserve]
    rfl

end Queues

end BananaApi
