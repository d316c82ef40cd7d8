import BananaApi.Core.Outcome
import BananaApi.Core.Bytes
import Mathlib.Data.List.Forall2

/-!
# Logs of records

Records are appended to a store until one of them does not fit; the part of it that did
fit stays behind. A reader that consumes whole records and fails on a torn one recovers
from the stored bytes the records that were completely written, and no others.
-/

namespace BananaApi

universe u v w

section Logs

variable {M : Type v} {T : Type w} {β : Type}

/-- The records that fit completely into `room`, up to the first one that does not. -/
def fitting (code : M → List β) (room : Nat) : List M → List M
  | [] => []
  | m :: ms =>
    if (code m).length ≤ room then m :: fitting code (room - (code m).length) ms else []

/-- Records that are known to fit come first among those that do. -/
theorem fitting_append (code : M → List β) {old : List M} {room : Nat}
    (h : (old.flatMap code).length ≤ room) (ms : List M) :
    fitting code room (old ++ ms) =
      old ++ fitting code (room - (old.flatMap code).length) ms := by
  induction old generalizing room with
  | nil => rfl
  | cons m old ih =>
    rw [List.flatMap_cons, List.length_append] at h
    rw [List.cons_append, fitting, if_pos (by omega), ih (by omega), List.flatMap_cons,
      List.length_append, Nat.sub_sub, List.cons_append]

/-- All records fit when there is room for all of their bytes, and only then. -/
theorem fitting_eq_self_iff (code : M → List β) {room : Nat} {ms : List M} :
    fitting code room ms = ms ↔ (ms.flatMap code).length ≤ room := by
  induction ms generalizing room with
  | nil => exact iff_of_true rfl (Nat.zero_le _)
  | cons m ms ih =>
    rw [fitting, List.flatMap_cons, List.length_append]
    split
    · rw [List.cons_inj_right, ih]
      omega
    · exact iff_of_false (List.cons_ne_nil m ms).symm (by omega)

/-- Records with the same bytes as others fit when the others do. -/
theorem fitting_map (code : M → List β) {f : M → M} (hf : ∀ m, code (f m) = code m) (room : Nat)
    (ms : List M) : fitting code room (ms.map f) = (fitting code room ms).map f := by
  induction ms generalizing room with
  | nil => rfl
  | cons m ms ih =>
    rw [List.map_cons, fitting, fitting, hf]
    split
    · rw [ih, List.map_cons]
    · rfl

variable {σ : Type u}

/-- Write records one after another; an exception ends the run. -/
def putAll (put : M → σ → Outcome σ σ) : List M → σ → Outcome σ σ
  | [], s => .returned s
  | m :: ms, s => (put m s).bind (putAll put ms)

/-- Read one record for each target; an exception leaves those read so far behind. -/
def takeAll (take : T → σ → Outcome σ (M × σ)) : List T → σ → Outcome (List M × σ) (List M × σ)
  | [], s => .returned ([], s)
  | t :: ts, s =>
    ((take t s).mapThrow (Prod.mk [])).bind fun p =>
      ((takeAll take ts p.2).mapThrow fun r => (p.1 :: r.1, r.2)).bind fun r =>
        .returned (p.1 :: r.1, r.2)

/-- The calls a run of writes comes to: all of them, or those up to the one that does not return. -/
def begun (put : M → σ → Outcome σ σ) : List M → σ → List M
  | [], _ => []
  | m :: ms, s =>
    match put m s with
    | .returned s' => m :: begun put ms s'
    | _ => [m]

/-- A run that returns has come to all of its calls. -/
theorem begun_of_putAll {put : M → σ → Outcome σ σ} {ms : List M} {s s' : σ}
    (h : putAll put ms s = .returned s') : begun put ms s = ms := by
  induction ms generalizing s with
  | nil => rfl
  | cons m ms ih =>
    obtain ⟨t, hfirst, hrest⟩ := Outcome.bind_eq_returned.mp h
    rw [begun, hfirst]
    exact congrArg (List.cons m) (ih hrest)

/-- What each call keeps of the calls so far and the store holds at the end of the run. -/
theorem putAll_ends {put : M → σ → Outcome σ σ} {I : List M → σ → Prop}
    (hstep : ∀ done m s, I done s → (put m s).Ends (I (done ++ [m])) (I (done ++ [m])))
    {done : List M} {s : σ} (hs : I done s) (ms : List M) :
    (putAll put ms s).Ends (I (done ++ begun put ms s)) (I (done ++ begun put ms s)) := by
  induction ms generalizing done s with
  | nil =>
    rw [begun, List.append_nil]
    exact Outcome.ends_returned hs
  | cons m ms ih =>
    have hfirst := hstep done m s hs
    rw [putAll, begun]
    cases hput : put m s with
    | returned s' =>
      have hrest := ih (hfirst.1 s' hput)
      rw [List.append_assoc, List.singleton_append] at hrest
      exact hrest
    | threw what e => exact Outcome.ends_threw (hfirst.2 what e hput)
    | aborted => exact Outcome.ends_aborted
    | overran => exact Outcome.ends_overran
    | unfinished => exact Outcome.ends_unfinished

/-- What each call keeps of the store while it comes back, and makes of it where it throws, holds
at the end of a run of reads. -/
theorem takeAll_ends {take : T → σ → Outcome σ (M × σ)} {I E : σ → Prop}
    (hstep : ∀ t s, I s → (take t s).Ends E fun p => I p.2) {s : σ} (hs : I s) (ts : List T) :
    (takeAll take ts s).Ends (fun e => E e.2) fun p => I p.2 := by
  induction ts generalizing s with
  | nil => exact Outcome.ends_returned hs
  | cons t ts ih =>
    have hfirst : ((take t s).mapThrow (Prod.mk ([] : List M))).Ends (fun e => E e.2)
        fun p => I p.2 := (hstep t s hs).mapThrow fun _ he => he
    apply hfirst.bind
    intro p hp
    have hrest : ((takeAll take ts p.2).mapThrow fun r => (p.1 :: r.1, r.2)).Ends
        (fun e => E e.2) fun r => I r.2 := (ih hp).mapThrow fun _ he => he
    apply hrest.bind
    intro r hr
    exact Outcome.ends_returned hr

/-- A record is appended completely, or as far as there is room for it. -/
structure AppendsRecords (put : M → σ → Outcome σ σ) (code : M → List β) (Good : M → Prop)
    (Stores : σ → List β → Nat → Prop) : Prop where
  whole : ∀ s bytes room m, Stores s bytes room → Good m → (code m).length ≤ room →
    ∃ s', put m s = .returned s' ∧ Stores s' (bytes ++ code m) (room - (code m).length)
  torn : ∀ s bytes room m, Stores s bytes room → Good m → room < (code m).length →
    ∃ what s', put m s = .threw what s' ∧ Stores s' (bytes ++ (code m).take room) 0

/-- A record is consumed completely, and one that is cut short is noticed. -/
structure RecoversRecords (take : T → σ → Outcome σ (M × σ)) (answers : T → M → Prop)
    (code : M → List β) (Good : M → Prop) (Holds : σ → List β → Prop)
    (D : String → σ → Prop) : Prop where
  whole : ∀ s t m rest, Holds s (code m ++ rest) → Good m → answers t m →
    ∃ s', take t s = .returned (m, s') ∧ Holds s' rest
  torn : ∀ s t m p, Holds s p → Good m → answers t m → p <+: code m → p ≠ code m →
    ∃ what s', take t s = .threw what s' ∧ D what s'

variable {put : M → σ → Outcome σ σ} {take : T → σ → Outcome σ (M × σ)}
  {answers : T → M → Prop} {code : M → List β} {Good : M → Prop}
  {Stores : σ → List β → Nat → Prop} {Holds : σ → List β → Prop} {D : String → σ → Prop}

/-- A run of writes stores what there is room for, and throws unless every record fits. -/
theorem AppendsRecords.putAll (h : AppendsRecords put code Good Stores) {ms : List M}
    (hgood : ∀ m ∈ ms, Good m) {s : σ} {bytes : List β} {room : Nat}
    (hs : Stores s bytes room) :
    ∃ s', Stores s' (bytes ++ (ms.flatMap code).take room) (room - (ms.flatMap code).length) ∧
      (fitting code room ms = ms → BananaApi.putAll put ms s = .returned s') ∧
      (fitting code room ms ≠ ms → ∃ what, BananaApi.putAll put ms s = .threw what s') := by
  induction ms generalizing s bytes room with
  | nil =>
    refine ⟨s, ?_, fun _ => rfl, fun hne => absurd rfl hne⟩
    rwa [List.flatMap_nil, List.take_nil, List.append_nil]
  | cons m ms ih =>
    obtain ⟨hm, hms⟩ := List.forall_mem_cons.mp hgood
    rw [List.flatMap_cons, List.length_append, List.take_append, ← Nat.sub_sub]
    by_cases hfits : (code m).length ≤ room
    · obtain ⟨s₁, hput, hs₁⟩ := h.whole s bytes room m hs hm hfits
      obtain ⟨s', hs', hall, hsome⟩ := ih hms hs₁
      rw [List.take_of_length_le hfits, ← List.append_assoc, fitting, if_pos hfits,
        BananaApi.putAll, hput, ne_eq, List.cons_inj_right]
      exact ⟨s', hs', hall, hsome⟩
    · obtain ⟨what, s', hput, hs'⟩ := h.torn s bytes room m hs hm (not_le.mp hfits)
      have hroom : room - (code m).length = 0 := Nat.sub_eq_zero_of_le (not_le.mp hfits).le
      rw [hroom, List.take_zero, List.append_nil, Nat.zero_sub, fitting, if_neg hfits,
        BananaApi.putAll, hput]
      exact ⟨s', hs', fun heq => absurd heq.symm (List.cons_ne_nil m ms), fun _ => ⟨what, rfl⟩⟩

/-- Whatever the room was, reading a log from its start gives back the records that were written
completely, and fails if there was one that was not. -/
theorem RecoversRecords.takeAll (h : RecoversRecords take answers code Good Holds D)
    {ts : List T} {ms : List M} (hts : List.Forall₂ answers ts ms) (hgood : ∀ m ∈ ms, Good m)
    {room : Nat} {s : σ} (hs : Holds s ((ms.flatMap code).take room)) :
    (fitting code room ms = ms →
      ∃ s', BananaApi.takeAll take ts s = .returned (ms, s') ∧ Holds s' []) ∧
    (fitting code room ms ≠ ms → ∃ what s',
      BananaApi.takeAll take ts s = .threw what (fitting code room ms, s') ∧ D what s') := by
  induction hts generalizing room s with
  | nil =>
    rw [List.flatMap_nil, List.take_nil] at hs
    exact ⟨fun _ => ⟨s, rfl, hs⟩, fun hne => absurd rfl hne⟩
  | @cons t m ts ms ht hts ih =>
    obtain ⟨hm, hms⟩ := List.forall_mem_cons.mp hgood
    rw [List.flatMap_cons, List.take_append] at hs
    by_cases hfits : (code m).length ≤ room
    · rw [List.take_of_length_le hfits] at hs
      obtain ⟨s₁, htake, hs₁⟩ := h.whole s t m _ hs hm ht
      obtain ⟨hall, hsome⟩ := ih hms hs₁
      rw [fitting, if_pos hfits, BananaApi.takeAll, htake, ne_eq, List.cons_inj_right]
      refine ⟨fun heq => ?_, fun hne => ?_⟩
      · obtain ⟨s', hrest, hs'⟩ := hall heq
        refine ⟨s', ?_, hs'⟩
        change ((BananaApi.takeAll take ts s₁).mapThrow _).bind _ = _
        rw [hrest]
        rfl
      · obtain ⟨what, s', hrest, hd⟩ := hsome hne
        refine ⟨what, s', ?_, hd⟩
        change ((BananaApi.takeAll take ts s₁).mapThrow _).bind _ = _
        rw [hrest]
        rfl
    · have hroom : room - (code m).length = 0 := Nat.sub_eq_zero_of_le (not_le.mp hfits).le
      rw [hroom, List.take_zero, List.append_nil] at hs
      have hcut : (code m).take room ≠ code m := by
        intro heq
        have hlen := congrArg List.length heq
        rw [List.length_take] at hlen
        omega
      obtain ⟨what, s', htake, hd⟩ := h.torn s t m _ hs hm ht (List.take_prefix _ _) hcut
      rw [fitting, if_neg hfits, BananaApi.takeAll, htake]
      exact ⟨fun heq => absurd heq.symm (List.cons_ne_nil m ms), fun _ => ⟨what, s', rfl, hd⟩⟩

end Logs

end BananaApi
