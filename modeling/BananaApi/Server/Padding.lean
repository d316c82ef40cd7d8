import BananaApi.Core.Repetition
import BananaApi.Server.Consumption
import BananaApi.Server.HostileInput
import BananaApi.Server.PairedReaders
import BananaApi.Server.StreamOperations

/-!
# Reading past the end without exceptions

Where `failbit` is not in the exception mask, a short read fills its buffer up with zeros and
empties the stream, and so do the reads behind it. A stream is then read as if enough zeros
followed its last byte, and `failbit` tells whether any of them were used.
-/

namespace BananaApi.Server

namespace ByteQueue

/-- A short read does not throw. -/
def Quiet (q : ByteQueue) : Prop := (q.state ||| failbit) &&& q.exceptmask = 0

/-- A queue when `n` bytes have been delivered from it, those that it did not hold as zeros. -/
structure Padded (q : ByteQueue) (n : Nat) (q' : ByteQueue) : Prop where
  unread : q'.unread = q.unread.drop n
  state : q'.state = if n ≤ q.unread.length then q.state else q.state ||| failbit
  exceptmask : q'.exceptmask = q.exceptmask

/-- Nothing has been delivered. -/
theorem padded_zero (q : ByteQueue) : q.Padded 0 q := ⟨rfl, rfl, rfl⟩

variable {q q' q'' : ByteQueue} {m n : Nat}

/-- A second failure changes nothing. -/
theorem or_failbit_or_failbit (state : BitVec 16) :
    state ||| failbit ||| failbit = state ||| failbit := by
  rw [BitVec.or_assoc, BitVec.or_self]

/-- A short read leaves a queue on which short reads do not throw. -/
theorem Padded.quiet (h : q.Padded n q') (hq : q.Quiet) : q'.Quiet := by
  rw [Quiet, h.state, h.exceptmask]
  split
  · exact hq
  · rw [or_failbit_or_failbit]
    exact hq

/-- What two calls deliver adds up. -/
theorem Padded.trans (h : q.Padded m q') (h' : q'.Padded n q'') : q.Padded (m + n) q'' where
  unread := by rw [h'.unread, h.unread, List.drop_drop]
  state := by
    rw [h'.state, h.state, h.unread, List.length_drop]
    by_cases hm : m ≤ q.unread.length
    · rw [if_pos hm]
      exact if_congr (by omega) rfl rfl
    · rw [if_neg hm, or_failbit_or_failbit, ite_self, if_neg (by omega)]
  exceptmask := h'.exceptmask.trans h.exceptmask

/-- A read delivers what there is, and zeros behind it. -/
theorem Quiet.read (hq : q.Quiet) (n : Nat) :
    ∃ q', ByteStream.read q (n : Int) = .returned (q.unread.takeD n 0, q') ∧ q.Padded n q' := by
  by_cases hn : n ≤ q.unread.length
  · refine ⟨{ q with unread := q.unread.drop n }, ?_, rfl, (if_pos hn).symm, rfl⟩
    rw [read_of_le hn, List.takeD_eq_take _ hn]
  · have hlt : q.unread.length < n := not_le.mp hn
    refine ⟨{ q with unread := [], state := q.state ||| failbit }, ?_, ?_, (if_neg hn).symm, rfl⟩
    · have hquiet : ¬ (q.state ||| failbit) &&& q.exceptmask ≠ 0 := not_not_intro hq
      rw [read_past hlt, if_neg hquiet, append_replicate_eq_takeD, Nat.add_sub_cancel' hlt.le]
    · exact (List.drop_eq_nil_of_le hlt.le).symm

end ByteQueue

open ByteQueue (Quiet Padded)

/-- Programs of which the first does not throw over a quiet queue, where it delivers some bytes;
the second takes these bytes off any other queue for the same value. -/
def padding : PairedReading ByteQueue ByteQueue where
  Paired _ _ f g := ∀ q, q.Quiet → ¬ (f q).Threw ∧ ∀ a q', f q = .returned (a, q') →
    ∃ n, q.Padded n q' ∧ Consumes g a (q.unread.takeD n 0) True
  returned a q _ := by
    refine ⟨Outcome.not_threw_returned _, fun b q' h => ?_⟩
    cases h
    exact ⟨0, q.padded_zero, .pure a⟩
  unfinished _ _ := ⟨Outcome.not_threw_unfinished, nofun⟩
  overran _ _ := ⟨Outcome.not_threw_overran, nofun⟩
  mapThrow {_ _ _ _ _ _ _ _ _ _ _ _ v} _ _ h q hq := by
    obtain ⟨hthrew, hreturned⟩ := h q hq
    refine ⟨fun h => hthrew (Outcome.mapThrow_threw_iff.mp h), fun a q' h => ?_⟩
    obtain ⟨n, hn, hg⟩ := hreturned a q' (Outcome.mapThrow_eq_returned.mp h)
    exact ⟨n, hn, hg.mapThrow fun _ => v⟩
  bind h h' q hq := by
    obtain ⟨hthrew, hreturned⟩ := h q hq
    refine ⟨?_, fun c q'' hc => ?_⟩
    · rw [Outcome.bind_threw, not_or]
      refine ⟨hthrew, ?_⟩
      rintro ⟨⟨a, q'⟩, hfirst, hsecond⟩
      obtain ⟨n, hn, -⟩ := hreturned a q' hfirst
      exact (h' a q' (hn.quiet hq)).1 hsecond
    · obtain ⟨⟨a, q'⟩, hfirst, hsecond⟩ := Outcome.bind_eq_returned.mp hc
      obtain ⟨m, hm, hg⟩ := hreturned a q' hfirst
      obtain ⟨n, hn, hg'⟩ := (h' a q' (hm.quiet hq)).2 c q'' hsecond
      refine ⟨m + n, hm.trans hn, ?_⟩
      rw [takeD_add, ← hm.unread]
      exact (hg.bind hg').congr (and_self_iff)
  read k q hq := by
    by_cases hneg : intOf k < 0
    · change ¬ (q.read (intOf k)).Threw ∧ ∀ a q', q.read (intOf k) = .returned (a, q') → _
      rw [ByteQueue.read, if_pos hneg]
      exact ⟨Outcome.not_threw_aborted, nofun⟩
    · obtain ⟨n, hn⟩ := Int.eq_ofNat_of_zero_le (not_lt.mp hneg)
      have hlt : n < 2 ^ 31 := by
        have := intOf_lt k
        omega
      obtain ⟨q', hread, hq'⟩ := hq.read n
      have hlen : (q.unread.takeD n 0).length = n := List.takeD_length n _ _
      have hconsumes := read_consumes (e := q.unread.takeD n 0) (by omega)
      rw [hlen, intOf_of_lt hlt] at hconsumes
      simp only [hn, hread]
      refine ⟨Outcome.not_threw_returned _, fun bs r h => ?_⟩
      cases h
      exact ⟨n, hq', hconsumes⟩

/-- A quiet queue is read without an exception, and what is read from it is read from every queue
that holds the bytes delivered, zeros included. -/
theorem Ty.unserialize_padding {κ : Kind} {α : Type} (fuel : Nat) (t : Ty κ α) (prev : α)
    {q : ByteQueue} (hq : q.Quiet) :
    ¬ (t.unserialize fuel q prev).Threw ∧
      ∀ v q', t.unserialize fuel q prev = .returned (v, q') → ∃ n, q.Padded n q' ∧
        Consumes (fun r => t.unserialize fuel r prev) v (q.unread.takeD n 0) True :=
  PairedReading.unserialize (P := padding) fuel t prev q hq

/-! ## Streams -/

namespace CDataStream

/-- A short read does not throw. -/
def Quiet (s : CDataStream) : Prop := (s.state ||| failbit) &&& s.exceptmask = 0

/-- With an empty mask nothing throws. -/
theorem quiet_of_exceptions {s t : CDataStream} {prev : BitVec 16}
    (h : s.exceptions 0 = .returned (prev, t)) : t.Quiet := by
  have hzero (state : BitVec 16) : ¬ state &&& 0 ≠ 0 := not_not_intro BitVec.and_zero
  rw [exceptions, setstate, if_neg (hzero _), Outcome.returned_bind] at h
  cases h
  exact BitVec.and_zero

variable {s : CDataStream}

/-- Without exceptions every type is read from a short stream as if zeros followed its bytes: no
call throws, and a value that is read is the one that a stream with exceptions gives for the same
bytes with enough zeros behind them, while it throws where there are fewer. `failbit` tells
whether any zero was needed. -/
theorem unserialize_padded {a : Bool} {α : Type} (t : Ty (.object a) α) (fuel : Nat)
    (hw : s.WellFormed) (hs : s.vch.length < 2 ^ 31) (hq : s.Quiet) (prev : α) :
    ¬ (t.unserialize fuel s prev).Threw ∧
    ∀ v s', t.unserialize fuel s prev = .returned (v, s') → ∃ n,
      s'.unread = s.unread.drop n ∧
      s'.state = (if n ≤ s.unread.length then s.state else s.state ||| failbit) ∧
      ∀ k, s.unread.length + k < 2 ^ 31 →
        (n ≤ s.unread.length + k → ∃ r',
          t.unserialize fuel (init (s.unread ++ List.replicate k 0)) prev = .returned (v, r') ∧
          r'.unread = (s.unread ++ List.replicate k 0).drop n) ∧
        (s.unread.length + k < n →
          (t.unserialize fuel (init (s.unread ++ List.replicate k 0)) prev).Threw) := by
  have hqueue := t.unserialize_queue fuel hw hs prev
  obtain ⟨hthrew, hreturned⟩ := t.unserialize_padding fuel prev (q := s.queue) hq
  refine ⟨fun h => hthrew (hqueue.threw_iff.mp h), fun v s' hv => ?_⟩
  obtain ⟨⟨v', q'⟩, hv', hvalue, hrefines⟩ := hqueue.returned_left hv
  obtain rfl : v = v' := hvalue
  obtain ⟨n, hn, hconsumes⟩ := hreturned v q' hv'
  have hdelivered : (s.unread.takeD n 0).length = n := List.takeD_length n _ _
  refine ⟨n, hrefines.unread.trans hn.unread, hrefines.state.trans hn.state, fun k hk => ?_⟩
  have hlen : (s.unread ++ List.replicate k 0).length = s.unread.length + k := by
    rw [List.length_append, List.length_replicate]
  have hoffers : (init (s.unread ++ List.replicate k 0)).Offers (s.unread ++ List.replicate k 0) :=
    offers_init (hlen ▸ hk)
  have hpadded := t.unserialize_queue fuel hoffers.wellFormed hoffers.short prev
  constructor
  · intro hle
    obtain ⟨rest, hrest⟩ := takeD_prefix_takeD hle s.unread 0
    rw [append_replicate_eq_takeD, ← hrest] at hoffers hpadded ⊢
    obtain ⟨r', hr', hunread⟩ := hoffers.consume hpadded hconsumes
    exact ⟨r', hr', by rw [hunread.unread, List.drop_left' hdelivered]⟩
  · intro hlt
    refine hoffers.consume_torn hpadded hconsumes ?_ fun heq => ?_
    · rw [append_replicate_eq_takeD]
      exact takeD_prefix_takeD hlt.le s.unread 0
    · have hlength := (congrArg List.length heq).trans hdelivered
      omega

/-- A string of three characters of which one is there, read without exceptions. -/
theorem unserialize_padded_string :
    ∃ s s' n, (init [3, 65]).exceptions 0 = .returned (badbit ||| failbit, s) ∧
      (Ty.string 1).unserialize 1 s [] = .returned ([65, 0, 0], s') ∧
      ∀ k, 2 + k < 2 ^ 31 → 2 + k < n →
        ((Ty.string 1).unserialize 1 (init ([3, 65] ++ List.replicate k 0)) []).Threw := by
  have hs : (init [3, 65]).exceptions 0 = .returned (badbit ||| failbit, ⟨[3, 65], 0, 0, 0⟩) := rfl
  have hread : (Ty.string 1).unserialize 1 ⟨[3, 65], 0, 0, 0⟩ [] =
      .returned ([65, 0, 0], (⟨[], 0, failbit, 0⟩ : CDataStream)) := by decide +kernel
  obtain ⟨n, -, -, hpadded⟩ := (unserialize_padded (s := ⟨[3, 65], 0, 0, 0⟩) (.string 1) 1
    (wellFormed_init [3, 65]) (by decide) (quiet_of_exceptions hs) []).2 _ _ hread
  exact ⟨_, _, n, hs, hread, fun k hk => (hpadded k hk).2⟩

end CDataStream

end BananaApi.Server
