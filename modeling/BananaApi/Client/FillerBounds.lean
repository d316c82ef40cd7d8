import BananaApi.Client.Filling
import Mathlib.Tactic.IntervalCases

/-!
# How much a filler holds

`Fill` compares the announced size with the largest one allowed, and the buffer with the
announced size for equality. Up to its first message a filler holds no more than it has
announced. Nothing empties it when the message is returned, and it keeps every byte
that is passed to it afterwards.
-/

namespace BananaApi.Client.IMessageBytesFiller

open NetworkMessage (maxMessageSize)

/-- A fixed part that fits, and variable parts whose sizes are not negative. -/
structure Sized (c : IMessageBytesFiller) : Prop where
  fixed_pos : 1 ≤ c.getFixedPartMessageSize
  fixed_le : c.getFixedPartMessageSize ≤ maxMessageSize
  variable_int : ∀ fixedPart more, c.getVariablePartMessageSize fixedPart = .ok more →
    0 ≤ more ∧ more < 2 ^ 31

/-- No more bytes than announced, and no larger message than allowed. -/
def Fields.Bounded (f : Fields) : Prop :=
  (f.buffer.length : Int) ≤ f.messageSize ∧ f.messageSize ≤ maxMessageSize

/-- The filler holds all the bytes of its message. -/
def Fields.Complete (f : Fields) : Prop := f.messageSize ≠ 0 ∧ f.messageSize = f.buffer.length

/-- Before a byte: no message is complete yet, and if the byte ends a part of one, the size
it leads to is an `int`. -/
structure Expects (c : IMessageBytesFiller) (f : Fields) (b : Byte) : Prop where
  incomplete : ¬ f.Complete
  int : (f.buffer.length : Int) + 1 = c.testedSize f → ∀ more,
    c.getVariablePartMessageSize (f.buffer ++ [b]) = .ok more → c.testedSize f + more < 2 ^ 31

/-- What is buffered is no longer than a message may be. -/
theorem Fields.Bounded.length_le {f : Fields} (h : f.Bounded) :
    f.buffer.length ≤ maxMessageSize := by
  have hle := h.1.trans h.2
  omega

/-- A call that does not throw has found a size that is allowed. -/
theorem finish_ok {f f' : Fields} {a : Option (List Byte)} (h : finish f = .ok a f') :
    f' = f ∧ f.messageSize ≤ maxMessageSize := by
  rw [finish_eq] at h
  split at h
  · cases h
  · next hsize =>
    cases h
    exact ⟨rfl, not_lt.mp hsize⟩

/-- The sum of a size and one more that is not negative is exact or negative. -/
theorem addInt_nonneg_iff {a b : Int} (ha : 0 ≤ a) (ha' : a ≤ maxMessageSize) (hb : 0 ≤ b)
    (hb' : b < 2 ^ 31) : a ≤ addInt a b ↔ a + b < 2 ^ 31 := by
  have hM : maxMessageSize = 65535 := rfl
  obtain ⟨m, rfl⟩ := Int.eq_ofNat_of_zero_le ha
  obtain ⟨n, rfl⟩ := Int.eq_ofNat_of_zero_le hb
  by_cases h : m + n < 2 ^ 31
  · rw [addInt_of_lt h]
    omega
  · have hneg := addInt_neg (a := m) (b := n) (by omega) (by omega) (by omega)
    omega

variable {c : IMessageBytesFiller} {bytes : Nat → Byte} {n : Nat}

/-- What a call that returns has done. -/
theorem call_cases {a : Option (List Byte)} {f : Fields} (h : c.call bytes n = .ok a f) :
    (c.after bytes (n + 1) = ⟨c.testedSize (c.after bytes n), fed bytes (n + 1)⟩ ∧
        (n : Int) + 1 ≠ c.testedSize (c.after bytes n) ∨
      (n : Int) + 1 = c.testedSize (c.after bytes n) ∧ ∃ more,
        c.getVariablePartMessageSize (fed bytes (n + 1)) = .ok more ∧
        c.after bytes (n + 1) =
          ⟨addInt (c.testedSize (c.after bytes n)) more, fed bytes (n + 1)⟩) ∧
    (c.after bytes (n + 1)).messageSize ≤ maxMessageSize := by
  have hbuffer := c.buffer_after bytes n
  have hlen : (c.after bytes n).buffer.length = n := by rw [hbuffer, length_fed]
  have hafter : c.after bytes (n + 1) = f := by
    rw [call] at h
    rw [after, h]
  rw [call] at h
  by_cases hfull : ((c.after bytes n).buffer.length : Int) + 1 = c.testedSize (c.after bytes n)
  · cases hmore : c.getVariablePartMessageSize ((c.after bytes n).buffer ++ [bytes n]) with
    | error e =>
      rw [fill_of_throw c _ hfull hmore] at h
      cases h
    | ok more =>
      rw [fill_of_eq c _ hfull hmore] at h
      obtain ⟨rfl, hsize⟩ := finish_ok h
      rw [hbuffer, ← fed_succ] at hmore hafter
      rw [hafter]
      rw [hlen] at hfull
      exact ⟨Or.inr ⟨hfull, more, hmore, rfl⟩, hsize⟩
  · rw [fill_of_ne c _ hfull] at h
    obtain ⟨rfl, hsize⟩ := finish_ok h
    rw [hbuffer, ← fed_succ] at hafter
    rw [hafter]
    rw [hlen] at hfull
    exact ⟨Or.inl ⟨rfl, hfull⟩, hsize⟩

/-- One call keeps the bounds exactly when the filler expects its byte. -/
theorem bounded_succ_iff (hc : c.Sized) {a : Option (List Byte)} {f : Fields}
    (h : c.call bytes n = .ok a f) (hn : n = 0 ∨ (c.after bytes n).Bounded) :
    (c.after bytes (n + 1)).Bounded ↔ c.Expects (c.after bytes n) (bytes n) := by
  obtain ⟨hfixed, hfixedMax, hvariable⟩ := hc
  have hbuffer := c.buffer_after bytes n
  have hlen : (c.after bytes n).buffer.length = n := by rw [hbuffer, length_fed]
  -- The buffer has reached the size it is compared with only where a message is complete.
  have htested : (n : Int) ≤ c.testedSize (c.after bytes n) ∧
      c.testedSize (c.after bytes n) ≤ maxMessageSize ∧
      ((n : Int) = c.testedSize (c.after bytes n) ↔ (c.after bytes n).Complete) := by
    unfold testedSize Fields.Complete
    rcases hn with rfl | ⟨hle, hmax⟩
    · rw [after, if_pos (by rfl)]
      simp only [Fields.new, ne_eq, not_true_eq_false, false_and, iff_false]
      omega
    · rw [hlen] at hle ⊢
      split <;> omega
  obtain ⟨hle, hmax, hcomplete⟩ := htested
  obtain ⟨⟨hafter, hne⟩ | ⟨heq, more, hmore, hafter⟩, hsize⟩ := call_cases h
  · have hexpects : c.Expects (c.after bytes n) (bytes n) ↔ ¬ (c.after bytes n).Complete := by
      refine ⟨Expects.incomplete, fun hincomplete => ⟨hincomplete, fun hfull => ?_⟩⟩
      rw [hlen] at hfull
      exact absurd hfull hne
    rw [hexpects, ← hcomplete, hafter]
    simp only [Fields.Bounded, length_fed]
    omega
  · have hexpects : c.Expects (c.after bytes n) (bytes n) ↔
        c.testedSize (c.after bytes n) + more < 2 ^ 31 := by
      constructor
      · intro hexpects
        exact hexpects.int (by rw [hlen, heq]) more (by rw [hbuffer, ← fed_succ, hmore])
      · intro hint
        refine ⟨fun hfull => ?_, fun _ more' hmore' => ?_⟩
        · have hn := hcomplete.mpr hfull
          omega
        · rw [hbuffer, ← fed_succ, hmore] at hmore'
          cases hmore'
          exact hint
    obtain ⟨hpos, hlt⟩ := hvariable _ _ hmore
    rw [hexpects, ← addInt_nonneg_iff (by omega) hmax hpos hlt]
    rw [hafter] at hsize ⊢
    simp only [Fields.Bounded, length_fed] at hsize ⊢
    omega

/-- A filler that holds a whole message swallows whatever follows. -/
theorem call_after_complete (h : (c.after bytes n).Complete)
    (hmax : (c.after bytes n).messageSize ≤ maxMessageSize) (k : Nat) :
    c.call bytes (n + k) =
      .ok none ⟨(c.after bytes n).messageSize, fed bytes (n + k + 1)⟩ := by
  have hlen : (c.after bytes n).messageSize = n := by rw [h.2, buffer_after, length_fed]
  have hawaits : c.Awaits bytes (n + k) (c.after bytes n).messageSize := by
    induction k with
    | zero => exact ⟨c.buffer_after bytes n, if_neg h.1⟩
    | succ k ih => exact awaits_of_call h.1 (ih.call_none (by omega) hmax)
  exact hawaits.call_none (by omega) hmax

/-- While no call throws, a filler stays within its bounds exactly when no call is made on
one that holds a whole message, and no size leaves the range of an `int`. -/
theorem bounded_iff (hc : c.Sized) {calls : Nat}
    (h : ∀ k < calls, ∃ a f, c.call bytes k = .ok a f) :
    (∀ k < calls, (c.after bytes (k + 1)).Bounded) ↔
      ∀ k < calls, c.Expects (c.after bytes k) (bytes k) := by
  induction calls with
  | zero => simp only [Nat.not_lt_zero, false_implies, implies_true]
  | succ calls ih =>
    obtain ⟨a, f, hcall⟩ := h calls (Nat.lt_succ_self calls)
    have ih := ih fun k hk => h k (Nat.lt_succ_of_lt hk)
    rw [Nat.forall_lt_succ_right, Nat.forall_lt_succ_right, ← ih]
    refine and_congr_right fun hbounded => bounded_succ_iff hc hcall ?_
    cases calls with
    | zero => exact Or.inl rfl
    | succ calls => exact Or.inr (hbounded calls (Nat.lt_succ_self calls))

/-- The classes of the client have such sizes. -/
theorem sized_derived (isLittleEndian : Bool) (c : FillerClass) :
    (c.derived isLittleEndian).Sized where
  fixed_pos := Int.ofNat_le.mpr (by cases c <;> decide : 1 ≤ c.getFixedPartMessageSize)
  fixed_le := Int.ofNat_le.mpr (by cases c <;> decide)
  variable_int := by
    intro fixedPart more h
    cases hsize : c.getVariablePartMessageSize isLittleEndian fixedPart with
    | error e =>
      simp only [FillerClass.derived, hsize, Except.map] at h
      cases h
    | ok size =>
      simp only [FillerClass.derived, hsize, Except.map] at h
      cases h
      have hlt := c.getVariablePartMessageSize_lt isLittleEndian hsize
      exact ⟨Int.natCast_nonneg size, by rw [Int.ofNat_eq_natCast]; omega⟩

/-- The bytes of a response without rooms, and more. -/
def emptyResponse (n : Nat) : Byte := [7, 0, 0, 0, 0].getD n 7

/-- Every call of a filler with the message without rooms returns. -/
theorem call_emptyResponse (k : Nat) :
    ∃ a f, (FillerClass.sampleRoomsResponse.derived true).call emptyResponse k = .ok a f := by
  rcases Nat.lt_or_ge k 5 with h | h
  · interval_cases k <;> exact ⟨_, _, rfl⟩
  · obtain ⟨more, rfl⟩ := Nat.exists_eq_add_of_le h
    exact ⟨_, _, call_after_complete ⟨by decide, by decide⟩ (by decide) more⟩

/-- A response without rooms. -/
theorem bounded_iff_emptyResponse :
    (∀ k < 5, ((FillerClass.sampleRoomsResponse.derived true).after emptyResponse
      (k + 1)).Bounded) ↔
      ∀ k < 5, (FillerClass.sampleRoomsResponse.derived true).Expects
        ((FillerClass.sampleRoomsResponse.derived true).after emptyResponse k)
        (emptyResponse k) :=
  bounded_iff (sized_derived true .sampleRoomsResponse) fun k _ => call_emptyResponse k

/-- What follows a response without rooms fills more than the largest message. -/
theorem not_bounded_emptyResponse :
    ¬ ∀ (c : IMessageBytesFiller) (bytes : Nat → Byte) (calls : Nat), c.Sized →
      (∀ k < calls, ∃ a f, c.call bytes k = .ok a f) →
      ∀ k < calls, (c.after bytes (k + 1)).Bounded := by
  intro h
  have hlast := h (FillerClass.sampleRoomsResponse.derived true) emptyResponse
    (maxMessageSize + 1) (sized_derived true .sampleRoomsResponse)
    (fun k _ => call_emptyResponse k) maxMessageSize (Nat.lt_succ_self _)
  have hle := hlast.length_le
  rw [buffer_after, length_fed] at hle
  exact Nat.not_succ_le_self _ hle

end BananaApi.Client.IMessageBytesFiller
