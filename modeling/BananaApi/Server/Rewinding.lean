import BananaApi.Server.PairedReaders
import BananaApi.Server.StreamOperations
import BananaApi.Server.TypedStream

/-!
# Taking a read back

Reading moves the position of a stream and leaves the bytes it has passed in the vector, until it
reaches the end and clears the vector. An exception leaves the position in front of the read that
threw. So `Rewind` takes back any number of calls of `>>`, the last of which may have thrown in the
middle of an object, exactly as long as some byte is left.
-/

namespace BananaApi.Server

namespace CDataStream

/-- What reading makes of a stream: it is further on in its vector, or its vector is cleared. -/
inductive Moved (s : CDataStream) (state : BitVec 16) : CDataStream → Prop
  | ahead (p : BitVec 32) : s.nReadPos.toNat ≤ p.toNat →
      p = s.nReadPos ∨ p.toNat < s.vch.length →
        Moved s state { s with nReadPos := p, state := state }
  | cleared : Moved s state { s with vch := [], nReadPos := 0, state := state }

/-- Nothing has been read. -/
theorem moved_self (s : CDataStream) : s.Moved s.state s := .ahead s.nReadPos le_rfl (Or.inl rfl)

variable {s t : CDataStream} {state : BitVec 16}

theorem Moved.exceptmask (h : s.Moved state t) : t.exceptmask = s.exceptmask := by
  cases h <;> rfl

theorem Moved.length_le (h : s.Moved state t) : t.vch.length ≤ s.vch.length := by
  cases h with
  | ahead p => exact le_rfl
  | cleared => exact Nat.zero_le _

/-- Reading leaves the position in the buffer. -/
theorem Moved.wellFormed (hw : s.WellFormed) (h : s.Moved state t) : t.WellFormed := by
  cases h with
  | ahead p hle hp =>
    rcases hp with rfl | hlt
    · exact hw
    · exact hlt.le
  | cleared => exact Nat.zero_le _

/-- The buffer may be cleared at its end. -/
theorem Moved.clear (h : s.Moved state t) : s.Moved state t.clear := by
  cases h <;> exact .cleared

/-- A failed read changes the state only. -/
theorem Moved.fail (h : s.Moved state t) (state' : BitVec 16) :
    s.Moved state' { t with state := state' } := by
  cases h with
  | ahead p hle hp => exact .ahead p hle hp
  | cleared => exact .cleared

/-- The position may go on in front of the end. -/
theorem Moved.advance (h : s.Moved state t) {p : BitVec 32} (hle : t.nReadPos.toNat ≤ p.toNat)
    (hlt : p.toNat < t.vch.length) : s.Moved state { t with nReadPos := p } := by
  cases h with
  | ahead q hq => exact .ahead p (hq.trans hle) (Or.inr hlt)
  | cleared => cases hlt

/-- In the default mode setting `failbit` throws. -/
theorem setstate_failbit (h : s.Throws) (psz : String) :
    s.setstate failbit psz = .threw psz { s with state := s.state ||| failbit } := by
  rw [setstate]
  exact if_pos (ByteQueue.or_and_ne_zero h)

/-- A stream that is further on is read: further still, to its end, or past it. -/
theorem Moved.read (hw : s.WellFormed) (hs : s.vch.length < 2 ^ 31) (hthrows : s.Throws)
    (h : s.Moved s.state t) {n : Int} (hn : n < 2 ^ 31) :
    (t.read n).Ends (s.Moved (s.state ||| failbit)) fun p => s.Moved s.state p.2 := by
  by_cases hneg : n < 0
  · rw [read_of_neg hneg]
    exact Outcome.ends_aborted
  obtain ⟨k, rfl⟩ := Int.eq_ofNat_of_zero_le (not_lt.mp hneg)
  have ht := h.wellFormed hw
  have hlen := h.length_le
  rw [WellFormed] at ht
  have hwrap : t.nReadPos.toNat + k < 2 ^ 32 := by omega
  rcases Nat.lt_trichotomy (t.nReadPos.toNat + k) t.vch.length with hlt | heq | hgt
  · have hpos := (t.toNat_nReadPosNext k).trans (Nat.mod_eq_of_lt hwrap)
    rw [read_before_end hwrap hlt]
    exact Outcome.ends_returned (h.advance (by omega) (by omega))
  · rw [read_to_end hwrap heq]
    exact Outcome.ends_returned h.clear
  · have hstate : t.state = s.state := by cases h <;> rfl
    rw [read_past_end hwrap hgt, setstate_failbit (by rwa [Throws, h.exceptmask]), hstate]
    exact Outcome.ends_threw (h.fail _)

/-- Readers that move a stream on, and leave it with `failbit` where they throw. -/
def moving (hw : s.WellFormed) (hs : s.vch.length < 2 ^ 31) (hthrows : s.Throws) :
    PairedReading CDataStream CDataStream where
  Paired left _ f _ := ∀ t, s.Moved s.state t →
    (f t).Ends (fun e => s.Moved (s.state ||| failbit) (left e)) (s.Moved s.state ∘ Prod.snd)
  returned _ _ ht := Outcome.ends_returned ht
  unfinished _ _ := Outcome.ends_unfinished
  overran _ _ := Outcome.ends_overran
  mapThrow hu _ h t ht := (h t ht).mapThrow fun e he => by rwa [hu e]
  bind h h' t ht := (h t ht).bind fun p hp => h' p.1 p.2 hp
  read n _ ht := ht.read hw hs hthrows (intOf_lt n)

/-- However many objects are read, the stream is moved on. -/
theorem takeAll_moves (hw : s.WellFormed) (hs : s.vch.length < 2 ^ 31) (hthrows : s.Throws)
    (fuel : Nat) (targets : List Object) :
    (takeAll (Object.shiftRight fuel) targets s).Ends
      (fun e => s.Moved (s.state ||| failbit) e.2) fun p => s.Moved s.state p.2 := by
  refine takeAll_ends (fun target t ht => ?_) s.moved_self targets
  have hread := PairedReading.unserialize (P := moving hw hs hthrows) fuel target.type target.value
  have hstream : ((target.type.unserialize fuel t target.value).mapThrow Prod.snd).Ends
      (s.Moved (s.state ||| failbit)) fun p => s.Moved s.state p.2 :=
    (hread t ht).mapThrow fun _ he => he
  exact hstream.bind fun p hp => Outcome.ends_returned hp

/-! ## Rewinding -/

theorem Moved.state_eq (h : s.Moved state t) : t.state = state := by
  cases h <;> rfl

/-- As long as a byte is left, everything that was read can be taken back. -/
theorem Moved.rewind (hs : s.vch.length < 2 ^ 31) (h : s.Moved state t) (hleft : t.unread ≠ []) :
    t.rewind (s.size - t.size) = (true, { s with state := state }) := by
  cases h with
  | ahead p hle hp =>
    have hlt : p.toNat < s.vch.length := by
      rw [ne_eq, unread, List.drop_eq_nil_iff] at hleft
      exact not_le.mp hleft
    have hback : (s.vch.length - s.nReadPos.toNat) - (s.vch.length - p.toNat) =
        p.toNat - s.nReadPos.toNat := by omega
    have hsub : p - BitVec.ofNat 32 (p.toNat - s.nReadPos.toNat) = s.nReadPos := by
      apply BitVec.eq_of_toNat_eq
      have hlt' : p.toNat - s.nReadPos.toNat < 2 ^ 32 := by omega
      rw [BitVec.toNat_sub_of_le, BitVec.toNat_ofNat, Nat.mod_eq_of_lt hlt']
      · omega
      · rw [BitVec.le_def, BitVec.toNat_ofNat, Nat.mod_eq_of_lt hlt']
        omega
    rw [size, size, hback, CDataStream.rewind, if_neg (by dsimp only; omega), hsub]
  | cleared => exact absurd rfl hleft

/-- When no byte is left, none can be taken back. -/
theorem Moved.rewind_cleared (h : s.Moved state t) (hunread : s.unread ≠ []) (hleft : t.unread = [])
    {n : Nat} (hn : 0 < n) : t.rewind n = (false, t) := by
  cases h with
  | ahead p hle hp =>
    rw [unread, List.drop_eq_nil_iff] at hleft
    rcases hp with rfl | hlt
    · rw [ne_eq, unread, List.drop_eq_nil_iff] at hunread
      exact absurd hleft hunread
    · exact absurd hlt (not_lt.mpr hleft)
  | cleared => exact if_pos hn

/-- What `Rewind` can do about a stream that has been read from. -/
structure Rewinds (s : CDataStream) (state : BitVec 16) (t : CDataStream) : Prop where
  state_eq : t.state = state
  back : t.unread ≠ [] → t.rewind (s.size - t.size) = (true, { s with state := state })
  gone : t.unread = [] → s.unread ≠ [] → ∀ n, 0 < n → t.rewind n = (false, t)

/-- What was read can be put back, unless the vector was cleared. -/
theorem Moved.rewinds (hs : s.vch.length < 2 ^ 31) (h : s.Moved state t) : s.Rewinds state t :=
  ⟨h.state_eq, h.rewind hs, fun hleft hunread _ => h.rewind_cleared hunread hleft⟩

/-- Whatever objects are read from a stream in a row, and whether all of them are there or one of
the calls throws: as long as a byte is left, `Rewind` by the bytes that were taken restores the
stream, apart from `failbit` where a call has thrown; when the last byte has been taken, nothing
can be put back. -/
theorem takeAll_rewinds (hw : s.WellFormed) (hs : s.vch.length < 2 ^ 31) (hthrows : s.Throws)
    (fuel : Nat) (targets : List Object) :
    (∀ ms t, takeAll (Object.shiftRight fuel) targets s = .returned (ms, t) →
      s.Rewinds s.state t) ∧
    ∀ what ms t, takeAll (Object.shiftRight fuel) targets s = .threw what (ms, t) →
      s.Rewinds (s.state ||| failbit) t := by
  obtain ⟨hreturned, hthrew⟩ := takeAll_moves hw hs hthrows fuel targets
  exact ⟨fun ms t h => (hreturned (ms, t) h).rewinds hs,
    fun what ms t h => (hthrew what (ms, t) h).rewinds hs⟩

/-- A short and the first byte of another one: the exception is taken back. -/
theorem takeAll_rewinds_torn :
    ∃ what ms t, takeAll (Object.shiftRight 1) [⟨true, _, .integer .unsignedShort, 0⟩,
        ⟨true, _, .integer .unsignedShort, 0⟩] (init [1, 2, 3]) = .threw what (ms, t) ∧
      t.rewind 2 = (true, { init [1, 2, 3] with state := failbit }) := by
  obtain ⟨what, ms, t, hthrew, hleft, hsize⟩ : ∃ what ms t,
      takeAll (Object.shiftRight 1) [⟨true, _, .integer .unsignedShort, 0⟩,
        ⟨true, _, .integer .unsignedShort, 0⟩] (init [1, 2, 3]) = .threw what (ms, t) ∧
      t.unread = [3] ∧ t.size = 1 := ⟨_, _, _, rfl, rfl, rfl⟩
  have hrewinds := (takeAll_rewinds (s := init [1, 2, 3]) (wellFormed_init _) (by decide)
    (throws_init _) 1 _).2 what ms t hthrew
  have hback := hrewinds.back (by rw [hleft]; exact List.cons_ne_nil 3 [])
  rw [hsize] at hback
  exact ⟨what, ms, t, hthrew, hback⟩

end CDataStream

end BananaApi.Server
