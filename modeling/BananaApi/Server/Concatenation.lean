import BananaApi.Core.Repetition
import BananaApi.Server.ByteBuffer

/-!
# Inserting and concatenating

Two operations look past the unread bytes. The general path of `insert` appends
whatever the iterator is, and writing a stream into another one writes the bytes that
were read already too.
-/

namespace BananaApi.Server

namespace CDataStream

section Insertion

variable {s : CDataStream} {range : List Byte}

/-- In front of the unread bytes a range that finds room goes over the bytes before them. -/
theorem unread_insertRange_front (hw : s.WellFormed) (h : range.length ≤ s.nReadPos.toNat) :
    (s.insertRange 0 range).unread = range ++ s.unread := by
  have hlt := s.nReadPos.isLt
  have hlen : (BitVec.ofNat 32 range.length).toNat = range.length := by
    rw [BitVec.toNat_ofNat]
    exact Nat.mod_eq_of_lt (by omega)
  have hpos : (s.nReadPos - BitVec.ofNat 32 range.length).toNat =
      s.nReadPos.toNat - range.length := by
    rw [BitVec.toNat_sub_of_le (by rw [BitVec.le_def, hlen]; exact h), hlen]
  have hfront : (s.vch.take (s.nReadPos.toNat - range.length)).length =
      s.nReadPos.toNat - range.length := by
    rw [WellFormed] at hw
    rw [List.length_take]
    omega
  rw [insertRange, if_pos ⟨rfl, h⟩, unread]
  simp only [hpos, overwrite, List.append_assoc, Nat.sub_add_cancel h]
  rw [List.drop_left' hfront, unread]

/-- Otherwise the range is appended, wherever the iterator is. -/
theorem unread_insertRange_back (hw : s.WellFormed) {it : Nat}
    (h : ¬ (it = 0 ∧ range.length ≤ s.nReadPos.toNat)) :
    (s.insertRange it range).unread = s.unread ++ range := by
  rw [insertRange, if_neg h, unread, unread, List.drop_append_of_le_length hw]

/-- Both range forms insert at the iterator exactly when they insert into the space at the
front, or when the bytes behind the iterator and the range are repetitions of one string. -/
theorem insert_iff (hw : s.WellFormed) {it : Nat} (hit : it ≤ s.size) (range : List Byte) :
    ((s.insertIterators it range).unread = s.unread.take it ++ range ++ s.unread.drop it ∧
      (s.insertPointers it range).unread = s.unread.take it ++ range ++ s.unread.drop it) ↔
    (it = 0 ∧ range.length ≤ s.nReadPos.toNat) ∨
      ∃ w i j, s.unread.drop it = repetition w i ∧ range = repetition w j := by
  change (s.insertRange it range).unread = _ ∧ (s.insertRange it range).unread = _ ↔ _
  rw [and_self]
  by_cases hfront : it = 0 ∧ range.length ≤ s.nReadPos.toNat
  · refine iff_of_true ?_ (Or.inl hfront)
    obtain ⟨rfl, hle⟩ := hfront
    rw [unread_insertRange_front hw hle, List.take_zero, List.drop_zero, List.nil_append]
  · rw [unread_insertRange_back hw hfront, or_iff_right hfront, ← append_comm_iff]
    have hsplit : s.unread ++ range =
        s.unread.take it ++ (s.unread.drop it ++ range) := by
      rw [← List.append_assoc, List.take_append_drop]
    rw [hsplit, List.append_assoc, List.append_cancel_left_eq]

/-- A byte in front of two others, where one byte was read. -/
theorem insert_iff_front :
    (((⟨[1, 2, 3], 1, 0, 0⟩ : CDataStream).insertIterators 0 [9]).unread =
        [2, 3].take 0 ++ [9] ++ [2, 3].drop 0 ∧
      ((⟨[1, 2, 3], 1, 0, 0⟩ : CDataStream).insertPointers 0 [9]).unread =
        [2, 3].take 0 ++ [9] ++ [2, 3].drop 0) ↔
    (0 = 0 ∧ [(9 : Byte)].length ≤ (1 : BitVec 32).toNat) ∨
      ∃ w i j, [(2 : Byte), 3].drop 0 = repetition w i ∧ [9] = repetition w j :=
  insert_iff (s := ⟨[1, 2, 3], 1, 0, 0⟩) (by decide : 1 ≤ 3) (by decide) [9]

/-- A byte inserted between two others ends up behind them. -/
theorem insertIterators_between :
    (init [1, 2]).WellFormed ∧ 1 ≤ (init [1, 2]).size ∧
      ((init [1, 2]).insertIterators 1 [9]).unread = [1, 2, 9] ∧
      ((init [1, 2]).insertIterators 1 [9]).unread ≠
        (init [1, 2]).unread.take 1 ++ [9] ++ (init [1, 2]).unread.drop 1 :=
  ⟨wellFormed_init _, by decide, by decide, by decide⟩

end Insertion

end CDataStream

/-- The operations of a stream that is only written and read. -/
def Operation.WritesOrReads : Operation → Prop
  | .write _ _ => True
  | .read _ => True
  | _ => False

namespace CDataStream

/-- A stream reached from a constructor by writes and reads, some of which may have thrown. -/
def Reached (s : CDataStream) : Prop :=
  ∃ bytes ops replies, (∀ op ∈ ops, op.WritesOrReads) ∧
    (init bytes).run ops = some (replies, s)

/-- What a call leaves behind comes from a value or from an exception. -/
theorem call_eq_some {s t : CDataStream} {op : Operation} {reply : Reply}
    (h : s.call op = some (reply, t)) :
    s.perform op = .returned (reply, t) ∨ ∃ what, s.perform op = .threw what t := by
  unfold call at h
  split at h
  · next r hr =>
    cases h
    exact Or.inl hr
  · next what u hu =>
    cases h
    exact Or.inr ⟨what, hu⟩
  · cases h

/-- Whatever the size of the buffer, a read that comes back changes the failure state only,
clears the stream, or moves the position within the vector. -/
theorem read_leaves {s : CDataStream} {n : Int} {t : CDataStream}
    (h : (∃ bytes, s.read n = .returned (bytes, t)) ∨ ∃ what, s.read n = .threw what t) :
    (∃ state, t = { s with state := state }) ∨ (∃ state, t = { s with state := state }.clear) ∨
      ∃ p : BitVec 32, p.toNat < s.vch.length ∧ t = { s with nReadPos := p } := by
  have hcopy (u : CDataStream) (n : Int) {what : String} {v : CDataStream} :
      u.copyOut n ≠ .threw what v := by
    unfold copyOut
    split <;> exact nofun
  unfold read at h
  split at h
  · obtain ⟨_, h⟩ | ⟨_, h⟩ := h <;> cases h
  · dsimp only at h
    split at h
    · split at h
      · unfold setstate at h
        dsimp only at h
        split at h
        · obtain ⟨_, h⟩ | ⟨_, h⟩ := h
          · cases h
          · cases h
            exact Or.inl ⟨_, rfl⟩
        · rw [Outcome.returned_bind] at h
          obtain ⟨_, h⟩ | ⟨_, h⟩ := h
          · obtain ⟨_, _, h⟩ := Outcome.bind_eq_returned.mp h
            cases h
            exact Or.inr (Or.inl ⟨_, rfl⟩)
          · exact absurd (Outcome.bind_returned_eq_threw.mp h) (hcopy _ _)
      · obtain ⟨_, h⟩ | ⟨_, h⟩ := h
        · obtain ⟨_, _, h⟩ := Outcome.bind_eq_returned.mp h
          cases h
          exact Or.inr (Or.inl ⟨s.state, rfl⟩)
        · exact absurd (Outcome.bind_returned_eq_threw.mp h) (hcopy _ _)
    · next hend =>
      obtain ⟨_, h⟩ | ⟨_, h⟩ := h
      · obtain ⟨_, _, h⟩ := Outcome.bind_eq_returned.mp h
        cases h
        exact Or.inr (Or.inr ⟨_, Nat.lt_of_not_le hend, rfl⟩)
      · exact absurd (Outcome.bind_returned_eq_threw.mp h) (hcopy _ _)

/-- A read leaves the position within the vector. -/
theorem wellFormed_read {s t : CDataStream} {n : Int} {reply : Reply} (hw : s.WellFormed)
    (h : s.call (.read n) = some (reply, t)) : t.WellFormed := by
  have hread : (∃ bytes, s.read n = .returned (bytes, t)) ∨ ∃ what, s.read n = .threw what t := by
    obtain h | ⟨what, h⟩ := call_eq_some h
    · obtain ⟨⟨bytes, u⟩, hu, ht⟩ := Outcome.bind_eq_returned.mp h
      cases ht
      exact Or.inl ⟨bytes, hu⟩
    · exact Or.inr ⟨what, Outcome.bind_returned_eq_threw.mp h⟩
  obtain ⟨state, rfl⟩ | ⟨state, rfl⟩ | ⟨p, hp, rfl⟩ := read_leaves hread
  · exact hw
  · exact Nat.zero_le _
  · exact hp.le

/-- A write leaves the position alone. -/
theorem wellFormed_write {s t : CDataStream} {pch : List Byte} {n : Int} {reply : Reply}
    (hw : s.WellFormed) (h : s.call (.write pch n) = some (reply, t)) : t.WellFormed := by
  have hwrite : s.write pch n = .returned t ∨ ∃ what, s.write pch n = .threw what t := by
    obtain h | ⟨what, h⟩ := call_eq_some h
    · obtain ⟨u, hu, ht⟩ := Outcome.bind_eq_returned.mp h
      cases ht
      exact Or.inl hu
    · exact Or.inr ⟨what, Outcome.bind_returned_eq_threw.mp h⟩
  unfold write at hwrite
  split at hwrite
  · obtain h | ⟨_, h⟩ := hwrite <;> cases h
  · split at hwrite
    · obtain h | ⟨_, h⟩ := hwrite <;> cases h
    · obtain h | ⟨_, h⟩ := hwrite <;> cases h
      change s.nReadPos.toNat ≤ (s.vch ++ pch.take n.toNat).length
      rw [List.length_append]
      exact hw.trans (Nat.le_add_right _ _)

/-- Writing and reading leave the position in the buffer. -/
theorem wellFormed_run {s t : CDataStream} {ops : List Operation} {replies : List Reply}
    (hops : ∀ op ∈ ops, op.WritesOrReads) (hw : s.WellFormed)
    (h : s.run ops = some (replies, t)) : t.WellFormed := by
  induction ops generalizing s replies with
  | nil =>
    cases h
    exact hw
  | cons op ops ih =>
    rw [run] at h
    obtain ⟨hop, hops⟩ := List.forall_mem_cons.mp hops
    cases hcall : s.call op with
    | none =>
      rw [hcall] at h
      cases h
    | some r =>
      obtain ⟨reply, s'⟩ := r
      simp only [hcall, Option.map_eq_some_iff] at h
      obtain ⟨⟨rest, u⟩, hrest, hu⟩ := h
      cases hu
      have hw' : s'.WellFormed := by
        cases op with
        | write pch n => exact wellFormed_write hw hcall
        | read n => exact wellFormed_read hw hcall
        | _ => exact absurd hop not_false
      exact ih hops hw' hrest

/-- A stream that can be reached has its position in the buffer. -/
theorem Reached.wellFormed {s : CDataStream} (h : s.Reached) : s.WellFormed := by
  obtain ⟨bytes, ops, replies, hops, hrun⟩ := h
  exact wellFormed_run hops (wellFormed_init bytes) hrun

/-- `a += b` appends the unread bytes of `b`. -/
theorem unread_addAssign {a : CDataStream} (ha : a.WellFormed) (b : CDataStream) :
    (a.addAssign b).unread = a.unread ++ b.unread := by
  change (a.vch ++ b.unread).drop a.nReadPos.toNat = _
  rw [List.drop_append_of_le_length ha, ← unread]

/-- `a << b` appends the unread bytes of `b` exactly when they are its whole vector, and its
size is not negative as an `int`. -/
theorem unread_shiftLeft_iff {a b : CDataStream} (ha : a.WellFormed) (hb : b.WellFormed) :
    (∃ t, a.shiftLeft b = .returned t ∧ t.unread = a.unread ++ b.unread) ↔
      b.nReadPos = 0 ∧ b.vch.length < 2 ^ 31 := by
  have hpos := b.nReadPos.isLt
  have hzero : b.nReadPos = 0 ↔ b.nReadPos.toNat = 0 := by
    rw [← BitVec.toNat_inj]
    rfl
  rw [WellFormed] at hb
  rw [hzero, shiftLeft, serialize]
  by_cases hempty : b.vch = []
  · rw [if_pos hempty]
    have hlen : b.vch.length = 0 := by rw [hempty]; rfl
    refine iff_of_true ⟨a, rfl, ?_⟩ ⟨by omega, by omega⟩
    rw [unread, unread, hempty, List.drop_nil, List.append_nil]
  rw [if_neg hempty]
  change (∃ t, a.write b.vch (intOf b.vch.length) = .returned t ∧ _) ↔ _
  by_cases hneg : intOf b.vch.length < 0
  · rw [write, if_pos hneg]
    rw [intOf_neg_iff] at hneg
    refine iff_of_false ?_ (by omega)
    rintro ⟨t, ht, _⟩
    cases ht
  · have hlow : b.vch.length % 2 ^ 32 < 2 ^ 31 := by
      rw [intOf_neg_iff] at hneg
      omega
    have hmod : b.vch.length % 2 ^ 32 ≤ b.vch.length := Nat.mod_le _ _
    rw [intOf_of_mod_lt hlow, write, if_neg (by omega), Int.toNat_natCast, if_neg (by omega)]
    constructor
    · rintro ⟨t, ht, hunread⟩
      cases ht
      rw [unread, List.drop_append_of_le_length ha, ← unread, List.append_cancel_left_eq] at hunread
      have hlen := congrArg List.length hunread
      rw [List.length_take, unread, List.length_drop] at hlen
      exact ⟨by omega, by omega⟩
    · rintro ⟨hstart, hshort⟩
      refine ⟨_, rfl, ?_⟩
      rw [unread, List.drop_append_of_le_length ha, Nat.mod_eq_of_lt (by omega), List.take_length]
      simp only [unread, hstart, List.drop_zero]

/-- The three forms of concatenation agree on the unread bytes exactly when the second stream
has not been read in part and its size fits an `int`. -/
theorem concatenation_iff {a b : CDataStream} (ha : a.Reached) (hb : b.Reached) :
    ((∃ t, a.shiftLeft b = .returned t ∧ t.unread = a.unread ++ b.unread) ∧
      (a.addAssign b).unread = a.unread ++ b.unread ∧
      (a.add b).unread = a.unread ++ b.unread) ↔
    b.nReadPos = 0 ∧ b.vch.length < 2 ^ 31 := by
  have hadd := unread_addAssign ha.wellFormed b
  rw [unread_shiftLeft_iff ha.wellFormed hb.wellFormed]
  exact and_iff_left ⟨hadd, hadd⟩

/-- Two streams that were only written. -/
theorem concatenation_iff_written :
    ((∃ t, (init [1]).shiftLeft (init [2]) = .returned t ∧
        t.unread = (init [1]).unread ++ (init [2]).unread) ∧
      ((init [1]).addAssign (init [2])).unread = (init [1]).unread ++ (init [2]).unread ∧
      ((init [1]).add (init [2])).unread = (init [1]).unread ++ (init [2]).unread) ↔
    (init [2]).nReadPos = 0 ∧ (init [2]).vch.length < 2 ^ 31 :=
  concatenation_iff ⟨[1], [], [], by simp, rfl⟩ ⟨[2], [], [], by simp, rfl⟩

/-- After one of its two bytes was read, a stream is written with both of them. -/
theorem shiftLeft_partly_read :
    let a := init []
    let b : CDataStream := ⟨[1, 2], 1, 0, badbit ||| failbit⟩
    a.Reached ∧ b.Reached ∧ a.shiftLeft b = .returned (init [1, 2]) ∧
      ¬ ∃ t, a.shiftLeft b = .returned t ∧ t.unread = a.unread ++ b.unread := by
  intro a b
  have hread : (init [1, 2]).run [.read 1] = some ([.bytes [1]], b) := by decide
  have hshift : a.shiftLeft b = .returned (init [1, 2]) := by decide
  refine ⟨⟨[], [], [], by simp, rfl⟩, ⟨[1, 2], [.read 1], _, ?_, hread⟩, hshift, ?_⟩
  · simp [Operation.WritesOrReads]
  · rintro ⟨t, ht, hunread⟩
    rw [hshift] at ht
    cases ht
    exact absurd hunread (by decide)

end CDataStream

end BananaApi.Server
