import BananaApi.Server.ByteBuffer

/-!
# Runs of a stream

A stream over a buffer of at most `2 ^ 31` bytes gives, operation by operation, the
replies of the buffer it stands for. The position divides the vector into the bytes
that can be put back and the unread bytes.
-/

namespace BananaApi.Server

/-- A stream and the buffer it stands for. -/
structure Buffers (s : CDataStream) (q : ByteBuffer) : Prop where
  nReadPos : s.nReadPos.toNat = q.kept
  vch : s.vch = q.retained ++ q.unread
  state : s.state = q.state
  exceptmask : s.exceptmask = q.exceptmask

namespace ByteBuffer

/-- In front of the last byte, what is taken can be put back. -/
theorem kept_take_of_lt {q : ByteBuffer} {n : Nat} (h : n < q.unread.length) :
    (q.take n).kept = q.kept + n := if_pos h

/-- With the last byte, everything that could be put back is gone. -/
theorem kept_take_of_le {q : ByteBuffer} {n : Nat} (h : q.unread.length ≤ n) :
    (q.take n).kept = 0 := if_neg (Nat.not_lt.mpr h)

/-- As long as bytes are left, those that were taken join the ones that can be put back. -/
theorem retained_take_of_lt {q : ByteBuffer} {n : Nat} (h : n < q.unread.length) :
    (q.take n).retained = q.retained ++ q.unread.take n := by
  have hkept := q.kept_le
  have htake : (q.unread.take n).length = n := by
    rw [List.length_take]
    omega
  have hskip : q.taken.length + n - (q.kept + n) = q.taken.length - q.kept := by omega
  simp only [retained, take, if_pos h, List.length_append, htake, hskip]
  exact List.drop_append_of_le_length (Nat.sub_le _ _)

/-- When all bytes are taken, none can be put back. -/
theorem retained_take_of_le {q : ByteBuffer} {n : Nat} (h : q.unread.length ≤ n) :
    (q.take n).retained = [] := by
  rw [← List.length_eq_zero_iff, length_retained, kept_take_of_le h]

/-- Putting bytes back moves them from one side of the position to the other. -/
theorem retained_putBack {q : ByteBuffer} {n : Nat} (h : n ≤ q.kept) :
    (q.putBack n).retained ++ (q.putBack n).unread = q.retained ++ q.unread := by
  have hkept := q.kept_le
  have hlen : (q.taken.take (q.taken.length - n)).length = q.taken.length - n := by
    rw [List.length_take]
    omega
  have hskip : q.taken.length - n - (q.kept - n) = q.taken.length - q.kept := by omega
  simp only [retained, putBack, hlen, hskip]
  rw [← List.append_assoc, ← List.drop_append_of_le_length (by omega), List.take_append_drop]

end ByteBuffer

namespace Buffers

variable {s : CDataStream} {q : ByteBuffer}

/-- A new stream is the buffer of its bytes. -/
theorem init (bytes : List Byte) : Buffers (CDataStream.init bytes) (ByteBuffer.init bytes) :=
  ⟨rfl, rfl, rfl, rfl⟩

theorem length (h : Buffers s q) : s.vch.length = s.nReadPos.toNat + q.unread.length := by
  rw [h.vch, List.length_append, q.length_retained, h.nReadPos]

theorem wellFormed (h : Buffers s q) : s.WellFormed := by
  rw [CDataStream.WellFormed, h.length]
  exact Nat.le_add_right _ _

theorem unread (h : Buffers s q) : s.unread = q.unread := by
  rw [CDataStream.unread, h.vch, List.drop_left' (by rw [q.length_retained, h.nReadPos])]

theorem size (h : Buffers s q) : s.size = q.unread.length := by
  rw [CDataStream.size, h.length, Nat.add_sub_cancel_left]

/-- The bytes in front of the position are the last ones that were taken. -/
theorem retained (h : Buffers s q) : s.vch.take s.nReadPos.toNat = q.retained := by
  rw [h.vch, List.take_left' (by rw [q.length_retained, h.nReadPos])]

/-- Moving the position takes bytes off the front. -/
theorem advance (h : Buffers s q) {n : Nat} (hn : n < q.unread.length) {p : BitVec 32}
    (hp : p.toNat = s.nReadPos.toNat + n) :
    Buffers { s with nReadPos := p } (q.take n) where
  nReadPos := by rw [ByteBuffer.kept_take_of_lt hn, ← h.nReadPos, hp]
  vch := by
    rw [ByteBuffer.retained_take_of_lt hn, ByteBuffer.unread_take, List.append_assoc,
      List.take_append_drop]
    exact h.vch
  state := h.state
  exceptmask := h.exceptmask

/-- Clearing the vector takes all bytes. -/
theorem drain (h : Buffers s q) {n : Nat} (hn : q.unread.length ≤ n) :
    Buffers s.clear (q.take n) where
  nReadPos := (ByteBuffer.kept_take_of_le hn).symm
  vch := by
    rw [ByteBuffer.retained_take_of_le hn, ByteBuffer.unread_take, List.drop_eq_nil_of_le hn]
    rfl
  state := h.state
  exceptmask := h.exceptmask

/-- Behind the position the vector may be changed like the list of unread bytes. -/
theorem replace (h : Buffers s q) {vch unread : List Byte} (hv : vch = q.retained ++ unread) :
    Buffers { s with vch := vch } { q with unread := unread } :=
  ⟨h.nReadPos, hv, h.state, h.exceptmask⟩

/-- The failure state does not concern the bytes. -/
theorem setState (h : Buffers s q) (state : BitVec 16) :
    Buffers { s with state := state } { q with state := state } :=
  ⟨h.nReadPos, h.vch, rfl, h.exceptmask⟩

end Buffers

/-- An operation gives the reply of the model, and what it leaves behind stands for what the
model leaves behind. -/
def Agrees (o : Option (Reply × CDataStream)) (r : Reply × ByteBuffer) : Prop :=
  ∃ s, o = some (r.1, s) ∧ Buffers s r.2

namespace Buffers

variable {s : CDataStream} {q : ByteBuffer}

/-- A call that returns agrees with the buffer, if its reply and its stream do. -/
theorem call_returned {op : Operation} {reply : Reply} {t : CDataStream} {q' : ByteBuffer}
    (h : s.perform op = .returned (reply, t)) (ht : Buffers t q') :
    Agrees (s.call op) (reply, q') :=
  ⟨t, by rw [CDataStream.call, h], ht⟩

/-- A call that throws agrees with the buffer, if its message and its stream do. -/
theorem call_threw {op : Operation} {what : String} {t : CDataStream} {q' : ByteBuffer}
    (h : s.perform op = .threw what t) (ht : Buffers t q') :
    Agrees (s.call op) (.threw what, q') :=
  ⟨t, by rw [CDataStream.call, h], ht⟩

variable (h : Buffers s q) (hlen : s.vch.length ≤ 2 ^ 31)

include h hlen

/-- A read within the unread bytes, one that takes all of them, and one that fails. -/
theorem call_read {n : Nat} (hn : n < 2 ^ 31) :
    Agrees (s.call (.read n)) (q.perform (.read n)) := by
  have hl := h.length
  have hw : s.nReadPos.toNat + n < 2 ^ 32 := by omega
  rw [ByteBuffer.perform, ByteBuffer.takeOrFail, Int.toNat_natCast]
  by_cases hle : n ≤ q.unread.length
  · have hpad : n - q.unread.length = 0 := by omega
    rw [if_pos hle, hpad, List.replicate_zero, List.append_nil]
    by_cases hlt : n < q.unread.length
    · have hread := CDataStream.read_before_end hw (by omega)
      have hpos := (s.toNat_nReadPosNext n).trans (Nat.mod_eq_of_lt hw)
      rw [h.unread] at hread
      refine call_returned ?_ (h.advance hlt hpos)
      rw [CDataStream.perform, hread, Outcome.returned_bind]
    · have hread := CDataStream.read_to_end hw (by omega)
      rw [h.unread] at hread
      refine call_returned ?_ (h.drain (by omega))
      rw [CDataStream.perform, hread, Outcome.returned_bind]
  · have hread := CDataStream.read_past_end hw (by omega)
    rw [if_neg hle, List.take_of_length_le (by omega)]
    dsimp only
    by_cases hthrow : (q.state ||| failbit) &&& q.exceptmask ≠ 0
    · rw [if_pos hthrow]
      have hs : (s.state ||| failbit) &&& s.exceptmask ≠ 0 := by rwa [h.state, h.exceptmask]
      rw [CDataStream.setstate, if_pos hs, Outcome.threw_bind, h.state] at hread
      refine call_threw ?_ (h.setState _)
      rw [CDataStream.perform, hread, Outcome.threw_bind]
    · rw [if_neg hthrow]
      have hs : ¬ (s.state ||| failbit) &&& s.exceptmask ≠ 0 := by rwa [h.state, h.exceptmask]
      have ht := h.setState (q.state ||| failbit)
      have hleft : s.vch.length - s.nReadPos.toNat = q.unread.length := by omega
      have hcopy := CDataStream.copyOut_of_le (n := q.unread.length) ht.length.ge
      rw [ht.unread, List.take_length] at hcopy
      rw [CDataStream.setstate, if_neg hs, Outcome.returned_bind, h.state] at hread
      dsimp only at hread
      rw [hleft, intOf_of_lt (by omega), hcopy, Outcome.returned_bind] at hread
      refine call_returned ?_ (ht.drain (by exact Nat.le_of_not_le hle))
      rw [CDataStream.perform, hread, Outcome.returned_bind]

/-- An `ignore` within the unread bytes, one that takes all of them, and one that fails. -/
theorem call_ignore {n : Nat} (hn : n < 2 ^ 31) :
    Agrees (s.call (.ignore n)) (q.perform (.ignore n)) := by
  have hl := h.length
  have hneg : ¬ (n : Int) < 0 := by omega
  have hpos := (s.toNat_nReadPosNext n).trans (Nat.mod_eq_of_lt (by omega))
  rw [ByteBuffer.perform, ByteBuffer.takeOrFail, Int.toNat_natCast]
  by_cases hle : n ≤ q.unread.length
  · rw [if_pos hle]
    by_cases hlt : n < q.unread.length
    · refine call_returned ?_ (h.advance hlt hpos)
      have hend : ¬ s.vch.length ≤ s.nReadPos.toNat + n := by omega
      simp only [CDataStream.perform, CDataStream.ignore, hneg, hpos, hend, if_false,
        Outcome.returned_bind]
    · refine call_returned ?_ (h.drain (by omega))
      have hend : s.vch.length = s.nReadPos.toNat + n := by omega
      simp only [CDataStream.perform, CDataStream.ignore, hneg, hpos, hend, le_refl, lt_irrefl,
        if_false, if_true, Outcome.returned_bind]
  · have hend : s.vch.length < s.nReadPos.toNat + n := by omega
    rw [if_neg hle]
    dsimp only
    by_cases hthrow : (q.state ||| failbit) &&& q.exceptmask ≠ 0
    · rw [if_pos hthrow]
      have hs : (s.state ||| failbit) &&& s.exceptmask ≠ 0 := by rwa [h.state, h.exceptmask]
      refine call_threw ?_ (h.setState _)
      rw [← h.state]
      simp only [CDataStream.perform, CDataStream.ignore, hneg, hpos, hend, hend.le, if_false,
        if_true, CDataStream.setstate, if_pos hs, Outcome.threw_bind]
    · rw [if_neg hthrow]
      have hs : ¬ (s.state ||| failbit) &&& s.exceptmask ≠ 0 := by rwa [h.state, h.exceptmask]
      refine call_returned ?_ ((h.setState _).drain (by exact Nat.le_of_not_le hle))
      rw [← h.state]
      simp only [CDataStream.perform, CDataStream.ignore, hneg, hpos, hend, hend.le, if_false,
        if_true, CDataStream.setstate, if_neg hs, Outcome.returned_bind]

/-- Erasing at the front takes a byte, elsewhere it removes one. -/
theorem call_erase {it : Nat} (hit : it = 0 ∨ it < s.size) :
    Agrees (s.call (.erase it)) (q.perform (.erase it)) := by
  have hl := h.length
  rw [h.size] at hit
  by_cases hzero : it = 0
  · subst hzero
    have hpos : (s.nReadPos + 1).toNat = s.nReadPos.toNat + 1 := by
      rw [BitVec.toNat_add]
      exact Nat.mod_eq_of_lt (by change s.nReadPos.toNat + 1 < 2 ^ 32; omega)
    by_cases hlt : 1 < q.unread.length
    · refine call_returned ?_ (h.advance hlt hpos)
      have hend : ¬ s.vch.length ≤ s.nReadPos.toNat + 1 := by omega
      simp only [CDataStream.perform, CDataStream.erase, hpos, hend, if_true, if_false,
        Outcome.returned_bind]
    · refine call_returned ?_ (h.drain (by omega))
      have hend : s.vch.length ≤ s.nReadPos.toNat + 1 := by omega
      simp only [CDataStream.perform, CDataStream.erase, hpos, hend, if_true,
        Outcome.returned_bind]
  · have hin : ¬ s.vch.length ≤ s.nReadPos.toNat + it := by omega
    have hmove : s.vch.eraseIdx (s.nReadPos.toNat + it) =
        q.retained ++ q.unread.eraseIdx it := by
      have hkept : q.retained.length = s.nReadPos.toNat := by rw [q.length_retained, h.nReadPos]
      rw [h.vch, List.eraseIdx_append_of_length_le (by omega), hkept, Nat.add_sub_cancel_left]
    have hcall : s.perform (.erase it) = .returned (.iterator it,
        { s with vch := s.vch.eraseIdx (s.nReadPos.toNat + it) }) := by
      simp only [CDataStream.perform, CDataStream.erase, hzero, hin, if_false,
        Outcome.returned_bind]
    rw [ByteBuffer.perform, if_neg hzero]
    exact call_returned hcall (h.replace hmove)

/-- Erasing a range at the front takes its bytes, elsewhere it removes them. -/
theorem call_eraseRange {first last : Nat} (hle : first ≤ last) (hlast : last ≤ s.size) :
    Agrees (s.call (.eraseRange first last)) (q.perform (.eraseRange first last)) := by
  have hl := h.length
  rw [h.size] at hlast
  by_cases hzero : first = 0
  · subst hzero
    by_cases hlt : last < q.unread.length
    · have hpos : (BitVec.ofNat 32 (s.nReadPos.toNat + last)).toNat = s.nReadPos.toNat + last := by
        rw [BitVec.toNat_ofNat]
        exact Nat.mod_eq_of_lt (by omega)
      refine call_returned ?_ (h.advance hlt hpos)
      have hend : ¬ s.nReadPos.toNat + last = s.vch.length := by omega
      simp only [CDataStream.perform, CDataStream.eraseRange, hend, if_true, if_false,
        Outcome.returned_bind]
    · refine call_returned ?_ (h.drain (by omega))
      have hend : s.nReadPos.toNat + last = s.vch.length := by omega
      simp only [CDataStream.perform, CDataStream.eraseRange, hend, if_true,
        Outcome.returned_bind]
  · have hin : ¬ (last < first ∨ s.vch.length < s.nReadPos.toNat + last) := by omega
    have hmove : s.vch.take (s.nReadPos.toNat + first) ++ s.vch.drop (s.nReadPos.toNat + last) =
        q.retained ++ (q.unread.take first ++ q.unread.drop last) := by
      have hkept : q.retained.length = s.nReadPos.toNat := by rw [q.length_retained, h.nReadPos]
      rw [h.vch, ← hkept, List.take_length_add_append, List.drop_length_add_append,
        List.append_assoc]
    have hcall : s.perform (.eraseRange first last) = .returned (.iterator first, { s with
        vch := s.vch.take (s.nReadPos.toNat + first) ++
          s.vch.drop (s.nReadPos.toNat + last) }) := by
      simp only [CDataStream.perform, CDataStream.eraseRange, hzero, hin, if_false,
        Outcome.returned_bind]
    rw [ByteBuffer.perform, if_neg hzero]
    exact call_returned hcall (h.replace hmove)

omit hlen

/-- A rewind puts back what is still there, or does nothing. -/
theorem call_rewind (n : Nat) : Agrees (s.call (.rewind n)) (q.perform (.rewind n)) := by
  rw [ByteBuffer.perform]
  by_cases hle : n ≤ q.kept
  · have hn : n < 2 ^ 32 := by
      have hlt := s.nReadPos.isLt
      rw [h.nReadPos] at hlt
      omega
    have hpos : (s.nReadPos - BitVec.ofNat 32 n).toNat = s.nReadPos.toNat - n := by
      rw [BitVec.toNat_sub_of_le, BitVec.toNat_ofNat, Nat.mod_eq_of_lt hn]
      rw [BitVec.le_def, BitVec.toNat_ofNat, Nat.mod_eq_of_lt hn, h.nReadPos]
      exact hle
    have hin : ¬ s.nReadPos.toNat < n := by
      rw [h.nReadPos]
      omega
    have hback : Buffers { s with nReadPos := s.nReadPos - BitVec.ofNat 32 n } (q.putBack n) :=
      ⟨hpos.trans (congrArg (· - n) h.nReadPos), h.vch.trans (ByteBuffer.retained_putBack hle).symm,
        h.state, h.exceptmask⟩
    rw [if_pos hle]
    refine call_returned ?_ hback
    rw [CDataStream.perform, CDataStream.rewind, if_neg hin]
  · have hout : s.nReadPos.toNat < n := by
      rw [h.nReadPos]
      omega
    rw [if_neg hle]
    refine call_returned ?_ h
    rw [CDataStream.perform, CDataStream.rewind, if_pos hout]

/-- A new mask is kept also when it turns an old failure into an exception. -/
theorem call_exceptions (mask : BitVec 16) :
    Agrees (s.call (.exceptions mask)) (q.perform (.exceptions mask)) := by
  have hmask : Buffers { s with exceptmask := mask } { q with exceptmask := mask } :=
    ⟨h.nReadPos, h.vch, h.state, rfl⟩
  have hor : q.state ||| 0 = q.state := BitVec.or_zero
  rw [ByteBuffer.perform]
  by_cases hthrow : q.state &&& mask ≠ 0
  · rw [if_pos hthrow]
    refine call_threw ?_ hmask
    simp only [CDataStream.perform, CDataStream.exceptions, CDataStream.setstate, h.state, hor,
      if_pos hthrow, Outcome.threw_bind]
  · rw [if_neg hthrow]
    refine call_returned ?_ hmask
    simp only [CDataStream.perform, CDataStream.exceptions, CDataStream.setstate, h.state, hor,
      if_neg hthrow, Outcome.returned_bind, h.exceptmask]

/-- Every operation agrees with the model. -/
theorem call (hlen : s.vch.length ≤ 2 ^ 31) {op : Operation} (hop : s.Admits op) :
    Agrees (s.call op) (q.perform op) := by
  cases op with
  | write pch nSize =>
    obtain ⟨hneg, hlt, hle⟩ := hop
    have hcall : s.write pch nSize = .returned { s with vch := s.vch ++ pch.take nSize.toNat } := by
      rw [CDataStream.write, if_neg (by omega), if_neg (by omega)]
    have hvch : s.vch ++ pch.take nSize.toNat =
        q.retained ++ (q.unread ++ pch.take nSize.toNat) := by rw [h.vch, List.append_assoc]
    refine call_returned ?_ (h.replace hvch)
    rw [CDataStream.perform, hcall, Outcome.returned_bind]
  | read nSize =>
    obtain ⟨n, rfl⟩ := Int.eq_ofNat_of_zero_le hop.1
    have hn : (n : Int) < 2 ^ 31 := hop.2
    exact h.call_read hlen (by omega)
  | ignore nSize =>
    obtain ⟨n, rfl⟩ := Int.eq_ofNat_of_zero_le hop.1
    have hn : (n : Int) < 2 ^ 31 := hop.2
    exact h.call_ignore hlen (by omega)
  | erase it => exact h.call_erase hlen hop
  | eraseRange first last => exact h.call_eraseRange hlen hop.1 hop.2
  | resize n c =>
    have hvch : BananaApi.resize s.vch ((n + s.nReadPos.toNat) % 2 ^ 64) c =
        q.retained ++ BananaApi.resize q.unread n c := by
      rw [Nat.mod_eq_of_lt hop, h.vch, h.nReadPos, ← q.length_retained, resize_append]
    exact call_returned rfl (h.replace hvch)
  | compact =>
    have hretained : q.forget.retained = [] := by
      rw [← List.length_eq_zero_iff, ByteBuffer.length_retained]
      rfl
    have hvch : s.vch.drop s.nReadPos.toNat = q.forget.retained ++ q.unread := by
      rw [hretained, List.nil_append]
      exact h.unread
    exact call_returned rfl ⟨rfl, hvch, h.state, h.exceptmask⟩
  | rewind n => exact h.call_rewind n
  | clear =>
    have hvch : [] = { q.forget with unread := [] }.retained ++ [] := by
      rw [List.append_nil, eq_comm, ← List.length_eq_zero_iff, ByteBuffer.length_retained]
      rfl
    exact call_returned rfl ⟨rfl, hvch, h.state, h.exceptmask⟩
  | addAssign b =>
    have hvch : s.vch ++ b.unread = q.retained ++ (q.unread ++ b.unread) := by
      rw [h.vch, List.append_assoc]
    exact call_returned rfl (h.replace hvch)
  | exceptions mask => exact h.call_exceptions mask

/-- Every run of operations agrees with the model. -/
theorem run {ops : List Operation} (hops : s.Allowed ops) :
    ∃ t, s.run ops = some ((q.run ops).1, t) ∧ Buffers t (q.run ops).2 := by
  induction ops generalizing s q with
  | nil => exact ⟨s, rfl, h⟩
  | cons op ops ih =>
    obtain ⟨hlen, hop, hrest⟩ := hops
    obtain ⟨t, hcall, ht⟩ := h.call hlen hop
    obtain ⟨u, hrun, hu⟩ := ih ht (hrest _ _ hcall)
    refine ⟨u, ?_, hu⟩
    rw [CDataStream.run, hcall]
    simp only [hrun, Option.map_some]
    rfl

end Buffers

/-- From every constructor, a run gives the replies of the model and leaves a stream whose
position is within its vector, between the bytes that can be put back and the unread ones. -/
theorem CDataStream.run_refines (bytes : List Byte) {ops : List Operation}
    (hops : (CDataStream.init bytes).Allowed ops) :
    ∃ s, (CDataStream.init bytes).run ops = some (((ByteBuffer.init bytes).run ops).1, s) ∧
      s.nReadPos.toNat ≤ s.vch.length ∧
      s.unread = ((ByteBuffer.init bytes).run ops).2.unread ∧
      s.vch.take s.nReadPos.toNat = ((ByteBuffer.init bytes).run ops).2.retained ∧
      s.state = ((ByteBuffer.init bytes).run ops).2.state := by
  obtain ⟨s, hrun, hs⟩ := (Buffers.init bytes).run hops
  exact ⟨s, hrun, hs.wellFormed, hs.unread, hs.retained, hs.state⟩

/-- Two bytes are read and one of them is put back. -/
theorem CDataStream.run_refines_rewind :
    ∃ s, (CDataStream.init [1, 2, 3]).run [.read 2, .rewind 1] =
        some (((ByteBuffer.init [1, 2, 3]).run [.read 2, .rewind 1]).1, s) ∧
      s.nReadPos.toNat ≤ s.vch.length ∧
      s.unread = ((ByteBuffer.init [1, 2, 3]).run [.read 2, .rewind 1]).2.unread ∧
      s.vch.take s.nReadPos.toNat =
        ((ByteBuffer.init [1, 2, 3]).run [.read 2, .rewind 1]).2.retained ∧
      s.state = ((ByteBuffer.init [1, 2, 3]).run [.read 2, .rewind 1]).2.state := by
  refine CDataStream.run_refines [1, 2, 3] ⟨by decide, ⟨by decide, by decide⟩, ?_⟩
  intro reply s hread
  have hcall : (CDataStream.init [1, 2, 3]).call (.read 2) =
      some (.bytes [1, 2], ⟨[1, 2, 3], 2, 0, badbit ||| failbit⟩) := by decide
  rw [hcall] at hread
  cases hread
  refine ⟨by decide, trivial, ?_⟩
  intro reply s hrewind
  have hcall : (⟨[1, 2, 3], 2, 0, badbit ||| failbit⟩ : CDataStream).call (.rewind 1) =
      some (.moved true, ⟨[1, 2, 3], 1, 0, badbit ||| failbit⟩) := by decide
  rw [hcall] at hrewind
  cases hrewind
  exact (by decide : 3 ≤ 2 ^ 31)

end BananaApi.Server
