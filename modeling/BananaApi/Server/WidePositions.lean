import BananaApi.Server.HostileInput
import BananaApi.Server.StreamOperations

/-!
# Positions and buffers beyond 32 bits

The read position is an `unsigned int`, and so is its sum with the size of a read. A sum
that wraps around lies in front of the position, hence inside of the buffer: the test for
the end of the data lets it pass. A buffer that no position can reach the end of is
never cleared, and none of its reads throws.
-/

namespace BananaApi.Server.CDataStream

variable {s : CDataStream} {n : Nat}

/-! ## `ignore` -/

/-- Skipping in front of the end moves the position. -/
theorem ignore_before_end (hw : s.nReadPos.toNat + n < 2 ^ 32)
    (h : s.nReadPos.toNat + n < s.vch.length) :
    s.ignore n = .returned { s with nReadPos := s.nReadPos + BitVec.ofInt 32 n } := by
  have hpos := (s.toNat_nReadPosNext n).trans (Nat.mod_eq_of_lt hw)
  have hn : ¬ (n : Int) < 0 := by omega
  have hend : ¬ s.vch.length ≤ s.nReadPos.toNat + n := by omega
  simp only [ignore, hn, hpos, hend, if_false]

/-- Skipping everything clears the buffer. -/
theorem ignore_to_end (hw : s.nReadPos.toNat + n < 2 ^ 32)
    (h : s.nReadPos.toNat + n = s.vch.length) : s.ignore n = .returned s.clear := by
  have hpos := (s.toNat_nReadPosNext n).trans (Nat.mod_eq_of_lt hw)
  have hn : ¬ (n : Int) < 0 := by omega
  simp only [ignore, hn, hpos, h, le_refl, lt_irrefl, if_false, if_true]

/-- Ignoring more than there is throws or drops the buffer. -/
theorem ignore_past_end (hw : s.nReadPos.toNat + n < 2 ^ 32)
    (h : s.vch.length < s.nReadPos.toNat + n) :
    s.ignore n = (s.setstate failbit "CDataStream::ignore() : end of data" >>= fun t =>
      .returned t.clear) := by
  have hpos := (s.toNat_nReadPosNext n).trans (Nat.mod_eq_of_lt hw)
  have hn : ¬ (n : Int) < 0 := by omega
  simp only [ignore, hn, hpos, h, h.le, if_false, if_true]

/-- Up to the end of the data the next unread bytes are skipped. -/
theorem ignore_inside (hs : s.WellFormed) (hw : s.nReadPos.toNat + n < 2 ^ 32)
    (h : n ≤ s.unread.length) : ∃ t, s.ignore n = .returned t ∧ s.Advanced n t := by
  have hlen := s.length_unread
  rw [WellFormed] at hs
  rw [size] at hlen
  rcases Nat.lt_or_ge (s.nReadPos.toNat + n) s.vch.length with hlt | hge
  · exact ⟨_, ignore_before_end hw hlt, advanced_before_end hw hlt⟩
  · have hend : s.nReadPos.toNat + n = s.vch.length := by omega
    exact ⟨_, ignore_to_end hw hend, advanced_to_end hend⟩

/-! ## Sums that pass the end test -/

/-- A sum in front of the end, wrapped around or not, is all the end test asks for. -/
theorem read_of_lt (h : (s.nReadPos + BitVec.ofInt 32 (n : Int)).toNat < s.vch.length) :
    s.read n = (s.copyOut n >>= fun bytes =>
      .returned (bytes, { s with nReadPos := s.nReadPos + BitVec.ofInt 32 n })) := by
  have hn : ¬ (n : Int) < 0 := by omega
  have hend : ¬ s.vch.length ≤ (s.nReadPos + BitVec.ofInt 32 (n : Int)).toNat := by omega
  simp only [read, hn, hend, if_false]

/-- In front of the end the position moves on. -/
theorem ignore_of_lt (h : (s.nReadPos + BitVec.ofInt 32 (n : Int)).toNat < s.vch.length) :
    s.ignore n = .returned { s with nReadPos := s.nReadPos + BitVec.ofInt 32 n } := by
  have hn : ¬ (n : Int) < 0 := by omega
  have hend : ¬ s.vch.length ≤ (s.nReadPos + BitVec.ofInt 32 (n : Int)).toNat := by omega
  simp only [ignore, hn, hend, if_false]

/-- A wrapped sum lies in front of the position. -/
theorem toNat_nReadPosNext_wrapped (hn : n < 2 ^ 31) (hw : 2 ^ 32 ≤ s.nReadPos.toNat + n) :
    (s.nReadPos + BitVec.ofInt 32 (n : Int)).toNat + 2 ^ 32 = s.nReadPos.toNat + n := by
  have hb := s.nReadPos.isLt
  rw [s.toNat_nReadPosNext]
  omega

/-- A buffer that no position can reach the end of stays as it is. -/
theorem read_of_wide (h : 2 ^ 32 ≤ s.vch.length) (n : Int) :
    ¬ (s.read n).Threw ∧ ∀ bytes t, s.read n = .returned (bytes, t) → t.vch = s.vch := by
  by_cases hneg : n < 0
  · rw [read_of_neg hneg]
    refine ⟨Outcome.not_threw_aborted, fun bytes t ht => ?_⟩
    cases ht
  · obtain ⟨n, rfl⟩ := Int.eq_ofNat_of_zero_le (not_lt.mp hneg)
    have hb := (s.nReadPos + BitVec.ofInt 32 (n : Int)).isLt
    rw [read_of_lt (by omega), copyOut]
    split
    · refine ⟨Outcome.not_threw_overran, fun bytes t ht => ?_⟩
      cases ht
    · refine ⟨Outcome.not_threw_returned _, fun bytes t ht => ?_⟩
      cases ht
      rfl

/-! ## Reading and skipping at any position -/

/-- Up to the end of the data `read` delivers and `ignore` skips the next unread bytes and
both leave the others; past the end both throw. -/
structure ReadsAndIgnores (s : CDataStream) (n : Nat) : Prop where
  inside : n ≤ s.unread.length →
    (∃ t, s.read n = .returned (s.unread.take n, t) ∧ t.unread = s.unread.drop n) ∧
      ∃ t, s.ignore n = .returned t ∧ t.unread = s.unread.drop n
  outside : s.unread.length < n → (s.read n).Threw ∧ (s.ignore n).Threw

/-- On a stream that throws, setting `failbit` throws. -/
theorem setstate_failbit_threw (hs : s.Throws) (psz : String) :
    (s.setstate failbit psz).Threw := by
  have hthrow : (s.state ||| failbit) &&& s.exceptmask ≠ 0 := ByteQueue.or_and_ne_zero hs
  rw [setstate, if_pos hthrow]
  exact Outcome.threw_threw _ _

/-- Where the position does not wrap, `read` and `ignore` do what they should. -/
theorem readsAndIgnores_of_lt (hs : s.WellFormed) (ht : s.Throws)
    (hw : s.nReadPos.toNat + n < 2 ^ 32) : s.ReadsAndIgnores n := by
  refine ⟨fun hinside => ?_, fun houtside => ?_⟩
  · obtain ⟨t, hread, ht⟩ := read_inside hs hw hinside
    obtain ⟨t', hignore, ht'⟩ := ignore_inside hs hw hinside
    exact ⟨⟨t, hread, ht.unread⟩, t', hignore, ht'.unread⟩
  · have hlen := s.length_unread
    rw [size] at hlen
    have hpast : s.vch.length < s.nReadPos.toNat + n := by omega
    rw [read_past_end hw hpast, ignore_past_end hw hpast]
    exact ⟨Outcome.threw_bind_of_threw (setstate_failbit_threw ht _),
      Outcome.threw_bind_of_threw (setstate_failbit_threw ht _)⟩

/-- At every position of a buffer of any size, `read` and `ignore` respect the end of the data
exactly when the position behind it is an `unsigned int`. -/
theorem readsAndIgnores_iff (hs : s.WellFormed) (hm : s.exceptmask = defaultMask)
    (hn : n < 2 ^ 31) : s.ReadsAndIgnores n ↔ s.nReadPos.toNat + n < 2 ^ 32 := by
  refine ⟨fun h => ?_, readsAndIgnores_of_lt hs (throws_of_defaultMask hm)⟩
  by_contra hw
  have hlen := s.length_unread
  have hb := s.nReadPos.isLt
  have hpos := toNat_nReadPosNext_wrapped hn (not_lt.mp hw)
  rw [WellFormed] at hs
  rw [size] at hlen
  have hread := ignore_of_lt (s := s) (n := n) (by omega)
  rcases Nat.lt_or_ge s.unread.length n with houtside | hinside
  · obtain ⟨-, hthrew⟩ := h.outside houtside
    rw [hread] at hthrew
    exact Outcome.not_threw_returned _ hthrew
  · obtain ⟨-, t, ht, hunread⟩ := h.inside hinside
    obtain rfl := Outcome.returned.inj (hread.symm.trans ht)
    have hleft := congrArg List.length hunread
    change (s.vch.drop (s.nReadPos + BitVec.ofInt 32 (n : Int)).toNat).length = _ at hleft
    rw [List.length_drop, List.length_drop] at hleft
    omega

/-- A stream of three bytes, one of which was read. -/
theorem readsAndIgnores_iff_short :
    ({ init [1, 2, 3] with nReadPos := 1 } : CDataStream).ReadsAndIgnores 2 ↔
      ({ init [1, 2, 3] with nReadPos := 1 } : CDataStream).nReadPos.toNat + 2 < 2 ^ 32 :=
  readsAndIgnores_iff (by unfold WellFormed; decide) rfl (by decide)

/-- At the end of a buffer of `2 ^ 32 - 1` bytes a read of one more does not throw. -/
theorem not_readsAndIgnores_last :
    ¬ ∀ (s : CDataStream) (n : Nat), s.WellFormed → s.exceptmask = defaultMask → n < 2 ^ 31 →
      s.ReadsAndIgnores n := by
  intro h
  have hlen : (List.replicate (2 ^ 32 - 1) (0 : Byte)).length = 2 ^ 32 - 1 :=
    List.length_replicate
  have hpos : (4294967295 : BitVec 32).toNat = 2 ^ 32 - 1 := rfl
  generalize List.replicate (2 ^ 32 - 1) (0 : Byte) = bytes at hlen
  have hw : ({ init bytes with nReadPos := 4294967295 } : CDataStream).WellFormed := by
    change (4294967295 : BitVec 32).toNat ≤ bytes.length
    omega
  have hunread : ({ init bytes with nReadPos := 4294967295 } : CDataStream).unread.length < 1 := by
    change (bytes.drop (4294967295 : BitVec 32).toNat).length < 1
    rw [List.length_drop]
    omega
  obtain ⟨hthrew, -⟩ := (h _ 1 hw rfl (by decide)).outside hunread
  have hread := read_wrapped (n := 1) (by decide) hw
    (by change 2 ^ 32 ≤ (4294967295 : BitVec 32).toNat + 1; omega)
    (by change bytes.length < (4294967295 : BitVec 32).toNat + 1; omega)
  rw [hread] at hthrew
  exact Outcome.not_threw_overran hthrew

end BananaApi.Server.CDataStream

namespace BananaApi.Server

/-! ## Readers over streams whose reads never throw -/

section Keeping

variable {σ : Type} [ByteStream σ] {I : σ → Prop}
  (hI : ∀ s n, I s → (ByteStream.read s n).Keeps I)

include hI

/-- Reading an integer keeps what every read keeps. -/
theorem readData_keeps (n : Nat) {s : σ} (h : I s) : (readData n s).Keeps I :=
  (hI s (intOf n) h).bind fun _ _ h => Outcome.keeps_returned _ h

theorem readCompactSize_keeps {s : σ} (h : I s) : (readCompactSize s).Keeps I := by
  refine (readData_keeps hI 1 h).bind fun chSize s h => ?_
  have hwide (n : Nat) :
      (readData n s >>= fun p => .returned ((p.1.setWidth _ : Word 8), p.2)).Keeps I :=
    (readData_keeps hI n h).bind fun _ _ h => Outcome.keeps_returned _ h
  dsimp only
  split
  · exact Outcome.keeps_returned _ h
  · split
    · exact hwide 2
    · split
      · exact hwide 4
      · exact readData_keeps hI 8 h

theorem readCharacters_keeps (c nSize : Nat) (str : List (Word c)) {s : σ} (h : I s) :
    (readCharacters c nSize str s).Keeps I := by
  unfold readCharacters
  split
  · exact ((hI s _ h).mapThrow _).bind fun _ _ h => Outcome.keeps_returned _ h
  · exact Outcome.keeps_returned _ h

theorem unserializeString_keeps (c : Nat) (str : List (Word c)) {s : σ} (h : I s) :
    (unserializeString c s str).Keeps I :=
  ((readCompactSize_keeps hI h).mapThrow _).bind fun _ _ h => readCharacters_keeps hI c _ str h

theorem readBlocks_keeps (n nSize fuel i : Nat) (v : List (Word n)) {s : σ} (h : I s) :
    (readBlocks n nSize fuel i v s).Keeps I := by
  induction fuel generalizing i v s with
  | zero => exact Outcome.keeps_unfinished
  | succ fuel ih =>
    unfold readBlocks
    split
    · exact ((hI s _ h).mapThrow _).bind fun _ _ h => ih _ _ h
    · exact Outcome.keeps_returned _ h

/-- Reading a vector of integers keeps what every read keeps. -/
theorem unserializeFundamentals_keeps (fuel n : Nat) (v : List (Word n)) {s : σ} (h : I s) :
    (unserializeFundamentals fuel n s v).Keeps I :=
  ((readCompactSize_keeps hI h).mapThrow _).bind fun _ _ h => readBlocks_keeps hI n _ fuel 0 [] h

end Keeping

/-- Whatever is read off a buffer that no position can reach the end of, it stays. -/
theorem CDataStream.read_keeps {vch : List Byte} (hwide : 2 ^ 32 ≤ vch.length) (s : CDataStream)
    (n : Int) (h : s.vch = vch) :
    (ByteStream.read s n).Keeps fun t : CDataStream => t.vch = vch := by
  subst h
  exact CDataStream.read_of_wide hwide n

end BananaApi.Server
