import BananaApi.Server.DataStream
import BananaApi.Server.Serialize

/-!
# Vectors read in chunks

The loop of `Unserialize_impl` for a vector of a type that is not fundamental, with a
reader of elements that never throws. It makes room for `5000000 / sizeof(T)` more
elements a round, counted by an `unsigned int` that is clamped to the size of the vector only
after it was advanced. Rounds that neither stand still nor wrap around read one element
after another.
-/

namespace BananaApi.Server

variable {σ α : Type} (read : σ → α → α × σ) (init : α)

/-- A reader of elements that never throws. -/
def readerOf : Unserializer σ α := fun is x => .returned (read is x)

/-- A number of elements read one after another into fresh objects, and the stream behind
them. -/
def elementsRead : Nat → σ → List α × σ
  | 0, is => ([], is)
  | n + 1, is =>
    let first := read is init
    let others := elementsRead n first.2
    (first.1 :: others.1, others.2)

@[simp] theorem length_elementsRead (n : Nat) (is : σ) :
    (elementsRead read init n is).1.length = n := by
  induction n generalizing is with
  | zero => rfl
  | succ n ih => rw [elementsRead, List.length_cons, ih]

/-- Elements are read part by part. -/
theorem elementsRead_add (m n : Nat) (is : σ) :
    elementsRead read init (m + n) is =
      let first := elementsRead read init m is
      let others := elementsRead read init n first.2
      (first.1 ++ others.1, others.2) := by
  induction m generalizing is with
  | zero =>
    rw [Nat.zero_add]
    rfl
  | succ m ih =>
    have hrest := ih (read is init).2
    rw [Nat.succ_add, elementsRead]
    simp only [hrest]
    rfl

/-- Fresh elements at the end of a vector are replaced by the elements read. -/
theorem readElements_fresh (count : Nat) (v : List α) (is : σ) :
    readElements (readerOf read) count v.length (v ++ List.replicate count init) is =
      .returned (v ++ (elementsRead read init count is).1,
        (elementsRead read init count is).2) := by
  induction count generalizing v is with
  | zero => rfl
  | succ count ih =>
    have hget : (v ++ List.replicate (count + 1) init)[v.length]? = some init := by
      rw [List.getElem?_append_right le_rfl, Nat.sub_self]
      rfl
    have hset : (v ++ List.replicate (count + 1) init).set v.length (read is init).1 =
        (v ++ [(read is init).1]) ++ List.replicate count init := by
      rw [List.set_append_right _ _ le_rfl, Nat.sub_self, List.append_assoc]
      rfl
    have hrest := ih (v ++ [(read is init).1]) (read is init).2
    rw [List.length_append, List.length_singleton, List.append_assoc _ _ (elementsRead _ _ _ _).1]
      at hrest
    simp only [readElements, hget, readerOf, Outcome.mapThrow_returned, Outcome.returned_bind]
    rw [hset]
    exact hrest

variable (sizeofT nSize : Nat)

/-- No `resize` in the rounds of the loop discards elements of the vector. -/
def KeepsElements (elem : Unserializer σ α) : Nat → Nat → Nat → List α → σ → Prop
  | 0, _, _, _, _ => True
  | fuel + 1, nMid, i, v, is =>
    nMid < nSize →
      let nMid := (nMid + 5000000 / sizeofT) % 2 ^ 32
      let nMid := if nSize < nMid then nSize else nMid
      v.length ≤ nMid ∧ ∀ v' is', readElements elem (nMid - i) i (resize v nMid init) is =
        .returned (v', is') → KeepsElements elem fuel nMid (max i nMid) v' is'

/-- The number of elements there is room for after a number of rounds. -/
def roomAfter (rounds : Nat) : Nat := min nSize (rounds * (5000000 / sizeofT))

section Rounds

variable {sizeofT nSize} {rounds : Nat}

/-- A round does not take room away. -/
theorem roomAfter_le_succ : roomAfter sizeofT nSize rounds ≤ roomAfter sizeofT nSize (rounds + 1) :=
  min_le_min le_rfl (Nat.mul_le_mul_right _ (Nat.le_succ rounds))

theorem roomAfter_lt (h : rounds * (5000000 / sizeofT) < nSize) :
    roomAfter sizeofT nSize rounds < nSize := (min_le_right _ _).trans_lt h

/-- The elements of one round. -/
theorem readElements_round (is : σ) :
    readElements (readerOf read) (roomAfter sizeofT nSize (rounds + 1) -
        roomAfter sizeofT nSize rounds) (roomAfter sizeofT nSize rounds)
      (resize (elementsRead read init (roomAfter sizeofT nSize rounds) is).1
        (roomAfter sizeofT nSize (rounds + 1)) init)
      (elementsRead read init (roomAfter sizeofT nSize rounds) is).2 =
    .returned (elementsRead read init (roomAfter sizeofT nSize (rounds + 1)) is) := by
  have hle : roomAfter sizeofT nSize rounds ≤ roomAfter sizeofT nSize (rounds + 1) :=
    roomAfter_le_succ
  obtain ⟨count, hcount⟩ := Nat.exists_eq_add_of_le hle
  have hlen := length_elementsRead read init (roomAfter sizeofT nSize rounds) is
  have hfresh := readElements_fresh read init count
    (elementsRead read init (roomAfter sizeofT nSize rounds) is).1
    (elementsRead read init (roomAfter sizeofT nSize rounds) is).2
  rw [hlen] at hfresh
  rw [hcount, resize_of_le (by omega), hlen, Nat.add_sub_cancel_left, hfresh, elementsRead_add]

/-- The counter after one more round that does not wrap around. -/
theorem roomAfter_succ (h : rounds * (5000000 / sizeofT) < nSize)
    (hwrap : (rounds + 1) * (5000000 / sizeofT) < 2 ^ 32) :
    (if nSize < (roomAfter sizeofT nSize rounds + 5000000 / sizeofT) % 2 ^ 32 then nSize
      else (roomAfter sizeofT nSize rounds + 5000000 / sizeofT) % 2 ^ 32) =
      roomAfter sizeofT nSize (rounds + 1) := by
  unfold roomAfter
  generalize 5000000 / sizeofT = step at h hwrap ⊢
  rw [Nat.succ_mul] at hwrap ⊢
  rw [min_eq_right h.le, Nat.mod_eq_of_lt hwrap]
  split <;> omega

/-- One round reads as many elements as it has made room for. -/
theorem readChunks_round (h : rounds * (5000000 / sizeofT) < nSize)
    (hwrap : (rounds + 1) * (5000000 / sizeofT) < 2 ^ 32) (fuel : Nat) (is : σ) :
    readChunks (readerOf read) init sizeofT nSize (fuel + 1) (roomAfter sizeofT nSize rounds)
        (roomAfter sizeofT nSize rounds)
        (elementsRead read init (roomAfter sizeofT nSize rounds) is).1
        (elementsRead read init (roomAfter sizeofT nSize rounds) is).2 =
      readChunks (readerOf read) init sizeofT nSize fuel (roomAfter sizeofT nSize (rounds + 1))
        (roomAfter sizeofT nSize (rounds + 1))
        (elementsRead read init (roomAfter sizeofT nSize (rounds + 1)) is).1
        (elementsRead read init (roomAfter sizeofT nSize (rounds + 1)) is).2 := by
  have hnext := roomAfter_succ h hwrap
  rw [readChunks, if_pos (roomAfter_lt h)]
  simp only [hnext, readElements_round, Outcome.returned_bind, max_eq_right roomAfter_le_succ]

/-- One round that does not wrap keeps every element. -/
theorem keepsElements_round (h : rounds * (5000000 / sizeofT) < nSize)
    (hwrap : (rounds + 1) * (5000000 / sizeofT) < 2 ^ 32) (fuel : Nat) (is : σ) :
    KeepsElements init sizeofT nSize (readerOf read) (fuel + 1) (roomAfter sizeofT nSize rounds)
        (roomAfter sizeofT nSize rounds)
        (elementsRead read init (roomAfter sizeofT nSize rounds) is).1
        (elementsRead read init (roomAfter sizeofT nSize rounds) is).2 ↔
      KeepsElements init sizeofT nSize (readerOf read) fuel
        (roomAfter sizeofT nSize (rounds + 1)) (roomAfter sizeofT nSize (rounds + 1))
        (elementsRead read init (roomAfter sizeofT nSize (rounds + 1)) is).1
        (elementsRead read init (roomAfter sizeofT nSize (rounds + 1)) is).2 := by
  have hnext := roomAfter_succ h hwrap
  rw [KeepsElements]
  simp only [hnext, readElements_round, max_eq_right roomAfter_le_succ, length_elementsRead]
  constructor
  · intro hkeeps
    exact (hkeeps (roomAfter_lt h)).2 _ _ rfl
  · intro hkeeps _
    refine ⟨roomAfter_le_succ, fun v' is' hread => ?_⟩
    obtain ⟨rfl, rfl⟩ := Prod.ext_iff.mp (Outcome.returned.inj hread)
    exact hkeeps

/-- The loop ends when there is room for all elements. -/
theorem readChunks_done (h : nSize ≤ rounds * (5000000 / sizeofT)) (fuel : Nat) (is : σ) :
    readChunks (readerOf read) init sizeofT nSize (fuel + 1) (roomAfter sizeofT nSize rounds)
        (roomAfter sizeofT nSize rounds)
        (elementsRead read init (roomAfter sizeofT nSize rounds) is).1
        (elementsRead read init (roomAfter sizeofT nSize rounds) is).2 =
      .returned (elementsRead read init nSize is) := by
  have hroom : roomAfter sizeofT nSize rounds = nSize := min_eq_left h
  rw [hroom, readChunks, if_neg (lt_irrefl nSize)]

/-- Rounds that do not wrap around read all elements. -/
theorem readChunks_run (hwrap : ∀ rounds, rounds * (5000000 / sizeofT) < nSize →
      (rounds + 1) * (5000000 / sizeofT) < 2 ^ 32) (left rounds : Nat)
    (h : nSize ≤ (rounds + left) * (5000000 / sizeofT)) (is : σ) :
    readChunks (readerOf read) init sizeofT nSize (left + 1) (roomAfter sizeofT nSize rounds)
        (roomAfter sizeofT nSize rounds)
        (elementsRead read init (roomAfter sizeofT nSize rounds) is).1
        (elementsRead read init (roomAfter sizeofT nSize rounds) is).2 =
      .returned (elementsRead read init nSize is) := by
  induction left generalizing rounds with
  | zero => exact readChunks_done read init h 0 is
  | succ left ih =>
    rcases Nat.lt_or_ge (rounds * (5000000 / sizeofT)) nSize with hlt | hge
    · rw [readChunks_round read init hlt (hwrap rounds hlt)]
      exact ih (rounds + 1) (by rwa [Nat.add_right_comm])
    · exact readChunks_done read init hge (left + 1) is

/-- Rounds that do not wrap around keep all elements. -/
theorem keepsElements_run (hwrap : ∀ rounds, rounds * (5000000 / sizeofT) < nSize →
      (rounds + 1) * (5000000 / sizeofT) < 2 ^ 32) (fuel rounds : Nat) (is : σ) :
    KeepsElements init sizeofT nSize (readerOf read) fuel (roomAfter sizeofT nSize rounds)
      (roomAfter sizeofT nSize rounds)
      (elementsRead read init (roomAfter sizeofT nSize rounds) is).1
      (elementsRead read init (roomAfter sizeofT nSize rounds) is).2 := by
  induction fuel generalizing rounds with
  | zero => trivial
  | succ fuel ih =>
    rcases Nat.lt_or_ge (rounds * (5000000 / sizeofT)) nSize with hlt | hge
    · exact (keepsElements_round read init hlt (hwrap rounds hlt) fuel is).mpr (ih (rounds + 1))
    · have hroom : roomAfter sizeofT nSize rounds = nSize := min_eq_left hge
      intro hround
      exact absurd hround (by rw [hroom]; exact lt_irrefl nSize)

/-- A step of zero never gets anywhere. -/
theorem readChunks_stuck (hn : 0 < nSize) (hzero : 5000000 / sizeofT = 0) (fuel rounds : Nat)
    (is : σ) :
    readChunks (readerOf read) init sizeofT nSize fuel (roomAfter sizeofT nSize rounds)
        (roomAfter sizeofT nSize rounds)
        (elementsRead read init (roomAfter sizeofT nSize rounds) is).1
        (elementsRead read init (roomAfter sizeofT nSize rounds) is).2 = .unfinished := by
  induction fuel generalizing rounds with
  | zero => rfl
  | succ fuel ih =>
    rw [readChunks_round read init (by rwa [hzero, Nat.mul_zero])
      (by rw [hzero, Nat.mul_zero]; exact Nat.two_pow_pos 32)]
    exact ih (rounds + 1)

/-- The round that wraps around discards elements. -/
theorem not_keepsElements_wrapped (hn : nSize < 2 ^ 32)
    (h : rounds * (5000000 / sizeofT) < nSize)
    (hwrap : 2 ^ 32 ≤ (rounds + 1) * (5000000 / sizeofT)) (done more : Nat)
    (hdone : done + more = rounds) (is : σ) :
    ¬ KeepsElements init sizeofT nSize (readerOf read) (more + 1) (roomAfter sizeofT nSize done)
      (roomAfter sizeofT nSize done)
      (elementsRead read init (roomAfter sizeofT nSize done) is).1
      (elementsRead read init (roomAfter sizeofT nSize done) is).2 := by
  induction more generalizing done with
  | zero =>
    obtain rfl : done = rounds := hdone
    intro hkeeps
    have hroom : roomAfter sizeofT nSize done = done * (5000000 / sizeofT) := min_eq_right h.le
    have hstep : 5000000 / sizeofT ≤ 5000000 := Nat.div_le_self _ _
    have hlen := (hkeeps (roomAfter_lt h)).1
    rw [length_elementsRead, hroom, ← Nat.succ_mul, Nat.succ_eq_add_one,
      Nat.mod_eq_sub_mod hwrap] at hlen
    generalize 5000000 / sizeofT = step at *
    rw [Nat.succ_mul] at hlen hwrap
    rw [Nat.mod_eq_of_lt (by omega)] at hlen
    split at hlen <;> omega
  | succ more ih =>
    have hle : (done + 1) * (5000000 / sizeofT) ≤ rounds * (5000000 / sizeofT) :=
      Nat.mul_le_mul_right _ (by omega)
    have hlt : done * (5000000 / sizeofT) < nSize :=
      (Nat.mul_le_mul_right _ (Nat.le_succ done)).trans_lt (hle.trans_lt h)
    rw [keepsElements_round read init hlt (by omega)]
    exact ih (done + 1) (by omega)

/-- No round wraps around exactly when the first multiple of the step that leaves room for
all elements is an `unsigned int`. -/
theorem no_wrap_iff (hn : 0 < nSize) (hstep : 0 < 5000000 / sizeofT) :
    (∀ rounds, rounds * (5000000 / sizeofT) < nSize →
      (rounds + 1) * (5000000 / sizeofT) < 2 ^ 32) ↔
    ((nSize - 1) / (5000000 / sizeofT) + 1) * (5000000 / sizeofT) < 2 ^ 32 := by
  generalize 5000000 / sizeofT = step at hstep ⊢
  constructor
  · intro h
    have hle := Nat.div_mul_le_self (nSize - 1) step
    exact h _ (by omega)
  · intro h rounds hrounds
    have hle : rounds ≤ (nSize - 1) / step := (Nat.le_div_iff_mul_le hstep).mpr (by omega)
    exact (Nat.mul_le_mul_right step (by omega)).trans_lt h

end Rounds

variable [ByteStream σ]

/-- A vector is read off a stream whose length prefix announces a number of elements: the
function returns, each element is read once and in its place, and none is discarded. -/
structure ReadsVector (is is' : σ) (prev : List α) : Prop where
  returned : ∃ fuel, unserializeVector fuel (readerOf read) init sizeofT is prev =
    .returned (elementsRead read init nSize is')
  kept : ∀ fuel, KeepsElements init sizeofT nSize (readerOf read) fuel 0 0 [] is'

/-- With a reader that never throws, a vector is read exactly when it is empty, or the
counter advances and does not wrap around before there is room for all elements. -/
theorem readsVector_iff {is is' : σ} {size : Word 8} (hT : 1 ≤ sizeofT)
    (hsize : readCompactSize is = .returned (size, is')) (hn : size.toNat < 2 ^ 32)
    (prev : List α) :
    ReadsVector read init sizeofT size.toNat is is' prev ↔
      size.toNat = 0 ∨ sizeofT ≤ 5000000 ∧
        ((size.toNat - 1) / (5000000 / sizeofT) + 1) * (5000000 / sizeofT) < 2 ^ 32 := by
  have hroom : roomAfter sizeofT size.toNat 0 = 0 := by rw [roomAfter, Nat.zero_mul, Nat.min_zero]
  have hunsigned : unsignedOf size = size.toNat := Nat.mod_eq_of_lt hn
  have hread : ∀ fuel, unserializeVector fuel (readerOf read) init sizeofT is prev =
      readChunks (readerOf read) init sizeofT size.toNat fuel 0 0 [] is' := by
    intro fuel
    rw [unserializeVector, hsize, Outcome.mapThrow_returned, Outcome.returned_bind]
    simp only [hunsigned]
  constructor
  · rintro ⟨⟨fuel, hreturned⟩, hkept⟩
    refine or_iff_not_imp_left.mpr fun hzero => ?_
    have hpos : 0 < size.toNat := Nat.pos_of_ne_zero hzero
    have hstep : 0 < 5000000 / sizeofT := by
      refine Nat.pos_of_ne_zero fun hstuck => ?_
      have hunfinished := readChunks_stuck read init hpos hstuck fuel 0 is'
      rw [hroom, elementsRead, ← hread, hreturned] at hunfinished
      cases hunfinished
    refine ⟨(Nat.div_pos_iff.mp hstep).2, (no_wrap_iff hpos hstep).mp fun rounds hrounds => ?_⟩
    by_contra hwrap
    have hdiscards := not_keepsElements_wrapped read init hn hrounds (not_lt.mp hwrap) 0 rounds
      (Nat.zero_add rounds) is'
    rw [hroom, elementsRead] at hdiscards
    exact hdiscards (hkept (rounds + 1))
  · intro h
    have hreach : size.toNat ≤ (0 + size.toNat) * (5000000 / sizeofT) := by
      rw [Nat.zero_add]
      rcases h with hzero | ⟨hle, -⟩
      · rw [hzero, Nat.zero_mul]
      · exact Nat.le_mul_of_pos_right _ (Nat.div_pos hle hT)
    have hwrap : ∀ rounds, rounds * (5000000 / sizeofT) < size.toNat →
        (rounds + 1) * (5000000 / sizeofT) < 2 ^ 32 := by
      intro rounds hrounds
      rcases h with hzero | ⟨hle, hlast⟩
      · omega
      · exact (no_wrap_iff (by omega) (Nat.div_pos hle hT)).mpr hlast rounds hrounds
    have hrun := readChunks_run read init hwrap size.toNat 0 hreach is'
    have hkeeps := fun fuel => keepsElements_run read init hwrap fuel 0 is'
    rw [hroom, elementsRead] at hrun
    simp only [hroom, elementsRead] at hkeeps
    exact ⟨⟨_, (hread _).trans hrun⟩, hkeeps⟩

/-- One element of a type of 24 bytes. -/
theorem readsVector_iff_one :
    ReadsVector (fun (is : CDataStream) (x : Byte) => (x + 1, is)) 0 24 1
        (CDataStream.init [1]) (CDataStream.init []) [] ↔
      (1 : Nat) = 0 ∨ 24 ≤ 5000000 ∧ ((1 - 1) / (5000000 / 24) + 1) * (5000000 / 24) < 2 ^ 32 :=
  have hsize : readCompactSize (CDataStream.init [1]) = .returned (1, CDataStream.init []) := rfl
  readsVector_iff _ 0 24 (by decide) hsize (by decide) []

/-- An element that is larger than a chunk is never read. -/
theorem not_readsVector_large :
    ¬ ∀ (sizeofT : Nat) (is is' : CDataStream) (size : Word 8), 1 ≤ sizeofT →
      readCompactSize is = .returned (size, is') → size.toNat < 2 ^ 32 →
        ReadsVector (fun (is : CDataStream) (x : Byte) => (x + 1, is)) 0 sizeofT size.toNat
          is is' [] := by
  intro h
  obtain ⟨⟨fuel, hreturned⟩, -⟩ := h 5000001 (CDataStream.init [1]) (CDataStream.init []) 1
    (by decide) rfl (by decide)
  have hzero : 5000000 / 5000001 = 0 := rfl
  have hunfinished := readChunks_stuck (fun (is : CDataStream) (x : Byte) => (x + 1, is)) 0
    Nat.one_pos hzero fuel 0 (CDataStream.init [])
  cases hunfinished.symm.trans hreturned

end BananaApi.Server
