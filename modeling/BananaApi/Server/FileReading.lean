import BananaApi.Server.AutoFile
import BananaApi.Server.PairedReaders

/-!
# Reading from a file

Every type is read from a file as it is read from memory: the same bytes give the same
value and leave the same rest. The two readers differ in how they fail. A short read of a
file throws at its end; where a read from memory fails its assertion, because a size has
turned negative, the read of the file is refused, and throws too.
-/

namespace BananaApi.Server

section Mirroring

variable {σ τ : Type} [ByteStream σ] [ByteStream τ] {D A : String → τ → Prop} {R : σ → τ → Prop}

/-- Programs whose runs mirror each other, from streams whose reads do. -/
def mirroring (hR : MirrorsReads D A R) : PairedReading σ τ where
  Paired _ left' f g := ∀ s t, R s t →
    Outcome.Mirrors (fun what e => D what (left' e)) (fun what e => A what (left' e)) (SameValue R)
      (f s) (g t)
  returned a _ _ hst := .returned (sameValue a hst)
  unfinished _ _ _ := .unfinished
  overran _ _ _ := .overran
  mapThrow _ hv h s t hst :=
    (h s t hst).mapThrow (fun _ e hd => by rwa [hv e]) fun _ e ha => by rwa [hv e]
  bind h h' s t hst := (h s t hst).bindValue fun a s t hst => h' a s t hst
  read n s t hst := hR s t _ (le_intOf n) (intOf_lt n) hst

/-- The readers of every type mirror each other when the reads of the two streams do. -/
theorem Ty.unserialize_mirrors (hR : MirrorsReads D A R) (fuel : Nat) {κ : Kind} {α : Type}
    (t : Ty κ α) (s : σ) (u : τ) (prev : α) (hsu : R s u) :
    Outcome.Mirrors (fun what (p : α × τ) => D what p.2) (fun what p => A what p.2) (SameValue R)
      (t.unserialize fuel s prev) (t.unserialize fuel u prev) :=
  PairedReading.unserialize (P := mirroring hR) fuel t prev s u hsu

end Mirroring

/-! ## A file and the same bytes in memory -/

/-- A short queue and a file with the same bytes ahead, both of which throw. -/
structure ReadsAlike (q : ByteQueue) (s : CAutoFile) : Prop where
  throws : q.Throws
  short : q.unread.length < 2 ^ 31
  holds : s.Holds q.unread

/-- A file that is too short fails at its end. -/
def EndOfFile (what : String) (s : CAutoFile) : Prop :=
  what = "CAutoFile::read : end of file" ∧ s.AtEnd

/-- A read that is refused fails with the file as it was. -/
def FreadFailed (what : String) (s : CAutoFile) : Prop :=
  what = "CAutoFile::read : fread failed" ∧ ∃ bytes, s.Refused bytes

/-- A read of a file mirrors the read of the same bytes in memory. -/
theorem readsAlike_mirrors : MirrorsReads EndOfFile FreadFailed ReadsAlike := by
  rintro q s n hle hlt ⟨hq, hshort, hs⟩
  change Outcome.Mirrors _ _ _ (q.read n) (s.read n)
  by_cases hneg : n < 0
  · obtain ⟨s', hread, hrefused⟩ := hs.read_negative hneg hle
    rw [ByteQueue.read, if_pos hneg, hread]
    exact .aborted ⟨rfl, _, hrefused⟩
  · obtain ⟨k, rfl⟩ := Int.eq_ofNat_of_zero_le (by omega : 0 ≤ n)
    have hk : k < 2 ^ 31 := by omega
    by_cases hfits : k ≤ q.unread.length
    · obtain ⟨s', hread, hs'⟩ := hs.read_of_le hk hfits
      have hqueue : q.read k = _ := ByteQueue.read_of_le hfits
      rw [hqueue, hread]
      refine .returned (sameValue _ ⟨hq, ?_, hs'⟩)
      rw [List.length_drop]
      omega
    · obtain ⟨s', hread, hend⟩ := hs.read_short hk (not_le.mp hfits)
      have hqueue : q.read k = _ := ByteQueue.read_short hq (not_le.mp hfits)
      rw [hqueue, hread]
      exact .threw ⟨rfl, hend⟩

/-- What is ahead in a file is determined. -/
theorem CAutoFile.Holds.unique {s : CAutoFile} {bytes bytes' : List Byte} (h : s.Holds bytes)
    (h' : s.Holds bytes') : bytes = bytes' := by
  obtain ⟨-, f, hf, -, -, rfl⟩ := h
  obtain ⟨-, f', hf', -, -, rfl⟩ := h'
  rw [Option.some.inj (hf.symm.trans hf')]

/-- A run over a file beside the same run over memory: they return the same and leave the
same rest; where memory throws the file throws at its end, and where memory fails an assertion
the file throws because a read is refused. -/
structure ReadsLikeMemory {α : Type} (o : Outcome (α × CDataStream) (α × CDataStream))
    (o' : Outcome (α × CAutoFile) (α × CAutoFile)) : Prop where
  returned_iff : ∀ v rest, (∃ s', o' = .returned (v, s') ∧ s'.Holds rest) ↔
    ∃ s', o = .returned (v, s') ∧ s'.unread = rest
  threw_iff : o'.Threw ↔ o.Threw ∨ o = .aborted
  unfinished_iff : o' = .unfinished ↔ o = .unfinished
  ne_aborted : o' ≠ .aborted
  ne_overran : o' ≠ .overran
  endOfFile : o.Threw → ∃ what p, o' = .threw what p ∧ EndOfFile what p.2
  freadFailed : o = .aborted → ∃ what p, o' = .threw what p ∧ FreadFailed what p.2

/-- Every type is read from every file of fewer than 2 GiB as from the same bytes in memory. -/
theorem CAutoFile.shiftRight_readsLikeMemory {a : Bool} {α : Type} (t : Ty (.object a) α)
    {fuel : Nat} (hfuel : 2 ^ 32 ≤ fuel) {s : CDataStream} (hw : s.WellFormed)
    (hs : s.vch.length < 2 ^ 31) (hm : s.exceptmask = CDataStream.defaultMask) {f : CAutoFile}
    (hf : f.Holds s.unread) (prev : α) :
    ReadsLikeMemory (t.unserialize fuel s prev) (f.shiftRight fuel t prev) := by
  have hq : s.queue.Throws := CDataStream.throws_of_defaultMask hm
  have hopen : f.shiftRight fuel t prev = t.unserialize fuel f prev := by
    obtain ⟨-, file, hfile, -⟩ := hf
    simp only [shiftRight, hfile]
  have hshort : s.unread.length < 2 ^ 31 := by
    rw [s.length_unread, CDataStream.size]
    omega
  have hmemory := t.unserialize_queue fuel hw hs prev
  have hmirrors := t.unserialize_mirrors readsAlike_mirrors fuel s.queue f prev ⟨hq, hshort, hf⟩
  have hbounded := (t.unserialize_recognizes hfuel prev).bounded s.queue hq
  rw [hopen]
  refine ⟨fun v rest => ⟨?_, ?_⟩, ?_, ?_, hmirrors.right_ne_aborted, ?_,
    fun hthrew => hmirrors.threw_left (hmemory.threw_iff.mp hthrew),
    fun haborted => hmirrors.aborted_left (hmemory.aborted_iff.mp haborted)⟩
  · rintro ⟨f', hf', hrest⟩
    obtain ⟨⟨v', q'⟩, hq', hvalue, halike⟩ := hmirrors.returned_right hf'
    obtain ⟨⟨v'', s'⟩, hs', hvalue', hrefines⟩ := hmemory.returned_right hq'
    obtain rfl : v' = v := hvalue
    obtain rfl : v'' = v' := hvalue'
    exact ⟨s', hs', hrefines.unread.trans (halike.holds.unique hrest)⟩
  · rintro ⟨s', hs', rfl⟩
    obtain ⟨⟨v', q'⟩, hq', hvalue, hrefines⟩ := hmemory.returned_left hs'
    obtain ⟨⟨v'', f'⟩, hf', hvalue', halike⟩ := hmirrors.returned_left hq'
    obtain rfl : v = v' := hvalue
    obtain rfl : v = v'' := hvalue'
    exact ⟨f', hf', by rw [hrefines.unread]; exact halike.holds⟩
  · rw [hmirrors.threw_iff, hmemory.threw_iff, hmemory.aborted_iff]
  · rw [hmirrors.unfinished_iff, hmemory.unfinished_iff]
  · intro hoverran
    generalize t.unserialize fuel s.queue prev = o at hmirrors hbounded
    rw [hoverran] at hmirrors
    cases hmirrors
    exact hbounded rfl

/-- A string whose size turns negative: memory fails its assertion, the read of the file is
refused. -/
theorem CAutoFile.shiftRight_readsLikeMemory_string :
    ReadsLikeMemory
      ((Ty.string 1).unserialize (2 ^ 32) (CDataStream.init [0xFE, 0, 0, 0, 0x80]) [])
      ((new (some ⟨.opened 0, [0xFE, 0, 0, 0, 0x80], 0, false, true, false, 0⟩)).shiftRight
        (2 ^ 32) (Ty.string 1) []) := by
  have hf := holds_new (f := ⟨.opened 0, [0xFE, 0, 0, 0, 0x80], 0, false, true, false, 0⟩) rfl rfl
  exact shiftRight_readsLikeMemory (Ty.string 1) le_rfl (CDataStream.wellFormed_init _) (by decide)
    rfl hf []

end BananaApi.Server
