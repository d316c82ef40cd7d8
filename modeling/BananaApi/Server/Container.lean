import BananaApi.Server.Grammar
import BananaApi.Server.Simulation

/-!
# Containers

The types that announce the number of their elements. A container is read here
along with the number of elements it decodes: for a `map` or a `set` this counts the
items read, whether or not they were already there.
-/

namespace BananaApi.Server

open ReadingRules (Obeys)

section Counts

variable {σ α : Type}

/-- A string that was read has the length of its prefix. -/
theorem length_readCharacters [ByteStream σ] {c n : Nat} {str str' : List (Word c)} {s s' : σ}
    (h : readCharacters c n str s = .returned (str', s')) : str'.length = n := by
  unfold readCharacters at h
  split at h
  · obtain ⟨⟨bs, s₁⟩, _, hstr⟩ := Outcome.bind_eq_returned.mp h
    cases hstr
    rw [length_store, length_resize]
  · cases h
    rw [length_resize]

/-- The block loop fills the vector up to the announced size. -/
theorem length_readBlocks [ByteStream σ] {n nSize fuel i : Nat} (hsize : nSize < 2 ^ 32)
    {v v' : List (Word n)} {s s' : σ} (hv : v.length = i) (hi : i ≤ nSize)
    (h : readBlocks n nSize fuel i v s = .returned (v', s')) : v'.length = nSize := by
  induction fuel generalizing i v s with
  | zero => cases h
  | succ fuel ih =>
    unfold readBlocks at h
    split at h
    · obtain ⟨blk, hblk⟩ : ∃ blk, blk = min (nSize - i) (1 + 4999999 / n) := ⟨_, rfl⟩
      have hle : blk ≤ nSize - i := hblk ▸ min_le_left _ _
      have hnext : (i + blk) % 2 ^ 32 = i + blk := Nat.mod_eq_of_lt (by omega)
      simp only [← hblk, hnext] at h
      obtain ⟨⟨bs, s₁⟩, _, hrest⟩ := Outcome.bind_eq_returned.mp h
      exact ih (by rw [length_store, length_resize]) (by omega) hrest
    · cases h
      omega

/-- Elements are read in place. -/
theorem length_readElements {elem : Unserializer σ α} {count i : Nat} {v v' : List α} {s s' : σ}
    (h : readElements elem count i v s = .returned (v', s')) : v'.length = v.length := by
  induction count generalizing i v s with
  | zero =>
    cases h
    rfl
  | succ count ih =>
    unfold readElements at h
    split at h
    · cases h
    · obtain ⟨⟨x, s₁⟩, _, hrest⟩ := Outcome.bind_eq_returned.mp h
      rw [ih hrest, List.length_set]

/-- The chunk loop only ends with the vector at the announced size. -/
theorem length_readChunks {elem : Unserializer σ α} {init : α} {sizeofT nSize fuel nMid i : Nat}
    {v v' : List α} {s s' : σ} (hv : v.length = nMid) (hmid : nMid ≤ nSize)
    (h : readChunks elem init sizeofT nSize fuel nMid i v s = .returned (v', s')) :
    v'.length = nSize := by
  induction fuel generalizing nMid i v s with
  | zero => cases h
  | succ fuel ih =>
    unfold readChunks at h
    split at h
    · obtain ⟨⟨w, s₁⟩, hround, hrest⟩ := Outcome.bind_eq_returned.mp h
      refine ih ?_ ?_ hrest
      · rw [length_readElements hround, length_resize]
      · split <;> omega
    · cases h
      omega

/-- The loop counts the items it has read, also those that were not new. -/
theorem count_insertItems {c : Comparison α} {elem : Unserializer σ α} {init : α}
    {count i k : Nat} {m m' : SortedItems c} {s s' : σ}
    (h : insertItems elem init count i m s = .returned ((m', k), s')) : k = i + count := by
  induction count generalizing i m s with
  | zero =>
    cases h
    rfl
  | succ count ih =>
    obtain ⟨⟨x, s₁⟩, _, hrest⟩ := Outcome.bind_eq_returned.mp h
    rw [ih hrest]
    omega

end Counts

/-- The types that announce the number of their elements. -/
inductive Container : Type → Type 1 where
  | string (c : Nat) : Container (List (Word c))
  | fundamentals (f : Fundamental) : Container (List (Word f.size))
  | vector {α : Type} (t : Ty (.object false) α) (sizeofT : Nat) : Container (List α)
  | map {α : Type} (β : Type) {a b : Bool} (pred : Comparison α) (k : Ty (.object a) α)
      (t : Ty (.object b) β) : Container (SortedItems (pred.onKey β))
  | set {α : Type} {a : Bool} (pred : Comparison α) (k : Ty (.object a) α) :
      Container (SortedItems pred)

namespace Container

variable {α : Type}

/-- The container as a type. -/
def ty {α : Type} : Container α → Ty (.object false) α
  | .string c => .string c
  | .fundamentals f => .fundamentals f
  | .vector t sizeofT => .vector t sizeofT
  | .map β pred k t => .map β pred k t
  | .set pred k => .set pred k

/-- The encodings of one element. -/
def element {α : Type} : Container α → Language Byte
  | .string c => bytesLang c
  | .fundamentals f => bytesLang f.size
  | .vector t _ => t.lang
  | .map _ _ k t => k.lang * t.lang
  | .set _ k => k.lang

/-- What the reader takes off its input behind the count `n`. -/
def body {α : Type} : Container α → Nat → Language Byte
  | .string c, n => blockLang (n * c)
  | .fundamentals f, n => bytesLang (n * f.size)
  | .vector t sizeofT, n => elementsLang t.lang sizeofT n
  | .map _ _ k t, n => (k.lang * t.lang) ^ n
  | .set _ k, n => k.lang ^ n

/-- The announced number, and the bytes of that many characters, fit 32 bits. -/
def Fits {α : Type} : Container α → Nat → Prop
  | .string c, n => n < 2 ^ 32 ∧ n * c < 2 ^ 32
  | .fundamentals _, n => n < 2 ^ 32
  | .vector _ _, n => n < 2 ^ 32
  | .map _ _ _ _, n => n < 2 ^ 32
  | .set _ _, n => n < 2 ^ 32

section Reading

variable {σ : Type} [ByteStream σ]

/-- What the target holds while the length is read. -/
def cleared {α : Type} : Container α → α → α
  | .string _, prev => prev
  | .fundamentals _, _ => []
  | .vector _ _, _ => []
  | .map _ _ _ _, _ => .empty
  | .set _ _, _ => .empty

/-- Reading behind the length, together with the number of elements decoded. -/
def readItems {α : Type} (fuel nSize : Nat) :
    Container α → α → σ → Outcome (α × σ) ((α × Nat) × σ)
  | .string c, prev, s => do
    let (str, s) ← readCharacters c nSize prev s
    .returned ((str, str.length), s)
  | .fundamentals f, _, s => do
    let (v, s) ← readBlocks f.size nSize fuel 0 [] s
    .returned ((v, v.length), s)
  | .vector t sizeofT, _, s => do
    let (v, s) ← readChunks (t.unserialize fuel) t.init sizeofT nSize fuel 0 0 [] s
    .returned ((v, v.length), s)
  | .map _ _ k t, _, s =>
    insertItems (unserializePair (k.unserialize fuel) (t.unserialize fuel)) (k.init, t.init)
      nSize 0 .empty s
  | .set _ k, _, s => insertItems (k.unserialize fuel) k.init nSize 0 .empty s

/-- `Unserialize` together with the number of elements it decodes. -/
def decode (fuel : Nat) (c : Container α) (s : σ) (prev : α) :
    Outcome (α × σ) ((α × Nat) × σ) := do
  let (size, s) ← (readCompactSize s).mapThrow fun s => (c.cleared prev, s)
  c.readItems fuel (unsignedOf size) prev s

/-- Counting the elements does not change what is read. -/
theorem unserialize_eq_decode (fuel : Nat) (c : Container α) (s : σ) (prev : α) :
    c.ty.unserialize fuel s prev =
      (c.decode fuel s prev >>= fun p => .returned (p.1.1, p.2)) := by
  rw [decode, Outcome.bind_assoc]
  cases c with
  | string c =>
    simp only [readItems, Outcome.bind_assoc, Outcome.returned_bind, Prod.mk.eta,
      Outcome.bind_returned]
    rfl
  | fundamentals f =>
    simp only [readItems, Outcome.bind_assoc, Outcome.returned_bind, Prod.mk.eta,
      Outcome.bind_returned]
    rfl
  | vector t sizeofT =>
    simp only [readItems, Outcome.bind_assoc, Outcome.returned_bind, Prod.mk.eta,
      Outcome.bind_returned]
    rfl
  | map β pred k t => exact Outcome.bind_assoc _ _ _
  | set pred k => exact Outcome.bind_assoc _ _ _

/-- A container that was read holds a length and the items behind it. -/
theorem decode_eq_returned {fuel : Nat} {c : Container α} {s s' : σ} {prev : α} {x : α × Nat} :
    c.decode fuel s prev = .returned (x, s') ↔ ∃ size s₁,
      readCompactSize s = .returned (size, s₁) ∧
        c.readItems fuel (unsignedOf size) prev s₁ = .returned (x, s') := by
  simp only [decode, Outcome.bind_eq_returned, Outcome.mapThrow_eq_returned, Prod.exists]

/-- The number of elements decoded is the number that is kept of the announced one. -/
theorem count_readItems {fuel nSize : Nat} (hsize : nSize < 2 ^ 32) {c : Container α} {s s' : σ}
    {prev v : α} {k : Nat} (h : c.readItems fuel nSize prev s = .returned ((v, k), s')) :
    k = nSize := by
  cases c with
  | string c =>
    obtain ⟨⟨str, s₁⟩, hread, hv⟩ := Outcome.bind_eq_returned.mp h
    cases hv
    exact length_readCharacters hread
  | fundamentals f =>
    obtain ⟨⟨w, s₁⟩, hread, hv⟩ := Outcome.bind_eq_returned.mp h
    cases hv
    exact length_readBlocks hsize List.length_nil (Nat.zero_le _) hread
  | vector t sizeofT =>
    obtain ⟨⟨w, s₁⟩, hread, hv⟩ := Outcome.bind_eq_returned.mp h
    cases hv
    exact length_readChunks List.length_nil (Nat.zero_le _) hread
  | map β pred k t => exact (count_insertItems h).trans (Nat.zero_add _)
  | set pred k => exact (count_insertItems h).trans (Nat.zero_add _)

/-- What follows the length obeys the grammar of the items. -/
theorem readItems_obeys [ReadingRules σ] {fuel nSize : Nat} (hfuel : 2 ^ 32 ≤ fuel)
    (hsize : nSize < 2 ^ 32) (c : Container α) (prev : α) :
    ∃ T, Obeys (σ := σ) (c.readItems fuel nSize prev) (c.body nSize) T := by
  cases c with
  | string c =>
    exact ⟨_, ReadingRules.map (fun str => (str, str.length)) (readCharacters_obeys c nSize prev)⟩
  | fundamentals f =>
    have hblocks := readBlocks_obeys (σ := σ) f.size_pos (f.size_le.trans_lt (by omega)) hsize fuel
      0 [] (by omega)
    exact ⟨_, ReadingRules.map (fun v => (v, v.length)) hblocks⟩
  | vector t sizeofT =>
    have hchunks := readChunks_start_obeys (σ := σ) hfuel (t.unserialize_follows hfuel) t.init
      sizeofT nSize
    exact ⟨_, ReadingRules.map (fun v => (v, v.length)) hchunks⟩
  | map β pred k t =>
    have hitem := unserializePair_follows (σ := σ) (k.unserialize_follows hfuel)
      (t.unserialize_follows hfuel)
    exact ⟨_, insertItems_obeys hitem _ nSize 0 .empty⟩
  | set pred k =>
    exact ⟨_, insertItems_obeys (k.unserialize_follows hfuel) _ nSize 0 .empty⟩

section Simulation

variable {τ : Type} [ByteStream τ] {lax : Prop} {R : σ → τ → Prop} (hR : ReadSimulation lax R)

include hR

/-- The items of a container are read alike from related streams. -/
theorem readItems_rel (fuel nSize : Nat) (c : Container α) (prev : α) {s : σ} {t : τ}
    (h : R s t) :
    Outcome.Rel lax (SameValue R) (SameValue R) (c.readItems fuel nSize prev s)
      (c.readItems fuel nSize prev t) := by
  cases c with
  | string c =>
    apply (readCharacters_rel hR c nSize prev h).bindValue
    intro str s t h
    exact .returned (sameValue _ h)
  | fundamentals f =>
    apply (readBlocks_rel hR f.size nSize fuel 0 [] h).bindValue
    intro v s t h
    exact .returned (sameValue _ h)
  | vector u sizeofT =>
    apply (readChunks_rel (u.unserialize_rel hR fuel) u.init sizeofT nSize fuel 0 0 [] h).bindValue
    intro v s t h
    exact .returned (sameValue _ h)
  | map β pred k u =>
    exact insertItems_rel (unserializePair_rel (k.unserialize_rel hR fuel)
      (u.unserialize_rel hR fuel)) _ nSize 0 _ h
  | set pred k => exact insertItems_rel (k.unserialize_rel hR fuel) _ nSize 0 _ h

/-- Containers are read alike over two streams that read alike. -/
theorem decode_rel (fuel : Nat) (c : Container α) (prev : α) {s : σ} {t : τ} (h : R s t) :
    Outcome.Rel lax (SameValue R) (SameValue R) (c.decode fuel s prev) (c.decode fuel t prev) :=
  (length_rel hR (c.cleared prev) h).bindValue fun _ _ _ h => readItems_rel hR fuel _ c prev h

end Simulation

end Reading

end Container

end BananaApi.Server
