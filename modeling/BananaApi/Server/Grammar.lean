import BananaApi.Core.WrappingCounter
import BananaApi.Server.CompactSize
import BananaApi.Server.Types

/-!
# The grammar of a type

The language a type's reader takes off its input, and the inputs on which it does
not come back. A count is honoured modulo `2 ^ 32`. There are three ways not to
come back: a string whose size turns negative, an array whose size does, and a
vector whose chunk counter wraps around below the count.
-/

namespace BananaApi.Server

open ByteQueue (Throws unread)

/-- The byte strings of one length. -/
def bytesLang (n : Nat) : Language Byte := {e | e.length = n}

/-- Of length 0 there is the empty word only. -/
theorem bytesLang_zero : bytesLang 0 = 1 := by
  ext e
  exact List.length_eq_zero_iff

/-- Bytes behind bytes. -/
theorem bytesLang_add (a b : Nat) : bytesLang (a + b) = bytesLang a * bytesLang b := by
  ext e
  rw [Language.mem_mul]
  constructor
  · intro he
    have hlen : e.length = a + b := he
    refine ⟨e.take a, ?_, e.drop a, ?_, List.take_append_drop a e⟩
    · exact List.length_take_of_le (by omega)
    · change (e.drop a).length = b
      rw [List.length_drop]
      omega
  · rintro ⟨x, hx, y, hy, rfl⟩
    have hx : x.length = a := hx
    have hy : y.length = b := hy
    change (x ++ y).length = a + b
    rw [List.length_append, hx, hy]

/-- Blocks of one length in a row. -/
theorem bytesLang_pow (a n : Nat) : bytesLang a ^ n = bytesLang (n * a) := by
  induction n with
  | zero => rw [pow_zero, Nat.zero_mul, bytesLang_zero]
  | succ n ih => rw [pow_succ, ih, Nat.succ_mul, bytesLang_add]

/-- A block of a size that fits an `int` is any word of its length. -/
theorem blockLang_of_lt {n : Nat} (h : n < 2 ^ 31) : blockLang n = bytesLang n := by
  ext e
  exact mem_blockLang_of_lt h

/-- The number of elements the chunk loop of a vector reads before its counter
stands still or wraps around. -/
def chunkReach (sizeofT : Nat) : Nat := reach (2 ^ 32) (5000000 / sizeofT)

/-- The encodings of a vector's elements behind the count `n`. -/
def elementsLang (L : Language Byte) (sizeofT n : Nat) : Language Byte :=
  if n ≤ chunkReach sizeofT then L ^ n else 0

/-- The traps among a vector's elements: those of an element, and the end of the
last element in reach. -/
def elementsTrap (L T : Language Byte) (sizeofT n : Nat) : Language Byte :=
  if n ≤ chunkReach sizeofT then repeatTrap L T n
  else repeatTrap L T (chunkReach sizeofT) + L ^ chunkReach sizeofT

/-- A length prefix and what follows it. -/
def counted (body : Nat → Language Byte) : Language Byte :=
  ⨆ size, lengthPrefix size * body (unsignedOf size)

namespace Ty

/-- The complete encodings the reader of a type takes off its input. -/
def lang {κ : Kind} {α : Type} : Ty κ α → Language Byte
  | .integer f => blockLang f.size
  | .bool => blockLang 1
  | .string c => counted fun n => blockLang (n * c)
  | .fundamentals f => counted fun n => bytesLang (n * f.size)
  | .vector t sizeofT => counted (elementsLang t.lang sizeofT)
  | .pair k t => k.lang * t.lang
  | .map _ _ k t => counted fun n => (k.lang * t.lang) ^ n
  | .set _ k => counted fun n => k.lang ^ n
  | .struct _ body => body.lang
  | .done => 1
  | .readwrite t rest => t.lang * rest.lang
  | .flatdata n rest => blockLang n * rest.lang

/-- The inputs behind which the reader of a type fails an assertion or never ends. -/
def trap {κ : Kind} {α : Type} : Ty κ α → Language Byte
  | .integer _ => 0
  | .bool => 0
  | .string c => counted fun n => blockTrap (n * c)
  | .fundamentals _ => 0
  | .vector t sizeofT => counted (elementsTrap t.lang t.trap sizeofT)
  | .pair k t => k.trap + k.lang * t.trap
  | .map _ _ k t => counted (repeatTrap (k.lang * t.lang) (k.trap + k.lang * t.trap))
  | .set _ k => counted (repeatTrap k.lang k.trap)
  | .struct _ body => body.trap
  | .done => 0
  | .readwrite t rest => t.trap + t.lang * rest.trap
  | .flatdata n rest => blockTrap n + blockLang n * rest.trap

end Ty

/-- Rules for the readers of a stream. What `Obeys f L T` says of a reader with the
complete encodings `L` and the traps `T` depends on the stream. -/
class ReadingRules (σ : Type) [ByteStream σ] where
  Obeys {ε α : Type} (f : σ → Outcome ε (α × σ)) (L T : Language Byte) : Prop
  returned {ε α : Type} (a : α) : Obeys (fun s => (.returned (a, s) : Outcome ε (α × σ))) 1 0
  unfinished {ε α : Type} : Obeys (fun _ => (.unfinished : Outcome ε (α × σ))) 0 1
  mapThrow {ε ε' α : Type} {f : σ → Outcome ε (α × σ)} {L T : Language Byte} (g : ε → ε')
    (h : Obeys f L T) : Obeys (fun s => (f s).mapThrow g) L T
  bind {ε α γ : Type} {f : σ → Outcome ε (α × σ)} {g : α → σ → Outcome ε (γ × σ)}
    {L T M U : Language Byte} (hf : Obeys f L T) (hg : ∀ a, Obeys (g a) M U) :
    Obeys (fun s => f s >>= fun p => g p.1 p.2) (L * M) (T + L * U)
  read (n : Nat) :
    Obeys (fun s => ByteStream.read s (intOf n)) (blockLang n) (blockTrap n)
  length {ε γ : Type} {body traps : Nat → Language Byte} (left : σ → ε)
    {rest : Nat → σ → Outcome ε (γ × σ)}
    (h : ∀ n < 2 ^ 32, Obeys (rest n) (body n) (traps n)) :
    Obeys (fun s => (readCompactSize s).mapThrow left >>= fun p => rest (unsignedOf p.1) p.2)
      (counted body) (counted traps)

open ReadingRules (Obeys)

section Rules

variable {σ : Type} [ByteStream σ] [ReadingRules σ] {α β ε γ : Type}

/-- Post-processing the value does not change what is known of a reader. -/
theorem ReadingRules.map {f : σ → Outcome ε (α × σ)} {L T : Language Byte} (g : α → γ)
    (h : Obeys f L T) : Obeys (fun s => f s >>= fun p => .returned (g p.1, p.2)) L T := by
  simpa using ReadingRules.bind (g := fun a s => .returned (g a, s)) h fun a =>
    ReadingRules.returned (g a)

/-- What is known of a reader, whatever its target held. -/
def Follows (f : Unserializer σ α) (L T : Language Byte) : Prop :=
  ∀ a, Obeys (fun s => f s a) L T

section Loops

variable {elem : Unserializer σ α} {L T : Language Byte}

/-- A number of elements in a row, into positions a vector has. -/
theorem readElements_obeys (h : Follows elem L T) (count i : Nat) (v : List α)
    (hi : count ≤ v.length - i) :
    Obeys (readElements elem count i v) (L ^ count) (repeatTrap L T count) := by
  induction count generalizing i v with
  | zero =>
    rw [pow_zero]
    exact ReadingRules.returned v
  | succ count ih =>
    have hlt : i < v.length := by omega
    have hrest (x : α) : Obeys (readElements elem count (i + 1) (v.set i x)) (L ^ count)
        (repeatTrap L T count) :=
      ih (i + 1) (v.set i x) (by rw [List.length_set]; omega)
    have hfirst := ReadingRules.mapThrow (fun p => (v.set i p.1, p.2)) (h v[i])
    have hstep := ReadingRules.bind hfirst hrest
    rw [pow_succ', repeatTrap]
    simpa only [readElements, List.getElem?_eq_getElem hlt] using hstep

/-- The rounds of the chunk loop follow a counter that wraps around. -/
theorem readChunks_obeys (h : Follows elem L T) (init : α) (sizeofT nSize fuel nMid i : Nat)
    (v : List α) :
    Obeys (readChunks elem init sizeofT nSize fuel nMid i v)
      (if (climb (2 ^ 32) (5000000 / sizeofT) nSize fuel nMid i).2 then
        L ^ ((climb (2 ^ 32) (5000000 / sizeofT) nSize fuel nMid i).1 - i) else 0)
      (repeatTrap L T ((climb (2 ^ 32) (5000000 / sizeofT) nSize fuel nMid i).1 - i) +
        if (climb (2 ^ 32) (5000000 / sizeofT) nSize fuel nMid i).2 then 0
        else L ^ ((climb (2 ^ 32) (5000000 / sizeofT) nSize fuel nMid i).1 - i)) := by
  induction fuel generalizing nMid i v with
  | zero =>
    simp only [climb, Nat.sub_self, pow_zero, repeatTrap, zero_add, Bool.false_eq_true, if_false]
    exact ReadingRules.unfinished
  | succ fuel ih =>
    by_cases hlt : nMid < nSize
    · obtain ⟨next, hnext⟩ :
          ∃ next, next = min nSize ((nMid + 5000000 / sizeofT) % 2 ^ 32) := ⟨_, rfl⟩
      obtain ⟨fin, done, hclimb⟩ : ∃ fin done,
          climb (2 ^ 32) (5000000 / sizeofT) nSize fuel next (max i next) = (fin, done) :=
        ⟨_, _, rfl⟩
      have hfin : max i next ≤ fin := by
        have hle := le_climb (K := 2 ^ 32) (q := 5000000 / sizeofT) (n := nSize) fuel next
          (max i next)
        rwa [hclimb] at hle
      have hsplit : fin - i = (next - i) + (fin - max i next) := by omega
      have hround := readElements_obeys h (next - i) i (resize v next init)
        (by rw [length_resize])
      have hloop (w : List α) := ih next (max i next) w
      simp only [hclimb] at hloop
      have hboth := ReadingRules.bind hround hloop
      have hclamp : (if nSize < (nMid + 5000000 / sizeofT) % 2 ^ 32 then nSize
          else (nMid + 5000000 / sizeofT) % 2 ^ 32) = next := by
        rw [hnext, min_def]
        split <;> split <;> omega
      have hshape : (fun s => readElements elem (next - i) i (resize v next init) s >>= fun p =>
          readChunks elem init sizeofT nSize fuel next (max i next) p.1 p.2) =
          readChunks elem init sizeofT nSize (fuel + 1) nMid i v := by
        funext s
        rw [readChunks, if_pos hlt]
        simp only [hclamp]
      rw [hshape] at hboth
      rw [climb, if_pos hlt]
      simp only [← hnext, hclimb]
      rw [hsplit]
      cases done with
      | true =>
        simpa only [if_true, add_zero, pow_add, repeatTrap_add] using hboth
      | false =>
        simpa only [Bool.false_eq_true, if_false, mul_zero, mul_add, pow_add, repeatTrap_add,
          add_assoc] using hboth
    · have hshape : (fun s => Outcome.returned (v, s)) =
          readChunks elem init sizeofT nSize (fuel + 1) nMid i v := by
        funext s
        rw [readChunks, if_neg hlt]
      rw [climb, if_neg hlt, ← hshape]
      simpa [repeatTrap] using ReadingRules.returned v

/-- A number of fresh items in a row, whatever the container keeps of them. -/
theorem insertItems_obeys {c : Comparison α} (h : Follows elem L T) (init : α) (count i : Nat)
    (m : SortedItems c) :
    Obeys (insertItems elem init count i m) (L ^ count) (repeatTrap L T count) := by
  induction count generalizing i m with
  | zero =>
    rw [pow_zero]
    exact ReadingRules.returned (m, i)
  | succ count ih =>
    have hfirst := ReadingRules.mapThrow (fun p => (m, p.2)) (h init)
    have hstep := ReadingRules.bind hfirst fun item => ih (i + 1) (m.insert item)
    rw [pow_succ', repeatTrap]
    simpa only [insertItems] using hstep

/-- The blocks of a vector of a fundamental type. -/
theorem readBlocks_obeys {n nSize : Nat} (hn : 0 < n) (hmax : n < 2 ^ 30)
    (hsize : nSize < 2 ^ 32) (fuel i : Nat) (v : List (Word n)) (hfuel : nSize - i < fuel) :
    Obeys (σ := σ) (readBlocks n nSize fuel i v) (bytesLang ((nSize - i) * n)) 0 := by
  induction fuel generalizing i v with
  | zero => omega
  | succ fuel ih =>
    by_cases hlt : i < nSize
    · obtain ⟨blk, hblk⟩ : ∃ blk, blk = min (nSize - i) (1 + 4999999 / n) := ⟨_, rfl⟩
      have hpos : 0 < blk :=
        hblk ▸ lt_min (by omega) (Nat.lt_of_lt_of_le Nat.one_pos (Nat.le_add_right 1 _))
      have hle : blk ≤ nSize - i := hblk ▸ min_le_left _ _
      have hmost : blk ≤ 1 + 4999999 / n := hblk ▸ min_le_right _ _
      have hnext : (i + blk) % 2 ^ 32 = i + blk := Nat.mod_eq_of_lt (by omega)
      have hbytes : blk * n < 2 ^ 31 := by
        have hle : blk * n ≤ (1 + 4999999 / n) * n := Nat.mul_le_mul_right n hmost
        have hdiv : 4999999 / n * n ≤ 4999999 := Nat.div_mul_le_self _ _
        rw [Nat.add_mul, Nat.one_mul] at hle
        omega
      have hsplit : (nSize - i) * n = blk * n + (nSize - (i + blk)) * n := by
        rw [← Nat.add_mul]
        congr 1
        omega
      have hread := ReadingRules.mapThrow (fun s => (resize v (i + blk) (0 : Word n), s))
        (ReadingRules.read (σ := σ) (blk * n))
      have hboth := ReadingRules.bind hread fun bs =>
        ih (i + blk) (store n (resize v (i + blk) 0) i bs) (by omega)
      rw [blockLang_of_lt hbytes, blockTrap_of_lt hbytes, mul_zero, add_zero] at hboth
      rw [hsplit, bytesLang_add]
      simpa only [readBlocks, hlt, if_true, ← hblk, hnext] using hboth
    · have hdone : nSize - i = 0 := by omega
      rw [hdone, Nat.zero_mul, bytesLang_zero]
      simpa only [readBlocks, hlt, if_false] using ReadingRules.returned v

end Loops

section Templates

variable {f : Unserializer σ α} {g : Unserializer σ β} {L T M U : Language Byte}

/-- An integer is read from a block. -/
theorem readData_obeys {n : Nat} (hn : n < 2 ^ 31) :
    Obeys (σ := σ) (readData n) (blockLang n) 0 := by
  rw [← blockTrap_of_lt hn]
  exact ReadingRules.map (ofLeBytes n) (ReadingRules.read n)

/-- The grammar of an integer. -/
theorem unserializeInteger_follows {n : Nat} (hn : n < 2 ^ 31) :
    Follows (σ := σ) (unserializeInteger n) (blockLang n) 0 :=
  fun a => ReadingRules.mapThrow (fun s => (a, s)) (readData_obeys hn)

theorem unserializeBool_follows : Follows (σ := σ) unserializeBool (blockLang 1) 0 := by
  intro a
  have hread := ReadingRules.mapThrow (fun s => (a, s))
    (readData_obeys (σ := σ) (n := 1) (by omega))
  exact ReadingRules.map (fun f => decide (f ≠ 0)) hread

/-- Characters are read from one block, which may be too big for an `int`. -/
theorem readCharacters_obeys (c n : Nat) (str : List (Word c)) :
    Obeys (σ := σ) (readCharacters c n str) (blockLang (n * c)) (blockTrap (n * c)) := by
  by_cases h0 : n = 0
  · have hpos : 0 * c < 2 ^ 31 := by rw [Nat.zero_mul]; decide
    rw [h0, readCharacters_zero, blockLang_of_lt hpos, blockTrap_of_lt hpos, Nat.zero_mul,
      bytesLang_zero]
    exact ReadingRules.returned _
  · have hblock := ReadingRules.mapThrow (fun s => (resize str n (0 : Word c), s))
      (ReadingRules.read (σ := σ) (n * c))
    rw [readCharacters_of_ne h0]
    exact ReadingRules.map (store c (resize str n 0) 0) hblock

theorem unserializeString_follows (c : Nat) : Follows (σ := σ) (unserializeString c)
    (counted fun n => blockLang (n * c)) (counted fun n => blockTrap (n * c)) :=
  fun str => ReadingRules.length _ fun n _ => readCharacters_obeys c n str

/-- The grammar of a vector of integers, whose blocks are small enough. -/
theorem unserializeFundamentals_follows {fuel n : Nat} (hfuel : 2 ^ 32 ≤ fuel) (hn : 0 < n)
    (hmax : n < 2 ^ 30) :
    Follows (σ := σ) (unserializeFundamentals fuel n) (counted fun k => bytesLang (k * n)) 0 := by
  intro v
  have hzero : (counted fun _ => 0) = (0 : Language Byte) := by
    simp only [counted, mul_zero]
    exact iSup_const
  rw [← hzero]
  exact ReadingRules.length _ fun k hk => readBlocks_obeys hn hmax hk fuel 0 [] (by omega)

/-- The whole chunk loop stops at the reach of its counter. -/
theorem readChunks_start_obeys {fuel : Nat} (hfuel : 2 ^ 32 ≤ fuel) (h : Follows f L T)
    (init : α) (sizeofT n : Nat) :
    Obeys (readChunks f init sizeofT n fuel 0 0 []) (elementsLang L sizeofT n)
      (elementsTrap L T sizeofT n) := by
  have hloop := readChunks_obeys h init sizeofT n fuel 0 0 []
  rw [climb_eq (Nat.two_pow_pos 32) hfuel] at hloop
  unfold elementsLang elementsTrap chunkReach
  by_cases hreach : n ≤ reach (2 ^ 32) (5000000 / sizeofT)
  · simpa only [hreach, if_true, Nat.sub_zero, add_zero] using hloop
  · simpa only [hreach, if_false, Bool.false_eq_true, Nat.sub_zero] using hloop

/-- The grammar of a vector, with the traps of its elements and of its rounds. -/
theorem unserializeVector_follows {fuel : Nat} (hfuel : 2 ^ 32 ≤ fuel) (h : Follows f L T)
    (init : α) (sizeofT : Nat) :
    Follows (unserializeVector fuel f init sizeofT) (counted (elementsLang L sizeofT))
      (counted (elementsTrap L T sizeofT)) :=
  fun _ => ReadingRules.length _ fun n _ => readChunks_start_obeys hfuel h init sizeofT n

/-- The grammar of a pair: the second component may be a trap behind the first one. -/
theorem unserializePair_follows (hf : Follows f L T) (hg : Follows g M U) :
    Follows (unserializePair f g) (L * M) (T + L * U) := by
  intro p
  have hsecond (first : α) :=
    ReadingRules.map (Prod.mk first) (ReadingRules.mapThrow (fun l => ((first, l.1), l.2)) (hg p.2))
  exact ReadingRules.bind (ReadingRules.mapThrow (fun l => ((l.1, p.2), l.2)) (hf p.1)) hsecond

/-- The grammar of a map or a set. -/
theorem unserializeItems_follows {c : Comparison α} (h : Follows f L T) (init : α) :
    Follows (unserializeItems (c := c) f init) (counted fun n => L ^ n)
      (counted (repeatTrap L T)) :=
  fun _ => ReadingRules.map Prod.fst
    (ReadingRules.length _ fun n _ => insertItems_obeys h init n 0 SortedItems.empty)

theorem unserializeFlatData_follows (n : Nat) :
    Follows (σ := σ) (unserializeFlatData n) (blockLang n) (blockTrap n) :=
  fun obj => ReadingRules.map (overwriteArray obj)
    (ReadingRules.mapThrow (fun s => (obj, s)) (ReadingRules.read n))

end Templates

/-- The reader of a type follows the grammar of the type. -/
theorem Ty.unserialize_follows {fuel : Nat} (hfuel : 2 ^ 32 ≤ fuel) {κ : Kind} {α : Type}
    (t : Ty κ α) : Follows (σ := σ) (t.unserialize fuel) t.lang t.trap := by
  induction t with
  | integer f => exact unserializeInteger_follows (f.size_le.trans_lt (by omega))
  | bool => exact unserializeBool_follows
  | string c => exact unserializeString_follows c
  | fundamentals f =>
    exact unserializeFundamentals_follows hfuel f.size_pos (f.size_le.trans_lt (by omega))
  | vector t sizeofT ih => exact unserializeVector_follows hfuel ih t.init sizeofT
  | pair k t ihk iht => exact unserializePair_follows ihk iht
  | map β pred k t ihk iht => exact unserializeItems_follows (unserializePair_follows ihk iht) _
  | set pred k ih => exact unserializeItems_follows ih _
  | struct members body ih =>
    intro a
    have hbody := ReadingRules.mapThrow (fun p => (members.symm p.1, p.2)) (ih (members a))
    exact ReadingRules.map members.symm hbody
  | done => exact fun a => ReadingRules.returned a
  | readwrite t rest iht ihrest => exact unserializePair_follows iht ihrest
  | flatdata n rest ih => exact unserializePair_follows (unserializeFlatData_follows n) ih

end Rules

/-- The readers of a queue recognize their encodings and their traps. -/
instance : ReadingRules ByteQueue where
  Obeys f L T := Recognizes Throws unread f L T
  returned a := Recognizes.pure a
  unfinished := Recognizes.stuck Outcome.stuck_unfinished
  mapThrow g h := h.mapThrow g
  bind hf hg := hf.bind hg
  read n := ByteQueue.read_recognizes n
  length left rest h := by
    have hlength := readCompactSize_reads.mapThrow left
    exact Recognizes.bind_value hlength fun size =>
      h (unsignedOf size) (Nat.mod_lt _ (Nat.two_pow_pos 32))

/-- The reader of a type recognizes the grammar of the type on every queue. -/
theorem Ty.unserialize_recognizes {fuel : Nat} (hfuel : 2 ^ 32 ≤ fuel) {κ : Kind} {α : Type}
    (t : Ty κ α) (prev : α) :
    Recognizes Throws unread (fun q => t.unserialize fuel q prev) t.lang t.trap :=
  t.unserialize_follows (σ := ByteQueue) hfuel prev

end BananaApi.Server
