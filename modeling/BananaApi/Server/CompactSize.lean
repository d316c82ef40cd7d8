import BananaApi.Core.Recognizer
import BananaApi.Server.ByteQueue
import BananaApi.Server.Serialize

/-!
# Blocks and length prefixes

What a single read, an integer and a length prefix take off the unread bytes. A
block whose size turns negative as an `int` is a trap. A length prefix has up to
four forms, all of which are accepted; the writer emits the shortest.
-/

namespace BananaApi.Server

/-- The byte strings a read of `n` bytes delivers, with `n` converted to `int`. -/
def blockLang (n : Nat) : Language Byte := {e | n % 2 ^ 32 < 2 ^ 31 ∧ e.length = n % 2 ^ 32}

/-- A read whose size turns negative fails an assertion before it looks at the bytes. -/
def blockTrap (n : Nat) : Language Byte := {e | 2 ^ 31 ≤ n % 2 ^ 32 ∧ e = []}

/-- A block is a word of its length, if this fits an `int`. -/
theorem mem_blockLang {n : Nat} {e : List Byte} :
    e ∈ blockLang n ↔ n % 2 ^ 32 < 2 ^ 31 ∧ e.length = n % 2 ^ 32 := Iff.rfl

/-- A block of a size that fits an `int` is any word of its length. -/
theorem mem_blockLang_of_lt {n : Nat} (h : n < 2 ^ 31) {e : List Byte} :
    e ∈ blockLang n ↔ e.length = n := by
  rw [mem_blockLang, Nat.mod_eq_of_lt (by omega)]
  exact and_iff_right h

/-- A size that does not fit an `int` is a trap wherever it is met. -/
theorem hasPrefixIn_blockTrap {n : Nat} {bs : List Byte} :
    HasPrefixIn (blockTrap n) bs ↔ 2 ^ 31 ≤ n % 2 ^ 32 := by
  constructor
  · rintro ⟨e, ⟨h, _⟩, _⟩
    exact h
  · intro h
    exact ⟨[], ⟨h, rfl⟩, List.nil_prefix⟩

/-- A size that fits an `int` is no trap. -/
theorem blockTrap_of_lt {n : Nat} (h : n < 2 ^ 31) : blockTrap n = 0 := by
  ext e
  refine iff_of_false ?_ (Language.notMem_zero e)
  rintro ⟨hn, _⟩
  omega

namespace ByteQueue

/-- One read takes exactly a block off the queue. -/
theorem read_recognizes (n : Nat) :
    Recognizes Throws unread (fun q => ByteStream.read q (intOf n)) (blockLang n)
      (blockTrap n) := by
  by_cases hn : n % 2 ^ 32 < 2 ^ 31
  · have hint : intOf n = (n % 2 ^ 32 : Nat) := intOf_of_mod_lt hn
    have hback : ∀ q : ByteQueue, q.Throws → ∀ bs q', ByteStream.read q (intOf n) =
        .returned (bs, q') → n % 2 ^ 32 ≤ q.unread.length ∧
          q' = { q with unread := q.unread.drop (n % 2 ^ 32) } := by
      intro q hq bs q' h
      rw [hint] at h
      by_cases hle : n % 2 ^ 32 ≤ q.unread.length
      · rw [read_of_le hle] at h
        cases h
        exact ⟨hle, rfl⟩
      · rw [read_short hq (by omega)] at h
        cases h
    refine ⟨?_, ?_, ?_, ?_⟩
    · intro q hq bs q' h
      obtain ⟨_, rfl⟩ := hback q hq bs q' h
      exact hq
    · intro q hq r
      constructor
      · rintro ⟨bs, q', h, rfl⟩
        obtain ⟨hle, rfl⟩ := hback q hq bs q' h
        exact ⟨q.unread.take (n % 2 ^ 32), ⟨hn, List.length_take_of_le hle⟩,
          (List.take_append_drop _ _).symm⟩
      · rintro ⟨e, ⟨_, he⟩, hu⟩
        exact ⟨e, _, by rw [hint]; exact read_append he hu, rfl⟩
    · intro q hq
      rw [hasPrefixIn_blockTrap, hint]
      refine iff_of_false ?_ (by omega)
      by_cases hle : n % 2 ^ 32 ≤ q.unread.length
      · rw [read_of_le hle]
        exact Outcome.not_stuck_returned _
      · rw [read_short hq (by omega)]
        exact Outcome.not_stuck_threw _ _
    · intro q hq
      rw [hint]
      by_cases hle : n % 2 ^ 32 ≤ q.unread.length
      · rw [read_of_le hle]
        simp
      · rw [read_short hq (by omega)]
        simp
  · have hneg : intOf n < 0 := (intOf_neg_iff n).mpr (by omega)
    have habort : ∀ q : ByteQueue, ByteStream.read q (intOf n) = .aborted := fun q => by
      change q.read (intOf n) = _
      rw [read, if_pos hneg]
    refine ⟨?_, ?_, ?_, ?_⟩
    · intro q _ bs q' h
      rw [habort] at h
      cases h
    · intro q _ r
      refine iff_of_false ?_ ?_
      · rintro ⟨bs, q', h, _⟩
        rw [habort] at h
        cases h
      · rintro ⟨e, ⟨h, _⟩, _⟩
        omega
    · intro q _
      rw [habort, hasPrefixIn_blockTrap]
      exact iff_of_true Outcome.stuck_aborted (by omega)
    · intro q _
      rw [habort]
      simp

end ByteQueue

/-- An integer in front of the queue is read back. -/
theorem readData_append {n : Nat} (hn : n < 2 ^ 31) {q : ByteQueue} {x : Word n} {r : List Byte}
    (h : q.unread = leBytes n x ++ r) : readData n q = .returned (x, { q with unread := r }) := by
  rw [readData, intOf_of_lt hn, ByteQueue.read_append (length_leBytes n x) h,
    Outcome.returned_bind]
  simp only [ofLeBytes_leBytes]

/-- An integer is only read off its own bytes. -/
theorem readData_returned {n : Nat} (hn : n < 2 ^ 31) {q q' : ByteQueue} (hq : q.Throws)
    {x : Word n} (h : readData n q = .returned (x, q')) :
    q.unread = leBytes n x ++ q'.unread ∧ q'.Throws := by
  obtain ⟨⟨bs, q₁⟩, hread, hx⟩ := Outcome.bind_eq_returned.mp h
  cases hx
  rw [intOf_of_lt hn] at hread
  by_cases hle : n ≤ q.unread.length
  · rw [ByteQueue.read_of_le hle] at hread
    cases hread
    rw [leBytes_ofLeBytes (List.length_take_of_le hle), List.take_append_drop]
    exact ⟨rfl, hq⟩
  · rw [ByteQueue.read_short hq (by omega)] at hread
    cases hread

/-- A read of an integer returns or throws. -/
theorem readData_cameBack {n : Nat} (hn : n < 2 ^ 31) {q : ByteQueue} (hq : q.Throws) :
    (readData n q).CameBack := by
  rw [readData, intOf_of_lt hn]
  by_cases hle : n ≤ q.unread.length
  · rw [ByteQueue.read_of_le hle, Outcome.returned_bind]
    exact Outcome.cameBack_returned _
  · rw [ByteQueue.read_short hq (by omega), Outcome.threw_bind]
    exact Outcome.cameBack_threw _ _

/-- The forms of a length prefix: a value below 253 in one byte, or a marker and the
value in 2, 4 or 8 bytes. -/
def lengthPrefix (size : Word 8) : Language Byte :=
  {e | size.toNat < 253 ∧ e = leBytes 1 (size.setWidth _) ∨
    size.toNat < 2 ^ 16 ∧ e = leBytes 1 253 ++ leBytes 2 (size.setWidth _) ∨
    size.toNat < 2 ^ 32 ∧ e = leBytes 1 254 ++ leBytes 4 (size.setWidth _) ∨
    e = leBytes 1 255 ++ leBytes 8 size}

/-- The length of a length prefix, by its first byte. -/
def prefixWidth (first : Byte) : Nat :=
  if first.toNat < 253 then 1
  else if first.toNat = 253 then 3
  else if first.toNat = 254 then 5
  else 9

/-- The first byte of a length prefix determines its length. -/
theorem length_of_mem_lengthPrefix {size : Word 8} {e : List Byte} (h : e ∈ lengthPrefix size) :
    ∃ first rest, e = first :: rest ∧ e.length = prefixWidth first := by
  have hmark (mark : Word 1) (n : Nat) (x : Word n) (hw : prefixWidth mark = 1 + n) :
      ∃ first rest, leBytes 1 mark ++ leBytes n x = first :: rest ∧
        (leBytes 1 mark ++ leBytes n x).length = prefixWidth first := by
    refine ⟨mark, leBytes n x, ?_, ?_⟩
    · rw [leBytes_one, List.singleton_append]
    · rw [hw, List.length_append, length_leBytes, length_leBytes]
  rcases h with ⟨hs, rfl⟩ | ⟨_, rfl⟩ | ⟨_, rfl⟩ | rfl
  · refine ⟨size.setWidth _, [], leBytes_one _, ?_⟩
    · have hn : (size.setWidth 8).toNat = size.toNat := by
        rw [BitVec.toNat_setWidth, Nat.mod_eq_of_lt (by omega)]
      rw [length_leBytes, prefixWidth, if_pos (by omega)]
  · exact hmark 253 2 _ rfl
  · exact hmark 254 4 _ rfl
  · exact hmark 255 8 _ rfl

/-- No length prefix is a proper prefix of another one. -/
theorem lengthPrefix_prefixFree {size size' : Word 8} {e e' : List Byte}
    (h : e ∈ lengthPrefix size) (h' : e' ∈ lengthPrefix size') (hp : e <+: e') : e = e' := by
  obtain ⟨first, rest, rfl, hlen⟩ := length_of_mem_lengthPrefix h
  obtain ⟨first', rest', rfl, hlen'⟩ := length_of_mem_lengthPrefix h'
  have hfirst : first = first' := (List.cons_prefix_cons.mp hp).1
  apply hp.eq_of_length
  rw [hlen, hlen', hfirst]

/-- Narrowing a value that fits and widening it again gives it back. -/
theorem setWidth_setWidth_of_lt {w v : Nat} {x : BitVec w} (h : x.toNat < 2 ^ v) :
    (x.setWidth v).setWidth w = x := by
  apply BitVec.eq_of_toNat_eq
  rw [BitVec.toNat_setWidth, BitVec.toNat_setWidth, Nat.mod_eq_of_lt h, Nat.mod_eq_of_lt x.isLt]

/-- An integer is kept by a wider type. -/
theorem setWidth_setWidth_of_le {w v : Nat} (h : v ≤ w) (x : BitVec v) :
    (x.setWidth w).setWidth v = x := by
  apply BitVec.eq_of_toNat_eq
  have hlt : x.toNat < 2 ^ w := x.isLt.trans_le (Nat.pow_le_pow_right (by omega) h)
  rw [BitVec.toNat_setWidth, BitVec.toNat_setWidth, Nat.mod_eq_of_lt hlt, Nat.mod_eq_of_lt x.isLt]

/-- In a wider type the value is below the bound of the narrower one. -/
theorem toNat_setWidth_lt {w v : Nat} (h : v ≤ w) (x : BitVec v) :
    (x.setWidth w).toNat < 2 ^ v := by
  have hlt : x.toNat < 2 ^ w := x.isLt.trans_le (Nat.pow_le_pow_right (by omega) h)
  rw [BitVec.toNat_setWidth, Nat.mod_eq_of_lt hlt]
  exact x.isLt

/-- Every form of a length is read as that length, for every notion of having bytes ahead that
integers respect. -/
theorem readCompactSize_gives {σ : Type} [ByteStream σ] (Ahead : σ → List Byte → Prop)
    (hdata : ∀ n < 2 ^ 31, ∀ (x : Word n) s bs, Ahead s (leBytes n x ++ bs) →
      ∃ s', readData n s = .returned (x, s') ∧ Ahead s' bs)
    {s : σ} {size : Word 8} {e bs : List Byte} (he : e ∈ lengthPrefix size)
    (h : Ahead s (e ++ bs)) :
    ∃ s', readCompactSize s = .returned (size, s') ∧ Ahead s' bs := by
  have hmarker {mark : Word 1} {e : List Byte} (h : Ahead s (leBytes 1 mark ++ e ++ bs)) :
      ∃ s₁, readData 1 s = .returned (mark, s₁) ∧ Ahead s₁ (e ++ bs) := by
    rw [List.append_assoc] at h
    exact hdata 1 (by omega) mark s (e ++ bs) h
  unfold readCompactSize
  rcases he with ⟨hs, rfl⟩ | ⟨hs, rfl⟩ | ⟨hs, rfl⟩ | rfl
  · have hn : (size.setWidth (8 * 1)).toNat = size.toNat := by
      rw [BitVec.toNat_setWidth, Nat.mod_eq_of_lt (by omega)]
    obtain ⟨s₁, h₁, ha₁⟩ := hdata 1 (by omega) _ s bs h
    refine ⟨s₁, ?_, ha₁⟩
    rw [h₁, Outcome.returned_bind]
    simp only [hn]
    rw [if_pos (show size.toNat < ucharMax - 2 from hs), setWidth_setWidth_of_lt (by omega)]
  · obtain ⟨s₁, h₁, ha₁⟩ := hmarker h
    obtain ⟨s₂, h₂, ha₂⟩ := hdata 2 (by omega) _ s₁ bs ha₁
    refine ⟨s₂, ?_, ha₂⟩
    rw [h₁, Outcome.returned_bind]
    change (readData 2 s₁ >>= fun p => .returned (p.1.setWidth _, p.2)) = _
    rw [h₂, Outcome.returned_bind, setWidth_setWidth_of_lt hs]
  · obtain ⟨s₁, h₁, ha₁⟩ := hmarker h
    obtain ⟨s₂, h₂, ha₂⟩ := hdata 4 (by omega) _ s₁ bs ha₁
    refine ⟨s₂, ?_, ha₂⟩
    rw [h₁, Outcome.returned_bind]
    change (readData 4 s₁ >>= fun p => .returned (p.1.setWidth _, p.2)) = _
    rw [h₂, Outcome.returned_bind, setWidth_setWidth_of_lt hs]
  · obtain ⟨s₁, h₁, ha₁⟩ := hmarker h
    obtain ⟨s₂, h₂, ha₂⟩ := hdata 8 (by omega) _ s₁ bs ha₁
    refine ⟨s₂, ?_, ha₂⟩
    rw [h₁, Outcome.returned_bind]
    exact h₂

/-- Every form of a length prefix is read as the length it stands for. -/
theorem readCompactSize_append {q : ByteQueue} {size : Word 8} {e r : List Byte}
    (he : e ∈ lengthPrefix size) (hu : q.unread = e ++ r) :
    readCompactSize q = .returned (size, { q with unread := r }) := by
  obtain ⟨q', hread, hq'⟩ := readCompactSize_gives (fun q' bs => q' = { q with unread := bs })
    (fun n hn x q' bs h => by
      subst h
      exact ⟨_, readData_append hn rfl, rfl⟩) (s := q) he (by rw [← hu])
  rw [hread, hq']

/-- Whatever is read as a length is one of its forms, for every notion of taking bytes off a
stream that integers respect. -/
theorem readCompactSize_takes {σ : Type} [ByteStream σ] (Takes : σ → List Byte → σ → Prop)
    (hdata : ∀ n < 2 ^ 31, ∀ s x s', readData n s = .returned (x, s') → Takes s (leBytes n x) s')
    (happend : ∀ s e s₁ e' s', Takes s e s₁ → Takes s₁ e' s' → Takes s (e ++ e') s')
    {s s' : σ} {size : Word 8} (h : readCompactSize s = .returned (size, s')) :
    ∃ e ∈ lengthPrefix size, Takes s e s' := by
  obtain ⟨⟨chSize, s₁⟩, h₁, hrest⟩ := Outcome.bind_eq_returned.mp h
  have ht₁ := hdata 1 (by omega) s chSize s₁ h₁
  have hch : chSize.toNat < 256 := chSize.isLt
  have hmark {m : Nat} (hm : chSize.toNat = m) : chSize = BitVec.ofNat _ m :=
    BitVec.eq_of_toNat_eq (by rw [BitVec.toNat_ofNat]; omega)
  dsimp only at hrest
  split at hrest
  · rename_i hlt
    cases hrest
    refine ⟨leBytes 1 chSize, Or.inl ⟨?_, ?_⟩, ht₁⟩
    · rw [BitVec.toNat_setWidth, Nat.mod_eq_of_lt (by omega)]
      exact hlt
    · rw [setWidth_setWidth_of_le (by omega)]
  · rename_i hge
    split at hrest
    · rename_i heq
      obtain ⟨⟨x, s₂⟩, h₂, hx⟩ := Outcome.bind_eq_returned.mp hrest
      cases hx
      have ht₂ := hdata 2 (by omega) s₁ x _ h₂
      refine ⟨leBytes 1 chSize ++ leBytes 2 x, Or.inr (Or.inl ⟨?_, ?_⟩),
        happend _ _ _ _ _ ht₁ ht₂⟩
      · exact toNat_setWidth_lt (by omega) x
      · rw [setWidth_setWidth_of_le (by omega), hmark heq]
        rfl
    · rename_i hne
      split at hrest
      · rename_i heq
        obtain ⟨⟨x, s₂⟩, h₂, hx⟩ := Outcome.bind_eq_returned.mp hrest
        cases hx
        have ht₂ := hdata 4 (by omega) s₁ x _ h₂
        refine ⟨leBytes 1 chSize ++ leBytes 4 x, Or.inr (Or.inr (Or.inl ⟨?_, ?_⟩)),
          happend _ _ _ _ _ ht₁ ht₂⟩
        · exact toNat_setWidth_lt (by omega) x
        · rw [setWidth_setWidth_of_le (by omega), hmark heq]
          rfl
      · rename_i hne'
        have ht₂ := hdata 8 (by omega) s₁ size s' hrest
        have hlast : chSize.toNat = ucharMax := by
          simp only [ucharMax] at hge hne hne' ⊢
          omega
        refine ⟨leBytes 1 chSize ++ leBytes 8 size, Or.inr (Or.inr (Or.inr ?_)),
          happend _ _ _ _ _ ht₁ ht₂⟩
        rw [hmark hlast]
        rfl

/-- Reading a length off a queue takes one of its forms off the unread bytes. -/
theorem readCompactSize_returned {q q' : ByteQueue} (hq : q.Throws) {size : Word 8}
    (h : readCompactSize q = .returned (size, q')) :
    (∃ e ∈ lengthPrefix size, q.unread = e ++ q'.unread) ∧ q'.Throws := by
  obtain ⟨e, he, htakes⟩ := readCompactSize_takes
    (fun q e q' => q.Throws → q.unread = e ++ q'.unread ∧ q'.Throws)
    (fun n hn q x q' h hq => readData_returned hn hq h)
    (fun q e q₁ e' q' h₁ h₂ hq => by
      obtain ⟨hu₁, hq₁⟩ := h₁ hq
      obtain ⟨hu₂, hq'⟩ := h₂ hq₁
      exact ⟨by rw [hu₁, hu₂, List.append_assoc], hq'⟩) h
  obtain ⟨hu, hq'⟩ := htakes hq
  exact ⟨⟨e, he, hu⟩, hq'⟩

/-- A read of a length prefix returns or throws. -/
theorem readCompactSize_cameBack {q : ByteQueue} (hq : q.Throws) :
    (readCompactSize q).CameBack := by
  unfold readCompactSize
  apply Outcome.bind_cameBack (readData_cameBack (n := 1) (by omega) hq)
  rintro ⟨chSize, q₁⟩ h₁
  obtain ⟨_, hq₁⟩ := readData_returned (n := 1) (by omega) hq h₁
  have hwide (n : Nat) (hn : n < 2 ^ 31) :
      (readData n q₁ >>= fun p => .returned ((p.1.setWidth _ : Word 8), p.2)).CameBack :=
    Outcome.bind_cameBack (readData_cameBack hn hq₁) fun _ _ => Outcome.cameBack_returned _
  dsimp only
  split
  · exact Outcome.cameBack_returned _
  · split
    · exact hwide 2 (by omega)
    · split
      · exact hwide 4 (by omega)
      · exact readData_cameBack (n := 8) (by omega) hq₁

/-- Reading a length takes one of its forms off the queue. -/
theorem readCompactSize_reads :
    Reads ByteQueue.Throws ByteQueue.unread readCompactSize lengthPrefix where
  keeps _ hq _ _ h := (readCompactSize_returned hq h).2
  accepts q hq size r := by
    constructor
    · rintro ⟨q', h, rfl⟩
      exact (readCompactSize_returned hq h).1
    · rintro ⟨e, he, hu⟩
      exact ⟨_, readCompactSize_append he hu, rfl⟩
  back _ hq := readCompactSize_cameBack hq

/-! ## Writing -/

/-- An integer goes to the end of the queue. -/
theorem writeData_queue {n : Nat} (hn : n < 2 ^ 31) (q : ByteQueue) (x : Word n) :
    writeData n q x = .returned { q with unread := q.unread ++ leBytes n x } := by
  have hneg : ¬ (n : Int) < 0 := by omega
  change q.write (leBytes n x) (intOf n) = _
  rw [ByteQueue.write, intOf_of_lt hn, if_neg hneg, Int.toNat_natCast, length_leBytes,
    if_neg (lt_irrefl n), List.take_of_length_le (length_leBytes n x).le]

/-- The shortest form of a length prefix. -/
def shortestPrefix (size : Word 8) : List Byte :=
  if size.toNat < 253 then leBytes 1 (size.setWidth _)
  else if size.toNat < 2 ^ 16 then leBytes 1 253 ++ leBytes 2 (size.setWidth _)
  else if size.toNat < 2 ^ 32 then leBytes 1 254 ++ leBytes 4 (size.setWidth _)
  else leBytes 1 255 ++ leBytes 8 size

/-- What is written is one of the forms that can be read. -/
theorem shortestPrefix_mem (size : Word 8) : shortestPrefix size ∈ lengthPrefix size := by
  unfold shortestPrefix
  split
  · exact Or.inl ⟨‹_›, rfl⟩
  · split
    · exact Or.inr (Or.inl ⟨‹_›, rfl⟩)
    · split
      · exact Or.inr (Or.inr (Or.inl ⟨‹_›, rfl⟩))
      · exact Or.inr (Or.inr (Or.inr rfl))

/-- No other form is shorter. -/
theorem length_shortestPrefix_le {size : Word 8} {e : List Byte} (h : e ∈ lengthPrefix size) :
    (shortestPrefix size).length ≤ e.length := by
  rcases h with ⟨hs, rfl⟩ | ⟨hs, rfl⟩ | ⟨hs, rfl⟩ | rfl
  all_goals
    unfold shortestPrefix
    split_ifs <;> simp only [List.length_append, length_leBytes] <;> omega

/-- A length prefix goes to the end of the queue in its shortest form. -/
theorem writeCompactSize_queue (q : ByteQueue) (size : Word 8) :
    writeCompactSize q size = .returned { q with unread := q.unread ++ shortestPrefix size } := by
  have hmarked (mark : Word 1) (n : Nat) (hn : n < 2 ^ 31) (x : Word n) :
      (writeData 1 q mark >>= fun q => writeData n q x) =
        .returned { q with unread := q.unread ++ (leBytes 1 mark ++ leBytes n x) } := by
    rw [writeData_queue (by omega), Outcome.returned_bind, writeData_queue hn]
    simp only [List.append_assoc]
  have hmax : ucharMax - 2 = 253 ∧ ushrtMax = 65535 ∧ uintMax = 4294967295 := ⟨rfl, rfl, rfl⟩
  unfold writeCompactSize shortestPrefix
  by_cases h₁ : size.toNat < 253
  · rw [if_pos (by omega), if_pos h₁]
    exact writeData_queue (n := 1) (by omega) q _
  · rw [if_neg (by omega), if_neg h₁]
    by_cases h₂ : size.toNat < 2 ^ 16
    · rw [if_pos (by omega), if_pos h₂]
      exact hmarked _ 2 (by omega) _
    · rw [if_neg (by omega), if_neg h₂]
      by_cases h₄ : size.toNat < 2 ^ 32
      · rw [if_pos (by omega), if_pos h₄]
        exact hmarked _ 4 (by omega) _
      · rw [if_neg (by omega), if_neg h₄]
        exact hmarked _ 8 (by omega) _

end BananaApi.Server
