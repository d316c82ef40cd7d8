import BananaApi.Core.Spending
import BananaApi.Server.RoundTrip

/-!
# The normal form of what is accepted

A length can be written in up to four forms, and a map or a set may arrive in any order and with
items twice. Whatever is read, though, can be written again: the value has an encoding, which is no
longer than the bytes that were read, and which is read back as the value. Amounts are followed
through the readers; that no count is larger than the bytes behind it is read off the grammar.
-/

namespace BananaApi.Server

open ByteQueue (Throws unread)

/-! ## Elements that take bytes -/

namespace Ty

/-- Every object of the type takes a byte at least. -/
def TakesBytes {κ : Kind} {α : Type} : Ty κ α → Prop
  | .integer _ => True
  | .bool => True
  | .string _ => True
  | .fundamentals _ => True
  | .vector _ _ => True
  | .pair k t => k.TakesBytes ∨ t.TakesBytes
  | .map _ _ _ _ => True
  | .set _ _ => True
  | .struct _ body => body.TakesBytes
  | .done => False
  | .readwrite t rest => t.TakesBytes ∨ rest.TakesBytes
  | .flatdata n rest => n % 2 ^ 32 ≠ 0 ∨ rest.TakesBytes

/-- Every element of a container takes a byte at least, and the size of every array fits an
`int`. -/
def Proper {κ : Kind} {α : Type} : Ty κ α → Prop
  | .integer _ => True
  | .bool => True
  | .string _ => True
  | .fundamentals _ => True
  | .vector t _ => t.TakesBytes ∧ t.Proper
  | .pair k t => k.Proper ∧ t.Proper
  | .map _ _ k t => (k.TakesBytes ∨ t.TakesBytes) ∧ k.Proper ∧ t.Proper
  | .set _ k => k.TakesBytes ∧ k.Proper
  | .struct _ body => body.Proper
  | .done => True
  | .readwrite t rest => t.Proper ∧ rest.Proper
  | .flatdata n rest => n < 2 ^ 31 ∧ rest.Proper

end Ty

section Lengths

variable {L M : Language Byte}

/-- A word has bytes if one of its parts must have some. -/
theorem length_pos_of_mem_mul (h : (∀ e ∈ L, 0 < e.length) ∨ ∀ e ∈ M, 0 < e.length)
    {e : List Byte} (he : e ∈ L * M) : 0 < e.length := by
  obtain ⟨a, ha, b, hb, rfl⟩ := Language.mem_mul.mp he
  rw [List.length_append]
  rcases h with h | h
  · exact Nat.add_pos_left (h a ha) _
  · exact Nat.add_pos_right _ (h b hb)

/-- A counted sequence has its length prefix. -/
theorem length_pos_of_mem_counted {body : Nat → Language Byte} {e : List Byte}
    (he : e ∈ counted body) : 0 < e.length := by
  obtain ⟨size, he⟩ := Language.mem_iSup.mp he
  refine length_pos_of_mem_mul (Or.inl fun e he => ?_) he
  obtain ⟨first, rest, rfl, -⟩ := length_of_mem_lengthPrefix he
  exact Nat.succ_pos _

/-- A number of encodings in a row, of a byte at least each. -/
theorem le_length_of_mem_pow (h : ∀ e ∈ L, 0 < e.length) (n : Nat) {e : List Byte}
    (he : e ∈ L ^ n) : n ≤ e.length := by
  induction n generalizing e with
  | zero => exact Nat.zero_le _
  | succ n ih =>
    rw [pow_succ'] at he
    obtain ⟨a, ha, b, hb, rfl⟩ := Language.mem_mul.mp he
    have hfirst := h a ha
    have hrest := ih hb
    rw [List.length_append]
    omega

end Lengths

/-- A type that takes bytes accepts no empty word. -/
theorem Ty.length_pos_of_mem_lang {κ : Kind} {α : Type} (t : Ty κ α) (ht : t.TakesBytes) :
    ∀ e ∈ t.lang, 0 < e.length := by
  induction t with
  | integer f =>
    intro e he
    rw [(mem_blockLang_of_lt (f.size_le.trans_lt (by omega))).mp he]
    exact f.size_pos
  | bool =>
    intro e he
    rw [(mem_blockLang_of_lt (by omega)).mp he]
    exact Nat.one_pos
  | string c => exact fun _ he => length_pos_of_mem_counted he
  | fundamentals f => exact fun _ he => length_pos_of_mem_counted he
  | vector t sizeofT _ => exact fun _ he => length_pos_of_mem_counted he
  | pair k t ihk iht => exact fun _ he => length_pos_of_mem_mul (ht.imp ihk iht) he
  | map β pred k t _ _ => exact fun _ he => length_pos_of_mem_counted he
  | set pred k _ => exact fun _ he => length_pos_of_mem_counted he
  | struct members body ih => exact ih ht
  | done => exact ht.elim
  | readwrite t rest iht ihrest => exact fun _ he => length_pos_of_mem_mul (ht.imp iht ihrest) he
  | flatdata n rest ih =>
    refine fun _ he => length_pos_of_mem_mul (ht.imp (fun hn e he => ?_) ih) he
    rw [(mem_blockLang.mp he).2]
    exact Nat.pos_of_ne_zero hn

/-! ## What the readers take -/

/-- A queue that throws on a short read and holds fewer than 2 GiB. -/
def ByteQueue.Short (q : ByteQueue) : Prop := q.Throws ∧ q.unread.length < 2 ^ 31

/-- What a reader returns for how many bytes of a short queue. -/
abbrev TakesOff {ε β : Type} (o : ByteQueue → Outcome ε (β × ByteQueue)) (P : β → Nat → Prop) :
    Prop :=
  Spends ByteQueue.Short (fun q => q.unread.length) o P

/-- The values of a reader, each with a number of bytes that is enough to write it again. -/
def Rewrites {α : Type} (good fits : α → Prop) (enc : α → Option (List Byte)) (v : α) (k : Nat) :
    Prop :=
  good v ∧ fits v ∧ ∃ e, enc v = some e ∧ e.length ≤ k

/-- A list behind the shortest form of its length. -/
def Counts {α : Type} (P : List α → Nat → Prop) (xs : List α) (k : Nat) : Prop :=
  xs.length < 2 ^ 31 ∧ ∃ j, (lengthBytes xs.length).length + j ≤ k ∧ P xs j

/-- A reader of more bytes than a short queue holds does not return. -/
theorem lt_of_recognizes {ε β : Type} {o : ByteQueue → Outcome ε (β × ByteQueue)}
    {L T : Language Byte} (h : Recognizes Throws unread o L T) {n : Nat}
    (hL : ∀ e ∈ L, n ≤ e.length) {q : ByteQueue} (hq : q.Short) {p : β × ByteQueue}
    (hret : o q = .returned p) : n < 2 ^ 31 := by
  obtain ⟨e, he, hu⟩ := (h.accepts q hq.1 p.2.unread).mp ⟨p.1, p.2, hret, rfl⟩
  have hlen := congrArg List.length hu
  rw [List.length_append] at hlen
  have hshort := hq.2
  have hle := hL e he
  omega

/-- A block is taken off in its length. -/
theorem read_takesOff {n : Nat} (hn : n < 2 ^ 31) :
    TakesOff (fun q : ByteQueue => ByteStream.read q (intOf n)) fun bs k =>
      bs.length = n ∧ k = n := by
  intro q bs q' hq hret
  have hret : ByteStream.read q (intOf n) = .returned (bs, q') := hret
  rw [intOf_of_lt hn] at hret
  by_cases hle : n ≤ q.unread.length
  · rw [ByteQueue.read_of_le hle] at hret
    cases hret
    refine ⟨⟨hq.1, (List.drop_sublist _ _).length_le.trans_lt hq.2⟩, n, ?_,
      List.length_take_of_le hle, rfl⟩
    change n + (q.unread.drop n).length = q.unread.length
    rw [List.length_drop]
    omega
  · rw [ByteQueue.read_short hq.1 (by omega)] at hret
    cases hret

/-- An integer takes its bytes off. -/
theorem readData_takesOff {n : Nat} (hn : n < 2 ^ 31) :
    TakesOff (readData n) fun _ k => k = n :=
  (read_takesOff hn).map fun _ _ h => h.2

/-- A shorter list does not need a longer prefix. -/
theorem length_shortestPrefix_mono {a b : Word 8} (h : a.toNat ≤ b.toNat) :
    (shortestPrefix a).length ≤ (shortestPrefix b).length := by
  unfold shortestPrefix
  split_ifs <;> simp only [List.length_append, length_leBytes] <;> omega

/-- A smaller length has no longer prefix. -/
theorem length_lengthBytes_mono {a b : Nat} (h : a ≤ b) (hb : b < 2 ^ 32) :
    (lengthBytes a).length ≤ (lengthBytes b).length := by
  apply length_shortestPrefix_mono
  rw [BitVec.toNat_ofNat, BitVec.toNat_ofNat, Nat.mod_eq_of_lt (by omega),
    Nat.mod_eq_of_lt (by omega)]
  exact h

/-- A length prefix takes as many bytes off as its shortest form has, or more. -/
theorem readCompactSize_takesOff :
    TakesOff readCompactSize fun size k => (lengthBytes (unsignedOf size)).length ≤ k := by
  intro q size q' hq hret
  obtain ⟨⟨e, he, hu⟩, hq'⟩ := readCompactSize_returned hq.1 hret
  have hlen := congrArg List.length hu
  rw [List.length_append] at hlen
  have hshort := hq.2
  have hcut : (BitVec.ofNat (8 * 8) (unsignedOf size)).toNat ≤ size.toNat := by
    rw [BitVec.toNat_ofNat]
    exact (Nat.mod_le _ _).trans (Nat.mod_le _ _)
  have hle := (length_shortestPrefix_mono hcut).trans (length_shortestPrefix_le he)
  exact ⟨⟨hq', by omega⟩, e.length, hlen.symm, hle⟩

/-- What follows a length takes its bytes behind those of the length. -/
theorem counted_takesOff {ε γ : Type} (left : ByteQueue → ε)
    (rest : Nat → ByteQueue → Outcome ε (γ × ByteQueue)) {Q : Nat → γ → Nat → Prop}
    {R : γ → Nat → Prop} (h : ∀ n < 2 ^ 32, TakesOff (rest n) (Q n))
    (hR : ∀ n < 2 ^ 32, ∀ c i j, (lengthBytes n).length ≤ i → j < 2 ^ 31 → Q n c j →
      R c (i + j)) :
    TakesOff (fun q => (readCompactSize q).mapThrow left >>= fun p =>
      rest (unsignedOf p.1) p.2) R := by
  have hlength := readCompactSize_takesOff.mapThrow fun _ => left
  refine hlength.bind (f := fun size => rest (unsignedOf size)) fun size i hi => ?_
  have hn : unsignedOf size < 2 ^ 32 := Nat.mod_lt _ (Nat.two_pow_pos 32)
  exact (h _ hn).weaken_lt (fun q hq => hq.2) fun c j hj hc => hR _ hn c i j hi hj hc

/-! ## Blocks -/

/-- Characters take off their block. -/
theorem readCharacters_takesOff {c nSize : Nat} (hn : nSize * c < 2 ^ 32) (str : List (Word c)) :
    TakesOff (readCharacters c nSize str) fun str' k => str'.length = nSize ∧ k = nSize * c := by
  by_cases h0 : nSize = 0
  · rw [h0, readCharacters_zero]
    exact Spends.pure ⟨length_resize _ _ _, (Nat.zero_mul c).symm⟩
  · rw [readCharacters_of_ne h0]
    by_cases hlt : nSize * c < 2 ^ 31
    · have hread := (read_takesOff hlt).mapThrow fun _ q => (resize str nSize (0 : Word c), q)
      refine hread.map fun bs k hk => ⟨?_, hk.2⟩
      rw [length_store, length_resize]
    · refine Spends.of_not_returned fun q _ p hret => ?_
      have hneg : intOf (nSize * c) < 0 := (intOf_neg_iff _).mpr (by omega)
      have habort : ByteStream.read q (intOf (nSize * c)) = .aborted := by
        change q.read (intOf (nSize * c)) = _
        rw [ByteQueue.read, if_pos hneg]
      rw [habort] at hret
      cases hret

/-- The blocks of the elements that are missing are taken off. -/
theorem readBlocks_takesOff {n nSize : Nat} (hmax : n < 2 ^ 30) (hsize : nSize < 2 ^ 32)
    (fuel : Nat) {i : Nat} {v : List (Word n)} (hv : v.length = i) (hi : i ≤ nSize) :
    TakesOff (readBlocks n nSize fuel i v) fun v' k =>
      v'.length = nSize ∧ k = (nSize - i) * n := by
  induction fuel generalizing i v with
  | zero => exact Spends.of_not_returned nofun
  | succ fuel ih =>
    by_cases hlt : i < nSize
    · obtain ⟨blk, hblk⟩ : ∃ blk, blk = min (nSize - i) (1 + 4999999 / n) := ⟨_, rfl⟩
      have hle : blk ≤ nSize - i := hblk ▸ min_le_left _ _
      have hmost : blk ≤ 1 + 4999999 / n := hblk ▸ min_le_right _ _
      have hnext : (i + blk) % 2 ^ 32 = i + blk := Nat.mod_eq_of_lt (by omega)
      have hbytes : blk * n < 2 ^ 31 := by
        have hle : blk * n ≤ (1 + 4999999 / n) * n := Nat.mul_le_mul_right n hmost
        have hdiv : 4999999 / n * n ≤ 4999999 := Nat.div_mul_le_self _ _
        rw [Nat.add_mul, Nat.one_mul] at hle
        omega
      have hsplit : (nSize - i) * n = blk * n + (nSize - (i + blk)) * n := by
        rw [← Nat.add_mul]
        congr 1
        omega
      have hread := (read_takesOff hbytes).mapThrow fun _ q => (resize v (i + blk) (0 : Word n), q)
      have hboth := hread.bind
        (f := fun bs => readBlocks n nSize fuel (i + blk) (store n (resize v (i + blk) 0) i bs))
        (R := fun v' k => v'.length = nSize ∧ k = (nSize - i) * n) fun bs k hk => by
          have hrest := ih (v := store n (resize v (i + blk) 0) i bs)
            (by rw [length_store, length_resize]) (by omega)
          refine hrest.weaken fun v' j hj => ⟨hj.1, ?_⟩
          rw [hk.2, hj.2, hsplit]
      simpa only [readBlocks, hlt, if_true, ← hblk, hnext] using hboth
    · have hdone : nSize - i = 0 := by omega
      rw [hdone, Nat.zero_mul]
      simpa only [readBlocks, hlt, if_false] using
        Spends.pure (b := v) (P := fun v' k => v'.length = nSize ∧ k = 0)
          ⟨by omega, rfl⟩

/-! ## Elements one by one -/

section Elements

variable {α β : Type} {elem : Unserializer ByteQueue α} {P : α → Nat → Prop}

/-- Elements take off what they need together. -/
theorem readElements_takesOff (h : ∀ prev, TakesOff (fun q => elem q prev) P)
    (done junk : List α) :
    TakesOff (readElements elem junk.length done.length (done ++ junk)) fun v k =>
      ∃ xs, v = done ++ xs ∧ xs.length = junk.length ∧ Sums P xs k := by
  induction junk generalizing done with
  | nil => exact Spends.pure ⟨[], rfl, rfl, .nil⟩
  | cons y ys ih =>
    have hget : (done ++ y :: ys)[done.length]? = some y := by simp
    have hset (z : α) : (done ++ y :: ys).set done.length z = (done ++ [z]) ++ ys := by simp
    have hfirst := (h y).mapThrow fun _ p => ((done ++ y :: ys).set done.length p.1, p.2)
    have hboth := hfirst.bind
      (f := fun x => readElements elem ys.length (done.length + 1)
        ((done ++ y :: ys).set done.length x))
      (R := fun v k => ∃ xs, v = done ++ xs ∧ xs.length = ys.length + 1 ∧ Sums P xs k)
      fun x i hx => by
        have hrest := ih (done ++ [x])
        rw [List.length_append, List.length_singleton, ← hset] at hrest
        refine hrest.weaken fun v j hv => ?_
        obtain ⟨xs, rfl, hlen, hsums⟩ := hv
        exact ⟨x :: xs, by simp, by simp [hlen], .cons hx hsums⟩
    simpa only [List.length_cons, readElements, hget] using hboth

/-- The chunks of a vector with fewer than `2 ^ 31` elements. -/
theorem readChunks_takesOff (h : ∀ prev, TakesOff (fun q => elem q prev) P) (init : α)
    {sizeofT nSize : Nat} (hsize : nSize < 2 ^ 31) (fuel : Nat) (done : List α)
    (hle : done.length ≤ nSize) :
    TakesOff (readChunks elem init sizeofT nSize fuel done.length done.length done) fun v k =>
      ∃ xs, v = done ++ xs ∧ v.length = nSize ∧ Sums P xs k := by
  induction fuel generalizing done with
  | zero => exact Spends.of_not_returned nofun
  | succ fuel ih =>
    by_cases hlt : done.length < nSize
    · obtain ⟨step, hstep⟩ : ∃ step, step = 5000000 / sizeofT := ⟨_, rfl⟩
      have hstep_le : step ≤ 5000000 := hstep ▸ Nat.div_le_self _ _
      obtain ⟨k, hk⟩ : ∃ k, k = min (nSize - done.length) step := ⟨_, rfl⟩
      have hnext : (if nSize < (done.length + step) % 2 ^ 32 then nSize
          else (done.length + step) % 2 ^ 32) = done.length + k := by
        rw [Nat.mod_eq_of_lt (by omega)]
        split <;> omega
      have hresize : resize done (done.length + k) init = done ++ List.replicate k init := by
        rw [resize_of_le (by omega), Nat.add_sub_cancel_left]
      have hchunk := readElements_takesOff h done (List.replicate k init)
      rw [List.length_replicate] at hchunk
      have hboth := hchunk.bind
        (f := readChunks elem init sizeofT nSize fuel (done.length + k)
          (max done.length (done.length + k)))
        (R := fun v k => ∃ xs, v = done ++ xs ∧ v.length = nSize ∧ Sums P xs k) fun v i hv => by
          obtain ⟨xs, rfl, hlen, hsums⟩ := hv
          have hlength : (done ++ xs).length = done.length + k := by
            rw [List.length_append, hlen]
          have hrest := ih (done ++ xs) (by omega)
          rw [hlength] at hrest
          rw [max_eq_right (by omega)]
          refine hrest.weaken fun v j hv => ?_
          obtain ⟨ys, rfl, hv, hsums'⟩ := hv
          exact ⟨xs ++ ys, List.append_assoc _ _ _, hv, hsums.append hsums'⟩
      simpa only [readChunks, hlt, if_true, ← hstep, hnext, hresize, Nat.add_sub_cancel_left]
        using hboth
    · simpa only [readChunks, hlt, if_false] using
        Spends.pure (P := fun v k => ∃ xs, v = done ++ xs ∧ v.length = nSize ∧ Sums P xs k)
          ⟨[], (List.append_nil _).symm, by omega, .nil⟩

/-- Items take off what they need together, also those that are not inserted. -/
theorem insertItems_takesOff {c : Comparison α} (h : ∀ prev, TakesOff (fun q => elem q prev) P)
    (init : α) (count i : Nat) (m : SortedItems c) :
    TakesOff (insertItems elem init count i m) fun r k =>
      ∃ xs, r.1 = xs.foldl SortedItems.insert m ∧ xs.length = count ∧ Sums P xs k := by
  induction count generalizing i m with
  | zero => exact Spends.pure ⟨[], rfl, rfl, .nil⟩
  | succ count ih =>
    have hfirst := (h init).mapThrow fun _ p => (m, p.2)
    have hboth := hfirst.bind (f := fun item => insertItems elem init count (i + 1) (m.insert item))
      (R := fun r k => ∃ xs, r.1 = xs.foldl SortedItems.insert m ∧ xs.length = count + 1 ∧
        Sums P xs k) fun item j hitem => by
        refine (ih (i + 1) (m.insert item)).weaken fun r k hr => ?_
        obtain ⟨xs, hr, hlen, hsums⟩ := hr
        exact ⟨item :: xs, hr, by rw [List.length_cons, hlen], .cons hitem hsums⟩
    simpa only [insertItems] using hboth

end Elements

/-! ## Types -/

section Templates

variable {α : Type} {elem : Unserializer ByteQueue α} {P : α → Nat → Prop}

/-- A vector is only read off as many encodings as it has elements. -/
theorem unserializeVector_takesOff {fuel : Nat} (hfuel : 2 ^ 32 ≤ fuel) {L T : Language Byte}
    (hfollows : Follows elem L T) (hL : ∀ e ∈ L, 0 < e.length)
    (h : ∀ prev, TakesOff (fun q => elem q prev) P) (init : α) (sizeofT : Nat)
    (prev : List α) :
    TakesOff (fun q => unserializeVector fuel elem init sizeofT q prev) (Counts (Sums P)) := by
  refine counted_takesOff _ (fun n => readChunks elem init sizeofT n fuel 0 0 [])
    (Q := fun n xs k => n < 2 ^ 31 ∧ xs.length = n ∧ Sums P xs k) (fun n _ => ?_) ?_
  · by_cases hn : n < 2 ^ 31
    · refine (readChunks_takesOff h init hn fuel [] (Nat.zero_le n)).weaken fun v k hv => ?_
      obtain ⟨xs, rfl, hlen, hsums⟩ := hv
      exact ⟨hn, hlen, hsums⟩
    · refine Spends.of_not_returned fun q hq p hret => hn ?_
      refine lt_of_recognizes (readChunks_start_obeys (σ := ByteQueue) hfuel hfollows init sizeofT
        n) (fun e he => ?_) hq hret
      unfold elementsLang at he
      split at he
      · exact le_length_of_mem_pow hL n he
      · exact absurd he (Language.notMem_zero e)
  · rintro n - xs i j hi - ⟨hn, rfl, hsums⟩
    exact ⟨hn, j, by omega, hsums⟩

/-- A map or a set keeps some of the items that were read. -/
theorem unserializeItems_takesOff {c : Comparison α} {L T : Language Byte}
    (hfollows : Follows elem L T) (hL : ∀ e ∈ L, 0 < e.length)
    (h : ∀ prev, TakesOff (fun q => elem q prev) P) (init : α) (prev : SortedItems c) :
    TakesOff (fun q => unserializeItems elem init q prev) fun m => Counts (Sums P) m.items := by
  have hcounted := counted_takesOff (fun q => ((.empty : SortedItems c), q))
    (fun n => insertItems elem init n 0 (SortedItems.empty : SortedItems c))
    (Q := fun n r k => n < 2 ^ 31 ∧ ∃ xs, r.1 = xs.foldl SortedItems.insert .empty ∧
      xs.length = n ∧ Sums P xs k) (R := fun r => Counts (Sums P) r.1.items)
    (fun n _ => ?_) ?_
  · exact hcounted.map fun _ _ h => h
  · by_cases hn : n < 2 ^ 31
    · exact (insertItems_takesOff h init n 0 .empty).weaken fun _ _ hr => ⟨hn, hr⟩
    · refine Spends.of_not_returned fun q hq p hret => hn ?_
      exact lt_of_recognizes (insertItems_obeys (σ := ByteQueue) hfollows init n 0 .empty)
        (fun e he => le_length_of_mem_pow hL n he) hq hret
  · rintro n hn32 ⟨m, count⟩ i j hi - ⟨hn, xs, hm, hlen, hsums⟩
    obtain rfl : m = xs.foldl SortedItems.insert .empty := hm
    obtain ⟨k, hk, hitems⟩ := Sums.foldl_insert (m := (.empty : SortedItems c)) .nil hsums
    have hle := SortedItems.length_foldl_insert_le (.empty : SortedItems c) xs
    rw [SortedItems.items_empty, List.length_nil, Nat.zero_add, hlen] at hle
    have hmono := length_lengthBytes_mono hle hn32
    exact ⟨hle.trans_lt hn, k, by dsimp only; omega, hitems⟩

end Templates

section Rewriting

variable {α β : Type} {good fits : α → Prop} {enc : α → Option (List Byte)}
  {good' fits' : β → Prop} {enc' : β → Option (List Byte)}

/-- Elements that can each be written again can be written again in a row. -/
theorem rewrites_of_sums {xs : List α} {k : Nat} (h : Sums (Rewrites good fits enc) xs k) :
    Rewrites (fun xs => ∀ x ∈ xs, good x) (fun xs => ∀ x ∈ xs, fits x) (encodeAll enc) xs k := by
  induction h with
  | nil => exact ⟨by simp, by simp, [], rfl, le_rfl⟩
  | cons hx _ ih =>
    obtain ⟨hgood, hfits, e, he, hle⟩ := hx
    obtain ⟨hgoods, hfitss, es, hes, hles⟩ := ih
    refine ⟨List.forall_mem_cons.mpr ⟨hgood, hgoods⟩, List.forall_mem_cons.mpr ⟨hfits, hfitss⟩,
      e ++ es, encodeAll_cons_eq_some.mpr ⟨e, es, he, hes, rfl⟩, ?_⟩
    rw [List.length_append]
    omega

/-- A counted sequence can be written again, if its elements can. -/
theorem Counts.rewrites {xs : List α} {k : Nat} (h : Counts (Sums (Rewrites good fits enc)) xs k) :
    Rewrites (fun xs => xs.length < 2 ^ 31 ∧ ∀ x ∈ xs, good x) (fun xs => ∀ x ∈ xs, fits x)
      (encodeCounted enc) xs k := by
  obtain ⟨hlen, j, hj, hsums⟩ := h
  obtain ⟨hgood, hfits, es, hes, hle⟩ := rewrites_of_sums hsums
  refine ⟨⟨hlen, hgood⟩, hfits, _, encodeCounted_eq_some.mpr ⟨es, hes, rfl⟩, ?_⟩
  rw [List.length_append]
  omega

/-- A pair that was read can be written again, if its components can. -/
theorem unserializePair_rewrites {elem : Unserializer ByteQueue α}
    {elem' : Unserializer ByteQueue β} (h : ∀ prev, TakesOff (fun q => elem q prev)
      (Rewrites good fits enc)) (h' : ∀ prev, TakesOff (fun q => elem' q prev)
      (Rewrites good' fits' enc')) (prev : α × β) :
    TakesOff (fun q => unserializePair elem elem' q prev)
      (Rewrites (fun p => good p.1 ∧ good' p.2) (fun p => fits p.1 ∧ fits' p.2)
        (encodePair enc enc')) := by
  have hfirst := (h prev.1).mapThrow fun _ p => ((p.1, prev.2), p.2)
  refine hfirst.bind (f := fun first q => (elem' q prev.2).mapThrow (fun p => ((first, p.1), p.2))
    >>= fun p => .returned ((first, p.1), p.2)) fun first i hi => ?_
  refine ((h' prev.2).mapThrow fun _ p => ((first, p.1), p.2)).map fun second j hj => ?_
  obtain ⟨hgood, hfits, e, he, hle⟩ := hi
  obtain ⟨hgood', hfits', e', he', hle'⟩ := hj
  refine ⟨⟨hgood, hgood'⟩, ⟨hfits, hfits'⟩, e ++ e', ?_, ?_⟩
  · simp only [encodePair, he, he', Option.bind_eq_bind, Option.bind_some]
  · rw [List.length_append]
    omega

/-- A block behind its length can be written again when its size fits. -/
theorem rewrites_block {n : Nat} {v : List (Word n)} {i k : Nat} (hk : i + v.length * n ≤ k)
    (hi : (lengthBytes v.length).length ≤ i) (hfits : v.length * n < 2 ^ 31) :
    ∃ e, encodeBlock n v = some e ∧ e.length ≤ k := by
  have himage : (imageOf n v).length < 2 ^ 31 := by rwa [length_imageOf]
  refine ⟨_, encodeBlock_eq_some.mpr ⟨_, encodeMemory_of_lt himage, rfl⟩, ?_⟩
  rw [List.length_append, length_imageOf]
  omega

/-- An array that was read can be written again. -/
theorem unserializeFlatData_rewrites {n : Nat} (hn : n < 2 ^ 31) (prev : List.Vector Byte n) :
    TakesOff (fun q => unserializeFlatData n q prev)
      (Rewrites (fun _ => n < 2 ^ 31) (fun _ => True) fun obj => encodeMemory obj.toList) := by
  refine ((read_takesOff hn).mapThrow fun _ q => (prev, q)).map (g := overwriteArray prev)
    fun bs k hk => ?_
  have hlen := (overwriteArray prev bs).toList_length
  refine ⟨hn, trivial, _, encodeMemory_of_lt (by omega), ?_⟩
  rw [hlen, hk.2]

end Rewriting

/-- A value of the type with a number of bytes that is enough to write it again. -/
abbrev Ty.Rewritten {κ : Kind} {α : Type} (t : Ty κ α) : α → Nat → Prop :=
  Rewrites t.Small t.BlocksFit t.encoding

/-- Whatever is read off a short queue can be written again in as many bytes. -/
theorem Ty.unserialize_takesOff {fuel : Nat} (hfuel : 2 ^ 32 ≤ fuel) {κ : Kind} {α : Type}
    (t : Ty κ α) (hc : t.CharStrings) (ht : t.Proper) (prev : α) :
    TakesOff (fun q => t.unserialize fuel q prev) t.Rewritten := by
  induction t with
  | integer f =>
    have hsize : f.size < 2 ^ 31 := f.size_le.trans_lt (by omega)
    refine ((readData_takesOff hsize).mapThrow fun _ q => (prev, q)).weaken fun x k hk =>
      ⟨trivial, trivial, _, rfl, ?_⟩
    rw [length_leBytes, hk]
  | bool =>
    refine ((readData_takesOff (n := 1) (by omega)).mapThrow fun _ q => (prev, q)).map
      (g := fun f => decide (f ≠ 0)) fun x k hk => ⟨trivial, trivial, _, rfl, ?_⟩
    rw [length_leBytes, hk]
  | string c =>
    obtain rfl : c = 1 := hc
    refine counted_takesOff _ (fun n => readCharacters 1 n prev)
      (fun n hn => readCharacters_takesOff (by omega) prev) ?_
    rintro n - v i j hi hj ⟨rfl, rfl⟩
    have hlen : v.length < 2 ^ 31 := by omega
    exact ⟨hlen, trivial, rewrites_block le_rfl hi hj⟩
  | fundamentals f =>
    refine counted_takesOff _ (fun n => readBlocks f.size n fuel 0 []) (fun n hn =>
      readBlocks_takesOff (f.size_le.trans_lt (by omega)) hn fuel rfl (Nat.zero_le n)) ?_
    rintro n - v i j hi hj ⟨rfl, rfl⟩
    have hle := Nat.le_mul_of_pos_right v.length f.size_pos
    rw [Nat.sub_zero] at hj ⊢
    exact ⟨hle.trans_lt hj, hj, rewrites_block le_rfl hi hj⟩
  | vector t sizeofT ih =>
    exact (unserializeVector_takesOff hfuel (t.unserialize_follows hfuel)
      (t.length_pos_of_mem_lang ht.1) (ih hc ht.2) t.init sizeofT prev).weaken fun _ _ h =>
        h.rewrites
  | pair k t ihk iht => exact unserializePair_rewrites (ihk hc.1 ht.1) (iht hc.2 ht.2) prev
  | map β pred k t ihk iht =>
    have hitem := unserializePair_rewrites (ihk hc.1 ht.2.1) (iht hc.2 ht.2.2)
    have hfollows := unserializePair_follows (k.unserialize_follows (σ := ByteQueue) hfuel)
      (t.unserialize_follows hfuel)
    have hpos := fun e => length_pos_of_mem_mul (ht.1.imp k.length_pos_of_mem_lang
      t.length_pos_of_mem_lang) (e := e)
    exact (unserializeItems_takesOff hfollows hpos hitem (k.init, t.init) prev).weaken
      fun _ _ h => h.rewrites
  | set pred k ih =>
    exact (unserializeItems_takesOff (k.unserialize_follows hfuel) (k.length_pos_of_mem_lang ht.1)
      (ih hc ht.2) k.init prev).weaken fun _ _ h => h.rewrites
  | struct members body ih =>
    refine ((ih hc ht (members prev)).mapThrow fun _ p => (members.symm p.1, p.2)).map
      (g := members.symm) fun m k hm => ?_
    change body.Rewritten (members (members.symm m)) k
    rwa [Equiv.apply_symm_apply]
  | done => exact Spends.pure ⟨trivial, trivial, [], rfl, le_rfl⟩
  | readwrite t rest iht ihrest =>
    exact unserializePair_rewrites (iht hc.1 ht.1) (ihrest hc.2 ht.2) prev
  | flatdata n rest ih =>
    refine (unserializePair_rewrites (unserializeFlatData_rewrites ht.1) (ih hc ht.2) prev).weaken
      fun p k hp => ?_
    exact ⟨hp.1, hp.2.1.2, hp.2.2⟩

/-- What is read can be written again: the value has an encoding, which is no longer than the bytes
that were read, and which every short stream reads back as the value. -/
theorem Ty.unserialize_normalForm {a : Bool} {α : Type} (t : Ty (.object a) α)
    (hadvance : t.ChunksAdvance) (hc : t.CharStrings) (ht : t.Proper) {fuel : Nat}
    (hfuel : 2 ^ 32 ≤ fuel) {s s' : CDataStream} (hw : s.WellFormed) (hs : s.vch.length < 2 ^ 31)
    (hm : s.exceptmask = CDataStream.defaultMask) {prev v : α}
    (h : t.unserialize fuel s prev = .returned (v, s')) :
    ∃ b, t.serialize (CDataStream.init []) v = .returned (CDataStream.init b) ∧
      b.length + s'.unread.length ≤ s.unread.length ∧
      ∀ r : CDataStream, r.WellFormed → r.vch.length < 2 ^ 31 → ∀ rest, r.unread = b ++ rest →
        ∀ prev', ∃ r', t.unserialize fuel r prev' = .returned (v, r') ∧ r'.unread = rest := by
  obtain ⟨⟨v', q'⟩, hq', hvalue, hrefines⟩ := (t.unserialize_queue fuel hw hs prev).returned_left h
  obtain rfl : v = v' := hvalue
  have hshort : s.queue.Short := by
    refine ⟨CDataStream.throws_of_defaultMask hm, ?_⟩
    change s.unread.length < 2 ^ 31
    rw [s.length_unread, CDataStream.size]
    omega
  obtain ⟨-, k, hk, hsmall, hfits, b, hb, hle⟩ :=
    t.unserialize_takesOff hfuel hc ht prev s.queue v q' hshort hq'
  refine ⟨b, ?_, ?_, ?_⟩
  · rw [t.serialize_stream, hb]
    rfl
  · have hk : k + q'.unread.length = s.unread.length := hk
    have hrest : s'.unread = q'.unread := hrefines.unread
    rw [hrest]
    omega
  · intro r hr hrs rest hu prev'
    have hfuel : 2 ^ 31 ≤ fuel := le_trans (by decide) hfuel
    have hconsumes := t.unserialize_consumes hfuel hadvance hc v b hsmall hb prev'
    have hdecodes := hconsumes.decodes hfits r.queue rest hu
    obtain ⟨⟨v', r'⟩, hr', hvalue, hrefines'⟩ :=
      (t.unserialize_queue fuel hr hrs prev').returned_right hdecodes
    obtain rfl : v' = v := hvalue
    exact ⟨r', hr', hrefines'.unread⟩

/-- Bytes in their order. -/
def charOrder : Comparison Byte where
  less a b := decide (a.toNat < b.toNat)
  asymm a b h := decide_eq_false (lt_asymm (of_decide_eq_true h))
  cotrans a b c h := by
    simp only [decide_eq_true_eq] at h ⊢
    omega

/-- A set of three characters, two of them the same, behind a length of three bytes. -/
theorem unserialize_normalForm_set :
    let t := Ty.set charOrder (.integer .unsignedChar)
    ∃ v b, t.serialize (CDataStream.init []) v = .returned (CDataStream.init b) ∧
      b.length + 0 ≤ 6 := by
  intro t
  obtain ⟨v, s', h, hrest⟩ : ∃ v s', t.unserialize (2 ^ 32)
      (CDataStream.init [253, 3, 0, 2, 1, 2]) .empty = .returned (v, s') ∧ s'.unread = [] :=
    ⟨_, _, rfl, rfl⟩
  obtain ⟨b, hb, hle, -⟩ := t.unserialize_normalForm trivial trivial ⟨trivial, trivial⟩ le_rfl
    (CDataStream.wellFormed_init _) (by decide) rfl h
  rw [hrest] at hle
  exact ⟨v, b, hb, hle⟩

end BananaApi.Server
