import BananaApi.Server.Encoding
import BananaApi.Server.Grammar

/-!
# Reading an encoding

What a reader makes of the encoding of a value. If every block of the value was
written in full, the value comes back and what follows is left unread; a proper
prefix of the encoding throws. If some block was cut, the reader asks for more than
a short buffer can hold, so the whole encoding throws as well.
-/

namespace BananaApi.Server

open ByteQueue (Throws unread)

/-- The reader takes the encoding `e` off a queue and returns `b`, provided that the
encoding `fits`; otherwise it throws on every short queue, as it does on a cut
encoding in any case. -/
structure Consumes {ε β : Type} (o : ByteQueue → Outcome ε (β × ByteQueue)) (b : β)
    (e : List Byte) (fits : Prop) : Prop where
  decodes : fits → ∀ q rest, q.unread = e ++ rest → o q = .returned (b, { q with unread := rest })
  overflows : ¬ fits → ∀ q, q.Throws → q.unread.length < 2 ^ 31 → e <+: q.unread → (o q).Threw
  truncated : ∀ q, q.Throws → q.unread.length < 2 ^ 31 → q.unread <+: e → q.unread ≠ e →
    (o q).Threw

namespace Consumes

variable {ε ε' β γ : Type} {o : ByteQueue → Outcome ε (β × ByteQueue)} {b : β} {e e' : List Byte}
  {fits fits' : Prop}

theorem congr (h : Consumes o b e fits) (hiff : fits ↔ fits') : Consumes o b e fits' :=
  propext hiff ▸ h

theorem pure (b : β) :
    Consumes (fun q => (.returned (b, q) : Outcome ε (β × ByteQueue))) b [] True where
  decodes := by
    intro _ q rest hu
    rw [List.nil_append] at hu
    rw [← hu]
  overflows h := absurd trivial h
  truncated _ _ _ hp hne := absurd (List.prefix_nil.mp hp) hne

theorem mapThrow (h : Consumes o b e fits) (g : ByteQueue → ε → ε') :
    Consumes (fun q => (o q).mapThrow (g q)) b e fits where
  decodes hf q rest hu := Outcome.mapThrow_eq_returned.mpr (h.decodes hf q rest hu)
  overflows hf q hq hs hp := Outcome.mapThrow_threw_iff.mpr (h.overflows hf q hq hs hp)
  truncated q hq hs hp hne := Outcome.mapThrow_threw_iff.mpr (h.truncated q hq hs hp hne)

/-- Reading two encodings in a row. -/
theorem bind {f : β → ByteQueue → Outcome ε (γ × ByteQueue)} {c : γ}
    (h : Consumes o b e fits) (hf : Consumes (f b) c e' fits') :
    Consumes (fun q => o q >>= fun p => f p.1 p.2) c (e ++ e') (fits ∧ fits') where
  decodes := by
    rintro ⟨h₁, h₂⟩ q rest hu
    rw [List.append_assoc] at hu
    rw [h.decodes h₁ q _ hu, Outcome.returned_bind]
    exact hf.decodes h₂ _ rest rfl
  overflows := by
    intro hnot q hq hs hp
    by_cases h₁ : fits
    · obtain ⟨r, hr⟩ := hp
      rw [List.append_assoc] at hr
      rw [h.decodes h₁ q _ hr.symm, Outcome.returned_bind]
      have hlen := congrArg List.length hr
      simp only [List.length_append] at hlen
      refine hf.overflows (fun h₂ => hnot ⟨h₁, h₂⟩) _ hq ?_ ⟨r, rfl⟩
      simp only [List.length_append]
      omega
    · have hfront : e <+: q.unread := (List.prefix_append e e').trans hp
      exact Outcome.threw_bind_of_threw (h.overflows h₁ q hq hs hfront)
  truncated := by
    intro q hq hs hp hne
    by_cases hcut : q.unread <+: e ∧ q.unread ≠ e
    · exact Outcome.threw_bind_of_threw (h.truncated q hq hs hcut.1 hcut.2)
    · have hfront : e <+: q.unread := by
        rcases List.prefix_or_prefix_of_prefix hp (List.prefix_append e e') with hle | hle
        · by_cases heq : q.unread = e
          · rw [heq]
          · exact absurd ⟨hle, heq⟩ hcut
        · exact hle
      by_cases h₁ : fits
      · obtain ⟨r, hr⟩ := hfront
        rw [h.decodes h₁ q _ hr.symm, Outcome.returned_bind]
        have hlen := congrArg List.length hr
        rw [List.length_append] at hlen
        rw [← hr] at hp hne
        refine hf.truncated _ hq (by change r.length < _; omega) ?_ ?_
        · exact (List.prefix_append_right_inj e).mp hp
        · intro heq
          have heq : r = e' := heq
          exact hne (by rw [heq])
      · exact Outcome.threw_bind_of_threw (h.overflows h₁ q hq hs hfront)

/-- Post-processing the value does not change what is consumed. -/
theorem map (h : Consumes o b e fits) (g : β → γ) :
    Consumes (fun q => o q >>= fun p => .returned (g p.1, p.2)) (g b) e fits := by
  have hboth := h.bind (f := fun b q => .returned (g b, q)) (pure (g b))
  rw [List.append_nil] at hboth
  exact hboth.congr (and_iff_left trivial)

end Consumes

/-! ## Blocks, integers and lengths -/

/-- A block is consumed as it is. -/
theorem read_consumes {e : List Byte} (h : e.length < 2 ^ 31) :
    Consumes (fun q : ByteQueue => ByteStream.read q (intOf e.length)) e e True where
  decodes _ q rest hu := by
    rw [intOf_of_lt h]
    exact ByteQueue.read_append rfl hu
  overflows hnot := absurd trivial hnot
  truncated q hq _ hp hne := by
    have hlt : q.unread.length < e.length :=
      lt_of_le_of_ne hp.length_le fun heq => hne (hp.eq_of_length heq)
    rw [intOf_of_lt h, ByteQueue.read_short hq hlt]
    exact Outcome.threw_threw _ _

/-- An integer is consumed from its bytes. -/
theorem readData_consumes {n : Nat} (hn : n < 2 ^ 31) (x : Word n) :
    Consumes (readData n) x (leBytes n x) True := by
  have hlen : (leBytes n x).length = n := length_leBytes n x
  have hread := (read_consumes (e := leBytes n x) (by omega)).map (ofLeBytes n)
  rw [ofLeBytes_leBytes, hlen] at hread
  exact hread

/-- The shortest form of a length is read back. -/
theorem readCompactSize_consumes (size : Word 8) :
    Consumes readCompactSize size (shortestPrefix size) True := by
  refine ⟨?_, fun hnot => absurd trivial hnot, ?_⟩
  · intro _ q rest hu
    exact readCompactSize_append (shortestPrefix_mem size) hu
  · intro q hq _ hp hne
    rcases readCompactSize_cameBack hq with ⟨⟨size', q'⟩, h⟩ | h
    · obtain ⟨⟨e, he, hu⟩, _⟩ := readCompactSize_returned hq h
      have hq : e <+: q.unread := ⟨q'.unread, hu.symm⟩
      have heq := lengthPrefix_prefixFree he (shortestPrefix_mem size) (hq.trans hp)
      exact absurd (hp.eq_of_length (le_antisymm hp.length_le (heq ▸ hq.length_le))) hne
    · exact h

/-- A size below `2 ^ 32` is an `unsigned int` as it is. -/
theorem unsignedOf_ofNat {size : Nat} (h : size < 2 ^ 32) :
    unsignedOf (BitVec.ofNat _ size) = size := by
  rw [unsignedOf, BitVec.toNat_ofNat,
    Nat.mod_eq_of_lt (show size < 2 ^ (8 * 8) by omega), Nat.mod_eq_of_lt h]

/-- A container is read behind its length. -/
theorem counted_consumes {γ ε : Type} {size : Nat} (hsize : size < 2 ^ 32) (left : ByteQueue → ε)
    (rest : Nat → ByteQueue → Outcome ε (γ × ByteQueue)) {c : γ} {es : List Byte} {fits : Prop}
    (h : Consumes (rest size) c es fits) :
    Consumes (fun q => (readCompactSize q).mapThrow left >>= fun p => rest (unsignedOf p.1) p.2) c
      (lengthBytes size ++ es) fits := by
  have hlength := (readCompactSize_consumes (BitVec.ofNat _ size)).mapThrow (fun _ => left)
  have hrest : Consumes (rest (unsignedOf (BitVec.ofNat _ size))) c es fits := by
    rw [unsignedOf_ofNat hsize]
    exact h
  have hboth := hlength.bind (f := fun n => rest (unsignedOf n)) hrest
  exact hboth.congr (iff_of_eq (true_and fits))

/-! ## Elements one by one -/

/-- The reader consumes the encoding of every value of a kind, whatever its target held. -/
def ConsumesAll {α : Type} (elem : Unserializer ByteQueue α) (enc : α → Option (List Byte))
    (good fits : α → Prop) : Prop :=
  ∀ x e, good x → enc x = some e → ∀ prev, Consumes (fun q => elem q prev) x e (fits x)

section Elements

variable {α β : Type} {elem : Unserializer ByteQueue α} {enc : α → Option (List Byte)}
  {good fits : α → Prop}

/-- Elements have an encoding if each of them has one. -/
theorem encodeAll_cons_eq_some {x : α} {xs : List α} {es : List Byte} :
    encodeAll enc (x :: xs) = some es ↔
      ∃ e e', enc x = some e ∧ encodeAll enc xs = some e' ∧ e ++ e' = es := by
  simp only [encodeAll, Option.bind_eq_bind, Option.bind_eq_some_iff, Option.some.injEq]
  constructor
  · rintro ⟨e, he, e', he', h⟩
    exact ⟨e, e', he, he', h⟩
  · rintro ⟨e, e', he, he', h⟩
    exact ⟨e, he, e', he', h⟩

/-- The encoding of a sequence is that of its parts in a row. -/
theorem encodeAll_append_eq_some {xs ys : List α} {es : List Byte}
    (h : encodeAll enc (xs ++ ys) = some es) :
    ∃ e e', encodeAll enc xs = some e ∧ encodeAll enc ys = some e' ∧ e ++ e' = es := by
  induction xs generalizing es with
  | nil => exact ⟨[], es, rfl, h, rfl⟩
  | cons x xs ih =>
    obtain ⟨a, b, ha, hb, rfl⟩ := encodeAll_cons_eq_some.mp h
    obtain ⟨e, e', he, he', rfl⟩ := ih hb
    exact ⟨a ++ e, e', encodeAll_cons_eq_some.mpr ⟨a, e, ha, he, rfl⟩, he',
      List.append_assoc _ _ _⟩

/-- Elements are read into the places behind those already read. -/
theorem readElements_consumes (h : ConsumesAll elem enc good fits) (xs : List α)
    (hgood : ∀ x ∈ xs, good x) {es : List Byte} (hes : encodeAll enc xs = some es)
    (done junk : List α) (hjunk : junk.length = xs.length) :
    Consumes (readElements elem xs.length done.length (done ++ junk)) (done ++ xs) es
      (∀ x ∈ xs, fits x) := by
  induction xs generalizing es done junk with
  | nil =>
    have hnil : junk = [] := List.eq_nil_of_length_eq_zero hjunk
    cases hes
    rw [hnil]
    exact (Consumes.pure _).congr (by simp)
  | cons x xs ih =>
    obtain ⟨e, e', he, he', rfl⟩ := encodeAll_cons_eq_some.mp hes
    obtain ⟨hx, hxs⟩ := List.forall_mem_cons.mp hgood
    cases junk with
    | nil => cases hjunk
    | cons y ys =>
      have hget : (done ++ y :: ys)[done.length]? = some y := by simp
      have hset (z : α) : (done ++ y :: ys).set done.length z = (done ++ [z]) ++ ys := by simp
      have hrest := ih hxs he' (done ++ [x]) ys (by simpa using hjunk)
      rw [List.length_append, List.length_singleton, ← hset, List.append_assoc,
        List.singleton_append] at hrest
      have hfirst := (h x e hx he y).mapThrow
        fun _ p => ((done ++ y :: ys).set done.length p.1, p.2)
      have hboth := hfirst.bind
        (f := fun z => readElements elem xs.length (done.length + 1)
          ((done ++ y :: ys).set done.length z)) hrest
      rw [List.forall_mem_cons]
      simpa only [List.length_cons, readElements, hget] using hboth

/-- The chunks of a vector, as long as the chunk counter does not wrap around. -/
theorem readChunks_consumes (h : ConsumesAll elem enc good fits) (init : α) {sizeofT : Nat}
    (hpos : 0 < sizeofT) (hsize : sizeofT ≤ 5000000) (fuel : Nat) (xs : List α)
    (hgood : ∀ x ∈ xs, good x) {es : List Byte} (hes : encodeAll enc xs = some es)
    (done : List α) (hlen : done.length + xs.length < 2 ^ 31) (hfuel : xs.length < fuel) :
    Consumes (readChunks elem init sizeofT (done.length + xs.length) fuel done.length done.length
      done) (done ++ xs) es (∀ x ∈ xs, fits x) := by
  induction fuel generalizing xs es done with
  | zero => omega
  | succ fuel ih =>
    obtain ⟨step, hstep⟩ : ∃ step, step = 5000000 / sizeofT := ⟨_, rfl⟩
    have hstep_pos : 0 < step := hstep ▸ Nat.div_pos hsize hpos
    have hstep_le : step ≤ 5000000 := hstep ▸ Nat.div_le_self _ _
    by_cases hxs : xs = []
    · subst hxs
      cases hes
      have hdone : ¬ done.length < done.length + ([] : List α).length := by simp
      rw [List.append_nil]
      simpa only [readChunks, hdone, if_false] using
        (Consumes.pure done).congr (by simp : True ↔ ∀ x ∈ ([] : List α), fits x)
    · have hxs_pos : 0 < xs.length := List.length_pos_iff.mpr hxs
      obtain ⟨k, hk⟩ : ∃ k, k = min xs.length step := ⟨_, rfl⟩
      have hround : done.length < done.length + xs.length := by omega
      have hnext : (if done.length + xs.length < (done.length + step) % 2 ^ 32 then
          done.length + xs.length else (done.length + step) % 2 ^ 32) = done.length + k := by
        rw [Nat.mod_eq_of_lt (by omega)]
        split <;> omega
      have hresize : resize done (done.length + k) init = done ++ List.replicate k init := by
        rw [resize_of_le (by omega), Nat.add_sub_cancel_left]
      have hcount : done.length + k - done.length = (xs.take k).length := by
        rw [List.length_take]
        omega
      obtain ⟨e, e', he, he', rfl⟩ := encodeAll_append_eq_some
        ((List.take_append_drop k xs).symm ▸ hes)
      have hchunk := readElements_consumes h (xs.take k)
        (fun x hx => hgood x (List.mem_of_mem_take hx)) he done (List.replicate k init)
        (by rw [List.length_replicate, List.length_take]; omega)
      have hdone : (done ++ xs.take k).length = done.length + k := by
        rw [List.length_append, List.length_take]
        omega
      have hall : done.length + k + (xs.drop k).length = done.length + xs.length := by
        rw [List.length_drop]
        omega
      have hrest := ih (xs.drop k) (fun x hx => hgood x (List.mem_of_mem_drop hx)) he'
        (done ++ xs.take k) (by omega) (by rw [List.length_drop]; omega)
      rw [hdone, hall, List.append_assoc, List.take_append_drop] at hrest
      have hboth := hchunk.bind
        (f := readChunks elem init sizeofT (done.length + xs.length) fuel (done.length + k)
          (max done.length (done.length + k))) (by rwa [max_eq_right (by omega)])
      have hfits : (∀ x ∈ xs, fits x) ↔
          (∀ x ∈ xs.take k, fits x) ∧ ∀ x ∈ xs.drop k, fits x := by
        rw [← List.forall_mem_append, List.take_append_drop]
      rw [hfits]
      simpa only [readChunks, hround, if_true, ← hstep, hnext, hresize, hcount] using hboth

/-- A pair is consumed component by component. -/
theorem unserializePair_consumes {elem' : Unserializer ByteQueue β}
    {enc' : β → Option (List Byte)} {good' fits' : β → Prop}
    (h : ConsumesAll elem enc good fits) (h' : ConsumesAll elem' enc' good' fits') :
    ConsumesAll (unserializePair elem elem') (encodePair enc enc')
      (fun p => good p.1 ∧ good' p.2) (fun p => fits p.1 ∧ fits' p.2) := by
  rintro ⟨x, y⟩ es ⟨hx, hy⟩ hes prev
  simp only [encodePair, Option.bind_eq_bind, Option.bind_eq_some_iff, Option.some.injEq] at hes
  obtain ⟨e, he, e', he', rfl⟩ := hes
  have hfirst := (h x e hx he prev.1).mapThrow fun _ p => ((p.1, prev.2), p.2)
  have hsecond := ((h' y e' hy he' prev.2).mapThrow fun _ p => ((x, p.1), p.2)).map (Prod.mk x)
  exact hfirst.bind (f := fun first q => (elem' q prev.2).mapThrow (fun p => ((first, p.1), p.2))
    >>= fun p => .returned ((first, p.1), p.2)) hsecond

/-- Items are consumed one by one and inserted. -/
theorem insertItems_consumes {c : Comparison α} (h : ConsumesAll elem enc good fits) (init : α)
    (xs : List α) (hgood : ∀ x ∈ xs, good x) {es : List Byte} (hes : encodeAll enc xs = some es)
    (i : Nat) (m : SortedItems c) :
    Consumes (insertItems elem init xs.length i m) (xs.foldl SortedItems.insert m, i + xs.length)
      es (∀ x ∈ xs, fits x) := by
  induction xs generalizing es i m with
  | nil =>
    cases hes
    exact (Consumes.pure _).congr (by simp)
  | cons x xs ih =>
    obtain ⟨e, e', he, he', rfl⟩ := encodeAll_cons_eq_some.mp hes
    obtain ⟨hx, hxs⟩ := List.forall_mem_cons.mp hgood
    have hrest := ih hxs he' (i + 1) (m.insert x)
    have hfirst := (h x e hx he init).mapThrow fun _ p => (m, p.2)
    have hboth := hfirst.bind
      (f := fun item => insertItems elem init xs.length (i + 1) (m.insert item)) hrest
    rw [List.forall_mem_cons]
    have hcount : i + (xs.length + 1) = i + 1 + xs.length := by omega
    simpa only [List.length_cons, insertItems, List.foldl_cons, hcount] using hboth

/-- A map or a set is rebuilt from its items. -/
theorem unserializeItems_consumes {c : Comparison α} (h : ConsumesAll elem enc good fits)
    (init : α) (m : SortedItems c) (hlen : m.items.length < 2 ^ 31)
    (hgood : ∀ x ∈ m.items, good x) {es : List Byte} (hes : encodeCounted enc m.items = some es)
    (prev : SortedItems c) :
    Consumes (fun q => unserializeItems elem init q prev) m es (∀ x ∈ m.items, fits x) := by
  obtain ⟨items, hitems, rfl⟩ := encodeCounted_eq_some.mp hes
  have hloop := insertItems_consumes h init m.items hgood hitems 0
    (SortedItems.empty : SortedItems c)
  rw [m.foldl_insert_items] at hloop
  exact (counted_consumes (by omega) _
    (fun n => insertItems elem init n 0 SortedItems.empty) hloop).map Prod.fst

end Elements

/-! ## Blocks -/

/-- A string is consumed from its length prefix and its block. -/
theorem unserializeString_consumes {c : Nat} (str : List (Word c)) (hlen : str.length < 2 ^ 31)
    (hsize : str.length * c < 2 ^ 31) {es : List Byte} (hes : encodeBlock c str = some es)
    (prev : List (Word c)) :
    Consumes (fun q => unserializeString c q prev) str es True := by
  have himage := length_imageOf c str
  obtain ⟨block, hblock, rfl⟩ := encodeBlock_eq_some.mp hes
  rw [encodeMemory_of_lt (by omega), Option.some.injEq] at hblock
  subst hblock
  refine counted_consumes (by omega) _ (fun n => readCharacters c n prev) ?_
  by_cases h0 : str.length = 0
  · have hnil : str = [] := List.eq_nil_of_length_eq_zero h0
    have hempty (x : Word c) : resize prev 0 x = [] := by simp [resize]
    subst hnil
    simpa [readCharacters_zero, hempty] using Consumes.pure ([] : List (Word c))
  · have hread := ((read_consumes (e := imageOf c str) (by omega)).mapThrow
      fun _ q => (resize prev str.length 0, q)).map (store c (resize prev str.length 0) 0)
    have hstore : store c (resize prev str.length 0) 0 (imageOf c str) = str := by
      have hfill : (imageOf c str).length = (resize prev str.length (0 : Word c)).length * c := by
        rw [himage, length_resize]
      have happ := store_append [] (resize prev str.length 0) hfill
      have hval := valuesOf_imageOf c str []
      rw [List.append_nil] at hval
      rwa [List.nil_append, List.nil_append, length_resize, hval] at happ
    rw [hstore, himage] at hread
    rwa [← readCharacters_of_ne h0] at hread

section Fundamentals

variable {n : Nat} (hn : 0 < n)

include hn

/-- The blocks of a vector of a fundamental type, each stored behind the previous one. -/
theorem readBlocks_decodes (fuel : Nat) (xs done : List (Word n))
    (hlen : (done.length + xs.length) * n < 2 ^ 31) (hfuel : xs.length < fuel)
    {q : ByteQueue} {rest : List Byte} (hu : q.unread = imageOf n xs ++ rest) :
    readBlocks n (done.length + xs.length) fuel done.length done q =
      .returned (done ++ xs, { q with unread := rest }) := by
  induction fuel generalizing xs done q with
  | zero => omega
  | succ fuel ih =>
    by_cases hxs : xs = []
    · subst hxs
      have hdone : ¬ done.length < done.length + ([] : List (Word n)).length := by simp
      have hrest : q.unread = rest := hu
      rw [readBlocks, if_neg hdone, List.append_nil, ← hrest]
    · have hxs_pos : 0 < xs.length := List.length_pos_iff.mpr hxs
      have hcount : done.length + xs.length ≤ (done.length + xs.length) * n :=
        Nat.le_mul_of_pos_right _ hn
      obtain ⟨k, hk⟩ : ∃ k, k = min xs.length (1 + 4999999 / n) := ⟨_, rfl⟩
      have hk_pos : 0 < k :=
        hk ▸ lt_min hxs_pos (Nat.lt_of_lt_of_le Nat.one_pos (Nat.le_add_right 1 _))
      have hk_le : k ≤ xs.length := hk ▸ min_le_left _ _
      have hround : done.length < done.length + xs.length := by omega
      have hblk : min (done.length + xs.length - done.length) (1 + 4999999 / n) = k := by
        rw [Nat.add_sub_cancel_left, hk]
      have hnext : (done.length + k) % 2 ^ 32 = done.length + k := Nat.mod_eq_of_lt (by omega)
      have hresize : resize done (done.length + k) (0 : Word n) = done ++ List.replicate k 0 := by
        rw [resize_of_le (by omega), Nat.add_sub_cancel_left]
      have htake : (xs.take k).length = k := List.length_take_of_le hk_le
      have hbytes : (imageOf n (xs.take k)).length = k * n := by rw [length_imageOf, htake]
      have hkn : k * n ≤ (done.length + xs.length) * n := Nat.mul_le_mul_right n (by omega)
      have hsplit : q.unread = imageOf n (xs.take k) ++ (imageOf n (xs.drop k) ++ rest) := by
        rw [hu, ← List.append_assoc, ← imageOf_append, List.take_append_drop]
      have hstore : store n (done ++ List.replicate k 0) done.length (imageOf n (xs.take k)) =
          done ++ xs.take k := by
        have hval := valuesOf_imageOf n (xs.take k) []
        rw [List.append_nil, htake] at hval
        rw [store_append _ _ (by rw [hbytes, List.length_replicate]), List.length_replicate, hval]
      have hdone : (done ++ xs.take k).length = done.length + k := by
        rw [List.length_append, htake]
      have hall : done.length + k + (xs.drop k).length = done.length + xs.length := by
        rw [List.length_drop]
        omega
      have hrest := ih (xs.drop k) (done ++ xs.take k) (by rwa [hdone, hall])
        (by rw [List.length_drop]; omega)
        (q := { q with unread := imageOf n (xs.drop k) ++ rest }) rfl
      rw [hdone, hall, List.append_assoc, List.take_append_drop] at hrest
      rw [readBlocks, if_pos hround]
      simp only [hblk, hnext, hresize]
      rw [intOf_of_lt (by omega), ByteQueue.read_append hbytes hsplit, Outcome.mapThrow_returned,
        Outcome.returned_bind, hstore]
      exact hrest

variable (hmax : n < 2 ^ 30)

include hmax

/-- A queue with fewer bytes than the blocks ask for is not enough. -/
theorem readBlocks_short {nSize fuel : Nat} (hsize : nSize < 2 ^ 32) (hfuel : nSize < fuel)
    {q : ByteQueue} (hq : q.Throws) (h : q.unread.length < nSize * n) :
    (readBlocks n nSize fuel 0 [] q).Threw := by
  have hrec : Recognizes Throws unread (readBlocks n nSize fuel 0 []) _ _ :=
    readBlocks_obeys (σ := ByteQueue) hn hmax hsize fuel 0 [] (by omega)
  have hback : (readBlocks n nSize fuel 0 [] q).CameBack := by
    rw [Outcome.cameBack_iff, hrec.traps q hq]
    exact ⟨not_hasPrefixIn_zero, hrec.bounded q hq⟩
  rcases hback with ⟨⟨v, q'⟩, hret⟩ | hthrew
  · obtain ⟨e, he, hu⟩ := (hrec.accepts q hq q'.unread).mp ⟨v, q', hret, rfl⟩
    have he : e.length = (nSize - 0) * n := he
    rw [hu, List.length_append, he, Nat.sub_zero] at h
    omega
  · exact hthrew

/-- A vector of integers is consumed from its length prefix and its block, if this fits an `int`. -/
theorem unserializeFundamentals_consumes {fuel : Nat} (hfuel : 2 ^ 31 ≤ fuel) (v : List (Word n))
    (hlen : v.length < 2 ^ 31) {es : List Byte} (hes : encodeBlock n v = some es)
    (prev : List (Word n)) :
    Consumes (fun q => unserializeFundamentals fuel n q prev) v es (v.length * n < 2 ^ 31) := by
  obtain ⟨block, hblock, rfl⟩ := encodeBlock_eq_some.mp hes
  have hle := length_le_of_encodeMemory hblock
  have himage := length_imageOf n v
  refine counted_consumes (by omega) _ (fun k => readBlocks n k fuel 0 []) ⟨?_, ?_, ?_⟩
  · intro hfits q rest hu
    rw [encodeMemory_of_lt (by omega), Option.some.injEq] at hblock
    subst hblock
    have hdecodes := readBlocks_decodes hn fuel v [] (by simpa using hfits) (by omega) hu
    simpa using hdecodes
  · intro hnot q hq hs _
    exact readBlocks_short hn hmax (by omega) (by omega) hq (by omega)
  · intro q hq _ hp hne
    have hlt : q.unread.length < block.length :=
      lt_of_le_of_ne hp.length_le fun heq => hne (hp.eq_of_length heq)
    exact readBlocks_short hn hmax (by omega) (by omega) hq (by omega)

end Fundamentals

/-- An array is consumed from its bytes. -/
theorem unserializeFlatData_consumes {n : Nat} (hn : n < 2 ^ 31) (obj : List.Vector Byte n)
    {e : List Byte} (he : encodeMemory obj.toList = some e) (prev : List.Vector Byte n) :
    Consumes (fun q => unserializeFlatData n q prev) obj e True := by
  have hlen : obj.toList.length = n := obj.toList_length
  rw [encodeMemory_of_lt (by omega), Option.some.injEq] at he
  subst he
  have hread := ((read_consumes (e := obj.toList) (by omega)).mapThrow
    fun _ q => (prev, q)).map (overwriteArray prev)
  have hwhole : overwriteArray prev obj.toList = obj := by
    apply Subtype.ext
    change (overwrite prev.toList 0 obj.toList).take n = obj.toList
    rw [overwrite, List.take_zero, List.nil_append, List.take_left' hlen]
  rw [hwhole, hlen] at hread
  exact hread

/-! ## Types -/

/-- Every vector read element by element has elements of 1 to 5,000,000 bytes in memory. -/
abbrev Ty.ChunksAdvance {κ : Kind} {α : Type} (t : Ty κ α) : Prop :=
  t.ElementSizes fun sizeofT => 0 < sizeofT ∧ sizeofT ≤ 5000000

/-- Every type is read back, unless a block of the value does not fit. -/
theorem Ty.unserialize_consumes {fuel : Nat} (hfuel : 2 ^ 31 ≤ fuel) {κ : Kind} {α : Type}
    (t : Ty κ α) (ht : t.ChunksAdvance) (hc : t.CharStrings) :
    ConsumesAll (t.unserialize fuel) t.encoding t.Small t.BlocksFit := by
  induction t with
  | integer f =>
    intro x e _ he prev
    cases he
    exact (readData_consumes (f.size_le.trans_lt (by omega)) x).mapThrow fun _ q => (prev, q)
  | bool =>
    intro x e _ he prev
    cases he
    have hread := ((readData_consumes (n := 1) (by omega) (if x then 1 else 0)).mapThrow
      fun _ q => (prev, q)).map fun f => decide (f ≠ 0)
    cases x <;> exact hread
  | string c =>
    intro x e hx he prev
    have hx : x.length < 2 ^ 31 := hx
    have hc : c = 1 := hc
    subst hc
    exact unserializeString_consumes x hx (by omega) he prev
  | fundamentals f =>
    intro x e hx he prev
    exact unserializeFundamentals_consumes f.size_pos (f.size_le.trans_lt (by omega)) hfuel x hx
      he prev
  | vector t sizeofT ih =>
    obtain ⟨⟨hpos, hsize⟩, ht⟩ := ht
    rintro x e ⟨hlen, hx⟩ he prev
    obtain ⟨es, hes, rfl⟩ := encodeCounted_eq_some.mp he
    have hchunks := readChunks_consumes (ih ht hc) t.init hpos hsize fuel x hx hes []
      (by simpa using hlen) (by omega)
    simp only [List.length_nil, Nat.zero_add, List.nil_append] at hchunks
    exact counted_consumes (by omega) _
      (fun n => readChunks (t.unserialize fuel) t.init sizeofT n fuel 0 0 []) hchunks
  | pair k t ihk iht => exact unserializePair_consumes (ihk ht.1 hc.1) (iht ht.2 hc.2)
  | map β pred k t ihk iht =>
    rintro x e ⟨hlen, hx⟩ he prev
    have hitem := unserializePair_consumes (ihk ht.1 hc.1) (iht ht.2 hc.2)
    exact unserializeItems_consumes hitem _ x hlen hx he prev
  | set pred k ih =>
    rintro x e ⟨hlen, hx⟩ he prev
    exact unserializeItems_consumes (ih ht hc) _ x hlen hx he prev
  | struct members body ih =>
    intro x e hx he prev
    have hbody := ((ih ht hc (members x) e hx he (members prev)).mapThrow
      fun _ p => (members.symm p.1, p.2)).map members.symm
    rw [Equiv.symm_apply_apply] at hbody
    exact hbody
  | done =>
    intro x e _ he prev
    cases he
    exact Consumes.pure _
  | readwrite t rest iht ihrest => exact unserializePair_consumes (iht ht.1 hc.1) (ihrest ht.2 hc.2)
  | flatdata n rest ih =>
    have harray : ConsumesAll (unserializeFlatData n) (fun obj => encodeMemory obj.toList)
        (fun _ => n < 2 ^ 31) (fun _ => True) :=
      fun obj e hn he prev => unserializeFlatData_consumes hn obj he prev
    intro x e hx he prev
    exact (unserializePair_consumes harray (ih ht hc) x e hx he prev).congr (iff_of_eq (true_and _))

/-! ## Encodings at the front of a stream -/

namespace CDataStream

/-- A short stream that throws on a short read, with the given bytes ahead. -/
structure Offers (s : CDataStream) (bytes : List Byte) : Prop where
  wellFormed : s.WellFormed
  short : s.vch.length < 2 ^ 31
  throws : s.Throws
  unread : s.unread = bytes

/-- A new stream offers its bytes. -/
theorem offers_init {bytes : List Byte} (h : bytes.length < 2 ^ 31) :
    (init bytes).Offers bytes :=
  ⟨wellFormed_init bytes, h, throws_init bytes, rfl⟩

variable {ε β : Type} {s : CDataStream} {o : Outcome (ε × CDataStream) (β × CDataStream)}
  {f : ByteQueue → Outcome (ε × ByteQueue) (β × ByteQueue)} {b : β} {e : List Byte}

/-- A reader that consumes an encoding takes it off a stream. -/
theorem Offers.consume {rest : List Byte} (hs : s.Offers (e ++ rest))
    (hrel : Outcome.Rel False (SameValue (Refines False)) (SameValue (Refines False)) o
      (f s.queue)) (hf : Consumes f b e True) :
    ∃ s', o = .returned (b, s') ∧ s'.Offers rest := by
  have hdecodes := hf.decodes trivial s.queue rest hs.unread
  obtain ⟨⟨b', s'⟩, hs', hvalue, hrefines⟩ := hrel.returned_right hdecodes
  obtain rfl : b' = b := hvalue
  refine ⟨s', hs', hrefines.wellFormed, ?_, ?_, hrefines.unread⟩
  · exact hrefines.addressable.elim id fun hlax => hlax.1.elim
  · rw [Throws, hrefines.exceptmask]
    exact hs.throws

/-- A reader that consumes an encoding throws on a part of it. -/
theorem Offers.consume_torn {p : List Byte} (hs : s.Offers p)
    (hrel : Outcome.Rel False (SameValue (Refines False)) (SameValue (Refines False)) o
      (f s.queue)) (hf : Consumes f b e True) (hp : p <+: e) (hne : p ≠ e) : o.Threw := by
  obtain ⟨hw, hshort, hthrows, rfl⟩ := hs
  have hlen := s.length_unread
  rw [size] at hlen
  have hlt : s.queue.unread.length < 2 ^ 31 := by
    change s.unread.length < 2 ^ 31
    omega
  exact hrel.threw_iff.mpr (hf.truncated s.queue hthrows hlt hp hne)

end CDataStream

end BananaApi.Server
