import BananaApi.Server.WidePositions

/-!
# How far a bogus length inflates its target

A vector of a fundamental type is resized by one block at a time, so that when the data
ends it is at most one block larger than what was read. A string is given the whole
announced length before any of its characters is read.
-/

namespace BananaApi.Server

open CDataStream (defaultMask)

/-- The containers whose elements are read as blocks of memory. -/
inductive Target where
  | string
  | vector (size : Nat) (size_pos : 0 < size) (size_lt : size < 2 ^ 30)

namespace Target

/-- The size of an element. -/
def size : Target → Nat
  | string => 1
  | vector size _ _ => size

/-- `Unserialize` of a target. -/
def unserialize {σ : Type} [ByteStream σ] (fuel : Nat) :
    (target : Target) → Unserializer σ (List (Word target.size))
  | string => unserializeString 1
  | vector size _ _ => unserializeFundamentals fuel size

/-- The elements a number of unread bytes is enough for, and one block. -/
def limit (target : Target) (unread : Nat) : Nat :=
  unread / target.size + 1 + 4999999 / target.size

end Target

/-- The length prefix at the front of the bytes, if it is complete. -/
def announced (content : List Byte) : Option (Word 8) :=
  match readCompactSize (ByteQueue.init content) with
  | .returned (size, _) => some size
  | _ => none

/-- Reading the target off any stream with these unread bytes, an exception leaves a target that
is within its limit. -/
def BoundsTarget (target : Target) (content : List Byte) (prev : List (Word target.size)) :
    Prop :=
  ∀ (s : CDataStream) (fuel : Nat) (what : String) (v : List (Word target.size))
    (t : CDataStream), s.WellFormed → s.exceptmask = defaultMask → s.unread = content →
      target.unserialize fuel s prev = .threw what (v, t) →
        v.length ≤ target.limit content.length

/-! ## The length prefix -/

/-- An integer is read where its bytes are there. -/
theorem readData_of_le {n : Nat} (hn : n < 2 ^ 31) {q : ByteQueue} (h : n ≤ q.unread.length) :
    ∃ x, readData n q = .returned (x, { q with unread := q.unread.drop n }) := by
  refine ⟨ofLeBytes n (q.unread.take n), ?_⟩
  rw [readData, intOf_of_lt hn, ByteQueue.read_of_le h, Outcome.returned_bind]

/-- The length prefix that is read does not depend on the state of the queue. -/
theorem announced_unread {q : ByteQueue} (hq : q.Throws) :
    (∃ size q', readCompactSize q = .returned (size, q') ∧ announced q.unread = some size) ∨
      ∃ what q', readCompactSize q = .threw what q' ∧ announced q.unread = none := by
  have hinit : (ByteQueue.init q.unread).Throws := CDataStream.throws_init []
  rcases readCompactSize_cameBack hq with ⟨⟨size, q'⟩, hread⟩ | ⟨what, q', hread⟩
  · obtain ⟨⟨e, he, hunread⟩, -⟩ := readCompactSize_returned hq hread
    have hsame := readCompactSize_append (q := ByteQueue.init q.unread) he hunread
    exact Or.inl ⟨size, q', hread, by rw [announced, hsame]⟩
  · refine Or.inr ⟨what, q', hread, ?_⟩
    rcases readCompactSize_cameBack hinit with ⟨⟨size, q''⟩, hother⟩ | ⟨what', q'', hother⟩
    · obtain ⟨⟨e, he, hunread⟩, -⟩ := readCompactSize_returned hinit hother
      have hsame := readCompactSize_append (q := q) he hunread
      cases hread.symm.trans hsame
    · rw [announced, hother]

/-- Nine bytes are enough for every length prefix. -/
theorem length_lt_of_announced {content : List Byte} (h : announced content = none) :
    content.length < 9 := by
  by_contra hlong
  have hlen : (ByteQueue.init content).unread.length = content.length := rfl
  obtain ⟨chSize, hfirst⟩ := readData_of_le (n := 1) (by decide)
    (q := ByteQueue.init content) (by omega)
  have hrest : ∀ n, n ≤ 8 → ∃ x : Word n, readData n
      { ByteQueue.init content with unread := (ByteQueue.init content).unread.drop 1 } =
        .returned (x, { ByteQueue.init content with
          unread := ((ByteQueue.init content).unread.drop 1).drop n }) := by
    intro n hn
    refine readData_of_le (by omega) ?_
    rw [List.length_drop]
    omega
  obtain ⟨x₂, h₂⟩ := hrest 2 (by decide)
  obtain ⟨x₄, h₄⟩ := hrest 4 (by decide)
  obtain ⟨x₈, h₈⟩ := hrest 8 (by decide)
  have hreturned : ∃ p, readCompactSize (ByteQueue.init content) = .returned p := by
    rw [readCompactSize, hfirst, Outcome.returned_bind]
    dsimp only
    split
    · exact ⟨_, rfl⟩
    · split
      · rw [h₂]
        exact ⟨_, rfl⟩
      · split
        · rw [h₄]
          exact ⟨_, rfl⟩
        · exact ⟨_, h₈⟩
  obtain ⟨p, hp⟩ := hreturned
  rw [announced, hp] at h
  cases h

/-! ## Vectors -/

/-- A vector whose block is cut off is one block longer than what was read. -/
theorem readBlocks_threw {n nSize : Nat} (hpos : 0 < n) (hlt : n < 2 ^ 30) (hsize : nSize < 2 ^ 31)
    {fuel i : Nat} {v target : List (Word n)} {q t : ByteQueue} (hq : q.Throws)
    (hi : i ≤ nSize) {what : String}
    (h : readBlocks n nSize fuel i v q = .threw what (target, t)) :
    target.length ≤ i + q.unread.length / n + 1 + 4999999 / n := by
  induction fuel generalizing i v q with
  | zero => cases h
  | succ fuel ih =>
    unfold readBlocks at h
    split at h
    · next hround =>
      have hblk : min (nSize - i) (1 + 4999999 / n) ≤ 1 + 4999999 / n := min_le_right _ _
      have hinside : min (nSize - i) (1 + 4999999 / n) ≤ nSize - i := min_le_left _ _
      generalize min (nSize - i) (1 + 4999999 / n) = blk at h hblk hinside
      have hbytes : blk * n ≤ n + 4999999 := by
        calc blk * n ≤ (1 + 4999999 / n) * n := Nat.mul_le_mul_right n hblk
          _ = n + 4999999 / n * n := by rw [Nat.add_mul, Nat.one_mul]
          _ ≤ n + 4999999 := Nat.add_le_add_left (Nat.div_mul_le_self _ _) n
      dsimp only at h
      rw [Nat.mod_eq_of_lt (show i + blk < 2 ^ 32 by omega), intOf_of_lt (by omega)] at h
      by_cases hle : blk * n ≤ q.unread.length
      · rw [ByteQueue.read_of_le hle, Outcome.mapThrow_returned, Outcome.returned_bind] at h
        have hrest := ih (q := { q with unread := q.unread.drop (blk * n) }) hq (by omega) h
        have hdiv : (q.unread.length - n * blk) / n = q.unread.length / n - blk :=
          Nat.sub_mul_div _ _ _
        have hread : blk ≤ q.unread.length / n := (Nat.le_div_iff_mul_le hpos).mpr hle
        rw [List.length_drop, Nat.mul_comm, hdiv] at hrest
        omega
      · rw [ByteQueue.read_short hq (by omega), Outcome.mapThrow_threw, Outcome.threw_bind] at h
        cases h
        rw [length_resize]
        generalize q.unread.length / n = read
        generalize 4999999 / n = block at hblk ⊢
        omega
    · cases h

/-- A vector that is left behind by an exception has the elements that were there and one block more
at most. -/
theorem unserializeFundamentals_threw {n : Nat} (hpos : 0 < n) (hlt : n < 2 ^ 30) {fuel : Nat}
    {prev target : List (Word n)} {q t : ByteQueue} (hq : q.Throws)
    (hlength : ∀ size, announced q.unread = some size → size.toNat < 2 ^ 31) {what : String}
    (h : unserializeFundamentals fuel n q prev = .threw what (target, t)) :
    target.length ≤ q.unread.length / n + 1 + 4999999 / n := by
  rcases announced_unread hq with ⟨size, q', hread, hannounced⟩ | ⟨what', q', hread, -⟩
  · have hsize := hlength size hannounced
    have hunsigned : unsignedOf size = size.toNat := Nat.mod_eq_of_lt (by omega)
    obtain ⟨⟨e, -, hunread⟩, hq'⟩ := readCompactSize_returned hq hread
    have hlen := congrArg List.length hunread
    rw [unserializeFundamentals, hread, Outcome.mapThrow_returned, Outcome.returned_bind] at h
    have hblocks := readBlocks_threw hpos hlt (by omega) hq' (Nat.zero_le _) h
    have hdiv : q'.unread.length / n ≤ q.unread.length / n := by
      rw [List.length_append] at hlen
      exact Nat.div_le_div_right (by omega)
    omega
  · rw [unserializeFundamentals, hread, Outcome.mapThrow_threw, Outcome.threw_bind] at h
    cases h
    exact Nat.zero_le _

/-! ## Strings -/

/-- A string whose characters are cut off has the announced length, and one whose length prefix
is cut off is left as it was. -/
theorem unserializeString_threw {prev target : List (Word 1)} {q t : ByteQueue} (hq : q.Throws)
    (hlength : ∀ size, announced q.unread = some size → size.toNat < 2 ^ 31) {what : String}
    (h : unserializeString 1 q prev = .threw what (target, t)) :
    target.length = (announced q.unread).elim prev.length BitVec.toNat := by
  rcases announced_unread hq with ⟨size, q', hread, hannounced⟩ | ⟨what', q', hread, hnone⟩
  · have hsize := hlength size hannounced
    have hunsigned : unsignedOf size = size.toNat := Nat.mod_eq_of_lt (by omega)
    have hbytes : intOf (size.toNat * 1) = size.toNat := by rw [Nat.mul_one, intOf_of_lt hsize]
    rw [unserializeString, hread, Outcome.mapThrow_returned, Outcome.returned_bind] at h
    dsimp only at h
    rw [readCharacters, hunsigned] at h
    rw [hannounced, Option.elim_some]
    split at h
    · obtain ⟨_, hq'⟩ := readCompactSize_returned hq hread
      rw [hbytes] at h
      by_cases hle : size.toNat ≤ q'.unread.length
      · rw [ByteQueue.read_of_le hle] at h
        cases h
      · rw [ByteQueue.read_short hq' (by omega)] at h
        cases h
        rw [length_resize]
    · cases h
  · rw [unserializeString, hread, Outcome.mapThrow_threw, Outcome.threw_bind] at h
    cases h
    rw [hnone, Option.elim_none]

/-- A string that announces more than there is throws. -/
theorem unserializeString_of_lt {prev : List (Word 1)} {q : ByteQueue} (hq : q.Throws)
    (hlength : ∀ size, announced q.unread = some size → size.toNat < 2 ^ 31)
    (h : ∀ size, announced q.unread = some size → q.unread.length < size.toNat) :
    (unserializeString 1 q prev).Threw := by
  rcases announced_unread hq with ⟨size, q', hread, hannounced⟩ | ⟨what', q', hread, -⟩
  · have hsize := hlength size hannounced
    have hshort := h size hannounced
    have hunsigned : unsignedOf size = size.toNat := Nat.mod_eq_of_lt (by omega)
    have hbytes : intOf (size.toNat * 1) = size.toNat := by rw [Nat.mul_one, intOf_of_lt hsize]
    obtain ⟨⟨e, -, hunread⟩, hq'⟩ := readCompactSize_returned hq hread
    have hlen := congrArg List.length hunread
    rw [List.length_append] at hlen
    rw [unserializeString, hread, Outcome.mapThrow_returned, Outcome.returned_bind]
    dsimp only
    rw [readCharacters, hunsigned, if_pos (by omega), hbytes,
      ByteQueue.read_short hq' (by omega)]
    exact Outcome.threw_threw _ _
  · rw [unserializeString, hread]
    exact Outcome.threw_threw _ _

/-! ## Streams of any size -/

/-- A target is read alike from a stream and from its queue. -/
theorem Target.unserialize_rel {lax : Prop} (target : Target) (fuel : Nat) :
    SameReader lax (Refines lax) (target.unserialize fuel) (target.unserialize fuel) := by
  cases target with
  | string => exact unserializeString_rel (refines_read lax) 1
  | vector size _ _ => exact unserializeFundamentals_rel (refines_read lax) fuel size

/-- Reading a target keeps what every read keeps. -/
theorem Target.unserialize_keeps {σ : Type} [ByteStream σ] {I : σ → Prop}
    (hI : ∀ s n, I s → (ByteStream.read s n).Keeps I) (target : Target) (fuel : Nat)
    (prev : List (Word target.size)) {s : σ} (h : I s) :
    (target.unserialize fuel s prev).Keeps I := by
  cases target with
  | string => exact unserializeString_keeps hI 1 prev h
  | vector size _ _ => exact unserializeFundamentals_keeps hI fuel size prev h

/-- A fresh stream that holds less than it announces leaves a string of the announced length. -/
theorem unserialize_string_inflated {content : List Byte}
    (hlength : ∀ size, announced content = some size → size.toNat < 2 ^ 31)
    (hannounced : ∀ size, announced content = some size → content.length < size.toNat)
    (prev : List (Word 1)) :
    ∃ what v t, Target.string.unserialize 0 (CDataStream.init content) prev =
        .threw what (v, t) ∧
      v.length = (announced content).elim prev.length BitVec.toNat := by
  have hshort : content.length < 2 ^ 31 := by
    cases hsome : announced content with
    | none =>
      have hlen := length_lt_of_announced hsome
      omega
    | some size => exact (hannounced size hsome).trans (hlength size hsome)
  have hq : (ByteQueue.init content).Throws := CDataStream.throws_init []
  obtain ⟨what, ⟨v, q⟩, hthrew⟩ : (unserializeString 1 (ByteQueue.init content) prev).Threw :=
    unserializeString_of_lt hq hlength hannounced
  have hrel := Target.string.unserialize_rel 0 _ _ prev
    (CDataStream.refines_queue (CDataStream.wellFormed_init content)
      (Or.inl hshort : _ ∨ False ∧ _))
  obtain ⟨⟨v', t⟩, hstream, hsame, -⟩ := hrel.threw_right hthrew
  obtain rfl : v' = v := hsame
  exact ⟨what, v', t, hstream, unserializeString_threw hq hlength hthrew⟩

/-- A target is within its limit exactly when it is a vector, or a string of which no more is
announced than the limit allows; without an announcement its previous length counts. -/
theorem boundsTarget_iff {target : Target} {content : List Byte}
    (hlength : ∀ size, announced content = some size → size.toNat < 2 ^ 31)
    (prev : List (Word target.size)) :
    BoundsTarget target content prev ↔
      (target = .string →
        (announced content).elim prev.length BitVec.toNat ≤ target.limit content.length) := by
  constructor
  · rintro h rfl
    by_contra hbig
    have hlimit : content.length < Target.string.limit content.length := by
      rw [Target.limit, Target.size, Nat.div_one]
      omega
    have hannounced : ∀ size, announced content = some size → content.length < size.toNat := by
      intro size hsize
      rw [hsize, Option.elim_some] at hbig
      omega
    obtain ⟨what, v, t, hthrew, hlen⟩ := unserialize_string_inflated hlength hannounced prev
    have hle := h (CDataStream.init content) 0 what v t (CDataStream.wellFormed_init content) rfl
      rfl hthrew
    exact hbig (hlen.symm.trans_le hle)
  · rintro h s fuel what v t hw hm rfl hthrew
    have hs := CDataStream.throws_of_defaultMask hm
    rcases Nat.lt_or_ge s.vch.length (2 ^ 32) with hlt | hwide
    · have hrel := target.unserialize_rel fuel _ _ prev
        (CDataStream.refines_queue hw (Or.inr ⟨trivial, hlt, hs⟩ : _ ∨ True ∧ _))
      obtain ⟨⟨v', q⟩, hqueue, hsame, -⟩ := hrel.threw_left hthrew
      obtain rfl : v = v' := hsame
      cases target with
      | string =>
        have hlen := unserializeString_threw (q := s.queue) hs hlength hqueue
        exact hlen.trans_le (h rfl)
      | vector size hpos hsize =>
        have hthrown : unserializeFundamentals fuel size s.queue prev = .threw what (v, q) := hqueue
        exact unserializeFundamentals_threw (q := s.queue) hpos hsize hs hlength hthrown
    · have hkeeps := target.unserialize_keeps (CDataStream.read_keeps hwide) fuel prev rfl
      exact absurd ⟨what, _, hthrew⟩ hkeeps.1

/-- A vector of `int` that announces five elements. -/
theorem boundsTarget_iff_vector :
    BoundsTarget (.vector 4 (by decide) (by decide)) [5, 0, 0] [] ↔
      (Target.vector 4 (by decide) (by decide) = .string →
        (announced [5, 0, 0]).elim ([] : List (Word 4)).length BitVec.toNat ≤
          (Target.vector 4 (by decide) (by decide)).limit [(5 : Byte), 0, 0].length) :=
  boundsTarget_iff (fun size h => by
    have hsome : announced [5, 0, 0] = some 5 := rfl
    obtain rfl := Option.some.inj (hsome.symm.trans h)
    decide) []

/-- Five bytes make a string of `2 ^ 31 - 1` characters. -/
theorem not_boundsTarget_string :
    ¬ ∀ (target : Target) (content : List Byte) (prev : List (Word target.size)),
      (∀ size, announced content = some size → size.toNat < 2 ^ 31) →
        BoundsTarget target content prev := by
  intro h
  have hsome : announced [0xFE, 0xFF, 0xFF, 0xFF, 0x7F] = some 0x7FFFFFFF := rfl
  have hlength : ∀ size, announced [0xFE, 0xFF, 0xFF, 0xFF, 0x7F] = some size →
      size.toNat < 2 ^ 31 := by
    intro size hsize
    obtain rfl := Option.some.inj (hsome.symm.trans hsize)
    decide
  have hannounced : ∀ size, announced [0xFE, 0xFF, 0xFF, 0xFF, 0x7F] = some size →
      [(0xFE : Byte), 0xFF, 0xFF, 0xFF, 0x7F].length < size.toNat := by
    intro size hsize
    obtain rfl := Option.some.inj (hsome.symm.trans hsize)
    decide
  obtain ⟨what, v, t, hthrew, hlen⟩ := unserialize_string_inflated hlength hannounced []
  have hle := h .string _ [] hlength (CDataStream.init _) 0 what v t
    (CDataStream.wellFormed_init _) rfl rfl hthrew
  have hlen : v.length = 2 ^ 31 - 1 := hlen
  have hle : v.length ≤ 5000005 := hle
  omega

end BananaApi.Server
