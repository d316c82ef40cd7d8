import BananaApi.Server.Types

/-!
# Independence of the stream

The templates use a stream through `read` and `write` only. Over two streams that
simulate each other every type is therefore read to the same value and written
with the same effect, whatever the type and whatever the target held before.
-/

namespace BananaApi.Server

variable {σ τ : Type} {lax : Prop} {R : σ → τ → Prop} {α β : Type}

/-- Two readers, over two streams, that agree on the value and the target left behind. -/
def SameReader (lax : Prop) (R : σ → τ → Prop) (f : Unserializer σ α)
    (g : Unserializer τ α) : Prop :=
  ∀ s t a, R s t → Outcome.Rel lax (SameValue R) (SameValue R) (f s a) (g t a)

/-- Two writers, over two streams, that keep the streams related. -/
def SameWriter (R : σ → τ → Prop) (f : Serializer σ α) (g : Serializer τ α) : Prop :=
  ∀ s t a, R s t → Outcome.Rel False R R (f s a) (g t a)

/-! ## Loops and sequences of readers and writers -/

/-- Elements are read alike, if one of them is. -/
theorem readElements_rel {f : Unserializer σ α} {g : Unserializer τ α} (hfg : SameReader lax R f g)
    (count i : Nat) (v : List α) {s : σ} {t : τ} (h : R s t) :
    Outcome.Rel lax (SameValue R) (SameValue R) (readElements f count i v s)
      (readElements g count i v t) := by
  induction count generalizing i v s t with
  | zero => exact .returned (sameValue v h)
  | succ count ih =>
    unfold readElements
    split
    · exact .overran
    · exact ((hfg s t _ h).mapLeft (v.set i)).bindValue fun x s t h => ih (i + 1) (v.set i x) h

/-- The rounds of a vector are alike, if its elements are. -/
theorem readChunks_rel {f : Unserializer σ α} {g : Unserializer τ α} (hfg : SameReader lax R f g)
    (init : α) (sizeofT nSize fuel nMid i : Nat) (v : List α) {s : σ} {t : τ} (h : R s t) :
    Outcome.Rel lax (SameValue R) (SameValue R) (readChunks f init sizeofT nSize fuel nMid i v s)
      (readChunks g init sizeofT nSize fuel nMid i v t) := by
  induction fuel generalizing nMid i v s t with
  | zero => exact .unfinished
  | succ fuel ih =>
    unfold readChunks
    split
    · exact (readElements_rel hfg _ _ _ h).bindValue fun v s t h => ih _ _ v h
    · exact .returned (sameValue v h)

/-- Pairs are read alike, if their components are. -/
theorem unserializePair_rel {f : Unserializer σ α} {g : Unserializer τ α} {f' : Unserializer σ β}
    {g' : Unserializer τ β} (hfg : SameReader lax R f g) (hfg' : SameReader lax R f' g') :
    SameReader lax R (unserializePair f f') (unserializePair g g') := by
  intro s t p h
  apply ((hfg s t p.1 h).mapLeft fun x => (x, p.2)).bindValue
  intro x s t h
  apply ((hfg' s t p.2 h).mapLeft (Prod.mk x)).bindValue
  intro y s t h
  exact .returned (sameValue (x, y) h)

/-- The same items are inserted, if they are read alike. -/
theorem insertItems_rel {c : Comparison α} {f : Unserializer σ α} {g : Unserializer τ α}
    (hfg : SameReader lax R f g) (init : α) (count i : Nat) (m : SortedItems c) {s : σ} {t : τ}
    (h : R s t) :
    Outcome.Rel lax (SameValue R) (SameValue R) (insertItems f init count i m s)
      (insertItems g init count i m t) := by
  induction count generalizing i m s t with
  | zero => exact .returned (sameValue (m, i) h)
  | succ count ih =>
    exact ((hfg s t init h).mapLeft fun _ => m).bindValue fun x s t h =>
      ih (i + 1) (m.insert x) h

/-- Elements are written alike, if one of them is. -/
theorem foldlM_rel {f : Serializer σ α} {g : Serializer τ α} (hfg : SameWriter R f g)
    (xs : List α) {s : σ} {t : τ} (h : R s t) :
    Outcome.Rel False R R (xs.foldlM f s) (xs.foldlM g t) := by
  induction xs generalizing s t with
  | nil => exact .returned h
  | cons x xs ih => exact (hfg s t x h).bind fun s t h => ih h

/-- Pairs are written alike, if their components are. -/
theorem serializePair_rel {f : Serializer σ α} {g : Serializer τ α} {f' : Serializer σ β}
    {g' : Serializer τ β} (hfg : SameWriter R f g) (hfg' : SameWriter R f' g') :
    SameWriter R (serializePair f f') (serializePair g g') :=
  fun s t p h => (hfg s t p.1 h).bind fun s t h => hfg' s t p.2 h

/-! ## Readers -/

section Readers

variable [ByteStream σ] [ByteStream τ] (hR : ReadSimulation lax R)

include hR

/-- An integer is read alike. -/
theorem readData_rel (n : Nat) {s : σ} {t : τ} (h : R s t) :
    Outcome.Rel lax R (SameValue R) (readData n s) (readData n t) := by
  apply (hR s t _ (intOf_lt n) h).bindValue
  intro bs s t h
  exact .returned (sameValue (ofLeBytes n bs) h)

/-- A length prefix is read alike, whatever its form. -/
theorem readCompactSize_rel {s : σ} {t : τ} (h : R s t) :
    Outcome.Rel lax R (SameValue R) (readCompactSize s) (readCompactSize t) := by
  apply (readData_rel hR 1 h).bindValue
  intro chSize s t h
  have hwide (n : Nat) : Outcome.Rel lax R (SameValue R)
      (readData n s >>= fun p => .returned ((p.1.setWidth _ : Word 8), p.2))
      (readData n t >>= fun p => .returned ((p.1.setWidth _ : Word 8), p.2)) :=
    (readData_rel hR n h).bindValue fun _ _ _ h => .returned (sameValue _ h)
  dsimp only
  split
  · exact .returned (sameValue _ h)
  · split
    · exact hwide 2
    · split
      · exact hwide 4
      · exact readData_rel hR 8 h

/-- A length prefix is read alike, whatever target is left behind when it is missing. -/
theorem length_rel (a : α) {s : σ} {t : τ} (h : R s t) :
    Outcome.Rel lax (SameValue R) (SameValue R) ((readCompactSize s).mapThrow fun s => (a, s))
      ((readCompactSize t).mapThrow fun t => (a, t)) :=
  (readCompactSize_rel hR h).mapThrow fun _ _ h => ⟨rfl, h⟩

/-- A block is read alike, whatever target is left behind when it is missing. -/
theorem block_rel (a : α) (n : Nat) {s : σ} {t : τ} (h : R s t) :
    Outcome.Rel lax (SameValue R) (SameValue R)
      ((ByteStream.read s (intOf n)).mapThrow fun s => (a, s))
      ((ByteStream.read t (intOf n)).mapThrow fun t => (a, t)) :=
  (hR s t _ (intOf_lt n) h).mapThrow fun _ _ h => ⟨rfl, h⟩

/-- The target of an integer is alike as well. -/
theorem unserializeInteger_rel (n : Nat) :
    SameReader lax R (unserializeInteger n) (unserializeInteger n) := by
  intro s t a h
  exact (readData_rel hR n h).mapThrow fun _ _ h => ⟨rfl, h⟩

theorem unserializeBool_rel : SameReader lax R unserializeBool unserializeBool := by
  intro s t a h
  apply ((readData_rel hR 1 h).mapThrow fun _ _ h => sameValue a h).bindValue
  intro f s t h
  exact .returned (sameValue _ h)

theorem readCharacters_rel (c nSize : Nat) (str : List (Word c)) {s : σ} {t : τ} (h : R s t) :
    Outcome.Rel lax (SameValue R) (SameValue R) (readCharacters c nSize str s)
      (readCharacters c nSize str t) := by
  unfold readCharacters
  split
  · exact (block_rel hR _ _ h).bindValue fun _ _ _ h => .returned (sameValue _ h)
  · exact .returned (sameValue _ h)

theorem unserializeString_rel (c : Nat) :
    SameReader lax R (unserializeString c) (unserializeString c) := by
  intro s t str h
  exact (length_rel hR str h).bindValue fun size s t h => readCharacters_rel hR c _ str h

theorem readBlocks_rel (n nSize fuel i : Nat) (v : List (Word n)) {s : σ} {t : τ} (h : R s t) :
    Outcome.Rel lax (SameValue R) (SameValue R) (readBlocks n nSize fuel i v s)
      (readBlocks n nSize fuel i v t) := by
  induction fuel generalizing i v s t with
  | zero => exact .unfinished
  | succ fuel ih =>
    unfold readBlocks
    split
    · exact (block_rel hR _ _ h).bindValue fun bs s t h => ih _ _ h
    · exact .returned (sameValue v h)

/-- A vector of integers is read alike. -/
theorem unserializeFundamentals_rel (fuel n : Nat) :
    SameReader lax R (unserializeFundamentals fuel n) (unserializeFundamentals fuel n) := by
  intro s t v h
  exact (length_rel hR _ h).bindValue fun size s t h => readBlocks_rel hR n _ fuel 0 [] h

/-- A vector is read alike, if its elements are. -/
theorem unserializeVector_rel {f : Unserializer σ α} {g : Unserializer τ α}
    (hfg : SameReader lax R f g) (fuel : Nat) (init : α) (sizeofT : Nat) :
    SameReader lax R (unserializeVector fuel f init sizeofT)
      (unserializeVector fuel g init sizeofT) := by
  intro s t v h
  exact (length_rel hR _ h).bindValue fun size s t h =>
    readChunks_rel hfg init sizeofT _ fuel 0 0 [] h

/-- The items behind a length prefix are read alike. -/
theorem unserializeCounted_rel {c : Comparison α} {f : Unserializer σ α} {g : Unserializer τ α}
    (hfg : SameReader lax R f g) (init : α) {s : σ} {t : τ} (h : R s t) :
    Outcome.Rel lax (SameValue R) (SameValue R) (unserializeCounted (c := c) f init s)
      (unserializeCounted g init t) :=
  (length_rel hR _ h).bindValue fun _ _ _ h => insertItems_rel hfg init _ 0 _ h

/-- A map or a set is read alike, if its items are. -/
theorem unserializeItems_rel {c : Comparison α} {f : Unserializer σ α} {g : Unserializer τ α}
    (hfg : SameReader lax R f g) (init : α) :
    SameReader lax R (unserializeItems (c := c) f init) (unserializeItems g init) := by
  intro s t m h
  apply (unserializeCounted_rel hR hfg init h).bindValue
  intro counted s t h
  exact .returned (sameValue counted.1 h)

theorem unserializeFlatData_rel (n : Nat) :
    SameReader lax R (unserializeFlatData n) (unserializeFlatData n) := by
  intro s t obj h
  apply (block_rel hR obj n h).bindValue
  intro bs s t h
  exact .returned (sameValue (overwriteArray obj bs) h)

/-- Every type is read alike over two streams that read alike. -/
theorem Ty.unserialize_rel {κ : Kind} {α : Type} (fuel : Nat) (t : Ty κ α) :
    SameReader lax R (t.unserialize fuel) (t.unserialize fuel) := by
  induction t with
  | integer f => exact unserializeInteger_rel hR f.size
  | bool => exact unserializeBool_rel hR
  | string c => exact unserializeString_rel hR c
  | fundamentals f => exact unserializeFundamentals_rel hR fuel f.size
  | vector t sizeofT ih => exact unserializeVector_rel hR ih fuel t.init sizeofT
  | pair k t ihk iht => exact unserializePair_rel ihk iht
  | map β pred k t ihk iht => exact unserializeItems_rel hR (unserializePair_rel ihk iht) _
  | set pred k ih => exact unserializeItems_rel hR ih _
  | struct members body ih =>
    intro s t a h
    apply ((ih s t (members a) h).mapLeft members.symm).bindValue
    intro m s t h
    exact .returned (sameValue (members.symm m) h)
  | done =>
    intro s t a h
    exact .returned (sameValue a h)
  | readwrite t rest iht ihrest => exact unserializePair_rel iht ihrest
  | flatdata n rest ih => exact unserializePair_rel (unserializeFlatData_rel hR n) ih

end Readers

/-! ## Writers -/

section Writers

variable [ByteStream σ] [ByteStream τ] (hR : WriteSimulation R)

include hR

theorem writeData_rel (n : Nat) : SameWriter R (writeData n) (writeData n) :=
  fun s t a h => hR s t (leBytes n a) _ h

/-- A length prefix is written alike. -/
theorem writeLength_rel (size : Nat) {s : σ} {t : τ} (h : R s t) :
    Outcome.Rel False R R (writeLength s size) (writeLength t size) := by
  have hmark (mark : Word 1) (n : Nat) (x : Word n) : Outcome.Rel False R R
      (writeData 1 s mark >>= fun s => writeData n s x)
      (writeData 1 t mark >>= fun t => writeData n t x) :=
    (writeData_rel hR 1 s t mark h).bind fun s t h => writeData_rel hR n s t x h
  unfold writeLength writeCompactSize
  split
  · exact writeData_rel hR 1 s t _ h
  · split
    · exact hmark _ 2 _
    · split
      · exact hmark _ 4 _
      · exact hmark _ 8 _

theorem serializeBlock_rel (n : Nat) : SameWriter R (serializeBlock n) (serializeBlock n) := by
  intro s t v h
  refine (writeLength_rel hR _ h).bind ?_
  intro s t h
  split
  · exact hR s t _ _ h
  · exact .returned h

/-- A vector is written alike, if its elements are. -/
theorem serializeVector_rel {f : Serializer σ α} {g : Serializer τ α} (hfg : SameWriter R f g) :
    SameWriter R (serializeVector f) (serializeVector g) :=
  fun _ _ v h => (writeLength_rel hR _ h).bind fun _ _ h => foldlM_rel hfg v h

/-- A map or a set is written alike, if its items are. -/
theorem serializeItems_rel {c : Comparison α} {f : Serializer σ α} {g : Serializer τ α}
    (hfg : SameWriter R f g) :
    SameWriter R (serializeItems (c := c) f) (serializeItems g) :=
  fun _ _ m h => (writeLength_rel hR _ h).bind fun _ _ h => foldlM_rel hfg m.items h

/-- Every type is written alike to two streams that are written alike. -/
theorem Ty.serialize_rel {κ : Kind} {α : Type} (t : Ty κ α) :
    SameWriter R t.serialize t.serialize := by
  induction t with
  | integer f => exact writeData_rel hR f.size
  | bool => exact fun s t a h => writeData_rel hR 1 s t _ h
  | string c => exact serializeBlock_rel hR c
  | fundamentals f => exact serializeBlock_rel hR f.size
  | vector t sizeofT ih => exact serializeVector_rel hR ih
  | pair k t ihk iht => exact serializePair_rel ihk iht
  | map β pred k t ihk iht => exact serializeItems_rel hR (serializePair_rel ihk iht)
  | set pred k ih => exact serializeItems_rel hR ih
  | struct members body ih => exact fun s t a h => ih s t (members a) h
  | done => exact fun _ _ _ h => .returned h
  | readwrite t rest iht ihrest => exact serializePair_rel iht ihrest
  | flatdata n rest ih => exact serializePair_rel (fun s t a h => hR s t _ _ h) ih

end Writers

end BananaApi.Server
