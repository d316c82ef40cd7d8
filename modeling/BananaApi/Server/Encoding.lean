import BananaApi.Server.CompactSize
import BananaApi.Server.Simulation

/-!
# The bytes of a value

What `Serialize` appends, as a function of the value. A block of memory is passed
to the stream with its size as an `int`: a size that turns negative fails an
assertion, and one beyond 32 bits is cut, together with the block. Everything else
is written in full.
-/

namespace BananaApi.Server

/-- The encodings of several objects in a row, if none of them fails. -/
def encodeAll {α : Type} (enc : α → Option (List Byte)) : List α → Option (List Byte)
  | [] => some []
  | x :: xs => do
    let e ← enc x
    let es ← encodeAll enc xs
    some (e ++ es)

/-- The encodings of two objects in a row. -/
def encodePair {α β : Type} (enc : α → Option (List Byte)) (enc' : β → Option (List Byte))
    (p : α × β) : Option (List Byte) := do
  let e ← enc p.1
  let e' ← enc' p.2
  some (e ++ e')

/-- The length prefix of a container with the given number of elements. -/
def lengthBytes (size : Nat) : List Byte := shortestPrefix (BitVec.ofNat _ size)

/-- The length and the elements of a container. -/
def encodeCounted {α : Type} (enc : α → Option (List Byte)) (xs : List α) :
    Option (List Byte) := do
  let es ← encodeAll enc xs
  some (lengthBytes xs.length ++ es)

/-- A counted sequence is its length prefix and its elements. -/
theorem encodeCounted_eq_some {α : Type} {enc : α → Option (List Byte)} {xs : List α}
    {e : List Byte} :
    encodeCounted enc xs = some e ↔
      ∃ es, encodeAll enc xs = some es ∧ lengthBytes xs.length ++ es = e := by
  simp only [encodeCounted, Option.bind_eq_bind, Option.bind_eq_some_iff, Option.some.injEq]

/-- A block of memory whose size is passed as an `int`. -/
def encodeMemory (image : List Byte) : Option (List Byte) :=
  if image.length % 2 ^ 32 < 2 ^ 31 then some (image.take (image.length % 2 ^ 32)) else none

/-- A block of memory whose size fits is written in full. -/
theorem encodeMemory_of_lt {image : List Byte} (h : image.length < 2 ^ 31) :
    encodeMemory image = some image := by
  have hmod : image.length % 2 ^ 32 = image.length := Nat.mod_eq_of_lt (by omega)
  rw [encodeMemory, hmod, if_pos h, List.take_length]

/-- Not more is written than is in memory. -/
theorem length_le_of_encodeMemory {image e : List Byte} (h : encodeMemory image = some e) :
    e.length ≤ image.length := by
  unfold encodeMemory at h
  split at h
  · cases h
    exact List.length_take_le' _ _
  · cases h

/-- The length of a container and its elements as one block of memory. -/
def encodeBlock (n : Nat) (v : List (Word n)) : Option (List Byte) := do
  let es ← encodeMemory (imageOf n v)
  some (lengthBytes v.length ++ es)

/-- A block of integers is its length prefix and the image of the integers. -/
theorem encodeBlock_eq_some {n : Nat} {v : List (Word n)} {es : List Byte} :
    encodeBlock n v = some es ↔
      ∃ block, encodeMemory (imageOf n v) = some block ∧ lengthBytes v.length ++ block = es := by
  simp only [encodeBlock, Option.bind_eq_bind, Option.bind_eq_some_iff, Option.some.injEq]

/-- The bytes `Serialize` appends for a value, unless it fails an assertion. -/
def Ty.encoding {κ : Kind} {α : Type} : Ty κ α → α → Option (List Byte)
  | .integer f => fun a => some (leBytes f.size a)
  | .bool => fun a => some (leBytes 1 (if a then 1 else 0))
  | .string c => encodeBlock c
  | .fundamentals f => encodeBlock f.size
  | .vector t _ => encodeCounted t.encoding
  | .pair k t => encodePair k.encoding t.encoding
  | .map _ _ k t => fun m => encodeCounted (encodePair k.encoding t.encoding) m.items
  | .set _ k => fun m => encodeCounted k.encoding m.items
  | .struct members body => fun a => body.encoding (members a)
  | .done => fun _ => some []
  | .readwrite t rest => encodePair t.encoding rest.encoding
  | .flatdata _ rest => encodePair (fun obj => encodeMemory obj.toList) rest.encoding

namespace ByteQueue

/-- What writing some bytes does to a queue, or writing that fails an assertion. -/
def written (q : ByteQueue) : Option (List Byte) → Outcome ByteQueue ByteQueue
  | some e => .returned { q with unread := q.unread ++ e }
  | none => .aborted

/-- Nothing is written. -/
theorem written_nil (q : ByteQueue) : q.written (some []) = .returned q := by
  rw [written, List.append_nil]

/-- Writing twice is writing both. -/
theorem written_bind (q : ByteQueue) (o o' : Option (List Byte)) :
    (q.written o >>= fun q => q.written o') =
      q.written (do
        let e ← o
        let e' ← o'
        some (e ++ e')) := by
  cases o with
  | none => rfl
  | some e =>
    cases o' with
    | none => rfl
    | some e' =>
      change Outcome.returned _ = Outcome.returned _
      simp only [List.append_assoc]

end ByteQueue

/-- A serializer that appends the encoding of its object to every queue. -/
def Writes {α : Type} (f : Serializer ByteQueue α) (enc : α → Option (List Byte)) : Prop :=
  ∀ q v, f q v = q.written (enc v)

section Writers

variable {α β : Type}

/-- An integer is written as its bytes. -/
theorem writeData_writes {n : Nat} (hn : n < 2 ^ 31) :
    Writes (writeData n) fun x => some (leBytes n x) :=
  fun q x => writeData_queue hn q x

/-- A block of memory is appended as far as its size reaches. -/
theorem write_memory (q : ByteQueue) (image : List Byte) :
    ByteStream.write q image (intOf image.length) = q.written (encodeMemory image) := by
  change q.write image (intOf image.length) = _
  unfold encodeMemory
  by_cases h : image.length % 2 ^ 32 < 2 ^ 31
  · have hneg : ¬ ((image.length % 2 ^ 32 : Nat) : Int) < 0 := by omega
    have hle : ¬ image.length < image.length % 2 ^ 32 := Nat.not_lt.mpr (Nat.mod_le _ _)
    rw [ByteQueue.write, intOf_of_mod_lt h, if_neg hneg, Int.toNat_natCast, if_neg hle, if_pos h]
    rfl
  · have hneg : intOf image.length < 0 := (intOf_neg_iff _).mpr (by omega)
    rw [ByteQueue.write, if_pos hneg, if_neg h]
    rfl

/-- A length prefix goes to the end of the queue. -/
theorem writeLength_queue (q : ByteQueue) (size : Nat) :
    writeLength q size = q.written (some (lengthBytes size)) :=
  writeCompactSize_queue q _

/-- A vector of integers is written as its encoding. -/
theorem serializeBlock_writes (n : Nat) : Writes (serializeBlock n) (encodeBlock n) := by
  intro q v
  rw [serializeBlock, writeLength_queue]
  have hrest (q : ByteQueue) : (if v ≠ [] then
      ByteStream.write q (imageOf n v) (intOf (v.length * n)) else .returned q) =
        q.written (encodeMemory (imageOf n v)) := by
    by_cases hv : v = []
    · rw [if_neg (not_not_intro hv), hv]
      exact (q.written_nil).symm
    · rw [if_pos hv, ← length_imageOf, write_memory]
  simp only [hrest]
  rw [q.written_bind]
  rfl

/-- Elements are written one by one. -/
theorem foldlM_writes {f : Serializer ByteQueue α} {enc : α → Option (List Byte)}
    (h : Writes f enc) (q : ByteQueue) (xs : List α) :
    xs.foldlM f q = q.written (encodeAll enc xs) := by
  induction xs generalizing q with
  | nil => exact (q.written_nil).symm
  | cons x xs ih =>
    rw [List.foldlM_cons, h q x]
    simp only [ih]
    exact q.written_bind _ _

/-- A pair is written component by component. -/
theorem serializePair_writes {k : Serializer ByteQueue α} {t : Serializer ByteQueue β}
    {enc : α → Option (List Byte)} {enc' : β → Option (List Byte)} (hk : Writes k enc)
    (ht : Writes t enc') : Writes (serializePair k t) (encodePair enc enc') := by
  intro q p
  have ht (q : ByteQueue) := ht q p.2
  rw [serializePair, hk q p.1]
  simp only [ht]
  exact q.written_bind _ _

/-- The length and the elements of a container, whatever holds the elements. -/
theorem counted_writes {f : Serializer ByteQueue α} {enc : α → Option (List Byte)}
    (h : Writes f enc) (q : ByteQueue) (xs : List α) :
    (writeLength q xs.length >>= fun q => xs.foldlM f q) = q.written (encodeCounted enc xs) := by
  have hxs (q : ByteQueue) := foldlM_writes h q xs
  rw [writeLength_queue]
  simp only [hxs]
  exact q.written_bind _ _

/-- Every type is written as the encoding of the value. -/
theorem Ty.serialize_writes {κ : Kind} {α : Type} (t : Ty κ α) :
    Writes t.serialize t.encoding := by
  induction t with
  | integer f => exact writeData_writes (f.size_le.trans_lt (by omega))
  | bool => exact fun q a => writeData_writes (n := 1) (by omega) q _
  | string c => exact serializeBlock_writes c
  | fundamentals f => exact serializeBlock_writes f.size
  | vector t sizeofT ih => exact counted_writes ih
  | pair k t ihk iht => exact serializePair_writes ihk iht
  | map β pred k t ihk iht =>
    exact fun q m => counted_writes (serializePair_writes ihk iht) q m.items
  | set pred k ih => exact fun q m => counted_writes ih q m.items
  | struct members body ih => exact fun q a => ih q (members a)
  | done => exact fun q _ => (q.written_nil).symm
  | readwrite t rest iht ihrest => exact serializePair_writes iht ihrest
  | flatdata n rest ih =>
    refine serializePair_writes (fun q obj => ?_) ih
    have hwrite := write_memory q obj.toList
    rwa [obj.toList_length] at hwrite

end Writers

/-- A stream gets the encoding of the value appended, whatever it held before. -/
theorem Ty.serialize_stream {κ : Kind} {α : Type} (t : Ty κ α) (s : CDataStream) (v : α) :
    t.serialize s v = match t.encoding v with
      | some e => .returned { s with vch := s.vch ++ e }
      | none => .aborted := by
  have hrel := t.serialize_rel (appends_write s) s (ByteQueue.init []) v (appends_init s)
  rw [t.serialize_writes] at hrel
  cases henc : t.encoding v with
  | none =>
    rw [henc] at hrel
    generalize t.serialize s v = o at hrel
    cases hrel
    rfl
  | some e =>
    rw [henc] at hrel
    obtain ⟨s', hs', happ⟩ := hrel.returned_right rfl
    rw [hs', happ]
    rfl

/-- What a fresh stream holds after `Serialize` is the encoding of the value. -/
theorem Ty.encoding_eq_of_serialize {κ : Kind} {α : Type} {t : Ty κ α} {v : α} {b : List Byte}
    (h : t.serialize (CDataStream.init []) v = .returned (CDataStream.init b)) :
    t.encoding v = some b := by
  rw [t.serialize_stream] at h
  cases henc : t.encoding v with
  | none =>
    rw [henc] at h
    cases h
  | some e =>
    rw [henc] at h
    have hvch : e = b := congrArg CDataStream.vch (Outcome.returned.inj h)
    rw [hvch]

end BananaApi.Server
