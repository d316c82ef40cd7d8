import BananaApi.Server.AutoFile
import BananaApi.Server.Encoding

/-!
# Writing to a file

To any store that only appends, a type is written as the encoding of the value: the calls
of `write` an object takes are one append of all its bytes. A file is such a store. When it
runs full, `fwrite` stores what still fits and the wrapper throws, so the file is left with a
prefix of the encoding.
-/

namespace BananaApi.Server

/-! ## Stores that append -/

section Appending

variable {σ α β : Type} {I : σ → Prop} {put : σ → List Byte → Outcome σ σ}

/-- A writer that appends the encoding of its object, if there is one. -/
def Puts (I : σ → Prop) (put : σ → List Byte → Outcome σ σ) (f : Serializer σ α)
    (enc : α → Option (List Byte)) : Prop :=
  ∀ s v e, I s → enc v = some e → f s v = put s e

variable [ByteStream σ] (h : AppendsOnly I put)

include h

/-- Elements are put one by one. -/
theorem foldlM_puts {f : Serializer σ α} {enc : α → Option (List Byte)} (hf : Puts I put f enc)
    (xs : List α) {s : σ} {e : List Byte} (hs : I s) (he : encodeAll enc xs = some e) :
    xs.foldlM f s = put s e := by
  induction xs generalizing s e with
  | nil =>
    cases he
    exact (h.nil s hs).symm
  | cons x xs ih =>
    simp only [encodeAll, Option.bind_eq_bind, Option.bind_eq_some_iff, Option.some.injEq] at he
    obtain ⟨e₁, he₁, e₂, he₂, rfl⟩ := he
    rw [List.foldlM_cons]
    exact h.bind hs (hf s x e₁ hs he₁) fun s hs => ih hs he₂

/-- A pair is put component by component. -/
theorem serializePair_puts {k : Serializer σ α} {t : Serializer σ β}
    {enc : α → Option (List Byte)} {enc' : β → Option (List Byte)} (hk : Puts I put k enc)
    (ht : Puts I put t enc') : Puts I put (serializePair k t) (encodePair enc enc') := by
  intro s p e hs he
  simp only [encodePair, Option.bind_eq_bind, Option.bind_eq_some_iff, Option.some.injEq] at he
  obtain ⟨e₁, he₁, e₂, he₂, rfl⟩ := he
  exact h.bind hs (hk s p.1 e₁ hs he₁) fun s hs => ht s p.2 e₂ hs he₂

/-- An integer is put as its bytes. -/
theorem writeData_puts {n : Nat} (hn : n < 2 ^ 31) :
    Puts I put (writeData n) fun x => some (leBytes n x) := by
  intro s x e hs he
  cases he
  have hlen : (leBytes n x).length = n := length_leBytes n x
  rw [writeData, intOf_of_lt hn, h.write s _ n hs hn hlen.ge, List.take_of_length_le hlen.le]

/-- A length prefix is written in its shortest form. -/
theorem writeLength_puts (size : Nat) {s : σ} (hs : I s) :
    writeLength s size = put s (lengthBytes size) := by
  have hmarked (mark : Word 1) (n : Nat) (hn : n < 2 ^ 31) (x : Word n) :
      (writeData 1 s mark >>= fun s => writeData n s x) =
        put s (leBytes 1 mark ++ leBytes n x) :=
    h.bind hs (writeData_puts h (by omega) s mark _ hs rfl) fun s hs =>
      writeData_puts h hn s x _ hs rfl
  have hmax : ucharMax - 2 = 253 ∧ ushrtMax = 65535 ∧ uintMax = 4294967295 := ⟨rfl, rfl, rfl⟩
  rw [writeLength, lengthBytes]
  generalize (BitVec.ofNat _ size : Word 8) = nSize
  unfold writeCompactSize shortestPrefix
  by_cases h₁ : nSize.toNat < 253
  · rw [if_pos (by omega), if_pos h₁]
    exact writeData_puts h (n := 1) (by omega) s _ _ hs rfl
  · rw [if_neg (by omega), if_neg h₁]
    by_cases h₂ : nSize.toNat < 2 ^ 16
    · rw [if_pos (by omega), if_pos h₂]
      exact hmarked _ 2 (by omega) _
    · rw [if_neg (by omega), if_neg h₂]
      by_cases h₄ : nSize.toNat < 2 ^ 32
      · rw [if_pos (by omega), if_pos h₄]
        exact hmarked _ 4 (by omega) _
      · rw [if_neg (by omega), if_neg h₄]
        exact hmarked _ 8 (by omega) _

/-- A block of memory is appended as far as its size reaches. -/
theorem write_memory_puts {image e : List Byte} {s : σ} (hs : I s)
    (he : encodeMemory image = some e) :
    ByteStream.write s image (intOf image.length) = put s e := by
  unfold encodeMemory at he
  split at he
  · next hlt =>
    cases he
    rw [intOf_of_mod_lt hlt, h.write s image _ hs hlt (Nat.mod_le _ _)]
  · cases he

/-- A vector of integers is put as its encoding. -/
theorem serializeBlock_puts (n : Nat) : Puts I put (serializeBlock n) (encodeBlock n) := by
  intro s v e hs he
  obtain ⟨block, hblock, rfl⟩ := encodeBlock_eq_some.mp he
  refine h.bind hs (writeLength_puts h _ hs) fun s hs => ?_
  by_cases hv : v = []
  · subst hv
    cases hblock
    rw [if_neg (not_not_intro rfl)]
    exact (h.nil s hs).symm
  · rw [if_pos hv, ← length_imageOf, write_memory_puts h hs hblock]

/-- The length and the elements of a container, whatever holds the elements. -/
theorem counted_puts {f : Serializer σ α} {enc : α → Option (List Byte)}
    (hf : Puts I put f enc) (xs : List α) {s : σ} {e : List Byte} (hs : I s)
    (he : encodeCounted enc xs = some e) :
    (writeLength s xs.length >>= fun s => xs.foldlM f s) = put s e := by
  obtain ⟨es, hes, rfl⟩ := encodeCounted_eq_some.mp he
  exact h.bind hs (writeLength_puts h _ hs) fun s hs => foldlM_puts h hf xs hs hes

/-- To a store that only appends, every type is written as the encoding of the value. -/
theorem Ty.serialize_puts {κ : Kind} {α : Type} (t : Ty κ α) :
    Puts I put t.serialize t.encoding := by
  induction t with
  | integer f => exact writeData_puts h (f.size_le.trans_lt (by omega))
  | bool =>
    intro s a e hs he
    exact writeData_puts h (n := 1) (by omega) s _ e hs he
  | string c => exact serializeBlock_puts h c
  | fundamentals f => exact serializeBlock_puts h f.size
  | vector t sizeofT ih => exact fun s v e hs he => counted_puts h ih v hs he
  | pair k t ihk iht => exact serializePair_puts h ihk iht
  | map β pred k t ihk iht =>
    exact fun s m e hs he => counted_puts h (serializePair_puts h ihk iht) m.items hs he
  | set pred k ih => exact fun s m e hs he => counted_puts h ih m.items hs he
  | struct members body ih => exact fun s a e hs he => ih s (members a) e hs he
  | done =>
    intro s a e hs he
    cases he
    exact (h.nil s hs).symm
  | readwrite t rest iht ihrest => exact serializePair_puts h iht ihrest
  | flatdata n rest ih =>
    refine serializePair_puts h (fun s obj e hs he => ?_) ih
    have hwrite := write_memory_puts h hs he
    rwa [obj.toList_length] at hwrite

end Appending

/-! ## Files -/

namespace File

/-- The number of bytes that can still be written. -/
def room (f : File) : Nat := f.capacity - f.position

/-- The file with more bytes at its end, and the position behind them. -/
def extended (f : File) (bytes : List Byte) : File :=
  { f with contents := f.contents ++ bytes, position := f.position + bytes.length }

/-- A file that is written at its end. -/
structure AtItsEnd (f : File) : Prop where
  writable : f.writable = true
  position : f.position = f.contents.length
  within : f.position ≤ f.capacity

@[simp] theorem extended_nil (f : File) : f.extended [] = f := by
  rw [extended, List.append_nil]
  rfl

/-- Bytes behind bytes. -/
theorem extended_extended (f : File) (bs bs' : List Byte) :
    (f.extended bs).extended bs' = f.extended (bs ++ bs') := by
  simp only [extended, List.append_assoc, List.length_append, Nat.add_assoc]

/-- Bytes that were written take their room. -/
theorem room_extended (f : File) (bs : List Byte) : (f.extended bs).room = f.room - bs.length := by
  rw [room, room, extended, Nat.sub_sub]

/-- Behind bytes that fit, the position is at the end again. -/
theorem AtItsEnd.extended {f : File} (h : f.AtItsEnd) {bs : List Byte} (hle : bs.length ≤ f.room) :
    (f.extended bs).AtItsEnd where
  writable := h.writable
  position := by
    have hpos := h.position
    simp only [File.extended, List.length_append, hpos]
  within := by
    have hwithin := h.within
    rw [room] at hle
    simp only [File.extended]
    omega

/-- At the end of a file `fwrite` appends what fits. -/
theorem AtItsEnd.fwrite {f : File} (h : f.AtItsEnd) {pch bytes : List Byte} {n : Nat}
    (hn : n < 2 ^ 31) (hbytes : pch.take n = bytes) :
    f.fwrite pch n = ((bytes.take f.room).length, f.extended (bytes.take f.room)) := by
  have hsize : n ≤ ssizeMax := by
    unfold ssizeMax
    omega
  have hover : overwrite f.contents f.position (bytes.take f.room) =
      f.contents ++ bytes.take f.room := by
    rw [overwrite, h.position, List.take_length,
      List.drop_eq_nil_of_le (Nat.le_add_right _ _), List.append_nil]
  rw [File.fwrite, if_pos ⟨h.writable, hsize⟩, hbytes]
  exact congrArg (Prod.mk _) (congrArg (fun contents => { f with
    contents := contents
    position := f.position + (bytes.take f.room).length }) hover)

end File

namespace CAutoFile

/-- A wrapper around a file that is written at its end. -/
def Growing (s : CAutoFile) : Prop := s.Throws ∧ ∃ f, s.file = some f ∧ f.AtItsEnd

/-- Append bytes as far as they fit; a failure leaves what did fit. -/
def put (s : CAutoFile) (bytes : List Byte) : Outcome CAutoFile CAutoFile :=
  match s.file with
  | none => .threw "CAutoFile::write : file handle is NULL" s
  | some f =>
    if bytes.length ≤ f.room then .returned { s with file := some (f.extended bytes) }
    else .threw "CAutoFile::write : write failed"
      { s with file := some (f.extended (bytes.take f.room)), state := s.state ||| failbit }

/-- Bytes that fit are appended. -/
theorem put_of_le {s : CAutoFile} {f : File} (hfile : s.file = some f) {bytes : List Byte}
    (h : bytes.length ≤ f.room) :
    s.put bytes = .returned { s with file := some (f.extended bytes) } := by
  simp only [put, hfile, h, if_true]

/-- Of bytes that do not fit, the first ones are appended before the call throws. -/
theorem put_of_lt {s : CAutoFile} {f : File} (hfile : s.file = some f) {bytes : List Byte}
    (h : f.room < bytes.length) :
    s.put bytes = .threw "CAutoFile::write : write failed"
      { s with file := some (f.extended (bytes.take f.room)), state := s.state ||| failbit } := by
  simp only [put, hfile, not_le.mpr h, if_false]

/-- A file that is written at its end only appends, until it is full. -/
theorem appendsOnly : AppendsOnly Growing put where
  nil := by
    rintro s ⟨-, f, hfile, -⟩
    rw [put_of_le hfile (Nat.zero_le _), f.extended_nil, ← hfile]
  both := by
    rintro s bs bs' ⟨-, f, hfile, hf⟩
    by_cases hfirst : bs.length ≤ f.room
    · let s' : CAutoFile := { s with file := some (f.extended bs) }
      have hroom := f.room_extended bs
      rw [put_of_le hfile hfirst, Outcome.returned_bind]
      by_cases hboth : (bs ++ bs').length ≤ f.room
      · rw [List.length_append] at hboth
        rw [put_of_le hfile (by rwa [List.length_append]), put_of_le (s := s') rfl (by omega),
          f.extended_extended]
      · rw [List.length_append] at hboth
        rw [put_of_lt hfile (by rw [List.length_append]; omega),
          put_of_lt (s := s') rfl (by omega), hroom, f.extended_extended, List.take_append,
          List.take_of_length_le hfirst]
    · rw [put_of_lt hfile (not_le.mp hfirst), Outcome.threw_bind,
        put_of_lt hfile (by rw [List.length_append]; omega),
        List.take_append_of_le_length (not_le.mp hfirst).le]
  keeps := by
    rintro s bs s' ⟨hthrows, f, hfile, hf⟩ h
    by_cases hle : bs.length ≤ f.room
    · rw [put_of_le hfile hle] at h
      cases h
      exact ⟨hthrows, _, rfl, hf.extended hle⟩
    · rw [put_of_lt hfile (not_le.mp hle)] at h
      cases h
  write := by
    rintro s pch n ⟨hthrows, f, hfile, hf⟩ hn hle
    have hlen : (pch.take n).length = n := List.length_take_of_le hle
    have hroom : ((pch.take n).take f.room).length = min f.room n := by
      rw [List.length_take, hlen]
    change s.write pch n = _
    simp only [write, hfile, sizeT_natCast hn, not_lt.mpr hle, false_and, if_false,
      hf.fwrite hn rfl, hroom]
    by_cases hfits : n ≤ f.room
    · rw [min_eq_right hfits, if_neg (not_not_intro rfl), List.take_of_length_le (by omega),
        put_of_le hfile (by omega)]
    · rw [min_eq_left (not_le.mp hfits).le, if_pos (by omega), put_of_lt hfile (by omega)]
      exact setstate_failbit (s := { s with file := some _ }) hthrows _

end CAutoFile

end BananaApi.Server
