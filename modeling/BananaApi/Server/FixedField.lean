import BananaApi.Core.RecordLog
import BananaApi.Server.TypedStream

/-!
# Strings stored as fixed length fields

`CFixedFieldString<LEN>` stores a string in exactly `LEN` bytes: `strncpy` cuts it at its first 0
and at `LEN`, and fills up with zeros. What is cut does not come back, but nothing behind the field
is moved by it. A field over a constant string can be written only.
-/

namespace BananaApi.Server

/-- The characters of a C string in front of its end. -/
def cString (bs : List Byte) : List Byte := bs.takeWhile (· ≠ 0)

/-- `strncpy` into a buffer of `n` characters. -/
def strncpy (n : Nat) (src : List Byte) : List Byte :=
  let str := (cString src).take n
  str ++ List.replicate (n - str.length) 0

/-- A field over a string, with `pstr` set unless the string is constant. -/
structure CFixedFieldString where
  pcstr : List Byte
  pstr : Bool
  deriving DecidableEq, Repr

namespace CFixedFieldString

/-- The constructor for a constant string. -/
def ofConst (str : List Byte) : CFixedFieldString := ⟨str, false⟩

/-- The constructor for a string that may be assigned to. -/
def new (str : List Byte) : CFixedFieldString := ⟨str, true⟩

section Templates

variable {σ : Type} [ByteStream σ]

/-- Writes the field in its full length, whatever the string is. -/
def serialize (LEN : Nat) : Serializer σ CFixedFieldString :=
  fun s f => ByteStream.write s (strncpy LEN f.pcstr) (intOf LEN)

/-- Reads a field in its full length and assigns the string in front of the first 0, unless the
field is over a constant string. -/
def unserialize (LEN : Nat) : Unserializer σ CFixedFieldString := fun s f =>
  if f.pstr then do
    let (pszBuf, s) ← (ByteStream.read s (intOf LEN)).mapThrow fun s => (f, s)
    .returned ({ f with pcstr := cString (pszBuf ++ [0]) }, s)
  else .threw "CFixedFieldString::Unserialize : trying to unserialize to const string" (f, s)

end Templates

end CFixedFieldString

/-! ## What a field keeps of a string -/

@[simp] theorem length_strncpy (n : Nat) (src : List Byte) : (strncpy n src).length = n := by
  simp only [strncpy, List.length_append, List.length_take, List.length_replicate]
  omega

/-- A string without a 0 is the beginning of the C string. -/
theorem cString_append {bs : List Byte} (h : 0 ∉ bs) (rest : List Byte) :
    cString (bs ++ rest) = bs ++ cString rest :=
  List.takeWhile_append_of_pos fun b hb =>
    decide_eq_true fun heq : b = 0 => h (heq ▸ hb)

theorem cString_of_notMem {bs : List Byte} (h : 0 ∉ bs) : cString bs = bs := by
  have happ := cString_append h []
  rw [List.append_nil] at happ
  exact happ.trans (List.append_nil bs)

/-- A C string has no 0. -/
theorem notMem_cString (bs : List Byte) : 0 ∉ cString bs := by
  intro h
  have hne := List.all_eq_true.mp List.all_takeWhile 0 h
  exact of_decide_eq_true hne rfl

theorem notMem_take_cString (n : Nat) (src : List Byte) : 0 ∉ (cString src).take n :=
  fun h => notMem_cString src (List.mem_of_mem_take h)

/-- A field gives back what is in front of the first 0, cut at its length. -/
theorem cString_strncpy (n : Nat) (src : List Byte) :
    cString (strncpy n src ++ [0]) = (cString src).take n := by
  rw [strncpy, List.append_assoc, ← List.replicate_succ', List.replicate_succ,
    cString_append (notMem_take_cString n src)]
  exact List.append_nil _

/-- A field keeps a string without a 0 that is not longer than the field, and no other. -/
theorem take_cString_eq_iff {n : Nat} {src : List Byte} :
    (cString src).take n = src ↔ 0 ∉ src ∧ src.length ≤ n := by
  constructor
  · intro h
    refine ⟨fun hmem => ?_, ?_⟩
    · rw [← h] at hmem
      exact notMem_take_cString n src hmem
    · rw [← h]
      exact List.length_take_le _ _
  · rintro ⟨hnot, hlen⟩
    rw [cString_of_notMem hnot, List.take_of_length_le hlen]

/-- What a field keeps of a string has the bytes of the string. -/
theorem strncpy_take_cString (n : Nat) (src : List Byte) :
    strncpy n ((cString src).take n) = strncpy n src := by
  simp only [strncpy, cString_of_notMem (notMem_take_cString n src), List.take_take, Nat.min_self]

/-! ## Fields and other objects in a row -/

/-- An object, or a string with the length of its field. -/
inductive Field where
  | object (m : Object)
  | fixedString (LEN : Nat) (str : List Byte)

namespace Field

/-- The bytes of a field. -/
def bytes : Field → List Byte
  | object m => m.bytes
  | fixedString LEN str => strncpy LEN str

/-- The field as it is read back. -/
def kept : Field → Field
  | object m => object m
  | fixedString LEN str => fixedString LEN ((cString str).take LEN)

/-- The length of a field is an `int`, and any other object can be read back. -/
def Storable : Field → Prop
  | object m => m.Storable
  | fixedString LEN _ => LEN < 2 ^ 31

/-- The field holds all of its string. -/
def Fits : Field → Prop
  | object _ => True
  | fixedString LEN str => 0 ∉ str ∧ str.length ≤ LEN

/-- The target of a read is a field of the same type. -/
inductive SameType : Field → Field → Prop
  | object (target : Object) (v : target.carrier) :
      SameType (object target) (object (target.withValue v))
  | fixedString (LEN : Nat) (prev str : List Byte) :
      SameType (fixedString LEN prev) (fixedString LEN str)

section Operators

variable {σ : Type} [ByteStream σ]

/-- `s << field`. -/
def shiftLeft : Field → σ → Outcome σ σ
  | object m, s => m.shiftLeft s
  | fixedString LEN str, s => (CFixedFieldString.new str).serialize LEN s

/-- `s >> field`, with the field it leaves in the place of its target. -/
def shiftRight (fuel : Nat) : Field → σ → Outcome σ (Field × σ)
  | object target, s => (target.shiftRight fuel s).bind fun p => .returned (object p.1, p.2)
  | fixedString LEN str, s =>
    ((CFixedFieldString.unserialize LEN s (.new str)).mapThrow Prod.snd).bind fun p =>
      .returned (fixedString LEN p.1.pcstr, p.2)

end Operators

/-- A field is written again as the same bytes. -/
theorem bytes_kept (f : Field) : f.kept.bytes = f.bytes := by
  cases f with
  | object m => rfl
  | fixedString LEN str => exact strncpy_take_cString LEN str

/-- A field is kept exactly if it holds all of its string. -/
theorem kept_eq_iff (f : Field) : f.kept = f ↔ f.Fits := by
  cases f with
  | object m => exact iff_of_true rfl trivial
  | fixedString LEN str =>
    rw [kept, fixedString.injEq, eq_self_iff_true, true_and]
    exact take_cString_eq_iff

end Field

/-! ## Reading and writing fields -/

namespace CFixedFieldString

/-- A field is consumed in its full length. -/
theorem unserialize_consumes {LEN : Nat} (hLEN : LEN < 2 ^ 31) (str prev : List Byte) :
    Consumes (fun q => unserialize LEN q (new prev)) (new ((cString str).take LEN))
      (strncpy LEN str) True := by
  have hlen := length_strncpy LEN str
  have hread := ((read_consumes (e := strncpy LEN str) (by omega)).mapThrow
    fun _ q => (new prev, q)).map fun pszBuf => new (cString (pszBuf ++ [0]))
  rw [cString_strncpy, hlen] at hread
  exact hread

/-- Fields are read alike from related streams. -/
theorem unserialize_rel {σ τ : Type} [ByteStream σ] [ByteStream τ] {lax : Prop} {R : σ → τ → Prop}
    (hR : ReadSimulation lax R) (LEN : Nat) :
    SameReader lax R (unserialize LEN) (unserialize LEN) := by
  intro s t f h
  unfold unserialize
  split
  · exact (block_rel hR f LEN h).bindValue fun pszBuf _ _ h =>
      .returned (sameValue { f with pcstr := cString (pszBuf ++ [0]) } h)
  · exact .threw (sameValue f h)

/-- Nothing is read for a constant string. -/
theorem unserialize_ofConst {σ : Type} [ByteStream σ] (LEN : Nat) (s : σ) (str : List Byte) :
    (unserialize LEN s (ofConst str)).Threw := Outcome.threw_threw _ _

end CFixedFieldString

namespace Field

open CDataStream (Offers)

/-- Fields are read in a row, up to one that is not there in full. -/
theorem recoversRecords {fuel : Nat} (hfuel : 2 ^ 31 ≤ fuel) :
    RecoversRecords (σ := CDataStream) (shiftRight fuel) SameType bytes
      (fun m => m.Storable ∧ m.kept = m) Offers (fun _ _ => True) where
  whole := by
    rintro s _ _ rest hs ⟨hm, hkept⟩ ht
    cases ht with
    | object target v =>
      obtain ⟨s', hs', hrest⟩ := hs.consume (target.type.unserialize_queue fuel hs.wellFormed
        hs.short target.value) (Object.Storable.consumes hfuel hm)
      exact ⟨s', by rw [shiftRight, Object.shiftRight, hs']; rfl, hrest⟩
    | fixedString LEN prev str =>
      have hrel := CFixedFieldString.unserialize_rel (refines_read False) LEN s s.queue
        (.new prev) (CDataStream.refines_queue hs.wellFormed (Or.inl hs.short))
      obtain ⟨s', hs', hrest⟩ := hs.consume
        (f := fun q => CFixedFieldString.unserialize LEN q (.new prev)) hrel
        (CFixedFieldString.unserialize_consumes hm str prev)
      refine ⟨s', ?_, hrest⟩
      rw [← hkept, shiftRight, hs']
      rfl
  torn := by
    rintro s _ _ p hs ⟨hm, -⟩ ht hp hne
    cases ht with
    | object target v =>
      obtain ⟨what, ⟨v', s'⟩, hthrew⟩ := hs.consume_torn (target.type.unserialize_queue fuel
        hs.wellFormed hs.short target.value) (Object.Storable.consumes hfuel hm) hp hne
      exact ⟨what, s', by rw [shiftRight, Object.shiftRight, hthrew]; rfl, trivial⟩
    | fixedString LEN prev str =>
      have hrel := CFixedFieldString.unserialize_rel (refines_read False) LEN s s.queue
        (.new prev) (CDataStream.refines_queue hs.wellFormed (Or.inl hs.short))
      obtain ⟨what, ⟨f, s'⟩, hthrew⟩ := hs.consume_torn
        (f := fun q => CFixedFieldString.unserialize LEN q (.new prev)) hrel
        (CFixedFieldString.unserialize_consumes hm str prev) hp hne
      exact ⟨what, s', by rw [shiftRight, hthrew]; rfl, trivial⟩

/-- A field is appended to a stream as its bytes. -/
theorem shiftLeft_stream {f : Field} (hf : f.Storable) (s : CDataStream) :
    f.shiftLeft s = .returned { s with vch := s.vch ++ f.bytes } := by
  cases f with
  | object m => exact Object.Storable.shiftLeft_stream hf s
  | fixedString LEN str =>
    have hLEN : LEN < 2 ^ 31 := hf
    have hneg : ¬ (LEN : Int) < 0 := by omega
    change s.write (strncpy LEN str) (intOf LEN) = _
    rw [CDataStream.write, intOf_of_lt hLEN, if_neg hneg, Int.toNat_natCast, length_strncpy,
      if_neg (lt_irrefl LEN), List.take_of_length_le (length_strncpy LEN str).le, bytes]

/-- What a field keeps can be read back. -/
theorem Storable.kept {f : Field} (h : f.Storable) : f.kept.Storable := by
  cases f with
  | object m => exact h
  | fixedString LEN str => exact h

/-- What is kept once is kept again. -/
theorem kept_kept (f : Field) : f.kept.kept = f.kept := by
  rw [kept_eq_iff]
  cases f with
  | object m => trivial
  | fixedString LEN str => exact ⟨notMem_take_cString LEN str, List.length_take_le _ _⟩

/-- Strings of fixed length and other objects are written in a row and read back from as many of
the bytes as there are: each string comes back cut at its first 0 and at the length of its field,
each other object as it was, up to the first that is not there in full. -/
theorem takeAll_kept {fuel : Nat} (hfuel : 2 ^ 31 ≤ fuel) {targets ms : List Field}
    (htargets : List.Forall₂ SameType targets ms) (hstorable : ∀ m ∈ ms, m.Storable)
    (hlen : (ms.flatMap bytes).length < 2 ^ 31) :
    ∃ b, putAll shiftLeft ms (CDataStream.init []) = .returned (CDataStream.init b) ∧
      b.length < 2 ^ 31 ∧
      (∀ room, b.length ≤ room → ∃ s', takeAll (shiftRight fuel) targets
        (CDataStream.init (b.take room)) = .returned (ms.map Field.kept, s') ∧ s'.unread = []) ∧
      (∀ room < b.length, ∃ what s', takeAll (shiftRight fuel) targets
        (CDataStream.init (b.take room)) =
          .threw what ((fitting bytes room ms).map Field.kept, s')) ∧
      (ms.map Field.kept = ms ↔ ∀ m ∈ ms, m.Fits) := by
  have hkept : (ms.map Field.kept).flatMap bytes = ms.flatMap bytes := by
    rw [List.flatMap_map]
    exact List.flatMap_congr fun m _ => m.bytes_kept
  have htargets' : List.Forall₂ SameType targets (ms.map Field.kept) := by
    rw [List.forall₂_map_right_iff]
    refine htargets.imp fun target m ht => ?_
    cases ht with
    | object target v => exact .object target v
    | fixedString LEN prev str => exact .fixedString LEN prev _
  have hgood : ∀ m ∈ ms.map Field.kept, m.Storable ∧ m.kept = m := by
    intro m hm
    obtain ⟨f, hf, rfl⟩ := List.mem_map.mp hm
    exact ⟨(hstorable f hf).kept, f.kept_kept⟩
  have hoffers (room : Nat) :
      (CDataStream.init ((ms.flatMap bytes).take room)).Offers
        (((ms.map Field.kept).flatMap bytes).take room) := by
    rw [hkept]
    exact CDataStream.offers_init ((List.length_take_le' _ _).trans_lt hlen)
  have htake (room : Nat) := (recoversRecords hfuel).takeAll htargets' hgood (hoffers room)
  simp only [ne_eq, fitting_eq_self_iff, hkept, not_le, and_true] at htake
  simp only [fitting_map bytes bytes_kept] at htake
  refine ⟨_, CDataStream.putAll_appends (fun m hm => shiftLeft_stream (hstorable m hm)) _, hlen,
    fun room hroom => ?_, fun room hroom => ?_, ?_⟩
  · obtain ⟨s', hs', hrest⟩ := (htake room).1 hroom
    exact ⟨s', hs', hrest.unread⟩
  · exact (htake room).2 hroom
  · have hall := List.map_inj_left (f := Field.kept) (g := id) (l := ms)
    rw [List.map_id] at hall
    exact hall.trans (forall₂_congr fun m _ => m.kept_eq_iff)

/-- A string that is too long for its field, in front of an integer, and the bytes of both but for
the last one. -/
theorem takeAll_kept_long :
    ∃ what s', takeAll (shiftRight (2 ^ 31))
        [fixedString 3 [], .object ⟨true, _, .integer .unsignedShort, 0⟩]
        (CDataStream.init [65, 66, 67, 7]) =
      .threw what ([fixedString 3 [65, 66, 67]], s') := by
  have hshort : (⟨true, _, .integer .unsignedShort, 7⟩ : Object).Storable :=
    ⟨trivial, trivial, trivial, trivial, rfl⟩
  obtain ⟨b, hb, -, -, htorn, -⟩ := takeAll_kept le_rfl
    (.cons (.fixedString 3 [] [65, 66, 67, 68])
      (.cons (.object ⟨true, _, .integer .unsignedShort, 0⟩ (7 : Word 2)) .nil))
    (by
      intro m hm
      simp only [List.mem_cons, List.not_mem_nil, or_false] at hm
      rcases hm with rfl | rfl
      · exact (by decide : 3 < 2 ^ 31)
      · exact hshort)
    (by decide +kernel)
  obtain rfl : b = [65, 66, 67, 7, 0] := by
    have hwritten := hb.symm.trans (c := .returned (CDataStream.init [65, 66, 67, 7, 0]))
      (by decide +kernel)
    exact congrArg CDataStream.vch (Outcome.returned.inj hwritten)
  exact htorn 4 (by decide)

end Field

end BananaApi.Server
