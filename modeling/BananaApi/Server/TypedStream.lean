import BananaApi.Core.RecordLog
import BananaApi.Core.Serving
import BananaApi.Server.Concatenation
import BananaApi.Server.Consumption
import BananaApi.Server.HostileInput

/-!
# Objects through a stream

A `CDataStream` is a queue of objects of different types: whatever the order of the calls of
`<<` and `>>`, the objects come out as they went in, as long as every `>>` names the type of
the object that is next. Calls may be mixed freely, because reading to the end clears the buffer and
writing goes on behind the position wherever that is.
-/

namespace BananaApi.Server

/-- An object together with its type. -/
structure Object where
  fundamental : Bool
  carrier : Type
  type : Ty (.object fundamental) carrier
  value : carrier

namespace Object

/-- The bytes of an object that has an encoding. -/
def bytes (m : Object) : List Byte := (m.type.encoding m.value).getD []

/-- What an object has to satisfy to be read back: no string is wide, no vector's element is larger
than a chunk, and every size fits an `int`. -/
structure Storable (m : Object) : Prop where
  chunksAdvance : m.type.ChunksAdvance
  charStrings : m.type.CharStrings
  small : m.type.Small m.value
  blocksFit : m.type.BlocksFit m.value
  encodes : m.type.encoding m.value = some m.bytes

/-- The object of the same type with another value. -/
def withValue (m : Object) (v : m.carrier) : Object := { m with value := v }

/-- The target of a `>>` has the type of the object that is read. -/
def SameType (target m : Object) : Prop := ∃ v, m = target.withValue v

/-- The bytes of an object are consumed by a reader of its type. -/
theorem Storable.consumes {fuel : Nat} (hfuel : 2 ^ 31 ≤ fuel) {target : Object}
    {v : target.carrier} (hm : (target.withValue v).Storable) :
    Consumes (fun q => target.type.unserialize fuel q target.value) v (target.withValue v).bytes
      True :=
  (target.type.unserialize_consumes hfuel hm.chunksAdvance hm.charStrings v _ hm.small hm.encodes
    target.value).congr (iff_true_intro hm.blocksFit)

/-- The bytes of objects of given types tell the objects apart, whatever follows them. -/
theorem flatMap_bytes_unique {targets ms ms' : List Object}
    (hms : List.Forall₂ SameType targets ms) (hms' : List.Forall₂ SameType targets ms')
    (hstorable : ∀ m ∈ ms, m.Storable) (hstorable' : ∀ m ∈ ms', m.Storable)
    {rest rest' : List Byte} (h : ms.flatMap bytes ++ rest = ms'.flatMap bytes ++ rest') :
    ms = ms' ∧ rest = rest' := by
  induction hms generalizing ms' with
  | nil =>
    cases hms'
    exact ⟨rfl, h⟩
  | @cons target m targets ms ht _ ih =>
    cases hms' with
    | @cons _ m' _ ms' ht' hms' =>
      obtain ⟨v, rfl⟩ := ht
      obtain ⟨v', rfl⟩ := ht'
      obtain ⟨hm, hms⟩ := List.forall_mem_cons.mp hstorable
      obtain ⟨hm', hms''⟩ := List.forall_mem_cons.mp hstorable'
      rw [List.flatMap_cons, List.flatMap_cons, List.append_assoc, List.append_assoc] at h
      -- One reader takes the first object off the bytes of both sequences.
      have hone := (hm.consumes le_rfl).decodes trivial (ByteQueue.init _) _ h.symm
      have hother := (hm'.consumes le_rfl).decodes trivial (ByteQueue.init _)
        (ms'.flatMap bytes ++ rest') rfl
      obtain ⟨rfl, hqueue⟩ := Prod.mk.inj (Outcome.returned.inj (hone.symm.trans hother))
      obtain ⟨rfl, hrest⟩ := ih hms' hms hms'' (ByteQueue.mk.inj hqueue).1
      exact ⟨rfl, hrest⟩

section Operators

variable {σ : Type} [ByteStream σ]

/-- `operator<<`. -/
def shiftLeft (m : Object) (s : σ) : Outcome σ σ := m.type.serialize s m.value

/-- `operator>>`, with the object it leaves in the place of its target. -/
def shiftRight (fuel : Nat) (target : Object) (s : σ) : Outcome σ (Object × σ) :=
  ((target.type.unserialize fuel s target.value).mapThrow Prod.snd).bind fun p =>
    .returned (target.withValue p.1, p.2)

/-- Calls of `<<` and `>>` on one stream, with the objects read. -/
def run (fuel : Nat) (ops : List (QueueOp Object Object)) (s : σ) : Outcome σ (List Object × σ) :=
  serve shiftLeft (shiftRight fuel) ops s

end Operators

end Object

/-- Calls that append the bytes of objects append them in a row. -/
theorem CDataStream.putAll_appends {M : Type*} {code : M → List Byte} {ms : List M}
    {put : M → CDataStream → Outcome CDataStream CDataStream}
    (hput : ∀ m ∈ ms, ∀ s, put m s = .returned { s with vch := s.vch ++ code m })
    (s : CDataStream) :
    putAll put ms s = .returned { s with vch := s.vch ++ ms.flatMap code } := by
  induction ms generalizing s with
  | nil =>
    rw [List.flatMap_nil, List.append_nil]
    rfl
  | cons m ms ih =>
    obtain ⟨hm, hms⟩ := List.forall_mem_cons.mp hput
    rw [putAll, hm, List.flatMap_cons, ← List.append_assoc]
    exact ih hms _

namespace Object

/-- A storable object goes to the end of the stream as its bytes. -/
theorem Storable.shiftLeft_stream {m : Object} (hm : m.Storable) (s : CDataStream) :
    m.shiftLeft s = .returned { s with vch := s.vch ++ m.bytes } := by
  rw [shiftLeft, Ty.serialize_stream, hm.encodes]

/-- Objects in a row are written as their bytes in a row. -/
theorem eq_of_putAll {ms : List Object} (hms : ∀ m ∈ ms, m.Storable) {b : List Byte}
    (h : putAll shiftLeft ms (CDataStream.init []) = .returned (CDataStream.init b)) :
    b = ms.flatMap bytes := by
  rw [CDataStream.putAll_appends fun m hm => (hms m hm).shiftLeft_stream] at h
  exact (congrArg CDataStream.vch (Outcome.returned.inj h)).symm

/-- What `<<` writes for objects of given types tells the objects apart, whatever follows. -/
theorem putAll_unique {targets ms ms' : List Object}
    (hms : List.Forall₂ SameType targets ms) (hms' : List.Forall₂ SameType targets ms')
    (hstorable : ∀ m ∈ ms, m.Storable) (hstorable' : ∀ m ∈ ms', m.Storable)
    {b b' rest rest' : List Byte}
    (hb : putAll shiftLeft ms (CDataStream.init []) = .returned (CDataStream.init b))
    (hb' : putAll shiftLeft ms' (CDataStream.init []) = .returned (CDataStream.init b'))
    (h : b ++ rest = b' ++ rest') : ms = ms' ∧ rest = rest' := by
  rw [eq_of_putAll hstorable hb, eq_of_putAll hstorable' hb'] at h
  exact flatMap_bytes_unique hms hms' hstorable hstorable' h

/-- A string of one character with a character behind it is not a string of two. -/
theorem putAll_unique_string :
    ∃ b b', putAll shiftLeft [(⟨false, _, .string 1, [65]⟩ : Object)] (CDataStream.init []) =
        .returned (CDataStream.init b) ∧
      putAll shiftLeft [(⟨false, _, .string 1, [65, 66]⟩ : Object)] (CDataStream.init []) =
        .returned (CDataStream.init b') ∧
      b ++ [66] ≠ b' ++ [] := by
  have hsame (str : List (Word 1)) :
      (⟨false, _, .string 1, []⟩ : Object).SameType ⟨false, _, .string 1, str⟩ := ⟨str, rfl⟩
  have hone : (⟨false, _, .string 1, [65]⟩ : Object).Storable :=
    ⟨trivial, rfl, by simp [Ty.Small], trivial, by decide +kernel⟩
  have htwo : (⟨false, _, .string 1, [65, 66]⟩ : Object).Storable :=
    ⟨trivial, rfl, by simp [Ty.Small], trivial, by decide +kernel⟩
  refine ⟨[1, 65], [2, 65, 66], rfl, rfl, fun h => ?_⟩
  have hunique := putAll_unique (.cons (hsame [65]) .nil) (.cons (hsame [65, 66]) .nil)
    (List.forall_mem_singleton.mpr hone) (List.forall_mem_singleton.mpr htwo) rfl rfl h
  exact absurd hunique.2 (by simp)

end Object

/-! ## Reading does not make a buffer longer -/

namespace CDataStream

/-- A read does not make the buffer longer. -/
theorem length_le_of_read {s t : CDataStream} {n : Int}
    (h : (∃ bytes, s.read n = .returned (bytes, t)) ∨ ∃ what, s.read n = .threw what t) :
    t.vch.length ≤ s.vch.length := by
  obtain ⟨_, rfl⟩ | ⟨_, rfl⟩ | ⟨_, -, rfl⟩ := read_leaves h
  · exact le_rfl
  · exact Nat.zero_le _
  · exact le_rfl

end CDataStream

/-- A stream that refines a queue and whose buffer is at most `n` bytes long. -/
def RefinesWithin (n : Nat) (s : CDataStream) (q : ByteQueue) : Prop :=
  Refines False s q ∧ s.vch.length ≤ n

/-- A read keeps the bound of the buffer. -/
theorem refinesWithin_read (n : Nat) : ReadSimulation False (RefinesWithin n) := by
  rintro s q k hk ⟨hrefines, hlen⟩
  have hrel := refines_read False s q k hk hrefines
  have hreturned : ∀ bs t, ByteStream.read s k = .returned (bs, t) → t.vch.length ≤ n :=
    fun bs _ h => (CDataStream.length_le_of_read (Or.inl ⟨bs, h⟩)).trans hlen
  have hthrew : ∀ what t, ByteStream.read s k = .threw what t → t.vch.length ≤ n :=
    fun what _ h => (CDataStream.length_le_of_read (Or.inr ⟨what, h⟩)).trans hlen
  generalize ByteStream.read s k = o at hrel hreturned hthrew
  generalize ByteStream.read q k = o' at hrel
  cases hrel with
  | returned hr => exact .returned ⟨hr.1, hr.2, hreturned _ _ rfl⟩
  | threw he => exact .threw ⟨he, hthrew _ _ rfl⟩
  | aborted => exact .aborted
  | unfinished => exact .unfinished
  | overran => exact .overran
  | overranThrew hlax => exact hlax.elim

/-- A short stream is read as its queue is, and its buffer does not get longer. -/
theorem Ty.unserialize_within {κ : Kind} {α : Type} (fuel : Nat) (t : Ty κ α) {s : CDataStream}
    (hw : s.WellFormed) (hs : s.vch.length < 2 ^ 31) (prev : α) :
    Outcome.Rel False (SameValue (RefinesWithin s.vch.length))
      (SameValue (RefinesWithin s.vch.length)) (t.unserialize fuel s prev)
      (t.unserialize fuel s.queue prev) :=
  t.unserialize_rel (refinesWithin_read _) fuel s s.queue prev
    ⟨CDataStream.refines_queue hw (Or.inl hs), le_rfl⟩

/-! ## Objects in a stream -/

namespace CDataStream

/-- A stream whose unread bytes are those of some objects, with room for `room` more bytes. -/
structure Carries (s : CDataStream) (pending : List Object) (room : Nat) : Prop where
  wellFormed : s.WellFormed
  short : s.vch.length + room < 2 ^ 31
  storable : ∀ m ∈ pending, m.Storable
  unread : s.unread = pending.flatMap Object.bytes

/-- A new stream carries nothing and has all of its room. -/
theorem carries_init {room : Nat} (h : room < 2 ^ 31) : (init []).Carries [] room where
  wellFormed := wellFormed_init []
  short := by
    change 0 + room < 2 ^ 31
    omega
  storable := nofun
  unread := rfl

/-- An object that is written goes behind the others, if there is room for it. -/
theorem Carries.shiftLeft {s : CDataStream} {pending : List Object} {room : Nat} {m : Object}
    (hs : s.Carries pending room) (hm : m.Storable) (hle : m.bytes.length ≤ room) :
    ∃ s', m.shiftLeft s = .returned s' ∧
      s'.Carries (pending ++ [m]) (room - m.bytes.length) := by
  have hw := hs.wellFormed
  have hshort := hs.short
  rw [WellFormed] at hw
  refine ⟨{ s with vch := s.vch ++ m.bytes }, ?_, ?_, ?_, ?_, ?_⟩
  · exact hm.shiftLeft_stream s
  · change s.nReadPos.toNat ≤ (s.vch ++ m.bytes).length
    rw [List.length_append]
    omega
  · change (s.vch ++ m.bytes).length + _ < _
    rw [List.length_append]
    omega
  · intro x hx
    rcases List.mem_append.mp hx with hx | hx
    · exact hs.storable x hx
    · rw [List.mem_singleton.mp hx]
      exact hm
  · have hunread := hs.unread
    rw [CDataStream.unread] at hunread
    change (s.vch ++ m.bytes).drop s.nReadPos.toNat = _
    rw [List.drop_append_of_le_length hw, hunread, List.flatMap_append, List.flatMap_singleton]

/-- The object that is read is the first one. -/
theorem Carries.shiftRight {fuel : Nat} (hfuel : 2 ^ 31 ≤ fuel) {s : CDataStream}
    {pending : List Object} {room : Nat} {target m : Object}
    (hs : s.Carries (m :: pending) room) (ht : target.SameType m) :
    ∃ s', target.shiftRight fuel s = .returned (m, s') ∧ s'.Carries pending room := by
  obtain ⟨v, rfl⟩ := ht
  have hshort := hs.short
  obtain ⟨hm, hpending⟩ := List.forall_mem_cons.mp hs.storable
  have hunread : s.queue.unread =
      (target.withValue v).bytes ++ pending.flatMap Object.bytes := hs.unread
  have hdecodes := (hm.consumes hfuel).decodes trivial s.queue _ hunread
  obtain ⟨⟨v', s'⟩, hs', hvalue, hrefines, hlen⟩ :=
    (target.type.unserialize_within fuel hs.wellFormed (by omega) target.value).returned_right
      hdecodes
  obtain rfl : v' = v := hvalue
  refine ⟨s', ?_, hrefines.wellFormed, ?_, hpending, hrefines.unread⟩
  · rw [Object.shiftRight, hs']
    rfl
  · have hlen : s'.vch.length ≤ s.vch.length := hlen
    omega

/-- A stream carries objects like a queue does. -/
theorem holdsMessages {fuel : Nat} (hfuel : 2 ^ 31 ≤ fuel) :
    HoldsMessages (σ := CDataStream) Object.shiftLeft (Object.shiftRight fuel) Object.SameType
      (fun m => m.bytes.length) Object.Storable Carries where
  put _ _ _ _ hs hm hle := hs.shiftLeft hm hle
  take _ _ _ _ _ hs ht := hs.shiftRight hfuel ht

end CDataStream

/-- The bytes of all objects a run writes. -/
def bytesPut (ops : List (QueueOp Object Object)) : Nat :=
  totalSize (fun m => m.bytes.length) (messagesPut ops)

/-- However calls of `<<` and `>>` are mixed on one stream, the objects are read in the order in
which they were written, each as it was; those not read yet are what is left unread. -/
theorem CDataStream.run_serves {fuel : Nat} (hfuel : 2 ^ 31 ≤ fuel)
    {ops : List (QueueOp Object Object)} {served left : List Object}
    (hops : Serves Object.SameType [] ops served left)
    (hstorable : ∀ m ∈ messagesPut ops, m.Storable) (hroom : bytesPut ops < 2 ^ 31) :
    ∃ s', Object.run fuel ops (init []) = .returned (served, s') ∧ s'.WellFormed ∧
      s'.unread = left.flatMap Object.bytes ∧ served ++ left = messagesPut ops := by
  obtain ⟨s', hrun, hs'⟩ := (holdsMessages hfuel).serve hops hstorable le_rfl (carries_init hroom)
  exact ⟨s', hrun, hs'.wellFormed, hs'.unread, hops.append_eq⟩

/-- A short integer and a string are written, the integer is read, another one is written, and the
string is read. -/
theorem CDataStream.run_serves_mixed :
    ∃ s', Object.run (2 ^ 31)
        [.put ⟨true, _, .integer .unsignedShort, 258⟩, .put ⟨false, _, .string 1, [65, 66]⟩,
          .take ⟨true, _, .integer .unsignedShort, 0⟩,
          .put ⟨true, _, .integer .unsignedShort, 7⟩, .take ⟨false, _, .string 1, []⟩]
        (init []) =
      .returned ([⟨true, _, .integer .unsignedShort, 258⟩, ⟨false, _, .string 1, [65, 66]⟩], s') ∧
      s'.WellFormed ∧ s'.unread = [7, 0] := by
  have hshort (v : Word 2) : (⟨true, _, .integer .unsignedShort, v⟩ : Object).Storable :=
    ⟨trivial, trivial, trivial, trivial, rfl⟩
  have htext : (⟨false, _, .string 1, [65, 66]⟩ : Object).Storable :=
    ⟨trivial, rfl, by simp [Ty.Small], trivial, by decide +kernel⟩
  have hfirst : (⟨true, _, .integer .unsignedShort, 0⟩ : Object).SameType
      ⟨true, _, .integer .unsignedShort, 258⟩ := ⟨(258 : Word 2), rfl⟩
  have hsecond : (⟨false, _, .string 1, []⟩ : Object).SameType
      ⟨false, _, .string 1, [65, 66]⟩ := ⟨([65, 66] : List (Word 1)), rfl⟩
  obtain ⟨s', hrun, hw, hunread, -⟩ := run_serves le_rfl
    (.put (.put (.take hfirst (.put (.take hsecond (.nil _))))))
    (by
      intro m hm
      simp only [messagesPut, List.mem_cons, List.not_mem_nil, or_false] at hm
      rcases hm with rfl | rfl | rfl
      · exact hshort 258
      · exact htext
      · exact hshort 7)
    (by decide +kernel)
  exact ⟨s', hrun, hw, hunread.trans (by decide +kernel)⟩

end BananaApi.Server
