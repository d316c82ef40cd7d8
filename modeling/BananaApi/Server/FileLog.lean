import BananaApi.Core.RecordLog
import BananaApi.Server.FileReading
import BananaApi.Server.FileWriting
import BananaApi.Server.TypedStream

/-!
# A file as a log of objects

Objects are written to the end of a file with `<<` until the first exception, which a full
file causes. Whoever opens the file again and reads the same types with `>>` gets every
object whose `<<` had returned; the next `>>` meets the torn object and throws at the end
of the file.
-/

namespace BananaApi.Server

namespace Object

/-- `file << obj`. -/
def intoFile (m : Object) (s : CAutoFile) : Outcome CAutoFile CAutoFile :=
  s.shiftLeft m.type m.value

/-- `file >> obj`, with the object it leaves in the place of its target. -/
def fromFile (fuel : Nat) (target : Object) (s : CAutoFile) :
    Outcome CAutoFile (Object × CAutoFile) :=
  ((s.shiftRight fuel target.type target.value).mapThrow Prod.snd).bind fun p =>
    .returned (target.withValue p.1, p.2)

end Object

namespace CAutoFile

/-- A file of the given contents that is written at its end, with room for more. -/
structure Stores (s : CAutoFile) (bytes : List Byte) (room : Nat) : Prop where
  throws : s.Throws
  file : ∃ f, s.file = some f ∧ f.AtItsEnd ∧ f.contents = bytes ∧ f.room = room

/-- A wrapper around a file to which bytes were appended stores them behind the others. -/
theorem stores_extended {s : CAutoFile} (hs : s.Throws) {f : File} (hf : f.AtItsEnd)
    (state : BitVec 16) {bs : List Byte} (hle : bs.length ≤ f.room) :
    Stores { s with file := some (f.extended bs), state := state } (f.contents ++ bs)
      (f.room - bs.length) :=
  ⟨hs, _, rfl, hf.extended hle, rfl, f.room_extended bs⟩

/-- An object is written to the end of a file by appending its bytes. -/
theorem intoFile_eq_put {s : CAutoFile} {f : File} (hs : s.Throws) (hfile : s.file = some f)
    (hf : f.AtItsEnd) {m : Object} (hm : m.Storable) : m.intoFile s = s.put m.bytes := by
  have hopen : m.intoFile s = m.type.serialize s m.value := by
    simp only [Object.intoFile, shiftLeft, hfile]
  exact hopen.trans (m.type.serialize_puts appendsOnly s m.value _ ⟨hs, f, hfile, hf⟩ hm.encodes)

/-- Objects are appended to a file record by record, the last one as far as there is room. -/
theorem appendsRecords :
    AppendsRecords Object.intoFile Object.bytes Object.Storable Stores where
  whole := by
    rintro s _ _ m ⟨hthrows, f, hfile, hf, rfl, rfl⟩ hm hle
    exact ⟨_, (intoFile_eq_put hthrows hfile hf hm).trans (put_of_le hfile hle),
      stores_extended hthrows hf s.state hle⟩
  torn := by
    rintro s _ _ m ⟨hthrows, f, hfile, hf, rfl, rfl⟩ hm hlt
    have hlen : (m.bytes.take f.room).length = f.room := List.length_take_of_le hlt.le
    have hstores := stores_extended hthrows hf (s.state ||| failbit) hlen.le
    rw [hlen, Nat.sub_self] at hstores
    exact ⟨_, _, (intoFile_eq_put hthrows hfile hf hm).trans (put_of_lt hfile hlt), hstores⟩

/-- A file with fewer than 2 GiB ahead. -/
structure HoldsShort (s : CAutoFile) (bytes : List Byte) : Prop where
  holds : s.Holds bytes
  short : bytes.length < 2 ^ 31

/-- The queue in memory that such a file is read like. -/
theorem HoldsShort.readsAlike {s : CAutoFile} {bytes : List Byte} (h : s.HoldsShort bytes) :
    ReadsAlike (CDataStream.init bytes).queue s :=
  ⟨CDataStream.throws_init bytes, h.short, h.holds⟩

/-- An open file is read by `Unserialize`. -/
theorem Holds.shiftRight_eq {s : CAutoFile} {bytes : List Byte} (h : s.Holds bytes)
    (fuel : Nat) {a : Bool} {α : Type} (t : Ty (.object a) α) (prev : α) :
    s.shiftRight fuel t prev = t.unserialize fuel s prev := by
  obtain ⟨-, f, hfile, -⟩ := h
  simp only [shiftRight, hfile]

/-- Objects are read from a file record by record, up to one that is torn. -/
theorem recoversRecords {fuel : Nat} (hfuel : 2 ^ 31 ≤ fuel) :
    RecoversRecords (Object.fromFile fuel) Object.SameType Object.bytes Object.Storable
      HoldsShort EndOfFile where
  whole := by
    rintro s target _ rest hs hm ⟨v, rfl⟩
    have hdecodes := (hm.consumes hfuel).decodes trivial (CDataStream.init _).queue rest rfl
    obtain ⟨⟨v', s'⟩, hs', hvalue, halike⟩ := (target.type.unserialize_mirrors readsAlike_mirrors
      fuel _ s target.value hs.readsAlike).returned_left hdecodes
    obtain rfl : v = v' := hvalue
    refine ⟨s', ?_, halike.holds, halike.short⟩
    rw [Object.fromFile, hs.holds.shiftRight_eq, hs']
    rfl
  torn := by
    rintro s target _ p hs hm ⟨v, rfl⟩ hp hne
    have halike := hs.readsAlike
    have htorn := (hm.consumes hfuel).truncated _ halike.throws halike.short hp hne
    have hmirrors := target.type.unserialize_mirrors readsAlike_mirrors fuel _ s target.value
      halike
    obtain ⟨what, ⟨v', s'⟩, hthrew, hend⟩ := hmirrors.threw_left htorn
    refine ⟨what, s', ?_, hend⟩
    rw [Object.fromFile, hs.holds.shiftRight_eq, hthrew]
    rfl

/-- A file of objects is extended by more of them until one does not fit. Opened once more, it is
read up to that one: every object written completely comes back, and nothing else does. -/
theorem log_recovers {f : File} (hf : f.AtItsEnd) (hcap : f.capacity < 2 ^ 31)
    {old : List Object} (ms : List Object) {targets : List Object}
    (hold : f.contents = old.flatMap Object.bytes)
    (hstorable : ∀ m ∈ old ++ ms, m.Storable)
    (htargets : List.Forall₂ Object.SameType targets (old ++ ms)) {fuel : Nat}
    (hfuel : 2 ^ 31 ≤ fuel) :
    ∃ s' g, s'.file = some g ∧
      (fitting Object.bytes f.room ms = ms →
        putAll Object.intoFile ms (new (some f)) = .returned s' ∧
        ∃ r, takeAll (Object.fromFile fuel) targets (new (some g.reopened)) =
          .returned (old ++ ms, r) ∧ r.Holds []) ∧
      (fitting Object.bytes f.room ms ≠ ms →
        (∃ what, putAll Object.intoFile ms (new (some f)) = .threw what s') ∧
        ∃ what r, takeAll (Object.fromFile fuel) targets (new (some g.reopened)) =
          .threw what (old ++ fitting Object.bytes f.room ms, r) ∧ EndOfFile what r) := by
  have hlen : (old.flatMap Object.bytes).length = f.position := by
    rw [← hold, hf.position]
  have hle : (old.flatMap Object.bytes).length ≤ f.capacity := hlen.trans_le hf.within
  have hroom : f.room = f.capacity - (old.flatMap Object.bytes).length := by
    rw [hlen]
    rfl
  obtain ⟨s', ⟨hthrows, g, hg, hend, hcontents, -⟩, hall, hsome⟩ :=
    appendsRecords.putAll (fun m hm => hstorable m (List.mem_append_right _ hm))
      ⟨throws_new _, f, rfl, hf, hold, rfl⟩
  have hstored : g.contents = ((old ++ ms).flatMap Object.bytes).take f.capacity := by
    rw [hcontents, List.flatMap_append, List.take_append, List.take_of_length_le hle, hroom]
  have hholds : (new (some g.reopened)).HoldsShort
      (((old ++ ms).flatMap Object.bytes).take f.capacity) := by
    refine ⟨?_, (List.length_take_le _ _).trans_lt hcap⟩
    rw [← hstored]
    exact holds_new (f := g.reopened) rfl rfl
  have hfit := fitting_append Object.bytes hle ms
  rw [← hroom] at hfit
  obtain ⟨hback, htorn⟩ := (recoversRecords hfuel).takeAll htargets hstorable hholds
  rw [hfit, List.append_cancel_left_eq] at hback
  rw [hfit, ne_eq, List.append_cancel_left_eq] at htorn
  refine ⟨s', g, hg, fun heq => ⟨hall heq, ?_⟩, fun hne => ⟨hsome hne, htorn hne⟩⟩
  obtain ⟨r, hr, hrest⟩ := hback heq
  exact ⟨r, hr, hrest.holds⟩

/-- A file of one short integer with room for two more bytes, to which a short integer and a string
are written. -/
theorem log_recovers_torn :
    ∃ s' g, s'.file = some g ∧
      (∃ what, putAll Object.intoFile
          [⟨true, _, .integer .unsignedShort, 7⟩, ⟨false, _, .string 1, [65]⟩]
          (new (some ⟨.opened 0, [2, 1], 2, false, false, true, 5⟩)) = .threw what s') ∧
      ∃ what r, takeAll (Object.fromFile (2 ^ 31))
          [⟨true, _, .integer .unsignedShort, 0⟩, ⟨true, _, .integer .unsignedShort, 0⟩,
            ⟨false, _, .string 1, []⟩] (new (some g.reopened)) =
        .threw what ([⟨true, _, .integer .unsignedShort, 258⟩,
          ⟨true, _, .integer .unsignedShort, 7⟩], r) ∧ EndOfFile what r := by
  have hshort (v : Word 2) : (⟨true, _, .integer .unsignedShort, v⟩ : Object).Storable :=
    ⟨trivial, trivial, trivial, trivial, rfl⟩
  have htext : (⟨false, _, .string 1, [65]⟩ : Object).Storable :=
    ⟨trivial, rfl, by simp [Ty.Small], trivial, by decide +kernel⟩
  have hsame (v w : Word 2) : (⟨true, _, .integer .unsignedShort, v⟩ : Object).SameType
      ⟨true, _, .integer .unsignedShort, w⟩ := ⟨w, rfl⟩
  have hsameText : (⟨false, _, .string 1, []⟩ : Object).SameType ⟨false, _, .string 1, [65]⟩ :=
    ⟨([65] : List (Word 1)), rfl⟩
  have hold : [2, 1] =
      [(⟨true, _, .integer .unsignedShort, 258⟩ : Object)].flatMap Object.bytes := by
    decide +kernel
  obtain ⟨s', g, hg, -, htorn⟩ :=
    log_recovers (f := ⟨.opened 0, [2, 1], 2, false, false, true, 5⟩) ⟨rfl, rfl, by decide⟩
      (by decide) [⟨true, _, .integer .unsignedShort, 7⟩, ⟨false, _, .string 1, [65]⟩] hold
      (by
        intro m hm
        simp only [List.cons_append, List.nil_append, List.mem_cons, List.not_mem_nil,
          or_false] at hm
        rcases hm with rfl | rfl | rfl
        · exact hshort 258
        · exact hshort 7
        · exact htext)
      (.cons (hsame 0 258) (.cons (hsame 0 7) (.cons hsameText .nil))) le_rfl
  obtain ⟨hput, htake⟩ := htorn (fun heq => absurd (congrArg List.length heq) (by decide +kernel))
  exact ⟨s', g, hg, hput, htake⟩

end CAutoFile

end BananaApi.Server
