import BananaApi.Core.Mirroring
import BananaApi.Server.HostileInput

/-!
# `CAutoFile`

The wrapper of `serialize.h` around a `FILE *`, a second type the templates run over. The
file is one without a buffer (`_IONBF`), so that every `fread` and `fwrite` is a call of the
system: it has a position, an end-of-file indicator that sticks, and a capacity beyond which
nothing is written. The wrapper passes an `int` that is converted to `size_t`, and the system
refuses a size that was negative.
-/

namespace BananaApi.Server

/-- Which `FILE` a pointer refers to. -/
inductive FileId where
  | stdin | stdout | stderr
  | opened (n : Nat)
  deriving DecidableEq, Repr

/-- The files `fclose` does not close. -/
def FileId.Standard (id : FileId) : Prop := id = .stdin ∨ id = .stdout ∨ id = .stderr

instance (id : FileId) : Decidable id.Standard := inferInstanceAs (Decidable (_ ∨ _))

/-- A `FILE` and what is behind it. -/
structure File where
  id : FileId
  contents : List Byte
  position : Nat
  eof : Bool
  readable : Bool
  writable : Bool
  capacity : Nat
  deriving DecidableEq, Repr

/-- The conversion of an `int` to `size_t`. -/
def sizeT (n : Int) : Nat := (n % 2 ^ 64).toNat

/-- `SSIZE_MAX`. -/
def ssizeMax : Nat := 2 ^ 63 - 1

/-- The sizes an `int` can hold are kept. -/
theorem sizeT_natCast {n : Nat} (h : n < 2 ^ 31) : sizeT n = n := by
  unfold sizeT
  omega

/-- A negative size is one that no call of the system takes. -/
theorem le_sizeT_of_neg {n : Int} (h : n < 0) (hn : -2 ^ 31 ≤ n) : ssizeMax < sizeT n := by
  unfold sizeT ssizeMax
  omega

namespace File

/-- The bytes behind the position. -/
def left (f : File) : List Byte := f.contents.drop f.position

/-- `fread(pch, 1, count, file)`, with the bytes it stores at the front of `pch`. -/
def fread (f : File) (count : Nat) : List Byte × File :=
  if f.readable = true ∧ f.eof = false ∧ count ≤ ssizeMax then
    let bytes := f.left.take count
    (bytes, { f with
      position := f.position + bytes.length
      eof := decide (bytes.length < count) })
  else ([], f)

/-- `fwrite(pch, 1, count, file)` for at least `count` bytes at `pch`, or for a count that is
refused, with the number it writes. -/
def fwrite (f : File) (pch : List Byte) (count : Nat) : Nat × File :=
  if f.writable = true ∧ count ≤ ssizeMax then
    let fitting := (pch.take count).take (f.capacity - f.position)
    (fitting.length, { f with
      contents := overwrite f.contents f.position fitting
      position := f.position + fitting.length })
  else (0, f)

/-- The file opened once more for reading. -/
def reopened (f : File) : File := { f with position := 0, eof := false, readable := true }

end File

/-- A file pointer, possibly null, with a failure state. -/
structure CAutoFile where
  file : Option File
  state : BitVec 16
  exceptmask : BitVec 16
  deriving DecidableEq, Repr

namespace CAutoFile

/-- The constructor. -/
def new (filenew : Option File) : CAutoFile := ⟨filenew, 0, badbit ||| failbit⟩

/-- `fclose`, with the file it closes. -/
def fclose (s : CAutoFile) : Option File × CAutoFile :=
  (s.file.filter fun f => ¬ f.id.Standard, { s with file := none })

/-- `release`, with the pointer it returns. -/
def release (s : CAutoFile) : Option File × CAutoFile := (s.file, { s with file := none })

/-- `operator=`. -/
def assign (s : CAutoFile) (pnew : Option File) : CAutoFile := { s with file := pnew }

/-- Sets bits of the state, and throws if one of the bits set is in the mask. -/
def setstate (s : CAutoFile) (bits : BitVec 16) (psz : String) : Outcome CAutoFile CAutoFile :=
  let s := { s with state := s.state ||| bits }
  if s.state &&& s.exceptmask ≠ 0 then .threw psz s else .returned s

/-- `clear(n)`, which replaces the state. -/
def clear (s : CAutoFile) (n : BitVec 16) : CAutoFile := { s with state := n }

/-- `exceptions(mask)`, with the mask it replaces. -/
def exceptions (s : CAutoFile) (mask : BitVec 16) : Outcome CAutoFile (BitVec 16 × CAutoFile) := do
  let prev := s.exceptmask
  let s ← { s with exceptmask := mask }.setstate 0 "CAutoFile"
  .returned (prev, s)

/-- `read(pch, nSize)`; the result is what was stored at the front of `pch`. -/
def read (s : CAutoFile) (nSize : Int) : Outcome CAutoFile (List Byte × CAutoFile) :=
  match s.file with
  | none => .threw "CAutoFile::read : file handle is NULL" s
  | some file =>
    let (bytes, file) := file.fread (sizeT nSize)
    let s := { s with file := some file }
    if bytes.length ≠ sizeT nSize then do
      let s ← s.setstate failbit
        (if file.eof then "CAutoFile::read : end of file" else "CAutoFile::read : fread failed")
      .returned (bytes, s)
    else .returned (bytes, s)

/-- `write(pch, nSize)`. -/
def write (s : CAutoFile) (pch : List Byte) (nSize : Int) : Outcome CAutoFile CAutoFile :=
  match s.file with
  | none => .threw "CAutoFile::write : file handle is NULL" s
  | some file =>
    if pch.length < sizeT nSize ∧ sizeT nSize ≤ ssizeMax then .overran
    else
      let (written, file) := file.fwrite pch (sizeT nSize)
      let s := { s with file := some file }
      if written ≠ sizeT nSize then s.setstate failbit "CAutoFile::write : write failed"
      else .returned s

instance : ByteStream CAutoFile where
  read := read
  write := write

section Operators

variable {α : Type} {a : Bool}

/-- `operator<<`. -/
def shiftLeft (s : CAutoFile) (t : Ty (.object a) α) (obj : α) : Outcome CAutoFile CAutoFile :=
  match s.file with
  | none => .threw "CAutoFile::operator<< : file handle is NULL" s
  | some _ => t.serialize s obj

/-- `operator>>`. -/
def shiftRight (fuel : Nat) (s : CAutoFile) (t : Ty (.object a) α) (obj : α) :
    Outcome (α × CAutoFile) (α × CAutoFile) :=
  match s.file with
  | none => .threw "CAutoFile::operator>> : file handle is NULL" (obj, s)
  | some _ => t.unserialize fuel s obj

end Operators

/-- A short transfer throws. -/
def Throws (s : CAutoFile) : Prop := s.exceptmask &&& failbit ≠ 0

/-- The constructor leaves a wrapper that throws on errors. -/
theorem throws_new (filenew : Option File) : (new filenew).Throws := by
  change (badbit ||| failbit) &&& failbit ≠ 0
  decide

/-- Setting `failbit` throws under such a mask, with the text it was given. -/
theorem setstate_failbit {s : CAutoFile} (h : s.Throws) (psz : String) :
    s.setstate failbit psz = .threw psz { s with state := s.state ||| failbit } := by
  rw [setstate]
  exact if_pos (ByteQueue.or_and_ne_zero h)

/-- An open file that is read from, with the given bytes ahead. -/
structure Holds (s : CAutoFile) (bytes : List Byte) : Prop where
  throws : s.Throws
  ahead : ∃ f, s.file = some f ∧ f.readable = true ∧ f.eof = false ∧ f.left = bytes

/-- What a short read leaves behind: a failed wrapper around a file at its end. -/
structure AtEnd (s : CAutoFile) : Prop where
  failed : s.state &&& failbit ≠ 0
  ended : ∃ f, s.file = some f ∧ f.eof = true ∧ f.left = []

/-- What a refused read of these bytes leaves behind: a failed wrapper around a file that has
them ahead. -/
structure Refused (s : CAutoFile) (bytes : List Byte) : Prop where
  failed : s.state &&& failbit ≠ 0
  ahead : ∃ f, s.file = some f ∧ f.eof = false ∧ f.left = bytes

/-- A file that is opened for reading has its bytes ahead. -/
theorem holds_new {f : File} (hr : f.readable = true) (he : f.eof = false) :
    (new (some f)).Holds f.left := ⟨throws_new _, f, rfl, hr, he, rfl⟩

/-- As many bytes as there are ahead are read. -/
theorem Holds.read_of_le {s : CAutoFile} {bytes : List Byte} (h : s.Holds bytes) {n : Nat}
    (hn : n < 2 ^ 31) (hle : n ≤ bytes.length) :
    ∃ s', s.read n = .returned (bytes.take n, s') ∧ s'.Holds (bytes.drop n) := by
  obtain ⟨hthrows, f, hfile, hreadable, heof, rfl⟩ := h
  have hlen : (f.left.take n).length = n := List.length_take_of_le hle
  have hsize : n ≤ ssizeMax := by
    unfold ssizeMax
    omega
  have hread : f.fread n =
      (f.left.take n, { f with position := f.position + n, eof := false }) := by
    rw [File.fread, if_pos ⟨hreadable, heof, hsize⟩]
    simp only [hlen, lt_irrefl, decide_false]
  refine ⟨{ s with file := some { f with position := f.position + n, eof := false } }, ?_,
    hthrows, _, rfl, hreadable, rfl, ?_⟩
  · simp only [read, hfile, sizeT_natCast hn, hread, hlen, ne_eq, not_true_eq_false, if_false]
  · exact List.drop_drop.symm

/-- A file with fewer bytes ahead than are asked for is read to its end, and the read throws. -/
theorem Holds.read_short {s : CAutoFile} {bytes : List Byte} (h : s.Holds bytes) {n : Nat}
    (hn : n < 2 ^ 31) (hlt : bytes.length < n) :
    ∃ s', s.read n = .threw "CAutoFile::read : end of file" s' ∧ s'.AtEnd := by
  obtain ⟨hthrows, f, hfile, hreadable, heof, rfl⟩ := h
  have hall : f.left.take n = f.left := List.take_of_length_le hlt.le
  have hsize : n ≤ ssizeMax := by
    unfold ssizeMax
    omega
  let f' : File := { f with position := f.position + f.left.length, eof := true }
  have hread : f.fread n = (f.left, f') := by
    rw [File.fread, if_pos ⟨hreadable, heof, hsize⟩]
    simp only [hall, hlt, decide_true, f']
  have hfail : (s.state ||| failbit) &&& failbit ≠ 0 := ByteQueue.or_and_ne_zero (by decide)
  refine ⟨{ s with file := some f', state := s.state ||| failbit }, ?_, hfail, f', rfl, rfl, ?_⟩
  · simp only [read, hfile, sizeT_natCast hn, hread, ne_eq, hlt.ne, not_false_eq_true, if_true]
    rw [setstate_failbit (s := { s with file := some f' }) hthrows, Outcome.threw_bind]
    rfl
  · exact (List.drop_drop ..).symm.trans List.drop_length

/-- A read of a negative size is refused, and throws without having read anything. -/
theorem Holds.read_negative {s : CAutoFile} {bytes : List Byte} (h : s.Holds bytes) {n : Int}
    (hneg : n < 0) (hle : -2 ^ 31 ≤ n) :
    ∃ s', s.read n = .threw "CAutoFile::read : fread failed" s' ∧ s'.Refused bytes := by
  obtain ⟨hthrows, f, hfile, hreadable, heof, rfl⟩ := h
  have hsize := le_sizeT_of_neg hneg hle
  have hread : f.fread (sizeT n) = ([], f) := by
    rw [File.fread, if_neg]
    rintro ⟨-, -, hcount⟩
    exact absurd hsize (Nat.not_lt.mpr hcount)
  have hne : 0 ≠ sizeT n := ((Nat.zero_le ssizeMax).trans_lt hsize).ne
  have hfail : (s.state ||| failbit) &&& failbit ≠ 0 := ByteQueue.or_and_ne_zero (by decide)
  refine ⟨{ s with file := some f, state := s.state ||| failbit }, ?_, hfail, f, rfl, heof, rfl⟩
  simp only [read, hfile, hread, List.length_nil, ne_eq, hne, not_false_eq_true, if_true, heof]
  rw [setstate_failbit (s := { s with file := some f }) hthrows, Outcome.threw_bind]
  rfl

end CAutoFile

end BananaApi.Server
