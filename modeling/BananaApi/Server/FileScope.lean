import BananaApi.Server.FileLog
import BananaApi.Server.Simulation

/-!
# The scope of a `CAutoFile`

The wrapper closes its file when it goes out of scope, whether the scope is left at its end or by
an exception. `fclose` closes the file early and `release` gives it away; `operator=` takes a new
one and lets the old one go without closing it. Every file that was given to the wrapper is
accounted for when the scope is left.
-/

namespace BananaApi.Server

/-- The files behind a pointer. -/
def idsOf (file : Option File) : List FileId := (file.map File.id).toList

/-- What a function does with the wrapper in its scope. -/
inductive FileOp where
  | shiftLeft (m : Object)
  | shiftRight (target : Object)
  | read (nSize : Int)
  | write (pch : List Byte) (nSize : Int)
  | exceptions (mask : BitVec 16)
  | clear (n : BitVec 16)
  | fclose
  | release
  | assign (pnew : Option File)

/-- The pointers an operation gives to the wrapper. -/
def FileOp.given : FileOp → List FileId
  | .assign pnew => idsOf pnew
  | _ => []

/-- The wrapper, the files it was given, and what has become of those it has no longer. -/
structure FileScope where
  file : CAutoFile
  given : List FileId
  closed : List FileId
  released : List FileId
  overwritten : List FileId

namespace FileScope

/-- The wrapper is constructed. -/
def enter (filenew : Option File) : FileScope := ⟨.new filenew, idsOf filenew, [], [], []⟩

/-- A call that uses the wrapper as a stream. -/
def use (s : FileScope) (o : Outcome CAutoFile CAutoFile) : Outcome FileScope FileScope :=
  (o.mapThrow fun file => { s with file := file }).bind fun file =>
    .returned { s with file := file }

/-- `fclose`, which is also what the destructor does. -/
def fclose (s : FileScope) : FileScope :=
  { s with file := s.file.fclose.2, closed := s.closed ++ idsOf s.file.fclose.1 }

/-- The destructor is called behind the last statement and where an exception leaves the scope. -/
def leave (o : Outcome FileScope FileScope) : Outcome FileScope FileScope :=
  (o.mapThrow fclose).bind fun s => .returned s.fclose

end FileScope

/-- One statement of the scope. -/
def FileOp.perform (fuel : Nat) : FileOp → FileScope → Outcome FileScope FileScope
  | .shiftLeft m, s => s.use (m.intoFile s.file)
  | .shiftRight target, s => s.use ((target.fromFile fuel s.file).bind fun p => .returned p.2)
  | .read nSize, s => s.use (s.file.read nSize >>= fun p => .returned p.2)
  | .write pch nSize, s => s.use (s.file.write pch nSize)
  | .exceptions mask, s => s.use (s.file.exceptions mask >>= fun p => .returned p.2)
  | .clear n, s => .returned { s with file := s.file.clear n }
  | .fclose, s => .returned s.fclose
  | .release, s => .returned { s with
      file := s.file.release.2
      released := s.released ++ idsOf s.file.release.1 }
  | .assign pnew, s => .returned { s with
      file := s.file.assign pnew
      given := s.given ++ idsOf pnew
      overwritten := s.overwritten ++ idsOf s.file.file }

/-- A scope with a wrapper that is constructed from a pointer. -/
def FileScope.run (fuel : Nat) (filenew : Option File) (ops : List FileOp) :
    Outcome FileScope FileScope :=
  leave (putAll (FileOp.perform fuel) ops (enter filenew))

/-! ## Streams keep their files -/

section Keeping

variable {σ : Type} [ByteStream σ] {I : σ → Prop}

/-- What the reads of a stream keep, the readers of every type keep. -/
theorem Ty.unserialize_ends
    (hI : ∀ s n, I s → (ByteStream.read s n).Ends I fun p => I p.2) {κ : Kind} {α : Type}
    (t : Ty κ α) (fuel : Nat) {s : σ} (hs : I s) (prev : α) :
    (t.unserialize fuel s prev).Ends (fun p => I p.2) fun p => I p.2 := by
  have hread : ReadSimulation False fun s s' : σ => s = s' ∧ I s := by
    rintro s _ n - ⟨rfl, hs⟩
    have hends := hI s n hs
    generalize ByteStream.read s n = o at hends
    cases o with
    | returned p => exact .returned ⟨rfl, rfl, hends.1 p rfl⟩
    | threw what e => exact .threw ⟨rfl, hends.2 what e rfl⟩
    | aborted => exact .aborted
    | overran => exact .overran
    | unfinished => exact .unfinished
  exact (t.unserialize_rel hread fuel s s prev ⟨rfl, hs⟩).ends (fun _ _ h => h.2.2)
    fun _ _ h => h.2.2

/-- What the writes of a stream keep, the writers of every type keep. -/
theorem Ty.serialize_ends (hI : ∀ s bs n, I s → (ByteStream.write s bs n).Ends I I) {κ : Kind}
    {α : Type} (t : Ty κ α) {s : σ} (hs : I s) (v : α) : (t.serialize s v).Ends I I := by
  have hwrite : WriteSimulation fun s s' : σ => s = s' ∧ I s := by
    rintro s _ bs n ⟨rfl, hs⟩
    have hends := hI s bs n hs
    generalize ByteStream.write s bs n = o at hends
    cases o with
    | returned s => exact .returned ⟨rfl, hends.1 s rfl⟩
    | threw what e => exact .threw ⟨rfl, hends.2 what e rfl⟩
    | aborted => exact .aborted
    | overran => exact .overran
    | unfinished => exact .unfinished
  exact (t.serialize_rel hwrite s s v ⟨rfl, hs⟩).ends (fun _ _ h => h.2) fun _ _ h => h.2

end Keeping

namespace File

@[simp] theorem id_fread (f : File) (count : Nat) : (f.fread count).2.id = f.id := by
  rw [fread]
  split <;> rfl

@[simp] theorem id_fwrite (f : File) (pch : List Byte) (count : Nat) :
    (f.fwrite pch count).2.id = f.id := by
  rw [fwrite]
  split <;> rfl

end File

namespace CAutoFile

/-- The wrapper has a pointer to one of these files. -/
def Holding (ids : List FileId) (s : CAutoFile) : Prop := idsOf s.file = ids

variable {ids : List FileId} {s : CAutoFile}

/-- Setting the state leaves the file. -/
theorem setstate_ends (hs : s.Holding ids) (bits : BitVec 16) (psz : String) :
    (s.setstate bits psz).Ends (Holding ids) (Holding ids) := by
  rw [setstate]
  split
  · exact Outcome.ends_threw hs
  · exact Outcome.ends_returned hs

/-- Reading leaves the file. -/
theorem read_ends (hs : s.Holding ids) (nSize : Int) :
    (s.read nSize).Ends (Holding ids) fun p => p.2.Holding ids := by
  cases hfile : s.file with
  | none =>
    simp only [read, hfile]
    exact Outcome.ends_threw hs
  | some file =>
    have hholding : Holding ids { s with file := some (file.fread (sizeT nSize)).2 } := by
      simpa [Holding, idsOf, hfile] using hs
    simp only [read, hfile]
    split
    · exact (setstate_ends hholding _ _).bind fun _ h => Outcome.ends_returned h
    · exact Outcome.ends_returned hholding

theorem write_ends (hs : s.Holding ids) (pch : List Byte) (nSize : Int) :
    (s.write pch nSize).Ends (Holding ids) (Holding ids) := by
  cases hfile : s.file with
  | none =>
    simp only [write, hfile]
    exact Outcome.ends_threw hs
  | some file =>
    have hholding : Holding ids
        { s with file := some (file.fwrite pch (sizeT nSize)).2 } := by
      simpa [Holding, idsOf, hfile] using hs
    simp only [write, hfile]
    split
    · exact Outcome.ends_overran
    · split
      · exact setstate_ends hholding _ _
      · exact Outcome.ends_returned hholding

theorem exceptions_ends (hs : s.Holding ids) (mask : BitVec 16) :
    (s.exceptions mask).Ends (Holding ids) fun p => p.2.Holding ids :=
  (setstate_ends (s := { s with exceptmask := mask }) hs _ _).bind fun _ h =>
    Outcome.ends_returned h

theorem intoFile_ends (hs : s.Holding ids) (m : Object) :
    (m.intoFile s).Ends (Holding ids) (Holding ids) := by
  rw [Object.intoFile, shiftLeft]
  split
  · exact Outcome.ends_threw hs
  · exact m.type.serialize_ends (fun _ bs n h => write_ends h bs n) hs m.value

theorem fromFile_ends (hs : s.Holding ids) (fuel : Nat) (target : Object) :
    (target.fromFile fuel s).Ends (Holding ids) fun p => p.2.Holding ids := by
  have hread : (s.shiftRight fuel target.type target.value).Ends (fun p => p.2.Holding ids)
      fun p => p.2.Holding ids := by
    rw [shiftRight]
    split
    · exact Outcome.ends_threw hs
    · exact target.type.unserialize_ends (fun _ n h => read_ends h n) fuel hs target.value
  exact (hread.mapThrow fun _ h => h).bind fun _ h => Outcome.ends_returned h

end CAutoFile

/-! ## The files of a scope -/

namespace FileScope

/-- How often a file was given to the wrapper, and how often it is somewhere. -/
structure Accounted (filenew : Option File) (done : List FileOp) (s : FileScope) : Prop where
  given : s.given = idsOf filenew ++ done.flatMap FileOp.given
  closed : ∀ id ∈ s.closed, ¬ id.Standard
  overwritten : (∀ pnew, .assign pnew ∉ done) → s.overwritten = []
  balance : ∀ id, ¬ id.Standard → s.given.count id =
    (idsOf s.file.file).count id + s.closed.count id + s.released.count id +
      s.overwritten.count id

variable {filenew : Option File} {done : List FileOp} {s : FileScope}

/-- At first the file of the constructor is the only one. -/
theorem accounted_enter (filenew : Option File) : (enter filenew).Accounted filenew [] where
  given := by simp [enter]
  closed := nofun
  overwritten _ := rfl
  balance id _ := by simp [enter, CAutoFile.new]

/-- An operation that gives the wrapper nothing does not change the account. -/
theorem Accounted.skip (hs : s.Accounted filenew done) {op : FileOp} (hop : op.given = []) :
    s.Accounted filenew (done ++ [op]) where
  given := by simpa [hop] using hs.given
  closed := hs.closed
  overwritten h := hs.overwritten fun pnew hmem => h pnew (List.mem_append_left _ hmem)
  balance := hs.balance

/-- Neither does a call that keeps the pointer. -/
theorem Accounted.use (hs : s.Accounted filenew done) {op : FileOp} (hop : op.given = [])
    {o : Outcome CAutoFile CAutoFile}
    (ho : o.Ends (CAutoFile.Holding (idsOf s.file.file)) (CAutoFile.Holding (idsOf s.file.file))) :
    (s.use o).Ends (Accounted filenew (done ++ [op])) (Accounted filenew (done ++ [op])) := by
  have hkept (file : CAutoFile) (h : file.Holding (idsOf s.file.file)) :
      Accounted filenew (done ++ [op]) { s with file := file } := by
    have hnext := hs.skip hop
    rw [CAutoFile.Holding] at h
    exact ⟨hnext.given, hnext.closed, hnext.overwritten, by simpa [h] using hnext.balance⟩
  exact (ho.mapThrow hkept).bind fun file h => Outcome.ends_returned (hkept file h)

/-- Of the files that are not standard streams, `fclose` closes the one it lets go. -/
theorem count_idsOf_fclose (file : CAutoFile) {id : FileId} (hid : ¬ id.Standard) :
    (idsOf file.fclose.1).count id = (idsOf file.file).count id := by
  rw [CAutoFile.fclose, idsOf, idsOf]
  cases file.file with
  | none => rfl
  | some f =>
    by_cases hf : f.id.Standard
    · have hne : f.id ≠ id := by
        rintro rfl
        exact hid hf
      simp [Option.filter, hf, hne]
    · simp [Option.filter, hf]

/-- `fclose` leaves the standard streams open. -/
theorem not_standard_of_mem_fclose {file : CAutoFile} {id : FileId}
    (h : id ∈ idsOf file.fclose.1) : ¬ id.Standard := by
  simp only [idsOf, CAutoFile.fclose, Option.mem_toList, Option.map_eq_some_iff,
    Option.filter_eq_some_iff, decide_eq_true_eq] at h
  obtain ⟨f, ⟨-, hf⟩, rfl⟩ := h
  exact hf

/-- Closing the file moves it to those that were closed. -/
theorem Accounted.fclose (hs : s.Accounted filenew done) :
    s.fclose.Accounted filenew done where
  given := hs.given
  closed := by
    intro id hid
    rcases List.mem_append.mp hid with hid | hid
    · exact hs.closed id hid
    · exact not_standard_of_mem_fclose hid
  overwritten := hs.overwritten
  balance := by
    intro id hid
    have hbalance := hs.balance id hid
    have hclosed := count_idsOf_fclose s.file hid
    simp only [FileScope.fclose, List.count_append, hclosed]
    change _ = (idsOf none).count id + _ + _ + _
    simp only [idsOf, Option.map_none, Option.toList_none, List.count_nil] at hbalance ⊢
    omega

/-- Every statement of the scope keeps account of its files, also where it throws. -/
theorem perform_ends (fuel : Nat) (done : List FileOp) (op : FileOp) (s : FileScope)
    (hs : s.Accounted filenew done) :
    (op.perform fuel s).Ends (Accounted filenew (done ++ [op]))
      (Accounted filenew (done ++ [op])) := by
  cases op with
  | shiftLeft m => exact hs.use rfl (CAutoFile.intoFile_ends rfl m)
  | shiftRight target =>
    exact hs.use rfl ((CAutoFile.fromFile_ends rfl fuel target).bind fun _ h =>
      Outcome.ends_returned h)
  | read nSize =>
    exact hs.use rfl ((CAutoFile.read_ends rfl nSize).bind fun _ h => Outcome.ends_returned h)
  | write pch nSize => exact hs.use rfl (CAutoFile.write_ends rfl pch nSize)
  | exceptions mask => exact hs.use rfl ((CAutoFile.exceptions_ends rfl mask).bind fun _ h =>
      Outcome.ends_returned h)
  | clear n => exact hs.use rfl (o := .returned (s.file.clear n)) (Outcome.ends_returned rfl)
  | fclose => exact Outcome.ends_returned (hs.fclose.skip rfl)
  | release =>
    have hnext := hs.skip (rfl : FileOp.release.given = [])
    refine Outcome.ends_returned ⟨hnext.given, hnext.closed, hnext.overwritten, fun id hid => ?_⟩
    have hbalance := hs.balance id hid
    simp only [CAutoFile.release, idsOf, Option.map_none, Option.toList_none, List.count_nil,
      List.count_append] at hbalance ⊢
    omega
  | assign pnew =>
    refine Outcome.ends_returned ⟨?_, hs.closed, fun h => ?_, fun id hid => ?_⟩
    · simp [hs.given, FileOp.given]
    · exact absurd (List.mem_append_right _ (List.mem_singleton.mpr rfl)) (h pnew)
    · have hbalance := hs.balance id hid
      simp only [CAutoFile.assign, List.count_append]
      omega

/-- The account when the scope has been left. -/
structure Settled (filenew : Option File) (done : List FileOp) (t : FileScope) : Prop where
  accounted : t.Accounted filenew done
  null : t.file.file = none

/-- Behind the destructor there is no file in the wrapper. -/
theorem Accounted.settled (hs : s.Accounted filenew done) : s.fclose.Settled filenew done :=
  ⟨hs.fclose, rfl⟩

/-- The statements a scope comes to. -/
def begun (fuel : Nat) (filenew : Option File) (ops : List FileOp) : List FileOp :=
  BananaApi.begun (FileOp.perform fuel) ops (enter filenew)

/-- A scope that is left at its end has come to all of its statements. -/
theorem begun_of_run {fuel : Nat} {ops : List FileOp} {t : FileScope}
    (h : run fuel filenew ops = .returned t) : begun fuel filenew ops = ops := by
  obtain ⟨s, hs, -⟩ := Outcome.bind_eq_returned.mp h
  exact begun_of_putAll (Outcome.mapThrow_eq_returned.mp hs)

/-- However the scope is left, the account holds for the statements it has come to. -/
theorem run_ends (fuel : Nat) (filenew : Option File) (ops : List FileOp) :
    (run fuel filenew ops).Ends (Settled filenew (begun fuel filenew ops))
      (Settled filenew (begun fuel filenew ops)) := by
  have hends := putAll_ends (perform_ends fuel) (accounted_enter filenew) ops
  rw [List.nil_append] at hends
  exact (hends.mapThrow fun s hs => hs.settled).bind fun s hs => Outcome.ends_returned hs.settled

/-- However a scope with a wrapper is left, the wrapper has no file any longer, and every file it
was given by the statements the scope has come to, other than the standard streams, has been closed
once for each time it was given, unless it was released or overwritten; only `operator=`
overwrites. -/
theorem run_closes (fuel : Nat) (filenew : Option File) (ops : List FileOp) {t : FileScope}
    (h : run fuel filenew ops = .returned t ∨ ∃ what, run fuel filenew ops = .threw what t) :
    t.file.file = none ∧ (∀ id ∈ t.closed, ¬ id.Standard) ∧
    (∀ id, ¬ id.Standard →
      (idsOf filenew ++ (begun fuel filenew ops).flatMap FileOp.given).count id =
        t.closed.count id + t.released.count id + t.overwritten.count id) ∧
    ((∀ pnew, .assign pnew ∉ begun fuel filenew ops) → t.overwritten = []) ∧
    (run fuel filenew ops = .returned t → begun fuel filenew ops = ops) := by
  obtain ⟨hreturned, hthrew⟩ := run_ends fuel filenew ops
  have ht : t.Settled filenew (begun fuel filenew ops) := by
    rcases h with h | ⟨what, h⟩
    · exact hreturned t h
    · exact hthrew what t h
  refine ⟨ht.null, ht.accounted.closed, fun id hid => ?_, ht.accounted.overwritten, begun_of_run⟩
  have hbalance := ht.accounted.balance id hid
  rw [ht.accounted.given, ht.null] at hbalance
  simpa [idsOf] using hbalance

/-- An integer does not fit into the file; the exception leaves the scope, which closes the file
without coming to the assignment behind it. -/
theorem run_closes_full :
    ∃ what t, run 1 (some ⟨.opened 7, [], 0, false, false, true, 1⟩)
        [.shiftLeft ⟨true, _, .integer .unsignedShort, 258⟩,
          .assign (some ⟨.opened 8, [], 0, false, false, true, 1⟩)] = .threw what t ∧
      t.closed.count (.opened 7) + t.released.count (.opened 7) + t.overwritten.count (.opened 7) =
        1 := by
  obtain ⟨what, t, h⟩ : ∃ what t, run 1 (some ⟨.opened 7, [], 0, false, false, true, 1⟩)
      [.shiftLeft ⟨true, _, .integer .unsignedShort, 258⟩,
        .assign (some ⟨.opened 8, [], 0, false, false, true, 1⟩)] = .threw what t := ⟨_, _, rfl⟩
  obtain ⟨-, -, hbalance, -⟩ := run_closes _ _ _ (Or.inr ⟨what, h⟩)
  exact ⟨what, t, h, (hbalance (.opened 7) (by decide)).symm⟩

end FileScope

end BananaApi.Server
