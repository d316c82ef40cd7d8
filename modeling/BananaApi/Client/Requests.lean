import BananaApi.Client.BananaMessage

/-!
# No request is serialized

The magic number is written as 8 bytes and the test for room refuses an array that
would be exactly full. Either is enough to run out of the 519 bytes allocated for a
request, so every request ends in an exception.
-/

namespace BananaApi.Client

open BytesUtils

section Offsets

variable {offset : Nat} {dest dest' : List Byte} {next : Nat}

/-- Bytes are only written where room is left behind them. -/
theorem writeBytes_eq_ok {data : List Byte} (h : writeBytes offset data dest = .ok next dest') :
    next = offset + data.length ∧ next < dest.length ∧ dest'.length = dest.length := by
  by_cases hroom : offset + data.length < dest.length
  · rw [writeBytes_of_lt hroom] at h
    cases h
    refine ⟨rfl, hroom, ?_⟩
    simp only [overwrite, List.length_append, List.length_take, List.length_drop]
    omega
  · rw [writeBytes_of_le (by omega)] at h
    cases h

/-- An integer that is written leaves the array as long as it was. -/
theorem writeWord_eq_ok (isLittleEndian : Bool) {n : Nat} {data : Word n}
    (h : writeWord isLittleEndian n offset data dest = .ok next dest') :
    next = offset + n ∧ dest'.length = dest.length := by
  rw [writeWord_eq] at h
  obtain ⟨hnext, _, hlen⟩ := writeBytes_eq_ok h
  rw [length_beBytes] at hnext
  exact ⟨hnext, hlen⟩

/-- A character that is written leaves the array as long as it was. -/
theorem writeChar_eq_ok {c : Word 2} (h : writeChar offset c dest = .ok next dest') :
    next = offset + 1 ∧ dest'.length = dest.length := by
  unfold writeChar at h
  split at h
  · cases h
  · split at h
    · cases h
    · cases h
      exact ⟨rfl, List.length_set⟩

/-- Characters that are written leave the array as long as it was. -/
theorem writeArrayBytes_eq_ok {data : List (Word 2)}
    (h : writeArrayBytes offset data dest = .ok next dest') :
    next = offset + data.length ∧ dest'.length = dest.length := by
  induction data generalizing offset dest with
  | nil =>
    cases h
    exact ⟨rfl, rfl⟩
  | cons c data ih =>
    obtain ⟨middle, dest₁, hc, hrest⟩ := run_bind_eq_ok h
    obtain ⟨rfl, hlen₁⟩ := writeChar_eq_ok hc
    obtain ⟨rfl, hlen⟩ := ih hrest
    refine ⟨?_, hlen.trans hlen₁⟩
    rw [List.length_cons]
    omega

/-- There are as many zeros as were asked for. -/
theorem zeros_eq_ok {n : Int} {bytes : List Byte}
    (h : liftExcept (zeros n) dest = .ok bytes dest') :
    (bytes.length : Int) = n ∧ dest' = dest := by
  unfold zeros at h
  split at h
  · cases h
  · cases h
    rw [List.length_replicate]
    exact ⟨by omega, rfl⟩

/-- Characters and the zeros behind them fill 256 bytes, and one more byte has to be left. -/
theorem writePadded_eq_ok {α : Type} {data : List (Word 2)} {rest : Nat → Run (List Byte) α}
    {a : α} {dest'' : List Byte}
    (h : (writeArrayBytes offset data >>= fun offset =>
      liftExcept (zeros (256 - data.length)) >>= fun bytes =>
        writeBytes offset bytes >>= rest) dest = .ok a dest'') :
    offset + 256 < dest.length ∧ ∃ dest', dest'.length = dest.length ∧
      rest (offset + 256) dest' = .ok a dest'' := by
  obtain ⟨middle, dest₁, hdata, h⟩ := run_bind_eq_ok h
  obtain ⟨bytes, dest₂, hzeros, h⟩ := run_bind_eq_ok h
  obtain ⟨next, dest₃, hbytes, h⟩ := run_bind_eq_ok h
  obtain ⟨rfl, hlen₁⟩ := writeArrayBytes_eq_ok hdata
  obtain ⟨hcount, rfl⟩ := zeros_eq_ok hzeros
  obtain ⟨hnext, hroom, hlen₃⟩ := writeBytes_eq_ok hbytes
  have hall : next = offset + 256 := by omega
  subst hall
  exact ⟨by omega, dest₃, by omega, h⟩

end Offsets

/-- The writes of a request need a buffer of more than 523 bytes. -/
theorem writeRequest_eq_ok (isLittleEndian : Bool) {request : ConnectServerRequest}
    {dest dest' : List Byte} (h : writeRequest isLittleEndian request dest = .ok () dest') :
    523 < dest.length := by
  unfold writeRequest at h
  obtain ⟨o₁, d₁, h₁, h⟩ := run_bind_eq_ok h
  obtain ⟨o₂, d₂, h₂, h⟩ := run_bind_eq_ok h
  obtain ⟨o₃, d₃, h₃, h⟩ := run_bind_eq_ok h
  obtain ⟨rfl, hlen₁⟩ := writeWord_eq_ok isLittleEndian h₁
  obtain ⟨rfl, hlen₂⟩ := writeWord_eq_ok isLittleEndian h₂
  obtain ⟨rfl, hlen₃⟩ := writeChar_eq_ok h₃
  obtain ⟨_, d₄, hlen₄, h⟩ := writePadded_eq_ok h
  obtain ⟨hroom, _⟩ := writePadded_eq_ok h
  omega

/-- `SerializeRequest` throws for every request. -/
theorem serializeRequest_ne_ok (isLittleEndian : Bool) (request : ConnectServerRequest)
    (data : List Byte) :
    serializeRequest isLittleEndian (.connectServerRequest request) ≠ .ok data := by
  intro h
  have hsize : (List.replicate requestSize (0 : Byte)).length = 519 := List.length_replicate
  unfold serializeRequest at h
  generalize List.replicate requestSize (0 : Byte) = dest at h hsize
  cases hrun : writeRequest isLittleEndian request dest with
  | error e buffer =>
    simp only [hrun] at h
    cases h
  | ok a buffer =>
    have hroom := writeRequest_eq_ok isLittleEndian hrun
    omega

/-- A request as it is built in practice. -/
theorem serializeRequest_hello :
    serializeRequest true (.connectServerRequest ⟨0x0005, 0x79CB8912, 65,
      [104, 101, 108, 108, 111], [112, 97, 115, 115, 33], by decide, by decide⟩) =
        .error (.exception "data too big for dest.") := by
  decide +kernel

end BananaApi.Client
