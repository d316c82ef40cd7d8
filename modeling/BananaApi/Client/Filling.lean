import BananaApi.Client.BananaMessage

/-!
# Message fillers in general

`Fill` for every class derived from `IMessageBytesFiller`. Its size stands for nothing
before the first byte, for the fixed part until that is complete, and for the whole
message afterwards, and one comparison tests for the end of both parts: the variable
part is added a second time where the message should end. The size is an `int`.
-/

namespace BananaApi.Client

open NetworkMessage (maxMessageSize)

/-- The sum of two `int`s. -/
def addInt (a b : Int) : Int := Int.bmod (a + b) (2 ^ 32)

/-- A sum that fits an `int` does not wrap. -/
theorem addInt_of_lt {a b : Nat} (h : a + b < 2 ^ 31) : addInt a b = (a + b : Nat) := by
  unfold addInt
  rw [Int.bmod_def]
  omega

/-- A sum that leaves the range of an `int` once turns negative. -/
theorem addInt_neg {a b : Nat} (ha : a < 2 ^ 31) (hb : b < 2 ^ 31) (h : 2 ^ 31 ≤ a + b) :
    addInt a b < 0 := by
  unfold addInt
  rw [Int.bmod_def]
  omega

/-- What a class derived from `IMessageBytesFiller` overrides. -/
structure IMessageBytesFiller where
  getFixedPartMessageSize : Int
  getVariablePartMessageSize : List Byte → Except Fault Int

namespace IMessageBytesFiller

/-- The private fields of a filler. -/
structure Fields where
  messageSize : Int
  buffer : List Byte
  deriving DecidableEq, Repr

/-- The fields of a fresh filler. -/
def Fields.new : Fields := ⟨0, []⟩

variable (c : IMessageBytesFiller)

/-- The end of `Fill`: the test for messages that are too big, and for complete ones. -/
def finish : Run Fields (Option (List Byte)) := do
  let f ← get
  if f.messageSize > maxMessageSize then
    throw (.exception "Message to be filled is too big.")
  if f.messageSize = f.buffer.length then return some f.buffer else return none

/-- One call of `Fill`: null while bytes are missing, else the message. -/
def fill (b : Byte) : Run Fields (Option (List Byte)) := do
  let f ← get
  if f.messageSize = 0 then
    modify fun f => { f with messageSize := c.getFixedPartMessageSize }
  modify fun f => { f with buffer := f.buffer ++ [b] }
  let f ← get
  if (f.buffer.length : Int) = f.messageSize then
    let more ← liftExcept (c.getVariablePartMessageSize f.buffer)
    modify fun f => { f with messageSize := addInt f.messageSize more }
  finish

/-- The end of a call, as one value. -/
theorem finish_eq (f : Fields) :
    finish f =
      if f.messageSize > maxMessageSize then
        .error (.exception "Message to be filled is too big.") f
      else .ok (if f.messageSize = f.buffer.length then some f.buffer else none) f := by
  unfold finish
  rw [run_get_bind]
  split
  · rfl
  · split <;> rfl

/-- The size the buffer is compared with. -/
def testedSize (f : Fields) : Int :=
  if f.messageSize = 0 then c.getFixedPartMessageSize else f.messageSize

/-- A byte that does not complete a part of the message. -/
theorem fill_of_ne (b : Byte) {f : Fields} (h : (f.buffer.length : Int) + 1 ≠ c.testedSize f) :
    c.fill b f = finish ⟨c.testedSize f, f.buffer ++ [b]⟩ := by
  obtain ⟨messageSize, buffer⟩ := f
  unfold fill testedSize at *
  by_cases hzero : messageSize = 0
  · simp only [hzero, if_true] at h ⊢
    simp [h]
  · simp only [hzero, if_false] at h ⊢
    simp [h, hzero]

/-- A byte that completes a part of the message adds the size of the variable part. -/
theorem fill_of_eq (b : Byte) {f : Fields} (h : (f.buffer.length : Int) + 1 = c.testedSize f)
    {more : Int} (hmore : c.getVariablePartMessageSize (f.buffer ++ [b]) = .ok more) :
    c.fill b f = finish ⟨addInt (c.testedSize f) more, f.buffer ++ [b]⟩ := by
  obtain ⟨messageSize, buffer⟩ := f
  unfold fill testedSize at *
  dsimp only at hmore
  by_cases hzero : messageSize = 0
  · simp only [hzero, if_true] at h ⊢
    simp [h, hmore]
  · simp only [hzero, if_false] at h ⊢
    simp [h, hmore, hzero]

/-- A byte that completes a part of the message where the next size is not known. -/
theorem fill_of_throw (b : Byte) {f : Fields} (h : (f.buffer.length : Int) + 1 = c.testedSize f)
    {e : Fault} (he : c.getVariablePartMessageSize (f.buffer ++ [b]) = .error e) :
    c.fill b f = .error e ⟨c.testedSize f, f.buffer ++ [b]⟩ := by
  obtain ⟨messageSize, buffer⟩ := f
  unfold fill testedSize at *
  have hlen : ((buffer ++ [b]).length : Int) = buffer.length + 1 := by
    rw [List.length_append, Nat.cast_add, List.length_singleton, Nat.cast_one]
  dsimp only at he
  by_cases hzero : messageSize = 0
  · simp only [hzero, if_true] at h ⊢
    simp only [run_get_bind, run_modify_bind, if_true, hlen, h, he]
    exact run_bind_error rfl
  · simp only [hzero, if_false] at h ⊢
    simp only [run_get_bind, run_modify_bind, hzero, if_true, if_false, hlen, h, he]
    exact run_bind_error rfl

/-- `Fill` asks for the size of a variable part only where a part of the message ends. -/
theorem fill_congr {c c' : IMessageBytesFiller} {b : Byte} {f : Fields}
    (hfixed : c.getFixedPartMessageSize = c'.getFixedPartMessageSize)
    (hvariable : (f.buffer.length : Int) + 1 = c.testedSize f →
      c.getVariablePartMessageSize (f.buffer ++ [b]) =
        c'.getVariablePartMessageSize (f.buffer ++ [b])) :
    c.fill b f = c'.fill b f := by
  have htested : c.testedSize f = c'.testedSize f := by rw [testedSize, testedSize, hfixed]
  by_cases h : (f.buffer.length : Int) + 1 = c.testedSize f
  · have h' := h.trans htested
    have hvariable := hvariable h
    cases hmore : c'.getVariablePartMessageSize (f.buffer ++ [b]) with
    | ok more =>
      rw [fill_of_eq c b h (hvariable.trans hmore), fill_of_eq c' b h' hmore, htested]
    | error e =>
      rw [fill_of_throw c b h (hvariable.trans hmore), fill_of_throw c' b h' hmore, htested]
  · rw [fill_of_ne c b h, fill_of_ne c' b (fun h' => h (h'.trans htested.symm)), htested]

/-! ## A fresh filler that is fed one byte after another -/

/-- The first bytes of an endless sequence. -/
def fed (bytes : Nat → Byte) (n : Nat) : List Byte := (List.range n).map bytes

@[simp] theorem length_fed (bytes : Nat → Byte) (n : Nat) : (fed bytes n).length = n := by
  rw [fed, List.length_map, List.length_range]

/-- One byte more has been fed. -/
theorem fed_succ (bytes : Nat → Byte) (n : Nat) : fed bytes (n + 1) = fed bytes n ++ [bytes n] := by
  rw [fed, List.range_succ, List.map_append]
  rfl

/-- The fields after a number of calls. -/
def after (bytes : Nat → Byte) : Nat → Fields
  | 0 => .new
  | n + 1 =>
    match c.fill (bytes n) (after bytes n) with
    | .ok _ f => f
    | .error _ f => f

/-- Every call adds its byte to the buffer. -/
theorem buffer_after (bytes : Nat → Byte) (n : Nat) : (c.after bytes n).buffer = fed bytes n := by
  induction n with
  | zero => rfl
  | succ n ih =>
    have hfinish : ∀ size : Int, (match finish ⟨size, fed bytes (n + 1)⟩ with
        | .ok _ f => f
        | .error _ f => f).buffer = fed bytes (n + 1) := by
      intro size
      rw [finish_eq]
      by_cases hbig : size > maxMessageSize
      · simp only [if_pos hbig]
      · simp only [if_neg hbig]
    rw [after]
    by_cases hfull : ((c.after bytes n).buffer.length : Int) + 1 = c.testedSize (c.after bytes n)
    · cases hmore : c.getVariablePartMessageSize ((c.after bytes n).buffer ++ [bytes n]) with
      | ok more =>
        rw [fill_of_eq c _ hfull hmore, ih, ← fed_succ]
        exact hfinish _
      | error e => rw [fill_of_throw c _ hfull hmore, ih, ← fed_succ]
    · rw [fill_of_ne c _ hfull, ih, ← fed_succ]
      exact hfinish _

/-- The call for the byte at an index. -/
def call (bytes : Nat → Byte) (n : Nat) : EStateM.Result Fault Fields (Option (List Byte)) :=
  c.fill (bytes n) (c.after bytes n)

/-- The fields hold the bytes fed so far, and the buffer is compared with the given size. -/
structure Awaits (bytes : Nat → Byte) (n : Nat) (size : Int) : Prop where
  buffer : (c.after bytes n).buffer = fed bytes n
  testedSize : c.testedSize (c.after bytes n) = size

section Calls

variable {c} {bytes : Nat → Byte} {n : Nat} {size : Int}

/-- A new filler waits for the fixed part. -/
theorem awaits_new : c.Awaits bytes 0 c.getFixedPartMessageSize := ⟨rfl, if_pos rfl⟩

/-- A byte before the awaited size is filled in. -/
theorem Awaits.call_none (h : c.Awaits bytes n size) (hn : (n : Int) + 1 ≠ size)
    (hmax : size ≤ maxMessageSize) : c.call bytes n = .ok none ⟨size, fed bytes (n + 1)⟩ := by
  have hlen : (c.after bytes n).buffer.length = n := by rw [h.buffer, length_fed]
  have hne : ((c.after bytes n).buffer.length : Int) + 1 ≠ c.testedSize (c.after bytes n) := by
    rw [hlen, h.testedSize]
    exact hn
  rw [call, fill_of_ne c (bytes n) hne, finish_eq, h.testedSize, h.buffer, ← fed_succ]
  dsimp only
  rw [if_neg (by omega), if_neg (by rw [length_fed]; omega)]

/-- The byte that reaches the awaited size adds the size of the variable part. -/
theorem Awaits.call_full (h : c.Awaits bytes n size) (hn : (n : Int) + 1 = size) {more : Int}
    (hmore : c.getVariablePartMessageSize (fed bytes (n + 1)) = .ok more) :
    c.call bytes n = finish ⟨addInt size more, fed bytes (n + 1)⟩ := by
  have hlen : (c.after bytes n).buffer.length = n := by rw [h.buffer, length_fed]
  have heq : ((c.after bytes n).buffer.length : Int) + 1 = c.testedSize (c.after bytes n) := by
    rw [hlen, h.testedSize]
    exact hn
  have hmore' : c.getVariablePartMessageSize ((c.after bytes n).buffer ++ [bytes n]) =
      .ok more := by rw [h.buffer, ← fed_succ, hmore]
  rw [call, fill_of_eq c (bytes n) heq hmore', h.testedSize, h.buffer, ← fed_succ]

/-- A call that returns leaves the fields of the next one. -/
theorem awaits_of_call {a : Option (List Byte)} (hsize : size ≠ 0)
    (h : c.call bytes n = .ok a ⟨size, fed bytes (n + 1)⟩) : c.Awaits bytes (n + 1) size := by
  have hafter : c.after bytes (n + 1) = ⟨size, fed bytes (n + 1)⟩ := by
    rw [call] at h
    rw [after, h]
  constructor
  · rw [hafter]
  · rw [hafter, testedSize, if_neg hsize]

/-- Bytes are filled in up to the one before the awaited size. -/
theorem Awaits.add (h : c.Awaits bytes n size) (hmax : size ≤ maxMessageSize) {k : Nat}
    (hk : (n + k : Nat) < size) : c.Awaits bytes (n + k) size := by
  induction k with
  | zero => exact h
  | succ k ih =>
    have hcall := (ih (by omega)).call_none (by omega) hmax
    exact awaits_of_call (by omega) hcall

end Calls

/-- The class with a fixed part of `F` bytes and a variable part whose size is given by `V`. -/
def ofSizes (F : Nat) (V : List Byte → Nat) : IMessageBytesFiller where
  getFixedPartMessageSize := F
  getVariablePartMessageSize := fun fixedPart => .ok (V fixedPart)

/-- A message of `F + V` bytes is returned with its last byte, and one that is too big is
refused with the last byte of its fixed part. -/
def FillsMessage (F : Nat) (V : List Byte → Nat) (bytes : Nat → Byte) : Prop :=
  let n := F + V (fed bytes F)
  let call := (ofSizes F V).call bytes
  (n ≤ maxMessageSize →
    (∀ k, k + 1 < n → ∃ f, call k = .ok none f) ∧
      ∃ f, call (n - 1) = .ok (some (fed bytes n)) f) ∧
  (maxMessageSize < n → F ≤ maxMessageSize →
    (∀ k, k + 1 < F → ∃ f, call k = .ok none f) ∧ ∃ e f, call (F - 1) = .error e f)

section Messages

variable {F : Nat} {V : List Byte → Nat} {bytes : Nat → Byte}

/-- Bytes of the fixed part. -/
theorem awaits_fixed (hmax : F ≤ maxMessageSize) {k : Nat} (hk : k < F) :
    (ofSizes F V).Awaits bytes k F := by
  have hnew : (ofSizes F V).Awaits bytes 0 (F : Int) := awaits_new
  have h := hnew.add (by omega) (k := k) (by omega)
  rwa [Nat.zero_add] at h

/-- Inside the fixed part nothing is returned. -/
theorem call_fixed (hmax : F ≤ maxMessageSize) {k : Nat} (hk : k + 1 < F) :
    (ofSizes F V).call bytes k = .ok none ⟨F, fed bytes (k + 1)⟩ :=
  (awaits_fixed hmax (by omega)).call_none (by omega) (by omega)

/-- The last byte of the fixed part. -/
theorem call_fixed_last (hF : 1 ≤ F) (hmax : F ≤ maxMessageSize) :
    (ofSizes F V).call bytes (F - 1) =
      finish ⟨addInt F (V (fed bytes F)), fed bytes F⟩ := by
  have hawaits : (ofSizes F V).Awaits bytes (F - 1) F := awaits_fixed hmax (by omega)
  have hmore : (ofSizes F V).getVariablePartMessageSize (fed bytes (F - 1 + 1)) =
      .ok (V (fed bytes F) : Int) := by
    rw [Nat.sub_add_cancel hF]
    rfl
  have h := hawaits.call_full (by omega) hmore
  rwa [Nat.sub_add_cancel hF] at h

/-- The last byte of the fixed part, where a variable part follows. -/
theorem call_fixed_end (hF : 1 ≤ F) (hv : 0 < V (fed bytes F))
    (hmax : F + V (fed bytes F) ≤ maxMessageSize) :
    (ofSizes F V).call bytes (F - 1) =
      .ok none ⟨(F + V (fed bytes F) : Nat), fed bytes F⟩ := by
  have hM : maxMessageSize = 65535 := rfl
  rw [call_fixed_last hF (by omega), addInt_of_lt (by omega), finish_eq]
  dsimp only
  rw [if_neg (by omega), if_neg (by rw [length_fed]; omega)]

/-- Bytes of a variable part that is not empty. -/
theorem awaits_variable (hF : 1 ≤ F) (hv : 0 < V (fed bytes F))
    (hmax : F + V (fed bytes F) ≤ maxMessageSize) {k : Nat} (hk : F ≤ k)
    (hlt : k < F + V (fed bytes F)) :
    (ofSizes F V).Awaits bytes k (F + V (fed bytes F) : Nat) := by
  have hM : maxMessageSize = 65535 := rfl
  have hlast := call_fixed_end hF hv hmax
  have hfirst : (ofSizes F V).Awaits bytes F (F + V (fed bytes F) : Nat) := by
    rw [← Nat.sub_add_cancel hF] at hlast ⊢
    exact awaits_of_call (by omega) hlast
  have h := hfirst.add (by omega) (k := k - F) (by omega)
  rwa [Nat.add_sub_cancel' hk] at h

/-- Inside the variable part nothing is returned. -/
theorem call_variable (hF : 1 ≤ F) (hv : 0 < V (fed bytes F))
    (hmax : F + V (fed bytes F) ≤ maxMessageSize) {k : Nat} (hk : F ≤ k)
    (hlt : k + 1 < F + V (fed bytes F)) :
    (ofSizes F V).call bytes k = .ok none ⟨(F + V (fed bytes F) : Nat), fed bytes (k + 1)⟩ :=
  (awaits_variable hF hv hmax hk (by omega)).call_none (by omega) (by omega)

/-- The last byte of a variable part that is not empty. -/
theorem call_variable_last (hF : 1 ≤ F) (hv : 0 < V (fed bytes F))
    (hmax : F + V (fed bytes F) ≤ maxMessageSize) :
    (ofSizes F V).call bytes (F + V (fed bytes F) - 1) =
      finish ⟨addInt (F + V (fed bytes F) : Nat) (V (fed bytes (F + V (fed bytes F)))),
        fed bytes (F + V (fed bytes F))⟩ := by
  have hn : F + V (fed bytes F) - 1 + 1 = F + V (fed bytes F) := by omega
  have hawaits : (ofSizes F V).Awaits bytes (F + V (fed bytes F) - 1)
      (F + V (fed bytes F) : Nat) := awaits_variable hF hv hmax (by omega) (by omega)
  have hmore : (ofSizes F V).getVariablePartMessageSize
      (fed bytes (F + V (fed bytes F) - 1 + 1)) =
        .ok (V (fed bytes (F + V (fed bytes F))) : Int) := by
    rw [hn]
    rfl
  have h := hawaits.call_full (by omega) hmore
  rwa [hn] at h

/-- At the end of a message the buffer is returned exactly when nothing is added to the size. -/
theorem finish_message_iff {n more : Nat} (hn : n ≤ maxMessageSize) (hmore : more < 2 ^ 31) :
    (∃ f, finish ⟨addInt n more, fed bytes n⟩ = .ok (some (fed bytes n)) f) ↔ more = 0 := by
  have hM : maxMessageSize = 65535 := rfl
  simp only [finish_eq, length_fed]
  constructor
  · rintro ⟨f, h⟩
    split at h
    · cases h
    · split at h
      · next heq =>
        by_contra hpos
        by_cases hlt : n + more < 2 ^ 31
        · rw [addInt_of_lt hlt] at heq
          omega
        · have hneg := addInt_neg (a := n) (b := more) (by omega) hmore (by omega)
          omega
      · cases h
  · rintro rfl
    rw [addInt_of_lt (by omega), if_neg (by omega), if_pos (by omega)]
    exact ⟨_, rfl⟩

/-- A message that is small enough is returned with its last byte exactly when there is no
part of variable size, or it counts as empty for the whole message. -/
theorem returned_iff (hF : 1 ≤ F) (hV : ∀ fixedPart, V fixedPart < 2 ^ 31)
    (hmax : F + V (fed bytes F) ≤ maxMessageSize) :
    ((∀ k, k + 1 < F + V (fed bytes F) → ∃ f, (ofSizes F V).call bytes k = .ok none f) ∧
      ∃ f, (ofSizes F V).call bytes (F + V (fed bytes F) - 1) =
        .ok (some (fed bytes (F + V (fed bytes F)))) f) ↔
    V (fed bytes F) = 0 ∨ V (fed bytes (F + V (fed bytes F))) = 0 := by
  by_cases hv : V (fed bytes F) = 0
  · refine iff_of_true ⟨?_, ?_⟩ (Or.inl hv)
    · intro k hk
      exact ⟨_, call_fixed (by omega) (by omega)⟩
    · rw [hv, Nat.add_zero, call_fixed_last hF (by omega), hv]
      exact (finish_message_iff (by omega) (by omega)).mpr rfl
  · have hpos : 0 < V (fed bytes F) := Nat.pos_of_ne_zero hv
    have hM : maxMessageSize = 65535 := rfl
    rw [or_iff_right hv, call_variable_last hF hpos hmax, finish_message_iff hmax (hV _)]
    refine and_iff_right ?_
    intro k hk
    rcases Nat.lt_trichotomy (k + 1) F with hlt | heq | hgt
    · exact ⟨_, call_fixed (by omega) hlt⟩
    · obtain rfl : k = F - 1 := by omega
      exact ⟨_, call_fixed_end hF hpos hmax⟩
    · exact ⟨_, call_variable hF hpos hmax (by omega) hk⟩

/-- A message that is too big is refused with the last byte of its fixed part exactly when its
size is an `int`. -/
theorem refused_iff (hF : 1 ≤ F) (hV : ∀ fixedPart, V fixedPart < 2 ^ 31)
    (hbig : maxMessageSize < F + V (fed bytes F)) (hmax : F ≤ maxMessageSize) :
    ((∀ k, k + 1 < F → ∃ f, (ofSizes F V).call bytes k = .ok none f) ∧
      ∃ e f, (ofSizes F V).call bytes (F - 1) = .error e f) ↔
    F + V (fed bytes F) < 2 ^ 31 := by
  have hM : maxMessageSize = 65535 := rfl
  rw [and_iff_right fun k hk => ⟨_, call_fixed hmax hk⟩, call_fixed_last hF hmax, finish_eq]
  dsimp only
  by_cases hlt : F + V (fed bytes F) < 2 ^ 31
  · rw [addInt_of_lt hlt, if_pos (by omega)]
    exact iff_of_true ⟨_, _, rfl⟩ hlt
  · have hneg := addInt_neg (a := F) (b := V (fed bytes F)) (by omega) (hV _) (by omega)
    rw [if_neg (by omega)]
    refine iff_of_false ?_ hlt
    rintro ⟨e, f, h⟩
    cases h

end Messages

end IMessageBytesFiller

/-! ## The classes of the client -/

namespace FillerClass

variable (isLittleEndian : Bool) (c : FillerClass)

/-- A class of the client among those derived from `IMessageBytesFiller`. -/
def derived : IMessageBytesFiller where
  getFixedPartMessageSize := c.getFixedPartMessageSize
  getVariablePartMessageSize := fun fixedPart =>
    (c.getVariablePartMessageSize isLittleEndian fixedPart).map Int.ofNat

/-- The size of the variable part where the fixed part is complete. -/
def variablePart (fixedPart : List Byte) : Nat :=
  (c.getVariablePartMessageSize isLittleEndian fixedPart).toOption.getD 0

/-- The count of rooms of a complete fixed part can be read. -/
theorem getVariablePartMessageSize_of_le {fixedPart : List Byte}
    (h : c.getFixedPartMessageSize ≤ fixedPart.length) :
    c.getVariablePartMessageSize isLittleEndian fixedPart =
      .ok (c.variablePart isLittleEndian fixedPart) := by
  cases c with
  | connectServerResponse => rfl
  | sampleRoomsResponse =>
    have hlen : 5 ≤ fixedPart.length := h
    have hroom : 2 + 2 ≤ fixedPart.length := by omega
    have hrooms := BitConverter.toWord_of_le isLittleEndian (by omega) hroom
    simp only [variablePart, getVariablePartMessageSize, hrooms]
    rfl

/-- At most 65535 rooms of four bytes each. -/
theorem getVariablePartMessageSize_lt {fixedPart : List Byte} {more : Nat}
    (h : c.getVariablePartMessageSize isLittleEndian fixedPart = .ok more) : more < 2 ^ 18 := by
  cases c with
  | connectServerResponse =>
    cases h
    decide
  | sampleRoomsResponse =>
    rw [getVariablePartMessageSize] at h
    cases hrooms : BitConverter.toWord isLittleEndian 2 fixedPart 2 with
    | error e =>
      rw [hrooms] at h
      cases h
    | ok numberOfRooms =>
      rw [hrooms] at h
      cases h
      have hlt := numberOfRooms.isLt
      omega

/-- No variable part of a message is too big for an `int`. -/
theorem variablePart_lt_int (fixedPart : List Byte) :
    c.variablePart isLittleEndian fixedPart < 2 ^ 31 := by
  cases h : c.getVariablePartMessageSize isLittleEndian fixedPart with
  | error e => simp [variablePart, h, Except.toOption]
  | ok more =>
    rw [variablePart, h]
    exact (c.getVariablePartMessageSize_lt isLittleEndian h).trans (by decide)

open IMessageBytesFiller in
/-- A fresh filler of the client goes through the calls of the class with its two sizes. -/
theorem after_derived (bytes : Nat → Byte) (n : Nat) :
    (c.derived isLittleEndian).after bytes n =
      (ofSizes c.getFixedPartMessageSize (c.variablePart isLittleEndian)).after bytes n := by
  have hF : c.getFixedPartMessageSize ≤ maxMessageSize := by cases c <;> decide
  induction n with
  | zero => rfl
  | succ n ih =>
    have hbuffer := buffer_after (ofSizes c.getFixedPartMessageSize (c.variablePart isLittleEndian))
      bytes n
    suffices hfill : (c.derived isLittleEndian).fill (bytes n) _ =
        (ofSizes c.getFixedPartMessageSize (c.variablePart isLittleEndian)).fill (bytes n) _ by
      rw [after, after, ih, hfill]
    refine fill_congr rfl fun hfull => ?_
    -- before the end of the fixed part its size is not reached
    have hle : c.getFixedPartMessageSize ≤ n + 1 := by
      by_contra hlt
      have hawaits : (ofSizes c.getFixedPartMessageSize (c.variablePart isLittleEndian)).Awaits
        bytes n c.getFixedPartMessageSize := awaits_fixed hF (by omega)
      have htested : (n : Int) + 1 = c.getFixedPartMessageSize := by
        have htested := hawaits.testedSize
        rw [hbuffer, length_fed] at hfull
        exact hfull.trans htested
      omega
    have hlen : c.getFixedPartMessageSize ≤ (fed bytes (n + 1)).length := by
      rw [length_fed]
      exact hle
    have hcomplete := c.getVariablePartMessageSize_of_le isLittleEndian hlen
    rw [hbuffer, ← fed_succ]
    simp only [derived, ofSizes, hcomplete]
    rfl

end FillerClass

namespace MessageBytesFiller

/-- The fields every class of fillers has. -/
def fields (f : MessageBytesFiller) : IMessageBytesFiller.Fields := ⟨f.messageSize, f.buffer⟩

/-- The size the buffer is compared with. -/
def testedSize (f : MessageBytesFiller) : Nat :=
  if f.messageSize = 0 then f.fillerClass.getFixedPartMessageSize else f.messageSize

/-- The end of `Fill`: the test for messages that are too big, and for complete ones. -/
def finish (f : MessageBytesFiller) :
    EStateM.Result Fault MessageBytesFiller (Option (List Byte)) :=
  if f.messageSize > maxMessageSize then
    .error (.exception "Message to be filled is too big.") f
  else .ok (if f.messageSize = f.buffer.length then some f.buffer else none) f

section Fill

variable (isLittleEndian : Bool) (b : Byte) {f : MessageBytesFiller}

/-- The last two tests of `Fill` are `finish`. -/
theorem finish_eq (f : MessageBytesFiller) :
    ((do
      if f.messageSize > maxMessageSize then
        throw (.exception "Message to be filled is too big.")
      if f.messageSize = f.buffer.length then return some f.buffer else return none) :
        Run MessageBytesFiller (Option (List Byte))) f = finish f := by
  unfold finish
  by_cases hbig : f.messageSize > maxMessageSize
  · simp only [hbig, if_true]
    rfl
  · simp only [hbig, if_false]
    split <;> rfl

/-- A byte that does not complete the tested size only goes to the buffer. -/
theorem fill_of_ne (h : f.buffer.length + 1 ≠ f.testedSize) :
    f.fill isLittleEndian b = finish ⟨f.fillerClass, f.testedSize, f.buffer ++ [b]⟩ := by
  obtain ⟨c, messageSize, buffer⟩ := f
  rw [← finish_eq]
  unfold fill testedSize at *
  have hlen : (buffer ++ [b]).length = buffer.length + 1 := List.length_append
  by_cases hzero : messageSize = 0
  · simp only [hzero, if_true] at h ⊢
    simp only [run_get_bind, run_modify_bind, if_true, hlen, h, if_false]
  · simp only [hzero, if_false] at h ⊢
    simp only [run_get_bind, run_modify_bind, hzero, hlen, h, if_false]

/-- The byte that completes the tested size adds the variable part. -/
theorem fill_of_eq (h : f.buffer.length + 1 = f.testedSize) {more : Nat}
    (hmore : f.fillerClass.getVariablePartMessageSize isLittleEndian (f.buffer ++ [b]) =
      .ok more) :
    f.fill isLittleEndian b =
      finish ⟨f.fillerClass, f.testedSize + more, f.buffer ++ [b]⟩ := by
  obtain ⟨c, messageSize, buffer⟩ := f
  rw [← finish_eq]
  unfold fill testedSize at *
  have hlen : (buffer ++ [b]).length = buffer.length + 1 := List.length_append
  dsimp only at hmore
  by_cases hzero : messageSize = 0
  · simp only [hzero, if_true] at h ⊢
    simp only [run_get_bind, run_modify_bind, if_true, hlen, h, hmore, run_liftExcept_ok_bind]
  · simp only [hzero, if_false] at h ⊢
    simp only [run_get_bind, run_modify_bind, hzero, if_true, if_false, hlen, h, hmore,
      run_liftExcept_ok_bind]

/-- Where the size of the variable part throws, the byte is in the buffer. -/
theorem fill_of_throw (h : f.buffer.length + 1 = f.testedSize) {e : Fault}
    (he : f.fillerClass.getVariablePartMessageSize isLittleEndian (f.buffer ++ [b]) =
      .error e) :
    f.fill isLittleEndian b = .error e ⟨f.fillerClass, f.testedSize, f.buffer ++ [b]⟩ := by
  obtain ⟨c, messageSize, buffer⟩ := f
  unfold fill testedSize at *
  have hlen : (buffer ++ [b]).length = buffer.length + 1 := List.length_append
  dsimp only at he
  by_cases hzero : messageSize = 0
  · simp only [hzero, if_true] at h ⊢
    simp only [run_get_bind, run_modify_bind, if_true, hlen, h, he]
    exact run_bind_error rfl
  · simp only [hzero, if_false] at h ⊢
    simp only [run_get_bind, run_modify_bind, hzero, if_true, if_false, hlen, h, he]
    exact run_bind_error rfl

/-- The last tests are those of every class of fillers. -/
theorem finish_fields (f : MessageBytesFiller) :
    IMessageBytesFiller.finish f.fields =
      match f.finish with
      | .ok a f' => .ok a f'.fields
      | .error e f' => .error e f'.fields := by
  rw [IMessageBytesFiller.finish_eq, finish]
  by_cases hbig : f.messageSize > maxMessageSize
  · rw [if_pos hbig, if_pos (by exact Int.ofNat_lt.mpr hbig)]
  · rw [if_neg hbig, if_neg (by exact mt Int.ofNat_lt.mp hbig)]
    simp only [fields, Nat.cast_inj]

/-- The tested size is no larger than a message may be, if the stored one is not. -/
theorem testedSize_le (h : f.messageSize ≤ maxMessageSize) : f.testedSize ≤ maxMessageSize := by
  unfold testedSize
  split
  · cases f.fillerClass <;> decide
  · exact h

/-- `Fill` of the client's classes is that of the class they are derived from. -/
theorem fill_fields (h : f.messageSize ≤ maxMessageSize) :
    (f.fillerClass.derived isLittleEndian).fill b f.fields =
      match f.fill isLittleEndian b with
      | .ok a f' => .ok a f'.fields
      | .error e f' => .error e f'.fields := by
  have htested : (f.fillerClass.derived isLittleEndian).testedSize f.fields =
      (f.testedSize : Int) := by
    simp only [IMessageBytesFiller.testedSize, testedSize, FillerClass.derived, fields,
      Int.natCast_eq_zero]
    split <;> rfl
  by_cases hfull : f.buffer.length + 1 = f.testedSize
  · have hfull' : (f.fields.buffer.length : Int) + 1 =
        (f.fillerClass.derived isLittleEndian).testedSize f.fields := by
      rw [htested, ← hfull]
      rfl
    cases hmore : f.fillerClass.getVariablePartMessageSize isLittleEndian (f.buffer ++ [b]) with
    | error e =>
      have hderived : (f.fillerClass.derived isLittleEndian).getVariablePartMessageSize
          (f.fields.buffer ++ [b]) = .error e := by
        simp only [FillerClass.derived, fields, hmore, Except.map]
      rw [IMessageBytesFiller.fill_of_throw _ b hfull' hderived, htested,
        fill_of_throw isLittleEndian b hfull hmore]
      rfl
    | ok more =>
      have hderived : (f.fillerClass.derived isLittleEndian).getVariablePartMessageSize
          (f.fields.buffer ++ [b]) = .ok (more : Int) := by
        simp only [FillerClass.derived, fields, hmore, Except.map]
        rfl
      have hlt := FillerClass.getVariablePartMessageSize_lt isLittleEndian _ hmore
      have hmax : f.testedSize + more < 2 ^ 31 := by
        have hM : maxMessageSize = 65535 := rfl
        have htested := testedSize_le h
        omega
      rw [IMessageBytesFiller.fill_of_eq _ b hfull' hderived, htested, addInt_of_lt hmax,
        fill_of_eq isLittleEndian b hfull hmore, ← finish_fields]
      rfl
  · have hne : (f.fields.buffer.length : Int) + 1 ≠
        (f.fillerClass.derived isLittleEndian).testedSize f.fields := by
      rw [htested]
      exact mt (fun h => by exact_mod_cast h) hfull
    rw [IMessageBytesFiller.fill_of_ne _ b hne, htested, fill_of_ne isLittleEndian b hfull,
      ← finish_fields]
    rfl

end Fill

end MessageBytesFiller

namespace IMessageBytesFiller

/-- For every class, `Fill` does what it announces exactly when a message that is small enough
has no variable part, or none as a whole, and the size of one that is too big is an `int`. -/
theorem fillsMessage_iff {F : Nat} {V : List Byte → Nat} (hF : 1 ≤ F)
    (hV : ∀ fixedPart, V fixedPart < 2 ^ 31) (bytes : Nat → Byte) :
    FillsMessage F V bytes ↔
      (F + V (fed bytes F) ≤ maxMessageSize →
        V (fed bytes F) = 0 ∨ V (fed bytes (F + V (fed bytes F))) = 0) ∧
      (maxMessageSize < F + V (fed bytes F) → F ≤ maxMessageSize →
        F + V (fed bytes F) < 2 ^ 31) :=
  and_congr (forall_congr' fun hmax => returned_iff hF hV hmax)
    (forall_congr' fun hbig => forall_congr' fun hmax => refused_iff hF hV hbig hmax)

/-- A response without rooms. -/
theorem fillsMessage_no_rooms :
    FillsMessage 5 (FillerClass.sampleRoomsResponse.variablePart true)
      (fun n => [7, 0, 0, 0, 0].getD n 0) :=
  (fillsMessage_iff (by decide) (FillerClass.variablePart_lt_int true .sampleRoomsResponse) _).mpr
    ⟨fun _ => Or.inl (by decide), fun hbig => absurd hbig (by decide)⟩

/-- The response with one room is not returned with its ninth byte. -/
theorem not_fillsMessage_one_room :
    ¬ ∀ (F : Nat) (V : List Byte → Nat) (bytes : Nat → Byte), 1 ≤ F →
      (∀ fixedPart, V fixedPart < 2 ^ 31) → FillsMessage F V bytes := by
  intro h
  have hone := (h 5 (FillerClass.sampleRoomsResponse.variablePart true)
    (fun n => [7, 0, 1, 0, 0, 1, 2, 3, 4].getD n 0) (by decide)
    (FillerClass.variablePart_lt_int true .sampleRoomsResponse)).1 (by decide)
  obtain ⟨f, hlast⟩ := hone.2
  cases hlast

end IMessageBytesFiller

end BananaApi.Client
