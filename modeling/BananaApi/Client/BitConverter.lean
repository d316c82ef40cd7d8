import BananaApi.Core.Bytes
import Mathlib.Tactic.Common

/-!
# Exceptions and the byte order of the host

The exceptions that end a call of the client, and the conversions of
`BitConverter`, which follow the byte order of the host. The network has its most
significant byte first; the client reverses the bytes of a little-endian host.
-/

namespace BananaApi.Client

/-- Exceptions, with the messages the source gives them. -/
inductive Fault where
  | exception (message : String)
  | invalidCast (message : String)
  | argument
  | argumentOutOfRange
  | indexOutOfRange
  | keyNotFound
  | overflow
  | format
  deriving DecidableEq, Repr

/-- Calls that read or update a store and may throw; the store keeps what was done. -/
abbrev Run (σ : Type) := EStateM Fault σ

/-- A call without a store. -/
def liftExcept {σ α : Type} (x : Except Fault α) : Run σ α :=
  match x with
  | .ok a => pure a
  | .error e => throw e

section Run

variable {σ α β : Type}

@[simp] theorem run_pure (a : α) (s : σ) : (pure a : Run σ α) s = .ok a s := rfl

/-- A sequence goes on after a call that returns. -/
theorem run_bind {x : Run σ α} {f : α → Run σ β} {s s' : σ} {a : α} (h : x s = .ok a s') :
    (x >>= f) s = f a s' := by
  simp only [bind, EStateM.bind, h]

/-- A sequence ends with a call that throws. -/
theorem run_bind_error {x : Run σ α} {f : α → Run σ β} {s s' : σ} {e : Fault}
    (h : x s = .error e s') : (x >>= f) s = .error e s' := by
  simp only [bind, EStateM.bind, h]

/-- A sequence that returns has two halves that do. -/
theorem run_bind_eq_ok {x : Run σ α} {f : α → Run σ β} {s s'' : σ} {b : β}
    (h : (x >>= f) s = .ok b s'') : ∃ a s', x s = .ok a s' ∧ f a s' = .ok b s'' := by
  cases hx : x s with
  | ok a s' =>
    rw [run_bind hx] at h
    exact ⟨a, s', rfl, h⟩
  | error e s' =>
    rw [run_bind_error hx] at h
    cases h

@[simp] theorem run_get_bind (f : σ → Run σ β) (s : σ) :
    ((get : Run σ σ) >>= f) s = f s s := rfl

@[simp] theorem run_modify_bind (g : σ → σ) (f : PUnit → Run σ β) (s : σ) :
    ((modify g : Run σ PUnit) >>= f) s = f ⟨⟩ (g s) := rfl

@[simp] theorem run_liftExcept_ok_bind (a : α) (f : α → Run σ β) (s : σ) :
    ((liftExcept (.ok a) : Run σ α) >>= f) s = f a s := rfl

end Run

namespace BitConverter

variable (isLittleEndian : Bool)

/-- `BitConverter.GetBytes`, in the order of the host. -/
def getBytes (n : Nat) (value : Word n) : List Byte :=
  if isLittleEndian then leBytes n value else beBytes n value

/-- The value with the given bytes, in the order of the host. -/
def ofBytes (n : Nat) (bytes : List Byte) : Word n :=
  ofLeBytes n (if isLittleEndian then bytes else bytes.reverse)

/-- `ToUInt16`, `ToUInt64` and the other conversions of `n` bytes. -/
def toWord (n : Nat) (value : List Byte) (startIndex : Nat) : Except Fault (Word n) :=
  if value.length ≤ startIndex then .error .argumentOutOfRange
  else if value.length < startIndex + n then .error .argument
  else .ok (ofBytes isLittleEndian n ((value.drop startIndex).take n))

@[simp] theorem length_getBytes (n : Nat) (value : Word n) :
    (getBytes isLittleEndian n value).length = n := by
  cases isLittleEndian <;> simp [getBytes]

/-- The bytes of an integer are read as this integer on the same host. -/
@[simp] theorem ofBytes_getBytes (n : Nat) (value : Word n) :
    ofBytes isLittleEndian n (getBytes isLittleEndian n value) = value := by
  cases isLittleEndian <;> simp [ofBytes, getBytes, beBytes]

/-- Enough bytes for an integer are the bytes of the integer that they are read as. -/
theorem getBytes_ofBytes {n : Nat} {bytes : List Byte} (h : bytes.length = n) :
    getBytes isLittleEndian n (ofBytes isLittleEndian n bytes) = bytes := by
  cases isLittleEndian with
  | true => exact leBytes_ofLeBytes h
  | false =>
    have hlen : bytes.reverse.length = n := by rw [List.length_reverse, h]
    have hreverse := leBytes_ofLeBytes hlen
    calc beBytes n (ofLeBytes n bytes.reverse)
        = (leBytes n (ofLeBytes n bytes.reverse)).reverse := rfl
      _ = bytes := by rw [hreverse, List.reverse_reverse]

/-- A conversion returns where there are enough bytes. -/
theorem toWord_of_le {n : Nat} (hn : 0 < n) {value : List Byte} {startIndex : Nat}
    (h : startIndex + n ≤ value.length) :
    toWord isLittleEndian n value startIndex =
      .ok (ofBytes isLittleEndian n ((value.drop startIndex).take n)) := by
  rw [toWord, if_neg (by omega), if_neg (by omega)]

/-- A conversion that returns has found all its bytes. -/
theorem le_of_toWord {n : Nat} {value : List Byte} {startIndex : Nat} {word : Word n}
    (h : toWord isLittleEndian n value startIndex = .ok word) :
    startIndex + n ≤ value.length := by
  unfold toWord at h
  split at h
  · cases h
  · split at h
    · cases h
    · omega

/-- A conversion takes the bytes at its index, if there are enough. -/
theorem toWord_append {n : Nat} (hn : 0 < n) (pre bytes post : List Byte)
    (h : bytes.length = n) :
    toWord isLittleEndian n (pre ++ bytes ++ post) pre.length =
      .ok (ofBytes isLittleEndian n bytes) := by
  have hlen : (pre ++ bytes ++ post).length = pre.length + n + post.length := by
    rw [List.length_append, List.length_append, h]
  have hdrop : ((pre ++ bytes ++ post).drop pre.length).take n = bytes := by
    rw [List.append_assoc, List.drop_left, List.take_left' h]
  rw [toWord_of_le isLittleEndian hn (by omega), hdrop]

end BitConverter

/-- `if (BitConverter.IsLittleEndian) Array.Reverse(bytes)`. -/
def reverseIfLittleEndian (isLittleEndian : Bool) (bytes : List Byte) : List Byte :=
  if isLittleEndian then bytes.reverse else bytes

/-- The bytes of a value, reversed on a little-endian host, are big-endian on every host. -/
theorem reverse_getBytes (isLittleEndian : Bool) (n : Nat) (value : Word n) :
    reverseIfLittleEndian isLittleEndian (BitConverter.getBytes isLittleEndian n value) =
      beBytes n value := by
  cases isLittleEndian <;> rfl

end BananaApi.Client
