import BananaApi.Core.Hexadecimal
import BananaApi.Core.Outcome

/-!
# `HexStr`

The server prints a range of objects as the hexadecimal digits of their memory, two for
each byte, in lower case. With `fSpaces` there is a space behind every byte but the last.
-/

namespace BananaApi.Server

/-- The loop of `HexStr` over the bytes from `p` to `pend`. -/
def hexStrLoop (fSpaces : Bool) : List Byte → List Char → List Char
  | [], ss => ss
  | p :: rest, ss =>
    let ss :=
      if p.toNat < 16 then ss ++ ['0'] ++ Nat.toDigits 16 p.toNat
      else ss ++ Nat.toDigits 16 p.toNat
    -- `rest` is empty where `p` is `pend - 1`.
    let ss := if fSpaces = true ∧ rest ≠ [] then ss ++ [' '] else ss
    hexStrLoop fSpaces rest ss

/-- `HexStr` of a range of objects of `n` bytes. An empty range has no `itbegin[0]`. -/
def hexStr {n : Nat} (items : List (Word n)) (fSpaces : Bool) : Outcome Unit (List Char) :=
  if items = [] then .overran else .returned (hexStrLoop fSpaces (imageOf n items) [])

/-- `HexStr` of a `vector<unsigned char>`. -/
def hexStrVector (vch : List Byte) (fSpaces : Bool := true) : Outcome Unit (List Char) :=
  hexStr (n := 1) vch fSpaces

/-- A byte below 16 gets its first digit from the padding. -/
theorem hexPair_digitChar (p : Byte) :
    (if p.toNat < 16 then ['0'] ++ Nat.toDigits 16 p.toNat else Nat.toDigits 16 p.toNat) =
      hexPair Nat.digitChar p := by
  have hp : p.toNat < 256 := p.isLt
  split
  · rename_i hlt
    rw [Nat.toDigits_of_lt_base hlt, hexPair, Nat.div_eq_of_lt hlt, Nat.mod_eq_of_lt hlt]
    rfl
  · rename_i hge
    have hupper : p.toNat / 16 < 16 := by omega
    rw [Nat.toDigits_of_base_le (by decide) (by omega), Nat.toDigits_of_lt_base hupper]
    rfl

/-- Without its spaces the string is what the bytes are spelled as. -/
theorem filter_hexStrLoop (fSpaces : Bool) (bytes : List Byte) (ss : List Char) :
    (hexStrLoop fSpaces bytes ss).filter (· ≠ ' ') =
      ss.filter (· ≠ ' ') ++ bytes.flatMap (hexPair Nat.digitChar) := by
  induction bytes generalizing ss with
  | nil => exact (List.append_nil _).symm
  | cons p rest ih =>
    have hpair : (hexPair Nat.digitChar p).filter (· ≠ ' ') = hexPair Nat.digitChar p := by
      have hspells := spells_flatMap (fun _ => hexDigitValue_digitChar) [p]
      rw [List.flatMap_singleton] at hspells
      exact hspells.filter_ne rfl
    have hdigits : (if p.toNat < 16 then ss ++ ['0'] ++ Nat.toDigits 16 p.toNat
        else ss ++ Nat.toDigits 16 p.toNat) = ss ++ hexPair Nat.digitChar p := by
      rw [← hexPair_digitChar, List.append_assoc]
      exact (apply_ite (ss ++ ·) _ _ _).symm
    have hspace : (if fSpaces = true ∧ rest ≠ [] then ss ++ hexPair Nat.digitChar p ++ [' ']
        else ss ++ hexPair Nat.digitChar p).filter (· ≠ ' ') =
          ss.filter (· ≠ ' ') ++ hexPair Nat.digitChar p := by
      split
      · rw [List.filter_append, List.filter_append, hpair]
        exact List.append_nil _
      · rw [List.filter_append, hpair]
    rw [hexStrLoop, hdigits, ih, hspace, List.flatMap_cons, List.append_assoc]

/-- The bytes of a range that is not empty are printed as digits that spell them, between
spaces. -/
theorem hexStr_spells {n : Nat} {items : List (Word n)} (h : items ≠ []) (fSpaces : Bool) :
    ∃ hex, hexStr items fSpaces = .returned hex ∧
      Spells (hex.filter (· ≠ ' ')) (imageOf n items) := by
  refine ⟨_, if_neg h, ?_⟩
  rw [filter_hexStrLoop]
  exact spells_flatMap (fun _ => hexDigitValue_digitChar) _

end BananaApi.Server
