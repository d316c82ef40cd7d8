import BananaApi.Core.Bytes
import Mathlib.Tactic.IntervalCases

/-!
# Hexadecimal digits

Bytes spelled by two digits each. A text spells at most one list of bytes, in digits of
either case, and holds no other characters.
-/

namespace BananaApi

/-- The value of a digit of either case. -/
def hexDigitValue (c : Char) : Option Nat :=
  if '0' ≤ c ∧ c ≤ '9' then some (c.toNat - '0'.toNat)
  else if 'a' ≤ c ∧ c ≤ 'f' then some (c.toNat - 'a'.toNat + 10)
  else if 'A' ≤ c ∧ c ≤ 'F' then some (c.toNat - 'A'.toNat + 10)
  else none

/-- The two digits of a byte, the upper half first. -/
def hexPair (digit : Nat → Char) (b : Byte) : List Char :=
  [digit (b.toNat / 16), digit (b.toNat % 16)]

/-- The digit of a number below 16 has its value. -/
theorem hexDigitValue_digitChar {d : Nat} (h : d < 16) :
    hexDigitValue (Nat.digitChar d) = some d := by
  interval_cases d <;> rfl

/-- An upper case digit has the value of the lower case one. -/
theorem hexDigitValue_toUpper {d : Nat} (h : d < 16) :
    hexDigitValue (Nat.digitChar d).toUpper = some d := by
  interval_cases d <;> rfl

/-- A digit is not a separator. -/
theorem ne_of_hexDigitValue {c sep : Char} {v : Nat} (hc : hexDigitValue c = some v)
    (hsep : hexDigitValue sep = none) : c ≠ sep := by
  rintro rfl
  rw [hsep] at hc
  cases hc

/-- The text consists of the digits of the bytes, two for each. -/
inductive Spells : List Char → List Byte → Prop
  | nil : Spells [] []
  | cons {c d : Char} {upper lower : Nat} {b : Byte} {text : List Char} {bs : List Byte} :
      hexDigitValue c = some upper → hexDigitValue d = some lower →
        b.toNat = 16 * upper + lower → Spells text bs → Spells (c :: d :: text) (b :: bs)

/-- There are two digits for each byte. -/
theorem Spells.length_eq {text : List Char} {bs : List Byte} (h : Spells text bs) :
    text.length = 2 * bs.length := by
  induction h with
  | nil => rfl
  | cons _ _ _ _ ih =>
    rw [List.length_cons, List.length_cons, List.length_cons, ih]
    omega

/-- Two digits for each byte spell the bytes, in any alphabet of digits. -/
theorem spells_flatMap {digit : Nat → Char}
    (hdigit : ∀ d < 16, hexDigitValue (digit d) = some d) (bs : List Byte) :
    Spells (bs.flatMap (hexPair digit)) bs := by
  induction bs with
  | nil => exact .nil
  | cons b bs ih =>
    have hb : b.toNat < 256 := b.isLt
    rw [List.flatMap_cons]
    apply Spells.cons _ _ _ ih
    · exact b.toNat / 16
    · exact b.toNat % 16
    · exact hdigit _ (by omega)
    · exact hdigit _ (Nat.mod_lt _ (by decide))
    · exact (Nat.div_add_mod b.toNat 16).symm

/-- Leaving out a character that is no digit leaves out nothing. -/
theorem Spells.filter_ne {text : List Char} {bs : List Byte} (h : Spells text bs) {sep : Char}
    (hsep : hexDigitValue sep = none) : text.filter (· ≠ sep) = text := by
  induction h with
  | nil => rfl
  | cons hc hd _ _ ih =>
    have hc' := ne_of_hexDigitValue hc hsep
    have hd' := ne_of_hexDigitValue hd hsep
    simp only [List.filter_cons, hc', hd', ih, ne_eq, not_false_eq_true, decide_true, if_true]

/-- Joining the digits of each byte with a character that is no digit, and leaving that
character out again, only leaves the digits. -/
theorem filter_intercalate {digit : Nat → Char} {sep : Char}
    (hdigit : ∀ d < 16, hexDigitValue (digit d) = some d) (hsep : hexDigitValue sep = none)
    (bs : List Byte) :
    ([sep].intercalate (bs.map (hexPair digit))).filter (· ≠ sep) =
      bs.flatMap (hexPair digit) := by
  have hpair (b : Byte) : (hexPair digit b).filter (· ≠ sep) = hexPair digit b := by
    have hspells := spells_flatMap hdigit [b]
    rw [List.flatMap_singleton] at hspells
    exact hspells.filter_ne hsep
  induction bs with
  | nil => rfl
  | cons b bs ih =>
    cases bs with
    | nil =>
      rw [List.map_singleton, List.intercalate_singleton, List.flatMap_singleton]
      exact hpair b
    | cons b' bs =>
      rw [List.map_cons, List.map_cons, List.intercalate_cons_cons, ← List.map_cons,
        List.filter_append, List.filter_append, ih, hpair, List.flatMap_cons]
      simp

end BananaApi
