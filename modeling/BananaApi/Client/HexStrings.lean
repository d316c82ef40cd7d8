import BananaApi.Client.BytesUtils
import BananaApi.Core.Hexadecimal

/-!
# Hexadecimal strings

The strings that the client prints byte arrays as, and their parser. The printer puts a
space in front of every fourth digit but the first, by the index of the digit; the parser
drops the spaces and goes through the digits in steps of two. A string is a list of
characters, none of them beyond the basic plane.
-/

namespace BananaApi.Client

/-- `BitConverter.ToString`: two upper-case digits for each byte, joined by hyphens. -/
def BitConverter.toString (value : List Byte) : List Char :=
  ['-'].intercalate (value.map (hexPair fun d => (Nat.digitChar d).toUpper))

namespace Convert

/-- The prefix `0x` of a number is skipped. -/
def skipPrefix : List Char → List Char
  | '0' :: 'x' :: digits => digits
  | '0' :: 'X' :: digits => digits
  | digits => digits

/-- The conversion of a number to a byte, which is checked. -/
def narrow (value : Nat) : Except Fault Byte :=
  if 255 < value then .error .overflow else .ok (BitVec.ofNat 8 value)

/-- `Convert.ToByte(digits, 16)` for digits without a sign or a base in front. -/
def parseDigits (digits : List Char) : Except Fault Byte :=
  match digits.mapM hexDigitValue with
  | none | some [] => .error .format
  | some values => narrow (values.foldl (fun value d => 16 * value + d) 0)

/-- `Convert.ToByte` of a string in base 16. -/
def toByte : List Char → Except Fault Byte
  | [] => .error .argumentOutOfRange
  | '-' :: _ => .error .argument
  | '+' :: digits => parseDigits (skipPrefix digits)
  | digits => parseDigits (skipPrefix digits)

section Digits

variable {c d : Char} {upper lower : Nat}

/-- Two digits have no base in front. -/
theorem skipPrefix_digits (hd : hexDigitValue d = some lower) : skipPrefix [c, d] = [c, d] := by
  unfold skipPrefix
  split
  · rename_i h
    cases h
    exact absurd rfl (ne_of_hexDigitValue hd (rfl : hexDigitValue 'x' = none))
  · rename_i h
    cases h
    exact absurd rfl (ne_of_hexDigitValue hd (rfl : hexDigitValue 'X' = none))
  · rfl

/-- Two digits are the byte they are printed for. -/
theorem parseDigits_two {b : Byte} (hc : hexDigitValue c = some upper)
    (hd : hexDigitValue d = some lower) (hb : b.toNat = 16 * upper + lower) :
    parseDigits [c, d] = .ok b := by
  have hvalues : [c, d].mapM hexDigitValue = some [upper, lower] := by
    simp only [List.mapM_cons, List.mapM_nil, hc, hd, Option.pure_def, Option.bind_eq_bind,
      Option.bind_some]
  have hvalue : 16 * (16 * 0 + upper) + lower = b.toNat := by omega
  have hlt := b.isLt
  rw [parseDigits, hvalues]
  change narrow (16 * (16 * 0 + upper) + lower) = _
  rw [hvalue, narrow, if_neg (by omega), BitVec.ofNat_toNat, BitVec.setWidth_eq]

/-- Two digits of either case are the upper and the lower half of a byte. -/
theorem toByte_digits {b : Byte} (hc : hexDigitValue c = some upper)
    (hd : hexDigitValue d = some lower) (hb : b.toNat = 16 * upper + lower) :
    toByte [c, d] = .ok b := by
  unfold toByte
  split
  · rename_i h
    cases h
  · rename_i h
    cases h
    exact absurd rfl (ne_of_hexDigitValue hc (rfl : hexDigitValue '-' = none))
  · rename_i h
    cases h
    exact absurd rfl (ne_of_hexDigitValue hc (rfl : hexDigitValue '+' = none))
  · rw [skipPrefix_digits hd, parseDigits_two hc hd hb]

end Digits

end Convert

namespace BytesUtils

/-- The digits of the bytes, in groups of four. -/
def byteArrayToHexString (ba : List Byte) : List Char :=
  let hex := (BitConverter.toString ba).filter (· ≠ '-')
  hex.zipIdx.foldl (fun hexWithSpace (c, i) =>
    if i ≠ 0 ∧ i % 4 = 0 then hexWithSpace ++ [' ', c] else hexWithSpace ++ [c]) []

/-- `String.Substring`. -/
def substring (s : List Char) (startIndex length : Nat) : Except Fault (List Char) :=
  if s.length < startIndex + length then .error .argumentOutOfRange
  else .ok ((s.drop startIndex).take length)

/-- One round of the loop of `HexStringToByteArray`. -/
def parseByte (cleanHex : List Char) (bytes : List Byte) (i : Nat) : Except Fault (List Byte) := do
  let digits ← substring cleanHex i 2
  let b ← Convert.toByte digits
  if i / 2 < bytes.length then .ok (bytes.set (i / 2) b) else .error .indexOutOfRange

/-- The bytes of the digits that are left when the spaces are taken out. -/
def hexStringToByteArray (hex : List Char) : Except Fault (List Byte) :=
  let cleanHex := hex.filter (· ≠ ' ')
  let numberChars := cleanHex.length
  -- `i` takes the even numbers below `numberChars`.
  (List.range' 0 ((numberChars + 1) / 2) 2).foldlM (parseByte cleanHex)
    (List.replicate (numberChars / 2) 0)

/-! ## Printing -/

/-- Without its spaces the string is what the bytes are spelled as. -/
theorem filter_byteArrayToHexString (ba : List Byte) :
    (byteArrayToHexString ba).filter (· ≠ ' ') =
      ba.flatMap (hexPair fun d => (Nat.digitChar d).toUpper) := by
  have hloop (pairs : List (Char × Nat)) (hexWithSpace : List Char) :
      (pairs.foldl (fun hexWithSpace (c, i) =>
        if i ≠ 0 ∧ i % 4 = 0 then hexWithSpace ++ [' ', c] else hexWithSpace ++ [c])
        hexWithSpace).filter (· ≠ ' ') =
      hexWithSpace.filter (· ≠ ' ') ++ (pairs.map Prod.fst).filter (· ≠ ' ') := by
    induction pairs generalizing hexWithSpace with
    | nil => simp
    | cons p pairs ih =>
      rcases p with ⟨c, i⟩
      rw [List.foldl_cons, ih]
      have hsplit : (c :: pairs.map Prod.fst).filter (· ≠ ' ') =
          [c].filter (· ≠ ' ') ++ (pairs.map Prod.fst).filter (· ≠ ' ') :=
        List.filter_append [c] _
      rw [List.map_cons, hsplit, ← List.append_assoc]
      dsimp only
      split_ifs
      · rw [List.filter_append]
        rfl
      · rw [List.filter_append]
  have hhyphen : hexDigitValue '-' = none := rfl
  have hhex := filter_intercalate (fun _ => hexDigitValue_toUpper) hhyphen ba
  have hspells := spells_flatMap (fun _ => hexDigitValue_toUpper) ba
  rw [byteArrayToHexString, hloop, List.filter_nil, List.nil_append, List.zipIdx_map_fst,
    BitConverter.toString, hhex]
  exact hspells.filter_ne rfl

/-! ## Parsing -/

/-- One round reads two digits and writes one byte. -/
theorem parseByte_step {c d : Char} {upper lower : Nat} {b b' : Byte} {read rest : List Char}
    {done todo : List Byte} (hc : hexDigitValue c = some upper)
    (hd : hexDigitValue d = some lower) (hb : b.toNat = 16 * upper + lower)
    (hread : read.length = 2 * done.length) :
    parseByte (read ++ c :: d :: rest) (done ++ b' :: todo) (2 * done.length) =
      .ok (done ++ b :: todo) := by
  have hsub : substring (read ++ c :: d :: rest) (2 * done.length) 2 = .ok [c, d] := by
    rw [substring, ← hread, List.drop_left, if_neg]
    · rfl
    · simp
  have hindex : 2 * done.length / 2 = done.length := Nat.mul_div_cancel_left _ (by decide)
  have hset : (done ++ b' :: todo).set done.length b = done ++ b :: todo := by
    rw [List.set_append_right _ _ le_rfl, Nat.sub_self, List.set_cons_zero]
  have hbyte := Convert.toByte_digits hc hd hb
  simp only [parseByte, hsub, hbyte, bind, Except.bind, hindex, hset]
  rw [if_pos (by simp)]

/-- The rounds that are left read what is left of the digits. -/
theorem parseBytes_run {text : List Char} {bs : List Byte} (h : Spells text bs)
    (read : List Char) (done : List Byte) (hread : read.length = 2 * done.length) :
    (List.range' (2 * done.length) bs.length 2).foldlM (parseByte (read ++ text))
      (done ++ List.replicate bs.length 0) = .ok (done ++ bs) := by
  induction h generalizing read done with
  | nil => rfl
  | @cons c d upper lower b text bs hc hd hb _ ih =>
    have hnext := ih (read ++ [c, d]) (done ++ [b]) (by simp [hread]; omega)
    rw [List.append_assoc, List.append_assoc, List.append_assoc, List.length_append] at hnext
    rw [List.length_cons, List.range'_succ, List.foldlM_cons, List.replicate_succ,
      parseByte_step hc hd hb hread]
    exact hnext

/-- A string that spells some bytes, once its spaces are left out, is parsed as these. -/
theorem hexStringToByteArray_of_spells {hex : List Char} {bs : List Byte}
    (h : Spells (hex.filter (· ≠ ' ')) bs) : hexStringToByteArray hex = .ok bs := by
  have hlen : (2 * bs.length + 1) / 2 = bs.length ∧ 2 * bs.length / 2 = bs.length := by omega
  rw [hexStringToByteArray, h.length_eq, hlen.1, hlen.2]
  exact parseBytes_run h [] [] rfl

end BytesUtils

end BananaApi.Client
