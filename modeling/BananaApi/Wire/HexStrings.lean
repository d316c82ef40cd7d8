import BananaApi.Client.HexStrings
import BananaApi.Server.HexStr

/-!
# Hexadecimal strings of both sides

The client groups four digits and the server two, in different cases. The parser of the
client drops the spaces and reads both cases, so it undoes both printers.
-/

namespace BananaApi.Wire

open Client.BytesUtils (byteArrayToHexString hexStringToByteArray filter_byteArrayToHexString
  hexStringToByteArray_of_spells)
open Server (hexStrVector hexStr_spells)

/-- Every byte array is parsed from the string the client prints it as, wherever spaces are
left out of that string or added, and from both strings the server prints it as. -/
theorem hexStringToByteArray_printed (b : List Byte) :
    hexStringToByteArray (byteArrayToHexString b) = .ok b ∧
      (∀ hex : List Char,
        hex.filter (· ≠ ' ') = (byteArrayToHexString b).filter (· ≠ ' ') →
          hexStringToByteArray hex = .ok b) ∧
      (b ≠ [] → ∀ fSpaces, ∃ hex, hexStrVector b fSpaces = .returned hex ∧
        hexStringToByteArray hex = .ok b) := by
  have hclient : Spells ((byteArrayToHexString b).filter (· ≠ ' ')) b := by
    rw [filter_byteArrayToHexString]
    exact spells_flatMap (fun _ => hexDigitValue_toUpper) b
  refine ⟨hexStringToByteArray_of_spells hclient, ?_, ?_⟩
  · intro hex hhex
    rw [← hhex] at hclient
    exact hexStringToByteArray_of_spells hclient
  · intro hb fSpaces
    obtain ⟨hex, hprint, hspells⟩ := hexStr_spells (n := 1) hb fSpaces
    rw [imageOf_one] at hspells
    exact ⟨hex, hprint, hexStringToByteArray_of_spells hspells⟩

/-- Three bytes as `01AB FF` and as `01 ab ff`. -/
theorem hexStringToByteArray_printed_three :
    hexStringToByteArray (byteArrayToHexString [1, 171, 255]) = .ok [1, 171, 255] ∧
      hexStringToByteArray ['0', ' ', '1', 'A', 'B', 'F', 'F', ' '] = .ok [1, 171, 255] ∧
      ∃ hex, hexStrVector [1, 171, 255] true = .returned hex ∧
        hexStringToByteArray hex = .ok [1, 171, 255] :=
  let printed := hexStringToByteArray_printed [1, 171, 255]
  ⟨printed.1, printed.2.1 _ (by decide), printed.2.2 (by decide) true⟩

end BananaApi.Wire
