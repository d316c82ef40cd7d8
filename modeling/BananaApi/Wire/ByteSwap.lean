import BananaApi.Wire.ByteOrder
import Mathlib.Tactic.IntervalCases

/-!
# Swapping the bytes

`byteswap.h` has a function for each width that turns the bytes of an integer around. The
templates do not call it. Integers that are swapped in front of every `<<` and behind every `>>`
of the server survive the way from one side to the other, whatever they are.
-/

namespace BananaApi.Server

/-- `bswap_16`. -/
def bswap16 (x : Word 2) : Word 2 := x >>> 8 ||| x <<< 8

/-- `bswap_64`, where each byte goes to the opposite place. -/
def bswap64 (x : Word 8) : Word 8 :=
  (x &&& 0xff00000000000000) >>> 56 ||| (x &&& 0x00ff000000000000) >>> 40 |||
    (x &&& 0x0000ff0000000000) >>> 24 ||| (x &&& 0x000000ff00000000) >>> 8 |||
    (x &&& 0x00000000ff000000) <<< 8 ||| (x &&& 0x0000000000ff0000) <<< 24 |||
    (x &&& 0x000000000000ff00) <<< 40 ||| (x &&& 0x00000000000000ff) <<< 56

/-- The bytes of the swapped integer are those of the integer from the other end. -/
theorem leBytes_bswap16 (x : Word 2) : leBytes 2 (bswap16 x) = beBytes 2 x := by
  apply leBytes_eq_beBytes
  intro j hj
  ext k hk
  interval_cases j <;> interval_cases k <;> simp [bswap16]

/-- The bytes of the swapped integer are those of the integer from the other end. -/
theorem leBytes_bswap64 (x : Word 8) : leBytes 8 (bswap64 x) = beBytes 8 x := by
  apply leBytes_eq_beBytes
  intro j hj
  ext k hk
  interval_cases j <;> interval_cases k <;> simp [bswap64]

end BananaApi.Server

namespace BananaApi.Wire

open BananaApi.Server (CDataStream bswap16 bswap64)

namespace NetworkInteger

/-- The integer after `bswap_16` or `bswap_64`. -/
def swapped : NetworkInteger → NetworkInteger
  | ⟨.uint16, value⟩ => ⟨.uint16, bswap16 value⟩
  | ⟨.uint64, value⟩ => ⟨.uint64, bswap64 value⟩

/-- A swapped integer is written by the server as the client would write it. -/
theorem leBytes_swapped (x : NetworkInteger) :
    leBytes x.swapped.width.size x.swapped.value = beBytes x.width.size x.value := by
  obtain ⟨w, value⟩ := x
  cases w with
  | uint16 => exact Server.leBytes_bswap16 value
  | uint64 => exact Server.leBytes_bswap64 value

/-- Swapping turns the bytes around. -/
theorem swapped_eq_reversed (x : NetworkInteger) : x.swapped = x.reversed := by
  have hbytes := x.leBytes_swapped
  have hvalue := ofLeBytes_leBytes x.swapped.width.size x.swapped.value
  rw [hbytes] at hvalue
  obtain ⟨w, value⟩ := x
  cases w with
  | uint16 => exact congrArg (NetworkInteger.mk .uint16) hvalue.symm
  | uint64 => exact congrArg (NetworkInteger.mk .uint64) hvalue.symm

/-- Turning the bytes around twice changes nothing. -/
theorem reversed_reversed (x : NetworkInteger) : x.reversed.reversed = x := by
  have hlen : (leBytes x.width.size x.value).reverse.length = x.width.size := by
    rw [List.length_reverse, length_leBytes]
  simp only [reversed, leBytes_ofLeBytes hlen, List.reverse_reverse, ofLeBytes_leBytes]

/-- Swapping changes no width. -/
theorem map_width_swapped (xs : List NetworkInteger) :
    (xs.map swapped).map width = xs.map width := by
  rw [List.map_map]
  apply List.map_congr_left
  intro x _
  rw [Function.comp_apply, swapped_eq_reversed]
  rfl

/-- Swapping undoes the wrong order. -/
theorem map_reversed_swapped (xs : List NetworkInteger) :
    (xs.map swapped).map reversed = xs := by
  rw [List.map_map]
  refine (List.map_congr_left fun x _ => ?_).trans (List.map_id xs)
  rw [Function.comp_apply, swapped_eq_reversed, reversed_reversed]
  rfl

end NetworkInteger

open NetworkInteger (swapped)

/-- Swapped integers in the order of the server are the integers in the order of the client. -/
theorem littleEndianBytes_swapped (xs : List NetworkInteger) :
    littleEndianBytes (xs.map swapped) = bigEndianBytes xs := by
  rw [littleEndianBytes, List.flatMap_map]
  exact List.flatMap_congr fun x _ => x.leBytes_swapped

/-- With the bytes swapped in front of `<<` and behind `>>`, every sequence of integers survives
both ways, from the server to the client and through a buffer with spare room from the client to
the server, whatever the order of the client's host is. -/
theorem swapped_agrees (isLittleEndian : Bool) (xs : List NetworkInteger) :
    (∃ b, serializeIntegers (CDataStream.init []) (xs.map swapped) =
        .returned (CDataStream.init b) ∧
      readIntegers isLittleEndian (xs.map NetworkInteger.width) b = .ok xs []) ∧
    ∀ dest : List Byte, (bigEndianBytes xs).length < dest.length → dest.length < 2 ^ 31 →
      ∃ next dest', writeIntegers isLittleEndian 0 xs dest = .ok next dest' ∧
        ∃ ys s', unserializeIntegers (xs.map NetworkInteger.width)
          (CDataStream.init (dest'.take next)) = .returned (ys, s') ∧
          ys.map swapped = xs ∧ s'.unread = [] := by
  constructor
  · have hserver := serializeIntegers_eq [] (xs.map swapped)
    have hclient := readIntegers_eq isLittleEndian (xs.map swapped) []
    rw [NetworkInteger.map_width_swapped, NetworkInteger.map_reversed_swapped, List.append_nil]
      at hclient
    exact ⟨_, hserver, hclient⟩
  · intro dest hroom hdest
    have hwrite := writeIntegers_eq isLittleEndian xs [] hroom
    simp only [List.nil_append, List.length_nil] at hwrite
    refine ⟨_, _, hwrite, ?_⟩
    rw [List.take_left, ← littleEndianBytes_swapped]
    have hshort : (CDataStream.init (littleEndianBytes (xs.map swapped))).vch.length < 2 ^ 31 := by
      rw [littleEndianBytes_swapped]
      exact hroom.trans hdest
    have hrel := unserializeIntegers_rel (xs.map NetworkInteger.width)
      (CDataStream.refines_queue (CDataStream.wellFormed_init _) (Or.inl hshort))
    have hqueue := unserializeIntegers_queue (xs.map swapped)
      (q := (CDataStream.init (littleEndianBytes (xs.map swapped))).queue)
      (List.append_nil _).symm
    rw [NetworkInteger.map_width_swapped] at hqueue
    obtain ⟨⟨ys, s'⟩, hs', hys, hrefines⟩ := hrel.returned_right hqueue
    obtain rfl : ys = xs.map swapped := hys
    refine ⟨_, s', hs', ?_, hrefines.unread⟩
    rw [List.map_map]
    refine (List.map_congr_left fun x _ => ?_).trans (List.map_id xs)
    rw [Function.comp_apply, NetworkInteger.swapped_eq_reversed,
      NetworkInteger.swapped_eq_reversed, NetworkInteger.reversed_reversed]
    rfl

end BananaApi.Wire
