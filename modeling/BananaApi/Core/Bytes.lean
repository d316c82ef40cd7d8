import Mathlib.Data.List.Palindrome
import Mathlib.Tactic.Ring

/-!
# Fixed-width integers as bytes

A value of `n` bytes is a `Word n`, whatever its sign means. Its little-endian bytes determine it
and every list of `n` bytes is the image of one value; reading the reversed bytes
gives the value back exactly when the bytes form a palindrome. A list of values
of one width has the concatenation of their bytes as its image in memory.
-/

namespace BananaApi

/-- One byte of a buffer. -/
abbrev Byte := BitVec 8

/-- A value of `n` bytes. -/
abbrev Word (n : Nat) := BitVec (8 * n)

/-- The `n` low bytes of a natural number, least significant first. -/
def natBytes : Nat → Nat → List Byte
  | 0, _ => []
  | n + 1, x => BitVec.ofNat 8 x :: natBytes n (x / 256)

/-- The natural number with the given bytes, least significant first. -/
def bytesNat : List Byte → Nat
  | [] => 0
  | b :: bs => b.toNat + 256 * bytesNat bs

@[simp] theorem length_natBytes (n x : Nat) : (natBytes n x).length = n := by
  induction n generalizing x with
  | zero => rfl
  | succ n ih => simp only [natBytes, List.length_cons, ih]

/-- The bytes of a number are read as its remainder modulo the power they reach up to. -/
theorem bytesNat_natBytes (n x : Nat) : bytesNat (natBytes n x) = x % 2 ^ (8 * n) := by
  induction n generalizing x with
  | zero => simp [natBytes, bytesNat, Nat.mod_one]
  | succ n ih =>
    have hp : 2 ^ (8 * (n + 1)) = 256 * 2 ^ (8 * n) := by rw [Nat.mul_succ, pow_add]; ring
    rw [natBytes, bytesNat, ih, BitVec.toNat_ofNat, hp, Nat.mod_mul]

/-- Bytes are read as a number below the next power. -/
theorem bytesNat_lt (bs : List Byte) : bytesNat bs < 2 ^ (8 * bs.length) := by
  induction bs with
  | nil => simp [bytesNat]
  | cons b bs ih =>
    have hb : b.toNat < 256 := b.isLt
    have hp : 2 ^ (8 * (bs.length + 1)) = 256 * 2 ^ (8 * bs.length) := by
      rw [Nat.mul_succ, pow_add]; ring
    rw [bytesNat, List.length_cons, hp]
    omega

/-- Bytes are those of the number that they are read as. -/
theorem natBytes_bytesNat (bs : List Byte) : natBytes bs.length (bytesNat bs) = bs := by
  induction bs with
  | nil => rfl
  | cons b bs ih =>
    have hb : b.toNat < 256 := b.isLt
    have hdiv : (b.toNat + 256 * bytesNat bs) / 256 = bytesNat bs := by omega
    rw [List.length_cons, natBytes, bytesNat, hdiv, ih]
    congr 1
    apply BitVec.eq_of_toNat_eq
    rw [BitVec.toNat_ofNat]
    omega

/-- The bytes of an `n`-byte value, least significant first. -/
def leBytes (n : Nat) (x : Word n) : List Byte := natBytes n x.toNat

/-- The `n`-byte value with the given bytes, least significant first. -/
def ofLeBytes (n : Nat) (bs : List Byte) : Word n := BitVec.ofNat (8 * n) (bytesNat bs)

@[simp] theorem length_leBytes (n : Nat) (x : Word n) : (leBytes n x).length = n :=
  length_natBytes _ _

/-- A value of one byte is its only byte. -/
theorem leBytes_one (x : Word 1) : leBytes 1 x = [x] := by
  rw [leBytes, natBytes, natBytes, BitVec.ofNat_toNat, BitVec.setWidth_eq]

/-- An integer is read from its bytes. -/
@[simp] theorem ofLeBytes_leBytes (n : Nat) (x : Word n) :
    ofLeBytes n (leBytes n x) = x := by
  apply BitVec.eq_of_toNat_eq
  rw [ofLeBytes, leBytes, bytesNat_natBytes, BitVec.toNat_ofNat, Nat.mod_mod,
    Nat.mod_eq_of_lt x.isLt]

/-- Bytes are those of the integer that they are read as. -/
theorem leBytes_ofLeBytes {n : Nat} {bs : List Byte} (h : bs.length = n) :
    leBytes n (ofLeBytes n bs) = bs := by
  subst h
  rw [leBytes, ofLeBytes, BitVec.toNat_ofNat, Nat.mod_eq_of_lt (bytesNat_lt bs),
    natBytes_bytesNat]

/-- The integer has the number of its bytes. -/
theorem toNat_ofLeBytes {n : Nat} {bs : List Byte} (h : bs.length = n) :
    (ofLeBytes n bs).toNat = bytesNat bs := by
  subst h
  rw [ofLeBytes, BitVec.toNat_ofNat, Nat.mod_eq_of_lt (bytesNat_lt bs)]

/-- Reading the bytes in the other order recovers the value exactly when the
order makes no difference to its bytes. -/
theorem ofLeBytes_reverse_eq_iff (n : Nat) (x : Word n) :
    ofLeBytes n (leBytes n x).reverse = x ↔ (leBytes n x).Palindrome := by
  rw [List.Palindrome.iff_reverse_eq]
  constructor
  · intro h
    have hl : (leBytes n x).reverse.length = n := by simp
    rw [← leBytes_ofLeBytes hl, h]
  · intro h
    rw [h, ofLeBytes_leBytes]

/-- The bytes of an `n`-byte value, most significant first. -/
def beBytes (n : Nat) (x : Word n) : List Byte := (leBytes n x).reverse

@[simp] theorem length_beBytes (n : Nat) (x : Word n) : (beBytes n x).length = n := by
  rw [beBytes, List.length_reverse, length_leBytes]

/-- The bytes are the digits of the number to the base 256. -/
theorem natBytes_eq_map (n x : Nat) :
    natBytes n x = (List.range n).map fun i => BitVec.ofNat 8 (x / 256 ^ i) := by
  induction n generalizing x with
  | zero => rfl
  | succ n ih =>
    rw [natBytes, ih, List.range_succ_eq_map, List.map_cons, List.map_map, pow_zero, Nat.div_one]
    congr 1
    apply List.map_congr_left
    intro i _
    rw [Function.comp_apply, Nat.succ_eq_add_one, pow_succ', Nat.div_div_eq_div_mul]

/-- The bytes of a value are its groups of eight bits. -/
theorem leBytes_eq_map (n : Nat) (x : Word n) :
    leBytes n x = (List.range n).map fun i => x.extractLsb' (8 * i) 8 := by
  rw [leBytes, natBytes_eq_map]
  apply List.map_congr_left
  intro i _
  apply BitVec.eq_of_toNat_eq
  rw [BitVec.extractLsb'_toNat, BitVec.toNat_ofNat, Nat.shiftRight_eq_div_pow, pow_mul]
  rfl

/-- A value whose groups of eight bits are those of another one from behind. -/
theorem leBytes_eq_beBytes {n : Nat} {x y : Word n}
    (h : ∀ j < n, y.extractLsb' (8 * j) 8 = x.extractLsb' (8 * (n - 1 - j)) 8) :
    leBytes n y = beBytes n x := by
  rw [beBytes, leBytes_eq_map, leBytes_eq_map]
  apply List.ext_getElem
  · simp
  · intro j hj _
    rw [List.length_map, List.length_range] at hj
    rw [List.getElem_reverse, List.getElem_map, List.getElem_map, List.getElem_range,
      List.getElem_range, h j hj, List.length_map, List.length_range]

/-- The memory image of consecutive values of one width. -/
def imageOf (n : Nat) (xs : List (Word n)) : List Byte := xs.flatMap (leBytes n)

/-- The `count` consecutive values stored in a memory image. -/
def valuesOf (n : Nat) : Nat → List Byte → List (Word n)
  | 0, _ => []
  | count + 1, bs => ofLeBytes n (bs.take n) :: valuesOf n count (bs.drop n)

@[simp] theorem imageOf_nil (n : Nat) : imageOf n [] = [] := rfl

@[simp] theorem imageOf_cons (n : Nat) (x : Word n) (xs : List (Word n)) :
    imageOf n (x :: xs) = leBytes n x ++ imageOf n xs := rfl

@[simp] theorem imageOf_append (n : Nat) (xs ys : List (Word n)) :
    imageOf n (xs ++ ys) = imageOf n xs ++ imageOf n ys := List.flatMap_append

/-- Bytes are their own image. -/
theorem imageOf_one (bs : List Byte) : imageOf 1 bs = bs := by
  induction bs with
  | nil => rfl
  | cons b bs ih =>
    have hb : leBytes 1 b = [b] := leBytes_one b
    rw [imageOf_cons, ih, hb, List.singleton_append]

@[simp] theorem length_imageOf (n : Nat) (xs : List (Word n)) :
    (imageOf n xs).length = xs.length * n := by
  induction xs with
  | nil => simp
  | cons x xs ih => simp only [imageOf_cons, List.length_append, length_leBytes, ih,
      List.length_cons]; ring

@[simp] theorem length_valuesOf (n count : Nat) (bs : List Byte) :
    (valuesOf n count bs).length = count := by
  induction count generalizing bs with
  | zero => rfl
  | succ count ih => simp only [valuesOf, List.length_cons, ih]

/-- Elements are read from their image, whatever follows it. -/
theorem valuesOf_imageOf (n : Nat) (xs : List (Word n)) (bs : List Byte) :
    valuesOf n xs.length (imageOf n xs ++ bs) = xs := by
  induction xs with
  | nil => rfl
  | cons x xs ih =>
    have hl : (leBytes n x).length = n := length_leBytes n x
    simp only [List.length_cons, valuesOf, imageOf_cons, List.append_assoc]
    rw [List.take_left' hl, List.drop_left' hl, ofLeBytes_leBytes, ih]

/-- Elements are read part by part. -/
theorem valuesOf_append (n a b : Nat) (bs : List Byte) :
    valuesOf n (a + b) bs = valuesOf n a bs ++ valuesOf n b (bs.drop (a * n)) := by
  induction a generalizing bs with
  | zero => simp [valuesOf]
  | succ a ih =>
    rw [Nat.succ_add, valuesOf, valuesOf, ih, List.drop_drop, List.cons_append]
    congr 4
    ring

/-- Store bytes into a memory image at the given offset. -/
def overwrite (image : List Byte) (offset : Nat) (bs : List Byte) : List Byte :=
  image.take offset ++ bs ++ image.drop (offset + bs.length)

theorem overwrite_nil (image : List Byte) (offset : Nat) : overwrite image offset [] = image := by
  rw [overwrite, List.append_nil, List.length_nil, Nat.add_zero, List.take_append_drop]

/-- Storing one byte replaces an element. -/
theorem overwrite_singleton {image : List Byte} {offset : Nat} (h : offset < image.length)
    (b : Byte) : overwrite image offset [b] = image.set offset b := by
  rw [List.set_eq_take_append_cons_drop, if_pos h, overwrite, List.append_assoc,
    List.singleton_append, List.length_singleton]

/-- Storing inside of an image leaves its length. -/
theorem length_overwrite {image : List Byte} {offset : Nat} {bs : List Byte}
    (h : offset + bs.length ≤ image.length) :
    (overwrite image offset bs).length = image.length := by
  simp only [overwrite, List.length_append, List.length_take, List.length_drop]
  omega

/-- What is stored behind other bytes is stored together with them. -/
theorem overwrite_append {image : List Byte} {offset : Nat} (h : offset ≤ image.length)
    (bs bs' : List Byte) :
    overwrite (overwrite image offset bs) (offset + bs.length) bs' =
      overwrite image offset (bs ++ bs') := by
  have hlen : (image.take offset ++ bs).length = offset + bs.length := by
    rw [List.length_append, List.length_take_of_le h]
  unfold overwrite
  rw [List.take_left' hlen, ← List.drop_drop, List.drop_left' hlen, List.drop_drop,
    List.append_assoc (image.take offset), List.length_append, Nat.add_assoc]

/-- The stored bytes are found where they were stored. -/
theorem take_drop_overwrite {image : List Byte} {offset : Nat} (h : offset ≤ image.length)
    (bs : List Byte) : ((overwrite image offset bs).drop offset).take bs.length = bs := by
  rw [overwrite, List.append_assoc, List.drop_left' (List.length_take_of_le h), List.take_left]

/-- Store bytes into the memory of consecutive values, from the value at index `i` on. -/
def store (n : Nat) (xs : List (Word n)) (i : Nat) (bs : List Byte) : List (Word n) :=
  valuesOf n xs.length (overwrite (imageOf n xs) (i * n) bs)

@[simp] theorem length_store (n : Nat) (xs : List (Word n)) (i : Nat) (bs : List Byte) :
    (store n xs i bs).length = xs.length := length_valuesOf _ _ _

/-- Filling the memory behind the first values keeps these and replaces all others. -/
theorem store_append {n : Nat} (xs ys : List (Word n)) {bs : List Byte}
    (h : bs.length = ys.length * n) :
    store n (xs ++ ys) xs.length bs = xs ++ valuesOf n ys.length bs := by
  have hx : (imageOf n xs).length = xs.length * n := length_imageOf n xs
  have hy : (imageOf n ys).length = ys.length * n := length_imageOf n ys
  have himage : overwrite (imageOf n (xs ++ ys)) (xs.length * n) bs = imageOf n xs ++ bs := by
    rw [overwrite, imageOf_append, List.take_left' hx, List.drop_eq_nil_of_le, List.append_nil]
    simp only [List.length_append]
    omega
  rw [store, himage, List.length_append, valuesOf_append, valuesOf_imageOf, List.drop_left' hx]

/-- Resize a container: cut it, or fill it up with copies of a value. -/
def resize {α : Type} (xs : List α) (size : Nat) (x : α) : List α :=
  xs.take size ++ List.replicate (size - xs.length) x

@[simp] theorem length_resize {α : Type} (xs : List α) (size : Nat) (x : α) :
    (resize xs size x).length = size := by
  simp only [resize, List.length_append, List.length_take, List.length_replicate]
  omega

/-- A larger size adds copies at the end. -/
theorem resize_of_le {α : Type} {xs : List α} {size : Nat} (h : xs.length ≤ size) (x : α) :
    resize xs size x = xs ++ List.replicate (size - xs.length) x := by
  rw [resize, List.take_of_length_le h]

/-- Elements in front are kept when room is asked for them too. -/
theorem resize_append {α : Type} (xs ys : List α) (size : Nat) (x : α) :
    resize (xs ++ ys) (size + xs.length) x = xs ++ resize ys size x := by
  have hmissing : size + xs.length - (xs ++ ys).length = size - ys.length := by
    rw [List.length_append]
    omega
  rw [resize, resize, hmissing, Nat.add_comm, List.take_length_add_append, List.append_assoc]

end BananaApi
