import BananaApi.Server.Serialize

/-!
# The serializable types

A description of a C++ type, indexed by the values it has. Overload resolution
picks the functions of a type by its outermost constructor. A vector of a
fundamental type is read in blocks and one of any other type element by element;
the in-memory size of such an element is not fixed by the header and is part of
the description. There is no vector of `bool`, because the templates take the
address of `v[0]`.
-/

namespace BananaApi.Server

/-- Types of objects, fundamental or not, and the bodies of `IMPLEMENT_SERIALIZE`. -/
inductive Kind where
  | object (fundamental : Bool)
  | statements
  deriving DecidableEq

/-- A type of objects, or the members an `IMPLEMENT_SERIALIZE` body names. -/
inductive Ty : Kind → Type → Type 1 where
  | integer (f : Fundamental) : Ty (.object true) (Word f.size)
  | bool : Ty (.object true) Bool
  /-- `basic_string` of characters of `c` bytes. -/
  | string (c : Nat) : Ty (.object false) (List (Word c))
  /-- `vector<T>` of an integer type. -/
  | fundamentals (f : Fundamental) : Ty (.object false) (List (Word f.size))
  /-- `vector<T>` of another type with the given `sizeof(T)`. -/
  | vector {α : Type} (t : Ty (.object false) α) (sizeofT : Nat) : Ty (.object false) (List α)
  | pair {α β : Type} {a b : Bool} (k : Ty (.object a) α) (t : Ty (.object b) β) :
      Ty (.object false) (α × β)
  | map {α : Type} (β : Type) {a b : Bool} (pred : Comparison α) (k : Ty (.object a) α)
      (t : Ty (.object b) β) : Ty (.object false) (SortedItems (pred.onKey β))
  | set {α : Type} {a : Bool} (pred : Comparison α) (k : Ty (.object a) α) :
      Ty (.object false) (SortedItems pred)
  /-- A class with an `IMPLEMENT_SERIALIZE` body over its members. -/
  | struct {α S : Type} (members : S ≃ α) (body : Ty .statements α) : Ty (.object false) S
  /-- The end of a body. -/
  | done : Ty .statements Unit
  /-- `READWRITE(obj);` and the statements behind it. -/
  | readwrite {α β : Type} {a : Bool} (t : Ty (.object a) α) (rest : Ty .statements β) :
      Ty .statements (α × β)
  /-- `READWRITE(FLATDATA(obj));` for an array of `n` characters, and the statements behind it. -/
  | flatdata {β : Type} (n : Nat) (rest : Ty .statements β) :
      Ty .statements (List.Vector Byte n × β)

namespace Ty

/-- The value-initialized object, as containers create their elements. -/
def init {κ : Kind} {α : Type} : Ty κ α → α
  | .integer _ => 0
  | .bool => false
  | .string _ => []
  | .fundamentals _ => []
  | .vector _ _ => []
  | .pair k t => (k.init, t.init)
  | .map _ _ _ _ => .empty
  | .set _ _ => .empty
  | .struct members body => members.symm body.init
  | .done => ()
  | .readwrite t rest => (t.init, rest.init)
  | .flatdata n rest => (List.Vector.replicate n 0, rest.init)

variable {σ : Type} [ByteStream σ]

/-- `Serialize` for an object, or the statements of a body with the writing action. -/
def serialize {κ : Kind} {α : Type} : Ty κ α → Serializer σ α
  | .integer f => serializeInteger f.size
  | .bool => serializeBool
  | .string c => serializeString c
  | .fundamentals f => serializeFundamentals f.size
  | .vector t _ => serializeVector t.serialize
  | .pair k t => serializePair k.serialize t.serialize
  | .map _ _ k t => serializeMap k.serialize t.serialize
  | .set _ k => serializeSet k.serialize
  | .struct members body => fun s a => body.serialize s (members a)
  | .done => fun s _ => .returned s
  | .readwrite t rest => serializePair t.serialize rest.serialize
  | .flatdata n rest => serializePair (serializeFlatData n) rest.serialize

/-- `Unserialize` for an object, or the statements of a body with the reading action. -/
def unserialize {κ : Kind} {α : Type} (fuel : Nat) : Ty κ α → Unserializer σ α
  | .integer f => unserializeInteger f.size
  | .bool => unserializeBool
  | .string c => unserializeString c
  | .fundamentals f => unserializeFundamentals fuel f.size
  | .vector t sizeofT => unserializeVector fuel (t.unserialize fuel) t.init sizeofT
  | .pair k t => unserializePair (k.unserialize fuel) (t.unserialize fuel)
  | .map _ _ k t => unserializeMap (k.unserialize fuel) (t.unserialize fuel) (k.init, t.init)
  | .set _ k => unserializeSet (k.unserialize fuel) k.init
  | .struct members body => fun s a => do
    let (m, s) ← (body.unserialize fuel s (members a)).mapThrow fun p => (members.symm p.1, p.2)
    .returned (members.symm m, s)
  | .done => fun s a => .returned (a, s)
  | .readwrite t rest => unserializePair (t.unserialize fuel) (rest.unserialize fuel)
  | .flatdata n rest => unserializePair (unserializeFlatData n) (rest.unserialize fuel)

/-- Every container in the value has fewer than `2 ^ 31` elements. -/
def Small {κ : Kind} {α : Type} : Ty κ α → α → Prop
  | .integer _, _ => True
  | .bool, _ => True
  | .string _, str => str.length < 2 ^ 31
  | .fundamentals _, v => v.length < 2 ^ 31
  | .vector t _, v => v.length < 2 ^ 31 ∧ ∀ x ∈ v, t.Small x
  | .pair k t, p => k.Small p.1 ∧ t.Small p.2
  | .map _ _ k t, m => m.items.length < 2 ^ 31 ∧ ∀ p ∈ m.items, k.Small p.1 ∧ t.Small p.2
  | .set _ k, m => m.items.length < 2 ^ 31 ∧ ∀ x ∈ m.items, k.Small x
  | .struct members body, a => body.Small (members a)
  | .done, _ => True
  | .readwrite t rest, p => t.Small p.1 ∧ rest.Small p.2
  | .flatdata n rest, p => n < 2 ^ 31 ∧ rest.Small p.2

/-- Every vector of a fundamental type in the value has fewer than `2 ^ 31` bytes. -/
def BlocksFit {κ : Kind} {α : Type} : Ty κ α → α → Prop
  | .integer _, _ => True
  | .bool, _ => True
  | .string _, _ => True
  | .fundamentals f, v => v.length * f.size < 2 ^ 31
  | .vector t _, v => ∀ x ∈ v, t.BlocksFit x
  | .pair k t, p => k.BlocksFit p.1 ∧ t.BlocksFit p.2
  | .map _ _ k t, m => ∀ p ∈ m.items, k.BlocksFit p.1 ∧ t.BlocksFit p.2
  | .set _ k, m => ∀ x ∈ m.items, k.BlocksFit x
  | .struct members body, a => body.BlocksFit (members a)
  | .done, _ => True
  | .readwrite t rest, p => t.BlocksFit p.1 ∧ rest.BlocksFit p.2
  | .flatdata _ rest, p => rest.BlocksFit p.2

/-- The in-memory size of the elements of every vector read element by element satisfies `P`. -/
def ElementSizes (P : Nat → Prop) {κ : Kind} {α : Type} : Ty κ α → Prop
  | .integer _ => True
  | .bool => True
  | .string _ => True
  | .fundamentals _ => True
  | .vector t sizeofT => P sizeofT ∧ t.ElementSizes P
  | .pair k t => k.ElementSizes P ∧ t.ElementSizes P
  | .map _ _ k t => k.ElementSizes P ∧ t.ElementSizes P
  | .set _ k => k.ElementSizes P
  | .struct _ body => body.ElementSizes P
  | .done => True
  | .readwrite t rest => t.ElementSizes P ∧ rest.ElementSizes P
  | .flatdata _ rest => rest.ElementSizes P

/-- Every string is a `basic_string<char>`. -/
def CharStrings {κ : Kind} {α : Type} : Ty κ α → Prop
  | .integer _ => True
  | .bool => True
  | .string c => c = 1
  | .fundamentals _ => True
  | .vector t _ => t.CharStrings
  | .pair k t => k.CharStrings ∧ t.CharStrings
  | .map _ _ k t => k.CharStrings ∧ t.CharStrings
  | .set _ k => k.CharStrings
  | .struct _ body => body.CharStrings
  | .done => True
  | .readwrite t rest => t.CharStrings ∧ rest.CharStrings
  | .flatdata _ rest => rest.CharStrings

end Ty

end BananaApi.Server
