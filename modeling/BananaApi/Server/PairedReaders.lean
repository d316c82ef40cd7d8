import BananaApi.Server.Types

/-!
# Readers over two streams

The templates are put together from reads, sequences, and exceptions that are passed on. A
relation between programs over two streams that has a clause for each of these holds of the
readers of every type.
-/

namespace BananaApi.Server

/-- A relation between programs over two streams, closed under what the templates do. `left` and
`left'` find the stream in what an exception leaves behind. -/
structure PairedReading (σ τ : Type) [ByteStream σ] [ByteStream τ] where
  Paired {ε ε' α : Type} (left : ε → σ) (left' : ε' → τ) (f : σ → Outcome ε (α × σ))
    (g : τ → Outcome ε' (α × τ)) : Prop
  returned {ε ε' α : Type} {left : ε → σ} {left' : ε' → τ} (a : α) :
    Paired left left' (fun s => .returned (a, s)) fun t => .returned (a, t)
  unfinished {ε ε' α : Type} {left : ε → σ} {left' : ε' → τ} :
    Paired (α := α) left left' (fun _ => .unfinished) fun _ => .unfinished
  overran {ε ε' α : Type} {left : ε → σ} {left' : ε' → τ} :
    Paired (α := α) left left' (fun _ => .overran) fun _ => .overran
  mapThrow {ε ε' ε₁ ε₁' α : Type} {left : ε → σ} {left' : ε' → τ} {left₁ : ε₁ → σ}
    {left₁' : ε₁' → τ} {f : σ → Outcome ε (α × σ)} {g : τ → Outcome ε' (α × τ)} {u : ε → ε₁}
    {v : ε' → ε₁'} (hu : ∀ e, left₁ (u e) = left e) (hv : ∀ e, left₁' (v e) = left' e)
    (h : Paired left left' f g) :
    Paired left₁ left₁' (fun s => (f s).mapThrow u) fun t => (g t).mapThrow v
  bind {ε ε' α γ : Type} {left : ε → σ} {left' : ε' → τ} {f : σ → Outcome ε (α × σ)}
    {g : τ → Outcome ε' (α × τ)} {f' : α → σ → Outcome ε (γ × σ)}
    {g' : α → τ → Outcome ε' (γ × τ)} (h : Paired left left' f g)
    (h' : ∀ a, Paired left left' (f' a) (g' a)) :
    Paired left left' (fun s => f s >>= fun p => f' p.1 p.2) fun t => g t >>= fun p => g' p.1 p.2
  read (n : Nat) :
    Paired id id (fun s => ByteStream.read s (intOf n)) fun t => ByteStream.read t (intOf n)

namespace PairedReading

variable {σ τ : Type} [ByteStream σ] [ByteStream τ] (P : PairedReading σ τ) {α β γ ε ε' : Type}

/-- Two readers that are related, whatever their common target holds. -/
def Pairs (f : Unserializer σ α) (g : Unserializer τ α) : Prop :=
  ∀ a, P.Paired Prod.snd Prod.snd (fun s => f s a) fun t => g t a

variable {P}

/-- Both programs may put the value they return into other terms. -/
theorem map {left : ε → σ} {left' : ε' → τ} {f : σ → Outcome ε (α × σ)}
    {g : τ → Outcome ε' (α × τ)} (h : P.Paired left left' f g) (k : α → γ) :
    P.Paired left left' (fun s => f s >>= fun p => .returned (k p.1, p.2)) fun t =>
      g t >>= fun p => .returned (k p.1, p.2) :=
  P.bind h fun a => P.returned (k a)

/-- An exception may leave a target behind as well. -/
theorem beside {f : σ → Outcome σ (α × σ)} {g : τ → Outcome τ (α × τ)} (h : P.Paired id id f g)
    (a : β) :
    P.Paired Prod.snd Prod.snd (fun s => (f s).mapThrow fun s => (a, s)) fun t =>
      (g t).mapThrow fun t => (a, t) :=
  P.mapThrow (fun _ => rfl) (fun _ => rfl) h

/-- The target an exception leaves behind may be part of a larger one. -/
theorem mapTarget {f : σ → Outcome (α × σ) (γ × σ)} {g : τ → Outcome (α × τ) (γ × τ)}
    (h : P.Paired Prod.snd Prod.snd f g) (k : α → β) :
    P.Paired Prod.snd Prod.snd (fun s => (f s).mapThrow fun p => (k p.1, p.2)) fun t =>
      (g t).mapThrow fun p => (k p.1, p.2) :=
  P.mapThrow (fun _ => rfl) (fun _ => rfl) h

/-- Both programs may take the same side of a test. -/
theorem ite {c : Prop} [Decidable c] {left : ε → σ} {left' : ε' → τ}
    {f f' : σ → Outcome ε (α × σ)} {g g' : τ → Outcome ε' (α × τ)}
    (h : P.Paired left left' f g) (h' : P.Paired left left' f' g') :
    P.Paired left left' (fun s => if c then f s else f' s) fun t => if c then g t else g' t := by
  by_cases hc : c
  · simpa only [hc, if_true] using h
  · simpa only [hc, if_false] using h'

/-! ## Integers and lengths -/

/-- Integers are read in pairs. -/
theorem readData (n : Nat) : P.Paired id id (readData n) (readData n) :=
  map (P.read n) (ofLeBytes n)

/-- What `ReadCompactSize` does behind the byte it reads first. -/
def behindMark {σ : Type} [ByteStream σ] (chSize : Word 1) (is : σ) : Outcome σ (Word 8 × σ) :=
  if chSize.toNat < ucharMax - 2 then .returned (chSize.setWidth _, is)
  else if chSize.toNat = ucharMax - 2 then
    Server.readData 2 is >>= fun p => .returned (p.1.setWidth _, p.2)
  else if chSize.toNat = ucharMax - 1 then
    Server.readData 4 is >>= fun p => .returned (p.1.setWidth _, p.2)
  else Server.readData 8 is

/-- Length prefixes are read in pairs, since both streams have the same bytes. -/
theorem readCompactSize : P.Paired id id readCompactSize readCompactSize := by
  have hwide (n : Nat) : P.Paired id id
      (fun s => Server.readData n s >>= fun p => .returned ((p.1.setWidth _ : Word 8), p.2))
      fun t => Server.readData n t >>= fun p => .returned ((p.1.setWidth _ : Word 8), p.2) :=
    map (readData n) fun x => x.setWidth _
  have hrest (chSize : Word 1) : P.Paired id id (behindMark chSize) (behindMark chSize) :=
    ite (P.returned _) (ite (hwide 2) (ite (hwide 4) (readData 8)))
  exact P.bind (readData 1) hrest

/-- A length prefix and what follows it. -/
theorem length {f : Nat → σ → Outcome (β × σ) (γ × σ)} {g : Nat → τ → Outcome (β × τ) (γ × τ)}
    (a : β) (h : ∀ n, P.Paired Prod.snd Prod.snd (f n) (g n)) :
    P.Paired Prod.snd Prod.snd
      (fun s => (Server.readCompactSize s).mapThrow (fun s => (a, s)) >>= fun p =>
        f (unsignedOf p.1) p.2)
      fun t => (Server.readCompactSize t).mapThrow (fun t => (a, t)) >>= fun p =>
        g (unsignedOf p.1) p.2 :=
  P.bind (beside readCompactSize a) fun size => h (unsignedOf size)

/-- A block of memory, whatever target is left behind when it is missing. -/
theorem block (a : β) (n : Nat) (k : List Byte → γ) :
    P.Paired Prod.snd Prod.snd
      (fun s => (ByteStream.read s (intOf n)).mapThrow (fun s => (a, s)) >>= fun p =>
        .returned (k p.1, p.2))
      fun t => (ByteStream.read t (intOf n)).mapThrow (fun t => (a, t)) >>= fun p =>
        .returned (k p.1, p.2) :=
  map (beside (P.read n) a) k

/-! ## Loops -/

section Loops

variable {f : Unserializer σ α} {g : Unserializer τ α}

theorem readElements (h : P.Pairs f g) (count i : Nat) (v : List α) :
    P.Paired Prod.snd Prod.snd (readElements f count i v) (readElements g count i v) := by
  induction count generalizing i v with
  | zero => exact P.returned v
  | succ count ih =>
    cases hv : v[i]? with
    | none => simpa only [Server.readElements, hv] using P.overran
    | some x =>
      have hstep := P.bind (mapTarget (h x) (v.set i)) fun x => ih (i + 1) (v.set i x)
      simpa only [Server.readElements, hv] using hstep

/-- The rounds of a vector are made in pairs. -/
theorem readChunks (h : P.Pairs f g) (init : α) (sizeofT nSize fuel nMid i : Nat) (v : List α) :
    P.Paired Prod.snd Prod.snd (readChunks f init sizeofT nSize fuel nMid i v)
      (readChunks g init sizeofT nSize fuel nMid i v) := by
  induction fuel generalizing nMid i v with
  | zero => exact P.unfinished
  | succ fuel ih => exact ite (P.bind (readElements h _ i _) fun v => ih _ _ v) (P.returned v)

theorem insertItems {c : Comparison α} (h : P.Pairs f g) (init : α) (count i : Nat)
    (m : SortedItems c) :
    P.Paired Prod.snd Prod.snd (insertItems f init count i m) (insertItems g init count i m) := by
  induction count generalizing i m with
  | zero => exact P.returned (m, i)
  | succ count ih =>
    exact P.bind (mapTarget (h init) fun _ => m) fun item => ih (i + 1) (m.insert item)

theorem readBlocks (n nSize fuel i : Nat) (v : List (Word n)) :
    P.Paired Prod.snd Prod.snd (readBlocks n nSize fuel i v) (readBlocks n nSize fuel i v) := by
  induction fuel generalizing i v with
  | zero => exact P.unfinished
  | succ fuel ih =>
    exact ite (P.bind (beside (P.read _) _) fun bs => ih _ (store n _ i bs)) (P.returned v)

end Loops

/-! ## Types -/

section Types

variable {f : Unserializer σ α} {g : Unserializer τ α} {f' : Unserializer σ β}
  {g' : Unserializer τ β}

theorem readCharacters (c n : Nat) (str : List (Word c)) :
    P.Paired Prod.snd Prod.snd (readCharacters c n str) (readCharacters c n str) :=
  ite (block _ _ (store c (resize str n 0) 0)) (P.returned _)

/-- Pairs are read in pairs, component by component. -/
theorem unserializePair (h : P.Pairs f g) (h' : P.Pairs f' g') :
    P.Pairs (unserializePair f f') (unserializePair g g') := fun p =>
  P.bind (mapTarget (h p.1) fun x => (x, p.2)) fun x =>
    map (mapTarget (h' p.2) (Prod.mk x)) (Prod.mk x)

theorem unserializeItems {c : Comparison α} (h : P.Pairs f g) (init : α) :
    P.Pairs (unserializeItems (c := c) f init) (unserializeItems g init) := fun _ =>
  map (length SortedItems.empty fun n => insertItems h init n 0 SortedItems.empty) Prod.fst

/-- The readers of every type over the two streams are related. -/
theorem unserialize (fuel : Nat) {κ : Kind} {α : Type} (t : Ty κ α) :
    P.Pairs (t.unserialize fuel) (t.unserialize fuel) := by
  induction t with
  | integer f => exact fun a => beside (readData f.size) a
  | bool => exact fun a => map (beside (readData 1) a) fun f => decide (f ≠ 0)
  | string c => exact fun str => length str fun n => readCharacters c n str
  | fundamentals f => exact fun _ => length [] fun n => readBlocks f.size n fuel 0 []
  | vector t sizeofT ih =>
    exact fun _ => length [] fun n => readChunks ih t.init sizeofT n fuel 0 0 []
  | pair k t ihk iht => exact unserializePair ihk iht
  | map β pred k t ihk iht => exact unserializeItems (unserializePair ihk iht) _
  | set pred k ih => exact unserializeItems ih _
  | struct members body ih =>
    exact fun a => map (mapTarget (ih (members a)) members.symm) members.symm
  | done => exact fun a => P.returned a
  | readwrite t rest iht ihrest => exact unserializePair iht ihrest
  | flatdata n rest ih =>
    exact unserializePair (fun obj => block obj n (overwriteArray obj)) ih

end Types

end PairedReading

end BananaApi.Server
