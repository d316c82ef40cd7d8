import BananaApi.Core.Bytes
import BananaApi.Core.Outcome

/-!
# Anything that looks like a stream

Serialization code runs over every type with a `read` and a `write`. Both take
their size as a signed number. A simulation relates two such types: whatever one
reads or writes, the other does too, so that a program over one stream can be
replaced by the same program over the other.
-/

namespace BananaApi

/-- A stream of bytes. An exception leaves the stream behind. -/
class ByteStream (σ : Type) where
  /-- Fill a buffer of the given size from the front of the stream. -/
  read : σ → Int → Outcome σ (List Byte × σ)
  /-- Append the given number of bytes of a buffer to the stream. -/
  write : σ → List Byte → Int → Outcome σ σ

/-- The conversion of a `size_t` to `int` keeps the low 32 bits, as a signed number. -/
def intOf (n : Nat) : Int := Int.bmod n (2 ^ 32)

/-- An `int` is below `2 ^ 31`. -/
theorem intOf_lt (n : Nat) : intOf n < 2 ^ 31 := by
  unfold intOf
  rw [Int.bmod_def]
  split <;> omega

/-- An `int` is at least `-2 ^ 31`. -/
theorem le_intOf (n : Nat) : -2 ^ 31 ≤ intOf n := by
  unfold intOf
  rw [Int.bmod_def]
  split <;> omega

/-- Sizes below `2 ^ 31` are kept as they are. -/
theorem intOf_of_lt {n : Nat} (h : n < 2 ^ 31) : intOf n = n := by
  unfold intOf
  rw [Int.bmod_def]
  omega

/-- The sign of a converted size is the bit of weight `2 ^ 31`. -/
theorem intOf_neg_iff (n : Nat) : intOf n < 0 ↔ 2 ^ 31 ≤ n % 2 ^ 32 := by
  unfold intOf
  rw [Int.bmod_def]
  split <;> omega

/-- A size that does not turn negative is cut to its low 32 bits. -/
theorem intOf_of_mod_lt {n : Nat} (h : n % 2 ^ 32 < 2 ^ 31) : intOf n = (n % 2 ^ 32 : Nat) := by
  unfold intOf
  rw [Int.bmod_def]
  split <;> omega

section Simulation

variable {σ τ : Type} [ByteStream σ] [ByteStream τ]

/-- Results of a reader over two streams agree on the value and relate the streams. -/
def SameValue {α : Type} (R : σ → τ → Prop) (a : α × σ) (b : α × τ) : Prop :=
  a.1 = b.1 ∧ R a.2 b.2

/-- Related streams read the same bytes and stay related, for every size an `int` can
hold; if `lax` holds, the first may run outside of its buffer where the second throws. -/
def ReadSimulation (lax : Prop) (R : σ → τ → Prop) : Prop :=
  ∀ s t (n : Int), n < 2 ^ 31 → R s t →
    Outcome.Rel lax R (SameValue R) (ByteStream.read s n) (ByteStream.read t n)

/-- Related streams stay related when the same bytes are written to both. -/
def WriteSimulation (R : σ → τ → Prop) : Prop :=
  ∀ s t bs n, R s t → Outcome.Rel False R R (ByteStream.write s bs n) (ByteStream.write t bs n)

end Simulation

section Appending

variable {σ : Type} [ByteStream σ]

/-- As long as `I` holds, a write to the stream is a call of `put`, which may fail; two calls
in a row append both. -/
structure AppendsOnly (I : σ → Prop) (put : σ → List Byte → Outcome σ σ) : Prop where
  nil : ∀ s, I s → put s [] = .returned s
  both : ∀ s bs bs', I s → put s (bs ++ bs') = put s bs >>= fun s => put s bs'
  keeps : ∀ s bs s', I s → put s bs = .returned s' → I s'
  write : ∀ s pch (n : Nat), I s → n < 2 ^ 31 → n ≤ pch.length →
    ByteStream.write s pch (n : Int) = put s (pch.take n)

variable {I : σ → Prop} {put : σ → List Byte → Outcome σ σ}

/-- Two programs that append, one after the other. -/
theorem AppendsOnly.bind (h : AppendsOnly I put) {s : σ} (hs : I s) {o : Outcome σ σ}
    {bs bs' : List Byte} (ho : o = put s bs) {f : σ → Outcome σ σ}
    (hf : ∀ s, I s → f s = put s bs') : (o >>= f) = put s (bs ++ bs') := by
  rw [h.both s bs bs' hs, ho]
  cases hput : put s bs with
  | returned s' => exact hf s' (h.keeps s bs s' hs hput)
  | _ => rfl

end Appending

section Keeping

universe u v w

variable {σ : Type v} {ε : Type u} {ε' : Type w} {α γ : Type v} {I : σ → Prop}

/-- The call does not throw, and leaves a stream with a property where it returns. -/
def Outcome.Keeps (I : σ → Prop) (o : Outcome ε (α × σ)) : Prop :=
  ¬ o.Threw ∧ ∀ a s, o = .returned (a, s) → I s

/-- A value with a state that satisfies the invariant keeps it. -/
theorem Outcome.keeps_returned (a : α) {s : σ} (h : I s) :
    (Outcome.returned (a, s) : Outcome ε (α × σ)).Keeps I := by
  refine ⟨Outcome.not_threw_returned _, fun b t ht => ?_⟩
  cases ht
  exact h

/-- A loop that does not end returns no state. -/
theorem Outcome.keeps_unfinished : (Outcome.unfinished : Outcome ε (α × σ)).Keeps I :=
  ⟨Outcome.not_threw_unfinished, nofun⟩

/-- The invariant is about what is returned. -/
theorem Outcome.Keeps.mapThrow {o : Outcome ε (α × σ)} (h : o.Keeps I) (f : ε → ε') :
    (o.mapThrow f).Keeps I := by
  refine ⟨fun hthrew => h.1 (Outcome.mapThrow_threw_iff.mp hthrew), fun a s hs => ?_⟩
  exact h.2 a s (Outcome.mapThrow_eq_returned.mp hs)

/-- A sequence keeps what its two parts keep. -/
theorem Outcome.Keeps.bind {o : Outcome ε (α × σ)} {f : α × σ → Outcome ε (γ × σ)}
    (h : o.Keeps I) (hf : ∀ a s, I s → (f (a, s)).Keeps I) : (o >>= f).Keeps I := by
  cases o with
  | returned p => exact hf p.1 p.2 (h.2 p.1 p.2 rfl)
  | threw what e => exact absurd (Outcome.threw_threw what e) h.1
  | aborted => exact ⟨Outcome.not_threw_aborted, nofun⟩
  | overran => exact ⟨Outcome.not_threw_overran, nofun⟩
  | unfinished => exact Outcome.keeps_unfinished

end Keeping

section Rules

variable {σ τ : Type} {R : σ → τ → Prop} {lax : Prop} {ε ε' α γ δ : Type}

/-- The same value and related states. -/
theorem sameValue (a : α) {s : σ} {t : τ} (h : R s t) : SameValue R (a, s) (a, t) := ⟨rfl, h⟩

/-- After two readers that agree, it is enough to go on with one value. -/
theorem Outcome.Rel.bindValue {E : ε → ε' → Prop} {S : γ → δ → Prop} {o : Outcome ε (α × σ)}
    {o' : Outcome ε' (α × τ)} {f : α × σ → Outcome ε γ} {f' : α × τ → Outcome ε' δ}
    (h : Outcome.Rel lax E (SameValue R) o o')
    (hf : ∀ a s t, R s t → Outcome.Rel lax E S (f (a, s)) (f' (a, t))) :
    Outcome.Rel lax E S (o >>= f) (o' >>= f') := by
  apply h.bind
  rintro ⟨a, s⟩ ⟨_, t⟩ ⟨rfl, h⟩
  exact hf a s t h

/-- The target an exception leaves behind may be part of a larger one. -/
theorem Outcome.Rel.mapLeft {S : γ → δ → Prop} {o : Outcome (ε × σ) γ} {o' : Outcome (ε × τ) δ}
    (h : Outcome.Rel lax (SameValue R) S o o') (g : ε → α) :
    Outcome.Rel lax (SameValue R) S (o.mapThrow fun p => (g p.1, p.2))
      (o'.mapThrow fun p => (g p.1, p.2)) := by
  apply h.mapThrow
  rintro ⟨e, s⟩ ⟨_, t⟩ ⟨rfl, h⟩
  exact ⟨rfl, h⟩

end Rules

end BananaApi
