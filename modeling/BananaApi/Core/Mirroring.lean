import BananaApi.Core.ByteStream

/-!
# Streams that fail in different ways

Two streams may deliver the same bytes and yet differ in what they do when there are
not enough of them: one fails an assertion or throws, the other always throws. A run
mirrors another one when it returns the same and throws wherever the other one throws
or fails an assertion. The texts of the exceptions are not compared; what holds of the
exceptions of the second run, in the one case and in the other, is part of the relation.
-/

namespace BananaApi

universe u v w x

namespace Outcome

variable {ε : Type u} {ε' : Type w} {α β : Type v} {γ : Type x}

/-- Two runs of one program that return related values. The second throws wherever the first
throws, with a text and a rest for which `D` holds, and wherever the first fails an assertion,
with those for which `A` holds. -/
inductive Mirrors (D A : String → ε' → Prop) (R : α → γ → Prop) :
    Outcome ε α → Outcome ε' γ → Prop
  | returned {a : α} {c : γ} : R a c → Mirrors D A R (.returned a) (.returned c)
  | threw {what what' : String} {e : ε} {e' : ε'} :
      D what' e' → Mirrors D A R (.threw what e) (.threw what' e')
  | aborted {what' : String} {e' : ε'} : A what' e' → Mirrors D A R .aborted (.threw what' e')
  | overran : Mirrors D A R .overran .overran
  | unfinished : Mirrors D A R .unfinished .unfinished

namespace Mirrors

variable {D A : String → ε' → Prop} {R : α → γ → Prop} {o : Outcome ε α} {o' : Outcome ε' γ}

/-- Runs of two sequences mirror each other when their halves do. -/
theorem bind {δ : Type v} {ζ : Type x} {S : δ → ζ → Prop} {f : α → Outcome ε δ}
    {f' : γ → Outcome ε' ζ} (h : Mirrors D A R o o')
    (hf : ∀ a c, R a c → Mirrors D A S (f a) (f' c)) : Mirrors D A S (o >>= f) (o' >>= f') := by
  cases h with
  | returned hr => exact hf _ _ hr
  | threw hd => exact .threw hd
  | aborted ha => exact .aborted ha
  | overran => exact .overran
  | unfinished => exact .unfinished

/-- What an exception leaves behind may be put into other terms. -/
theorem mapThrow {ε₁ : Type u} {ε₁' : Type w} {D₁ A₁ : String → ε₁' → Prop} {f : ε → ε₁}
    {f' : ε' → ε₁'} (h : Mirrors D A R o o') (hD : ∀ what e, D what e → D₁ what (f' e))
    (hA : ∀ what e, A what e → A₁ what (f' e)) :
    Mirrors D₁ A₁ R (o.mapThrow f) (o'.mapThrow f') := by
  cases h with
  | returned hr => exact .returned hr
  | threw hd => exact .threw (hD _ _ hd)
  | aborted ha => exact .aborted (hA _ _ ha)
  | overran => exact .overran
  | unfinished => exact .unfinished

/-- A value the first run returns is matched by the second. -/
theorem returned_left {a : α} (h : Mirrors D A R o o') (ho : o = .returned a) :
    ∃ c, o' = .returned c ∧ R a c := by
  subst ho
  cases h with
  | returned hr => exact ⟨_, rfl, hr⟩

/-- A value the second run returns is matched by the first. -/
theorem returned_right {c : γ} (h : Mirrors D A R o o') (ho : o' = .returned c) :
    ∃ a, o = .returned a ∧ R a c := by
  subst ho
  cases h with
  | returned hr => exact ⟨_, rfl, hr⟩

/-- The second run throws exactly when the first throws or fails an assertion. -/
theorem threw_iff (h : Mirrors D A R o o') : o'.Threw ↔ o.Threw ∨ o = .aborted := by
  cases h <;> simp

/-- What the second run throws where the first throws is described by `D`. -/
theorem threw_left (h : Mirrors D A R o o') (ho : o.Threw) :
    ∃ what e, o' = .threw what e ∧ D what e := by
  obtain ⟨what, e, rfl⟩ := ho
  cases h with
  | threw hd => exact ⟨_, _, rfl, hd⟩

/-- What the second run throws where the first fails an assertion is described by `A`. -/
theorem aborted_left (h : Mirrors D A R o o') (ho : o = .aborted) :
    ∃ what e, o' = .threw what e ∧ A what e := by
  subst ho
  cases h with
  | aborted ha => exact ⟨_, _, rfl, ha⟩

/-- The second run never fails an assertion. -/
theorem right_ne_aborted (h : Mirrors D A R o o') : o' ≠ .aborted := by
  cases h <;> simp

/-- The runs hang together. -/
theorem unfinished_iff (h : Mirrors D A R o o') : o' = .unfinished ↔ o = .unfinished := by
  cases h <;> simp

end Mirrors

end Outcome

section Reading

variable {σ τ : Type} [ByteStream σ] [ByteStream τ]

/-- The second stream delivers what the first one does, and throws where the first one throws
or fails an assertion, for every size an `int` can hold. -/
def MirrorsReads (D A : String → τ → Prop) (R : σ → τ → Prop) : Prop :=
  ∀ s t (n : Int), -2 ^ 31 ≤ n → n < 2 ^ 31 → R s t →
    Outcome.Mirrors D A (SameValue R) (ByteStream.read s n) (ByteStream.read t n)

end Reading

section Rules

variable {σ τ : Type} {R : σ → τ → Prop} {ε ε' α γ δ : Type}

/-- After two readers that return the same value, it is enough to go on with this value. -/
theorem Outcome.Mirrors.bindValue {D A : String → ε' → Prop} {S : γ → δ → Prop}
    {o : Outcome ε (α × σ)} {o' : Outcome ε' (α × τ)} {f : α × σ → Outcome ε γ}
    {f' : α × τ → Outcome ε' δ} (h : Outcome.Mirrors D A (SameValue R) o o')
    (hf : ∀ a s t, R s t → Outcome.Mirrors D A S (f (a, s)) (f' (a, t))) :
    Outcome.Mirrors D A S (o >>= f) (o' >>= f') := by
  apply h.bind
  rintro ⟨a, s⟩ ⟨_, t⟩ ⟨rfl, h⟩
  exact hf a s t h

end Rules

end BananaApi
