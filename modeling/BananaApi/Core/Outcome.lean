import Mathlib.Logic.Relation

/-!
# Outcomes of imperative calls

A call returns, throws, trips an assertion, runs outside of a buffer, or is
still looping when its budget is spent. A thrown outcome carries the text of the
exception and the state left behind, so that partial effects stay visible. The
relation `Outcome.Rel` compares two runs of the same program over two stores.
-/

namespace BananaApi

universe u v w x

/-- How a call ends; `ε` is what is left behind by an exception. -/
inductive Outcome (ε : Type u) (α : Type v) where
  | returned (a : α)
  | threw (what : String) (e : ε)
  /-- A failed assertion. -/
  | aborted
  /-- An access outside of a buffer. -/
  | overran
  /-- The budget for the loops ran out. -/
  | unfinished
  deriving DecidableEq, Repr

namespace Outcome

variable {ε : Type u} {ε' : Type w} {α β : Type v} {γ : Type x}

/-- Continue with a returned value; every other outcome is passed on. -/
def bind (o : Outcome ε α) (f : α → Outcome ε γ) : Outcome ε γ :=
  match o with
  | returned a => f a
  | threw what e => threw what e
  | aborted => aborted
  | overran => overran
  | unfinished => unfinished

instance : Monad (Outcome ε) where
  pure := returned
  bind := bind

/-- Re-express what an exception leaves behind in the terms of the caller. -/
def mapThrow (f : ε → ε') (o : Outcome ε α) : Outcome ε' α :=
  match o with
  | returned a => returned a
  | threw what e => threw what (f e)
  | aborted => aborted
  | overran => overran
  | unfinished => unfinished

@[simp] theorem pure_eq (a : α) : (pure a : Outcome ε α) = returned a := rfl

@[simp] theorem returned_bind (a : α) (f : α → Outcome ε β) :
    (returned a >>= f) = f a := rfl

@[simp] theorem threw_bind (what : String) (e : ε) (f : α → Outcome ε β) :
    (threw what e >>= f) = threw what e := rfl

@[simp] theorem aborted_bind (f : α → Outcome ε β) : (aborted >>= f) = aborted := rfl

@[simp] theorem overran_bind (f : α → Outcome ε β) : (overran >>= f) = overran := rfl

@[simp] theorem unfinished_bind (f : α → Outcome ε β) : (unfinished >>= f) = unfinished := rfl

@[simp] theorem mapThrow_returned (f : ε → ε') (a : α) :
    (returned a : Outcome ε α).mapThrow f = returned a := rfl

@[simp] theorem mapThrow_threw (f : ε → ε') (what : String) (e : ε) :
    (threw what e : Outcome ε α).mapThrow f = threw what (f e) := rfl

@[simp] theorem mapThrow_aborted (f : ε → ε') :
    (aborted : Outcome ε α).mapThrow f = aborted := rfl

@[simp] theorem mapThrow_overran (f : ε → ε') :
    (overran : Outcome ε α).mapThrow f = overran := rfl

@[simp] theorem mapThrow_unfinished (f : ε → ε') :
    (unfinished : Outcome ε α).mapThrow f = unfinished := rfl

/-- Renaming what is thrown changes nothing that is returned. -/
@[simp] theorem mapThrow_eq_returned {f : ε → ε'} {o : Outcome ε α} {a : α} :
    o.mapThrow f = returned a ↔ o = returned a := by
  cases o <;> simp

/-- A sequence returns exactly when both of its halves do. -/
theorem bind_eq_returned {o : Outcome ε α} {f : α → Outcome ε β} {b : β} :
    (o >>= f) = returned b ↔ ∃ a, o = returned a ∧ f a = returned b := by
  cases o <;> simp

/-- A sequence whose second half returns throws exactly when its first half does. -/
theorem bind_returned_eq_threw {o : Outcome ε α} {f : α → β} {what : String} {e : ε} :
    (o >>= fun a => returned (f a)) = threw what e ↔ o = threw what e := by
  cases o <;> simp

/-- Sequences associate. -/
theorem bind_assoc {δ : Type v} (o : Outcome ε α) (f : α → Outcome ε β) (g : β → Outcome ε δ) :
    (o >>= f >>= g) = (o >>= fun a => f a >>= g) := by
  cases o <;> rfl

/-- Returning the value at the end changes nothing. -/
@[simp] theorem bind_returned (o : Outcome ε α) : (o >>= fun a => returned a) = o := by
  cases o <;> rfl

/-- The call threw an exception. -/
def Threw (o : Outcome ε α) : Prop := ∃ what e, o = threw what e

/-- The call came back to its caller, with a value or with an exception. -/
def CameBack (o : Outcome ε α) : Prop := (∃ a, o = returned a) ∨ o.Threw

/-- The call ended in a failed assertion or never ended. -/
def Stuck (o : Outcome ε α) : Prop := o = aborted ∨ o = unfinished

@[simp] theorem threw_threw (what : String) (e : ε) :
    (threw what e : Outcome ε α).Threw := ⟨what, e, rfl⟩

@[simp] theorem not_threw_returned (a : α) : ¬ (returned a : Outcome ε α).Threw := nofun

@[simp] theorem not_threw_aborted : ¬ (aborted : Outcome ε α).Threw := nofun

@[simp] theorem not_threw_overran : ¬ (overran : Outcome ε α).Threw := nofun

@[simp] theorem not_threw_unfinished : ¬ (unfinished : Outcome ε α).Threw := nofun

@[simp] theorem cameBack_returned (a : α) : (returned a : Outcome ε α).CameBack :=
  Or.inl ⟨a, rfl⟩

@[simp] theorem cameBack_threw (what : String) (e : ε) :
    (threw what e : Outcome ε α).CameBack := Or.inr ⟨what, e, rfl⟩

@[simp] theorem not_cameBack_aborted : ¬ (aborted : Outcome ε α).CameBack := by
  simp [CameBack]

@[simp] theorem not_cameBack_overran : ¬ (overran : Outcome ε α).CameBack := by
  simp [CameBack]

@[simp] theorem not_cameBack_unfinished : ¬ (unfinished : Outcome ε α).CameBack := by
  simp [CameBack]

@[simp] theorem stuck_aborted : (aborted : Outcome ε α).Stuck := Or.inl rfl

@[simp] theorem stuck_unfinished : (unfinished : Outcome ε α).Stuck := Or.inr rfl

@[simp] theorem not_stuck_returned (a : α) : ¬ (returned a : Outcome ε α).Stuck := by
  simp [Stuck]

@[simp] theorem not_stuck_threw (what : String) (e : ε) :
    ¬ (threw what e : Outcome ε α).Stuck := by simp [Stuck]

@[simp] theorem not_stuck_overran : ¬ (overran : Outcome ε α).Stuck := by simp [Stuck]

/-- Renaming what is thrown changes nothing about an assertion or a loop. -/
@[simp] theorem mapThrow_stuck {f : ε → ε'} {o : Outcome ε α} :
    (o.mapThrow f).Stuck ↔ o.Stuck := by
  cases o <;> simp

@[simp] theorem mapThrow_threw_iff {f : ε → ε'} {o : Outcome ε α} :
    (o.mapThrow f).Threw ↔ o.Threw := by
  cases o <;> simp

/-- A sequence is stuck when its first half is, or its second half after it. -/
theorem bind_stuck {o : Outcome ε α} {f : α → Outcome ε β} :
    (o >>= f).Stuck ↔ o.Stuck ∨ ∃ a, o = returned a ∧ (f a).Stuck := by
  cases o <;> simp

/-- A sequence throws when its first half does, or its second half after it. -/
theorem bind_threw {o : Outcome ε α} {f : α → Outcome ε β} :
    (o >>= f).Threw ↔ o.Threw ∨ ∃ a, o = returned a ∧ (f a).Threw := by
  cases o <;> simp

/-- A call comes back unless it is stuck or runs outside of a buffer. -/
theorem cameBack_iff {o : Outcome ε α} : o.CameBack ↔ ¬ o.Stuck ∧ o ≠ overran := by
  cases o <;> simp

@[simp] theorem mapThrow_cameBack {f : ε → ε'} {o : Outcome ε α} :
    (o.mapThrow f).CameBack ↔ o.CameBack := by
  cases o <;> simp

/-- A sequence comes back when both of its halves do. -/
theorem bind_cameBack {o : Outcome ε α} {f : α → Outcome ε β} (h : o.CameBack)
    (hf : ∀ a, o = returned a → (f a).CameBack) : (o >>= f).CameBack := by
  cases o with
  | returned a => exact hf a rfl
  | threw what e => exact cameBack_threw what e
  | aborted => exact absurd h not_cameBack_aborted
  | overran => exact absurd h not_cameBack_overran
  | unfinished => exact absurd h not_cameBack_unfinished

/-- A sequence throws when its first half does. -/
theorem threw_bind_of_threw {o : Outcome ε α} {f : α → Outcome ε β} (h : o.Threw) :
    (o >>= f).Threw := by
  obtain ⟨what, e, rfl⟩ := h
  exact threw_threw what e

/-- A sequence stays within its buffers when both of its halves do. -/
theorem bind_ne_overran {o : Outcome ε α} {f : α → Outcome ε β} (h : o ≠ overran)
    (hf : ∀ a, o = returned a → f a ≠ overran) : (o >>= f) ≠ overran := by
  cases o with
  | returned a => exact hf a rfl
  | overran => exact absurd rfl h
  | threw what e => simp
  | aborted => simp
  | unfinished => simp

@[simp] theorem mapThrow_eq_overran {f : ε → ε'} {o : Outcome ε α} :
    o.mapThrow f = overran ↔ o = overran := by
  cases o <;> simp

/-- Whichever way the call comes back, what it leaves has a property. -/
def Ends (E : ε → Prop) (R : α → Prop) (o : Outcome ε α) : Prop :=
  (∀ a, o = returned a → R a) ∧ ∀ what e, o = threw what e → E e

section Ends

variable {E : ε → Prop} {R : α → Prop} {o : Outcome ε α}

/-- A value ends as the rule for values asks. -/
theorem ends_returned {a : α} (h : R a) : (returned a : Outcome ε α).Ends E R :=
  ⟨fun _ ha => returned.inj ha ▸ h, nofun⟩

theorem ends_threw {what : String} {e : ε} (h : E e) : (threw what e : Outcome ε α).Ends E R :=
  ⟨nofun, fun _ _ he => (threw.inj he).2 ▸ h⟩

/-- Undefined behaviour is under neither rule. -/
theorem ends_overran : (overran : Outcome ε α).Ends E R := ⟨nofun, nofun⟩

theorem ends_aborted : (aborted : Outcome ε α).Ends E R := ⟨nofun, nofun⟩

theorem ends_unfinished : (unfinished : Outcome ε α).Ends E R := ⟨nofun, nofun⟩

/-- A sequence ends by the rule of its first part or of its second one. -/
theorem Ends.bind {f : α → Outcome ε γ} {S : γ → Prop} (h : o.Ends E R)
    (hf : ∀ a, R a → (f a).Ends E S) : (o.bind f).Ends E S := by
  cases o with
  | returned a => exact hf a (h.1 a rfl)
  | threw what e => exact ends_threw (h.2 what e rfl)
  | aborted | overran | unfinished => exact ⟨nofun, nofun⟩

/-- The rule for exceptions is about the renamed state. -/
theorem Ends.mapThrow {E' : ε' → Prop} {f : ε → ε'} (h : o.Ends E R) (hE : ∀ e, E e → E' (f e)) :
    (o.mapThrow f).Ends E' R := by
  cases o with
  | returned a => exact ends_returned (h.1 a rfl)
  | threw what e => exact ends_threw (hE e (h.2 what e rfl))
  | aborted | overran | unfinished => exact ⟨nofun, nofun⟩

end Ends

/-- Two runs of one program over related stores. If `lax` holds, the left store may
run outside of its buffer where the right one throws. -/
inductive Rel (lax : Prop) (E : ε → ε' → Prop) (R : α → γ → Prop) :
    Outcome ε α → Outcome ε' γ → Prop
  | returned {a : α} {c : γ} : R a c → Rel lax E R (.returned a) (.returned c)
  | threw {what : String} {e : ε} {e' : ε'} :
      E e e' → Rel lax E R (.threw what e) (.threw what e')
  | aborted : Rel lax E R .aborted .aborted
  | unfinished : Rel lax E R .unfinished .unfinished
  | overran : Rel lax E R .overran .overran
  | overranThrew {what : String} {e' : ε'} : lax → Rel lax E R .overran (.threw what e')

section Composition

variable {lax : Prop}

/-- Related runs of two sequences, from related runs of their halves. -/
theorem Rel.bind {δ : Type v} {ζ : Type x} {E : ε → ε' → Prop} {R : α → γ → Prop}
    {S : δ → ζ → Prop} {o : Outcome ε α} {o' : Outcome ε' γ} {f : α → Outcome ε δ}
    {f' : γ → Outcome ε' ζ} (h : Rel lax E R o o')
    (hf : ∀ a c, R a c → Rel lax E S (f a) (f' c)) : Rel lax E S (o >>= f) (o' >>= f') := by
  cases h with
  | returned hr => exact hf _ _ hr
  | threw he => exact .threw he
  | aborted => exact .aborted
  | unfinished => exact .unfinished
  | overran => exact .overran
  | overranThrew hl => exact .overranThrew hl

/-- Renaming what an exception leaves behind keeps two runs related. -/
theorem Rel.mapThrow {ε₁ : Type u} {ε₁' : Type w} {E : ε → ε' → Prop} {E₁ : ε₁ → ε₁' → Prop}
    {R : α → γ → Prop} {o : Outcome ε α} {o' : Outcome ε' γ} {f : ε → ε₁} {f' : ε' → ε₁'}
    (h : Rel lax E R o o') (hf : ∀ e e', E e e' → E₁ (f e) (f' e')) :
    Rel lax E₁ R (o.mapThrow f) (o'.mapThrow f') := by
  cases h with
  | returned hr => exact .returned hr
  | threw he => exact .threw (hf _ _ he)
  | aborted => exact .aborted
  | unfinished => exact .unfinished
  | overran => exact .overran
  | overranThrew hl => exact .overranThrew hl

end Composition

section Observations

variable {lax : Prop} {E : ε → ε' → Prop} {R : α → γ → Prop} {o : Outcome ε α} {o' : Outcome ε' γ}

/-- A value returned on the left is matched on the right. -/
theorem Rel.returned_left {a : α} (h : Rel lax E R o o') (ho : o = .returned a) :
    ∃ c, o' = .returned c ∧ R a c := by
  subst ho
  cases h with
  | returned hr => exact ⟨_, rfl, hr⟩

/-- A value returned on the right is matched on the left. -/
theorem Rel.returned_right {c : γ} (h : Rel lax E R o o') (ho : o' = .returned c) :
    ∃ a, o = .returned a ∧ R a c := by
  subst ho
  cases h with
  | returned hr => exact ⟨_, rfl, hr⟩

/-- An exception on the left is matched on the right. -/
theorem Rel.threw_left {what : String} {e : ε} (h : Rel lax E R o o') (ho : o = .threw what e) :
    ∃ e', o' = .threw what e' ∧ E e e' := by
  subst ho
  cases h with
  | threw he => exact ⟨_, rfl, he⟩

/-- Under a strict relation an exception on the right is matched on the left. -/
theorem Rel.threw_right {what : String} {e' : ε'} (h : Rel False E R o o')
    (ho : o' = .threw what e') : ∃ e, o = .threw what e ∧ E e e' := by
  subst ho
  cases h with
  | threw he => exact ⟨_, rfl, he⟩
  | overranThrew hl => exact hl.elim

/-- Under a strict relation both runs throw or neither does. -/
theorem Rel.threw_iff (h : Rel False E R o o') : o.Threw ↔ o'.Threw := by
  cases h <;> simp_all

/-- Under a strict relation both runs come back or neither does. -/
theorem Rel.cameBack_iff (h : Rel False E R o o') : o.CameBack ↔ o'.CameBack := by
  cases h <;> simp_all

/-- What the relations say of the left run alone. -/
theorem Rel.ends {E' : ε → Prop} {R' : α → Prop} (h : Rel lax E R o o')
    (hE : ∀ e e', E e e' → E' e) (hR : ∀ a c, R a c → R' a) : o.Ends E' R' := by
  cases h with
  | returned hr => exact ends_returned (hR _ _ hr)
  | threw he => exact ends_threw (hE _ _ he)
  | aborted | overran | unfinished | overranThrew => exact ⟨nofun, nofun⟩

/-- Both runs fail an assertion or neither does. -/
theorem Rel.aborted_iff (h : Rel lax E R o o') : o = .aborted ↔ o' = .aborted := by
  cases h <;> simp

/-- Both runs are still looping or neither is. -/
theorem Rel.unfinished_iff (h : Rel lax E R o o') : o = .unfinished ↔ o' = .unfinished := by
  cases h <;> simp

end Observations

end Outcome

end BananaApi
