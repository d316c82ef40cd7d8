import Mathlib.Tactic.Common

/-!
# Machines that reply

A machine takes commands and replies to each of them, or stops. It refines a machine that never
stops if every command that is admitted gets the reply of the other one and leaves states behind
that stand for each other; then so does every run of commands that are admitted where they are
taken.
-/

namespace BananaApi

universe u v w x

variable {σ : Type u} {τ : Type v} {ε : Type w} {ρ : Type x}

/-- Take commands one after another, with their replies. -/
def respond (step : ε → σ → Option (ρ × σ)) : List ε → σ → Option (List ρ × σ)
  | [], s => some ([], s)
  | e :: es, s => (step e s).bind fun r => (respond step es r.2).map fun rs => (r.1 :: rs.1, rs.2)

/-- Take commands one after another, on a machine that never stops. -/
def respondAll (step : ε → τ → ρ × τ) : List ε → τ → List ρ × τ
  | [], t => ([], t)
  | e :: es, t =>
    let r := step e t
    let rs := respondAll step es r.2
    (r.1 :: rs.1, rs.2)

/-- Every command is admitted in the state in which it is taken. -/
def Admitted (step : ε → σ → Option (ρ × σ)) (P : σ → ε → Prop) : List ε → σ → Prop
  | [], _ => True
  | e :: es, s => P s e ∧ ∀ r s', step e s = some (r, s') → Admitted step P es s'

/-- A command that is taken is followed by the others. -/
theorem admitted_cons {step : ε → σ → Option (ρ × σ)} {P : σ → ε → Prop} {e : ε} {es : List ε}
    {s s' : σ} {r : ρ} (he : P s e) (hstep : step e s = some (r, s'))
    (hes : Admitted step P es s') : Admitted step P (e :: es) s := by
  refine ⟨he, fun r₁ s₁ hs₁ => ?_⟩
  obtain ⟨-, rfl⟩ := Prod.mk.inj (Option.some.inj (hstep.symm.trans hs₁))
  exact hes

/-- One machine gives the replies of another to the commands that are admitted. -/
def Replies (step : ε → σ → Option (ρ × σ)) (spec : ε → τ → ρ × τ) (P : σ → ε → Prop)
    (R : σ → τ → Prop) : Prop :=
  ∀ e s t, P s e → R s t → ∃ s', step e s = some ((spec e t).1, s') ∧ R s' (spec e t).2

variable {step : ε → σ → Option (ρ × σ)} {spec : ε → τ → ρ × τ} {P : σ → ε → Prop}
  {R : σ → τ → Prop}

/-- What holds of every command holds of every run. -/
theorem Replies.respond (h : Replies step spec P R) {es : List ε} {s : σ} {t : τ}
    (hes : Admitted step P es s) (hst : R s t) :
    ∃ s', BananaApi.respond step es s = some ((respondAll spec es t).1, s') ∧
      R s' (respondAll spec es t).2 := by
  induction es generalizing s t with
  | nil => exact ⟨s, rfl, hst⟩
  | cons e es ih =>
    obtain ⟨he, hrest⟩ := hes
    obtain ⟨s₁, hstep, hst₁⟩ := h e s t he hst
    obtain ⟨s', hrun, hst'⟩ := ih (hrest _ _ hstep) hst₁
    refine ⟨s', ?_, hst'⟩
    rw [BananaApi.respond, hstep, Option.bind_some, hrun]
    rfl

end BananaApi
