import BananaApi.Core.Transition

/-!
# One component among others

A component of a system that comes into being during a run and then takes the steps meant
for it, while those meant for others leave it alone. It is at the end where its own steps
lead when it takes them alone.
-/

namespace BananaApi.Transition

universe u v w x

variable {σ : Type u} {ε : Type v} {γ : Type w} {η : Type x}

/-- A component of a system is fresh when it appears, and a step of the system is a step of the
component if it is meant for it. -/
structure Projects (step : ε → σ → Option σ) (own : η → γ → Option γ) (meant : ε → Option η)
    (get : σ → Option γ) (Fresh : ε → γ → Prop) : Prop where
  appears : ∀ e s s', step e s = some s' → get s = none →
    meant e = none ∧ ∀ c, get s' = some c → Fresh e c
  steps : ∀ e s s' c, step e s = some s' → get s = some c →
    ∃ c', exec own (meant e).toList c = some c' ∧ get s' = some c'

variable {step : ε → σ → Option σ} {own : η → γ → Option γ} {meant : ε → Option η}
  {get : σ → Option γ} {Fresh : ε → γ → Prop}

/-- A run of the system is a run of a component that is there. -/
theorem Projects.exec_of_some (h : Projects step own meant get Fresh) {es : List ε} {s s' : σ}
    {c : γ} (hrun : exec step es s = some s') (hc : get s = some c) :
    ∃ c', exec own (es.filterMap meant) c = some c' ∧ get s' = some c' := by
  induction es generalizing s c with
  | nil =>
    cases hrun
    exact ⟨c, rfl, hc⟩
  | cons e es ih =>
    obtain ⟨t, hfirst, hrest⟩ := (exec_cons_eq_some step).mp hrun
    obtain ⟨d, hd, ht⟩ := h.steps e s t c hfirst hc
    obtain ⟨c', hc', hs'⟩ := ih hrest ht
    refine ⟨c', ?_, hs'⟩
    rw [List.filterMap_cons]
    cases hmeant : meant e with
    | none =>
      rw [hmeant] at hd
      cases hd
      exact hc'
    | some x =>
      rw [hmeant] at hd
      exact (exec_append_of_exec own hd _).trans hc'

/-- A component that has come into being appeared with one of the steps, fresh, and took its own
steps from there. -/
theorem Projects.exec (h : Projects step own meant get Fresh) {es : List ε} {s s' : σ} {c' : γ}
    (hrun : exec step es s = some s') (hnone : get s = none) (hc' : get s' = some c') :
    ∃ before e after t t' c, es = before ++ e :: after ∧ Transition.exec step before s = some t ∧
      step e t = some t' ∧ get t = none ∧ get t' = some c ∧ Fresh e c ∧
      Transition.exec own (es.filterMap meant) c = some c' := by
  induction es generalizing s with
  | nil =>
    cases hrun
    cases hnone.symm.trans hc'
  | cons e es ih =>
    obtain ⟨t, hfirst, hrest⟩ := (exec_cons_eq_some step).mp hrun
    obtain ⟨hmeant, hfresh⟩ := h.appears e s t hfirst hnone
    rw [List.filterMap_cons_none hmeant]
    cases ht : get t with
    | none =>
      obtain ⟨before, e', after, u, u', c, rfl, hbefore, happears⟩ := ih hrest ht
      exact ⟨e :: before, e', after, u, u', c, rfl,
        (exec_cons_of_step step hfirst before).trans hbefore, happears⟩
    | some c =>
      obtain ⟨c'', hc'', hs''⟩ := h.exec_of_some hrest ht
      obtain rfl : c'' = c' := Option.some.inj (hs''.symm.trans hc')
      exact ⟨[], e, es, s, t, c, rfl, rfl, hfirst, hnone, ht, hfresh c ht, hc''⟩

end BananaApi.Transition
