import Mathlib.Tactic.Common

/-!
# Runs of a labelled transition system

A system is a partial step for every event. A run takes its events in order and is
defined when each of them is enabled. What every step keeps, every run keeps; a run
may be restricted to steps of which a condition holds in the state before.
-/

namespace BananaApi.Transition

universe u v

variable {σ : Type u} {ε : Type v} (step : ε → σ → Option σ)

/-- Take the events one after another. -/
def exec : List ε → σ → Option σ
  | [], s => some s
  | e :: es, s => (step e s).bind (exec es)

/-- Every step that is taken meets a condition on its event and the state before. -/
def Throughout (P : σ → ε → Prop) : List ε → σ → Prop
  | [], _ => True
  | e :: es, s => ∀ s', step e s = some s' → P s e ∧ Throughout P es s'

/-- A run begins with its first step. -/
theorem exec_cons_eq_some {e : ε} {es : List ε} {s s'' : σ} :
    exec step (e :: es) s = some s'' ↔ ∃ s', step e s = some s' ∧ exec step es s' = some s'' :=
  Option.bind_eq_some_iff

/-- A step that is enabled is followed by the others. -/
theorem exec_cons_of_step {e : ε} {s s' : σ} (h : step e s = some s') (es : List ε) :
    exec step (e :: es) s = exec step es s' := by
  rw [exec, h, Option.bind_some]

/-- A run goes on where another one has ended. -/
theorem exec_append (es es' : List ε) (s : σ) :
    exec step (es ++ es') s = (exec step es s).bind (exec step es') := by
  induction es generalizing s with
  | nil => rfl
  | cons e es ih =>
    rw [List.cons_append, exec, exec, Option.bind_assoc]
    exact Option.bind_congr fun s' _ => ih s'

/-- A run is continued by a run from where it ends. -/
theorem exec_append_of_exec {es : List ε} {s s' : σ} (h : exec step es s = some s')
    (es' : List ε) : exec step (es ++ es') s = exec step es' s' := by
  rw [exec_append, h, Option.bind_some]

variable {step} {P : σ → ε → Prop}

/-- What the steps that meet a condition keep holds at the end of every run of such steps. -/
theorem exec_invariant {I : σ → Prop}
    (hstep : ∀ e s s', P s e → step e s = some s' → I s → I s') {es : List ε} {s s' : σ}
    (hP : Throughout step P es s) (h : exec step es s = some s') (hI : I s) : I s' := by
  induction es generalizing s with
  | nil =>
    cases h
    exact hI
  | cons e es ih =>
    obtain ⟨t, hfirst, hrest⟩ := (exec_cons_eq_some step).mp h
    obtain ⟨he, hes⟩ := hP t hfirst
    exact ih hes hrest (hstep e s t he hfirst hI)

/-- What holds of the first step and throughout the rest holds throughout the run. -/
theorem throughout_cons {e : ε} {es : List ε} {s t : σ} (h : step e s = some t) (he : P s e)
    (hes : Throughout step P es t) : Throughout step P (e :: es) s := by
  intro s' hs'
  obtain rfl : t = s' := Option.some.inj (h.symm.trans hs')
  exact ⟨he, hes⟩

/-- Two properties hold throughout a run together. -/
theorem throughout_and {Q : σ → ε → Prop} {es : List ε} {s : σ} (hP : Throughout step P es s)
    (hQ : Throughout step Q es s) : Throughout step (fun s e => P s e ∧ Q s e) es s := by
  induction es generalizing s with
  | nil => trivial
  | cons e es ih =>
    intro s' hs'
    exact ⟨⟨(hP s' hs').1, (hQ s' hs').1⟩, ih (hP s' hs').2 (hQ s' hs').2⟩

/-- A condition holds throughout when an invariant gives it at every step, where the events
may be restricted. -/
theorem throughout_of_invariant {I : σ → Prop} {Q : ε → Prop}
    (hstep : ∀ e s s', Q e → step e s = some s' → I s → P s e ∧ I s') {es : List ε}
    (hQ : ∀ e ∈ es, Q e) {s : σ} (hI : I s) : Throughout step P es s := by
  induction es generalizing s with
  | nil => trivial
  | cons e es ih =>
    obtain ⟨he, hes⟩ := List.forall_mem_cons.mp hQ
    intro s' hs'
    obtain ⟨hP, hI'⟩ := hstep e s s' he hs' hI
    exact ⟨hP, ih hes hI'⟩

/-- A condition on the events alone holds throughout when it holds of each of them. -/
theorem throughout_of_forall_mem {Q : ε → Prop} {es : List ε} (h : ∀ e ∈ es, Q e) (s : σ) :
    Throughout step (fun _ e => Q e) es s :=
  throughout_of_invariant (I := fun _ => True) (fun _ _ _ hQ _ _ => ⟨hQ, trivial⟩) h trivial

/-- What every step keeps holds at the end of every run. -/
theorem exec_keeps {I : σ → Prop} (hstep : ∀ e s s', step e s = some s' → I s → I s')
    {es : List ε} {s s' : σ} (h : exec step es s = some s') (hI : I s) : I s' :=
  exec_invariant (fun e s s' (_ : True) => hstep e s s')
    (throughout_of_forall_mem (fun _ _ => trivial) s) h hI

/-- What every step keeps of the history and the state holds at the end of every run, where the
events of the run are part of the history. -/
theorem exec_history {I : List ε → σ → Prop}
    (hstep : ∀ past e s s', step e s = some s' → I past s → I (past ++ [e]) s')
    {past es : List ε} {s s' : σ} (h : exec step es s = some s') (hI : I past s) :
    I (past ++ es) s' := by
  induction es generalizing past s with
  | nil =>
    cases h
    rwa [List.append_nil]
  | cons e es ih =>
    obtain ⟨t, hfirst, hrest⟩ := (exec_cons_eq_some step).mp h
    have hI' := ih hrest (hstep past e s t hfirst hI)
    rwa [List.append_assoc, List.singleton_append] at hI'

end BananaApi.Transition
