import BananaApi.Core.Outcome
import BananaApi.Core.SortedItems

/-!
# What a call uses up

A call takes a part of what a state holds and returns a value. `Spends` says which values it may
return for how much: whatever was taken is right for the value by a predicate, as the sequence of
two calls is right by the sum. Over a list the amounts add up, and inserting into an ordered
container does not need more than what is inserted.
-/

namespace BananaApi

universe u v

/-- The call keeps `I` where it returns, and has taken an amount that is right for the value. -/
def Spends {σ ε β : Type u} (I : σ → Prop) (size : σ → Nat) (o : σ → Outcome ε (β × σ))
    (P : β → Nat → Prop) : Prop :=
  ∀ s b s', I s → o s = .returned (b, s') → I s' ∧ ∃ k, k + size s' = size s ∧ P b k

namespace Spends

variable {σ ε ε' β γ : Type u} {I : σ → Prop} {size : σ → Nat} {o : σ → Outcome ε (β × σ)}
  {P Q : β → Nat → Prop}

/-- Returning a value spends nothing. -/
theorem pure {b : β} (h : P b 0) :
    Spends I size (fun s => (.returned (b, s) : Outcome ε (β × σ))) P := by
  intro s b' s' hs hret
  cases hret
  exact ⟨hs, 0, Nat.zero_add _, h⟩

/-- A call that does not return takes nothing. -/
theorem of_not_returned (h : ∀ s, I s → ∀ p, o s ≠ .returned p) : Spends I size o P :=
  fun s b s' hs hret => absurd hret (h s hs (b, s'))

theorem mapThrow (h : Spends I size o P) (g : σ → ε → ε') :
    Spends I size (fun s => (o s).mapThrow (g s)) P :=
  fun s b s' hs hret => h s b s' hs (Outcome.mapThrow_eq_returned.mp hret)

/-- What is right may be weakened, for no more than a state can hold. -/
theorem weaken_lt {limit : Nat} (hI : ∀ s, I s → size s < limit) (h : Spends I size o P)
    (hPQ : ∀ b k, k < limit → P b k → Q b k) : Spends I size o Q := by
  intro s b s' hs hret
  obtain ⟨hs', k, hk, hP⟩ := h s b s' hs hret
  have hlimit := hI s hs
  exact ⟨hs', k, hk, hPQ b k (by omega) hP⟩

theorem weaken (h : Spends I size o P) (hPQ : ∀ b k, P b k → Q b k) : Spends I size o Q := by
  intro s b s' hs hret
  obtain ⟨hs', k, hk, hP⟩ := h s b s' hs hret
  exact ⟨hs', k, hk, hPQ b k hP⟩

/-- A sequence spends what its two parts spend together. -/
theorem bind {f : β → σ → Outcome ε (γ × σ)} {R : γ → Nat → Prop} (h : Spends I size o P)
    (hf : ∀ b i, P b i → Spends I size (f b) fun c j => R c (i + j)) :
    Spends I size (fun s => o s >>= fun p => f p.1 p.2) R := by
  intro s c s'' hs hret
  obtain ⟨⟨b, s'⟩, ho, hrest⟩ := Outcome.bind_eq_returned.mp hret
  obtain ⟨hs', i, hi, hP⟩ := h s b s' hs ho
  obtain ⟨hs'', j, hj, hR⟩ := hf b i hP s' c s'' hs' hrest
  exact ⟨hs'', i + j, by omega, hR⟩

/-- A value computed from another costs nothing more. -/
theorem map {g : β → γ} {R : γ → Nat → Prop} (h : Spends I size o P)
    (hg : ∀ b k, P b k → R (g b) k) :
    Spends I size (fun s => o s >>= fun p => .returned (g p.1, p.2)) R :=
  h.bind (f := fun b s => .returned (g b, s)) fun b k hP => pure (hg b k hP)

end Spends

/-! ## Lists and ordered containers -/

variable {α : Type v} {P Q : α → Nat → Prop}

/-- An amount that is right for every element of a list, added up. -/
inductive Sums (P : α → Nat → Prop) : List α → Nat → Prop
  | nil : Sums P [] 0
  | cons {x : α} {xs : List α} {i j : Nat} : P x i → Sums P xs j → Sums P (x :: xs) (i + j)

/-- The costs of two sequences add up. -/
theorem Sums.append {xs ys : List α} {i j : Nat} (h : Sums P xs i) (h' : Sums P ys j) :
    Sums P (xs ++ ys) (i + j) := by
  induction h with
  | nil => simpa using h'
  | cons hx _ ih =>
    rw [Nat.add_assoc]
    exact .cons hx ih

section Insert

variable {β : Type} {R : β → Nat → Prop} {c : Comparison β}

/-- An item that is dropped needs nothing. -/
theorem Sums.insertUnique {x : β} {ys : List β} {i j : Nat} (hx : R x i) (h : Sums R ys j) :
    ∃ k ≤ i + j, Sums R (BananaApi.insertUnique c x ys) k := by
  induction h with
  | nil => exact ⟨i + 0, Nat.le_refl _, .cons hx .nil⟩
  | @cons y ys i' j hy hys ih =>
    unfold BananaApi.insertUnique
    split
    · exact ⟨i + (i' + j), Nat.le_refl _, .cons hx (.cons hy hys)⟩
    · split
      · obtain ⟨k, hk, hall⟩ := ih
        exact ⟨i' + k, by omega, .cons hy hall⟩
      · exact ⟨i' + j, by omega, .cons hy hys⟩

/-- A container that items are inserted into needs no more than the items. -/
theorem Sums.foldl_insert {m : SortedItems c} {xs : List β} {i j : Nat} (hm : Sums R m.items i)
    (h : Sums R xs j) : ∃ k ≤ i + j, Sums R (xs.foldl SortedItems.insert m).items k := by
  induction h generalizing m i with
  | nil => exact ⟨i, Nat.le_refl _, hm⟩
  | @cons x xs i' j hx _ ih =>
    obtain ⟨k, hk, hinsert⟩ := Sums.insertUnique (c := c) hx hm
    obtain ⟨k', hk', hall⟩ := ih (m := m.insert x) hinsert
    exact ⟨k', by omega, hall⟩

/-- Inserting adds one item at most. -/
theorem length_insertUnique_le (x : β) (ys : List β) :
    (insertUnique c x ys).length ≤ ys.length + 1 := by
  induction ys with
  | nil => exact Nat.le_refl _
  | cons y ys ih =>
    unfold insertUnique
    split
    · exact Nat.le_refl _
    · split
      · exact Nat.succ_le_succ ih
      · exact Nat.le_succ _

/-- Inserting many items adds as many at most. -/
theorem SortedItems.length_foldl_insert_le (m : SortedItems c) (xs : List β) :
    (xs.foldl insert m).items.length ≤ m.items.length + xs.length := by
  induction xs generalizing m with
  | nil => exact Nat.le_refl _
  | cons x xs ih =>
    have hinsert : (m.insert x).items.length ≤ m.items.length + 1 :=
      length_insertUnique_le x m.items
    have hrest := ih (m.insert x)
    rw [List.foldl_cons, List.length_cons]
    omega

end Insert

end BananaApi
