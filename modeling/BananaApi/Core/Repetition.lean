import Mathlib.Data.List.Basic
import Mathlib.Data.List.TakeDrop

/-!
# Repetitions

Two lists whose concatenation does not depend on their order are repetitions of
one list. A list may be continued with copies of one element.
-/

namespace BananaApi

universe u

variable {α : Type u}

/-- A number of copies of a list in a row. -/
def repetition (w : List α) (n : Nat) : List α := (List.replicate n w).flatten

/-- One round is the word itself. -/
@[simp] theorem repetition_one (w : List α) : repetition w 1 = w := by
  simp [repetition]

/-- Rounds behind rounds. -/
theorem repetition_add (w : List α) (m n : Nat) :
    repetition w (m + n) = repetition w m ++ repetition w n := by
  rw [repetition, List.replicate_add, List.flatten_append]
  rfl

/-- Lists that commute are repetitions of one list. -/
theorem exists_repetition_of_append_comm {x y : List α} (h : x ++ y = y ++ x) :
    ∃ w i j, x = repetition w i ∧ y = repetition w j := by
  obtain ⟨n, hn⟩ : ∃ n, x.length + y.length ≤ n := ⟨_, Nat.le_refl _⟩
  -- The shorter list is a prefix of the longer one and commutes with what is left of it.
  induction n generalizing x y with
  | zero =>
    have hx : x = [] := List.length_eq_zero_iff.mp (by omega)
    have hy : y = [] := List.length_eq_zero_iff.mp (by omega)
    exact ⟨[], 0, 0, hx, hy⟩
  | succ n ih =>
    wlog hle : x.length ≤ y.length generalizing x y
    · obtain ⟨w, i, j, hy, hx⟩ := this h.symm (by omega) (by omega)
      exact ⟨w, j, i, hx, hy⟩
    by_cases hx : x = []
    · exact ⟨y, 0, 1, hx, (repetition_one y).symm⟩
    · have hpos : 0 < x.length := List.length_pos_iff.mpr hx
      have hfront : x <+: y :=
        List.prefix_of_prefix_length_le (List.prefix_append x y) (h ▸ List.prefix_append y x) hle
      obtain ⟨z, rfl⟩ := hfront
      rw [List.append_assoc, List.append_cancel_left_eq] at h
      rw [List.length_append] at hn
      obtain ⟨w, i, j, hi, hj⟩ := ih h (by omega)
      exact ⟨w, i, i + j, hi, by rw [repetition_add, ← hi, ← hj]⟩

/-- Two lists commute exactly when they are repetitions of one list. -/
theorem append_comm_iff {x y : List α} :
    x ++ y = y ++ x ↔ ∃ w i j, x = repetition w i ∧ y = repetition w j := by
  constructor
  · exact exists_repetition_of_append_comm
  · rintro ⟨w, i, j, rfl, rfl⟩
    rw [← repetition_add, ← repetition_add, Nat.add_comm]

/-! ## Lists filled up with copies of one element -/

/-- Padding part by part. -/
theorem takeD_add (m n : Nat) (l : List α) (a : α) :
    l.takeD (m + n) a = l.takeD m a ++ (l.drop m).takeD n a := by
  induction m generalizing l with
  | zero => rw [Nat.zero_add, List.takeD_zero, List.nil_append, List.drop_zero]
  | succ m ih =>
    rw [Nat.succ_add, List.takeD_succ, List.takeD_succ, ih, List.cons_append, List.drop_tail]

/-- A list and copies of one element behind it. -/
theorem append_replicate_eq_takeD (l : List α) (k : Nat) (a : α) :
    l ++ List.replicate k a = l.takeD (l.length + k) a := by
  rw [takeD_add, List.takeD_eq_take a (Nat.le_refl _), List.take_length, List.drop_length,
    List.takeD_nil]

/-- A shorter padded word is the beginning of a longer one. -/
theorem takeD_prefix_takeD {m n : Nat} (h : m ≤ n) (l : List α) (a : α) :
    l.takeD m a <+: l.takeD n a := by
  obtain ⟨k, rfl⟩ := Nat.exists_eq_add_of_le h
  exact ⟨_, (takeD_add m k l a).symm⟩

end BananaApi
