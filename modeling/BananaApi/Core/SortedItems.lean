import Mathlib.Data.List.Basic

/-!
# Ordered containers without equivalent items

An ordered container keeps its items strictly increasing under a strict weak
order. Inserting drops an item that is equivalent to one already held. Items that
arrive in the order of the container are all kept, which is what makes writing a
container out and reading it back lossless.
-/

namespace BananaApi

/-- A strict weak order, as a comparison object has to provide one. -/
structure Comparison (α : Type) where
  less : α → α → Bool
  asymm : ∀ a b, less a b = true → less b a = false
  cotrans : ∀ a b c, less a c = true → less a b = true ∨ less b c = true

namespace Comparison

variable {α β : Type}

/-- A comparison is transitive. -/
theorem trans (c : Comparison α) {x y z : α} (hxy : c.less x y = true)
    (hyz : c.less y z = true) : c.less x z = true := by
  rcases c.cotrans x z y hxy with h | h
  · exact h
  · rw [c.asymm y z hyz] at h
    cases h

/-- Pairs ordered by their first component, as the items of a map are. -/
def onKey (c : Comparison α) (β : Type) : Comparison (α × β) where
  less a b := c.less a.1 b.1
  asymm a b := c.asymm a.1 b.1
  cotrans a b d := c.cotrans a.1 b.1 d.1

end Comparison

/-- Insert into an increasing list, unless an equivalent item is there already. -/
def insertUnique {α : Type} (c : Comparison α) (x : α) : List α → List α
  | [] => [x]
  | y :: ys =>
    if c.less x y then x :: y :: ys
    else if c.less y x then y :: insertUnique c x ys
    else y :: ys

section Insert

variable {α : Type} {c : Comparison α}

/-- An inserted item is the only new one. -/
theorem mem_insertUnique {x z : α} {ys : List α} (h : z ∈ insertUnique c x ys) :
    z = x ∨ z ∈ ys := by
  induction ys with
  | nil => exact Or.inl (List.mem_singleton.mp h)
  | cons y ys ih =>
    unfold insertUnique at h
    split at h
    · simpa using h
    · split at h
      · rcases List.mem_cons.mp h with rfl | hz
        · exact Or.inr (List.mem_cons_self ..)
        · exact (ih hz).imp_right (List.mem_cons_of_mem y)
      · exact Or.inr h

/-- Insertion keeps the list strictly increasing. -/
theorem pairwise_insertUnique {x : α} {ys : List α}
    (h : ys.Pairwise fun a b => c.less a b = true) :
    (insertUnique c x ys).Pairwise fun a b => c.less a b = true := by
  induction ys with
  | nil => simp [insertUnique]
  | cons y ys ih =>
    obtain ⟨hy, hys⟩ := List.pairwise_cons.mp h
    unfold insertUnique
    split
    · rename_i hxy
      refine List.pairwise_cons.mpr ⟨?_, h⟩
      intro z hz
      rcases List.mem_cons.mp hz with rfl | hz
      · exact hxy
      · exact c.trans hxy (hy z hz)
    · split
      · rename_i hyx
        refine List.pairwise_cons.mpr ⟨?_, ih hys⟩
        intro z hz
        rcases mem_insertUnique hz with rfl | hz
        · exact hyx
        · exact hy z hz
      · exact h

/-- An item above all others goes to the end. -/
theorem insertUnique_of_above {x : α} {ys : List α} (h : ∀ y ∈ ys, c.less y x = true) :
    insertUnique c x ys = ys ++ [x] := by
  induction ys with
  | nil => rfl
  | cons y ys ih =>
    have hy := h y (List.mem_cons_self ..)
    have hx := c.asymm y x hy
    simp only [insertUnique, hx, hy, Bool.false_eq_true, if_false, if_true, List.cons_append]
    rw [ih fun z hz => h z (List.mem_cons_of_mem y hz)]

end Insert

/-- The items of an ordered container, in order and without equivalent ones. -/
structure SortedItems {α : Type} (c : Comparison α) where
  items : List α
  sorted : items.Pairwise fun a b => c.less a b = true

namespace SortedItems

variable {α : Type} {c : Comparison α}

/-- A sorted sequence is its items. -/
@[ext] theorem ext {s t : SortedItems c} (h : s.items = t.items) : s = t := by
  cases s
  cases t
  congr

/-- The container without items. -/
def empty : SortedItems c := ⟨[], List.Pairwise.nil⟩

/-- Insert one item, dropping it if the container holds an equivalent one. -/
def insert (s : SortedItems c) (x : α) : SortedItems c :=
  ⟨insertUnique c x s.items, pairwise_insertUnique s.sorted⟩

@[simp] theorem items_empty : (empty : SortedItems c).items = [] := rfl

/-- An item above all others is inserted at the end. -/
theorem insert_of_above {s : SortedItems c} {x : α} (h : ∀ y ∈ s.items, c.less y x = true) :
    (s.insert x).items = s.items ++ [x] := insertUnique_of_above h

/-- Items in ascending order are inserted as they come. -/
theorem items_foldl_insert {s : SortedItems c} {xs : List α}
    (h : (s.items ++ xs).Pairwise fun a b => c.less a b = true) :
    (xs.foldl insert s).items = s.items ++ xs := by
  induction xs generalizing s with
  | nil => simp
  | cons x xs ih =>
    have habove : ∀ y ∈ s.items, c.less y x = true := fun y hy =>
      (List.pairwise_append.mp h).2.2 y hy x (List.mem_cons_self ..)
    have hs : (s.insert x).items = s.items ++ [x] := insert_of_above habove
    have happ : s.items ++ x :: xs = (s.insert x).items ++ xs := by simp [hs]
    rw [List.foldl_cons, ih (happ ▸ h), happ]

/-- Inserting the items of a container one by one rebuilds it. -/
theorem foldl_insert_items (s : SortedItems c) : s.items.foldl insert empty = s :=
  ext (items_foldl_insert (s := empty) (by simpa using s.sorted))

end SortedItems

end BananaApi
