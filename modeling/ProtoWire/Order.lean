/-!
# Sorting by insertion

`sortBy` orders a list by a relation; elements that the relation does not tell
apart keep their order. The main statement is `perm_sortBy`.
-/

set_option autoImplicit false

namespace ProtoWire

/-- Puts an element in front of the first one that it may precede. -/
def insertBy {α : Type} (le : α → α → Bool) (x : α) : List α → List α
  | [] => [x]
  | y :: ys => if le x y then x :: y :: ys else y :: insertBy le x ys

/-- The elements of a list in the order of a relation. -/
def sortBy {α : Type} (le : α → α → Bool) : List α → List α
  | [] => []
  | x :: xs => insertBy le x (sortBy le xs)

theorem perm_insertBy {α : Type} (le : α → α → Bool) (x : α) (xs : List α) :
    (insertBy le x xs).Perm (x :: xs) := by
  induction xs with
  | nil => exact List.Perm.refl _
  | cons y ys ih =>
      by_cases h : le x y
      · simp [insertBy, h]
      · simp only [insertBy, h]
        exact (ih.cons y).trans (List.Perm.swap x y ys)

theorem perm_sortBy {α : Type} (le : α → α → Bool) (xs : List α) :
    (sortBy le xs).Perm xs := by
  induction xs with
  | nil => exact List.Perm.refl _
  | cons x xs ih => exact (perm_insertBy le x _).trans (ih.cons x)

end ProtoWire
