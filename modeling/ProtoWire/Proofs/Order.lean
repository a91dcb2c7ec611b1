import Mathlib.Data.List.Nodup
import ProtoWire.Order

/-!
# Sorted and keyed lists

`sortBy` puts a list in ascending order (`pairwise_sortBy`) and leaves an ascending one as it
is (`sortBy_of_pairwise`). If the keys are distinct then the order in which the elements came
plays no part (`sortBy_key_congr`), and an element is found under its key
(`find?_key_eq_some_iff`).
-/

set_option autoImplicit false

namespace ProtoWire

variable {α : Type} {le : α → α → Bool}

theorem mem_insertBy {x y : α} {xs : List α} : y ∈ insertBy le x xs ↔ y = x ∨ y ∈ xs := by
  rw [(perm_insertBy le x xs).mem_iff, List.mem_cons]

@[simp]
theorem mem_sortBy {x : α} {xs : List α} : x ∈ sortBy le xs ↔ x ∈ xs :=
  (perm_sortBy le xs).mem_iff

theorem pairwise_insertBy (trans : ∀ a b c, le a b = true → le b c = true → le a c = true)
    (total : ∀ a b, le a b = true ∨ le b a = true) (x : α) {xs : List α}
    (h : xs.Pairwise (le · · = true)) : (insertBy le x xs).Pairwise (le · · = true) := by
  induction xs with
  | nil => simp [insertBy]
  | cons y ys ih =>
      obtain ⟨least, sorted⟩ := List.pairwise_cons.1 h
      rw [insertBy]
      split
      · next first =>
          refine List.pairwise_cons.2 ⟨?_, h⟩
          intro z mem
          rcases List.mem_cons.1 mem with rfl | mem
          · exact first
          · exact trans x y z first (least z mem)
      · next later =>
          refine List.pairwise_cons.2 ⟨?_, ih sorted⟩
          intro z mem
          rcases mem_insertBy.1 mem with rfl | mem
          · exact (total y z).resolve_right later
          · exact least z mem

theorem pairwise_sortBy (trans : ∀ a b c, le a b = true → le b c = true → le a c = true)
    (total : ∀ a b, le a b = true ∨ le b a = true) (xs : List α) :
    (sortBy le xs).Pairwise (le · · = true) := by
  induction xs with
  | nil => exact List.Pairwise.nil
  | cons x xs ih => exact pairwise_insertBy trans total x ih

/-- Sorting by a number makes the numbers ascend. -/
theorem pairwise_sortBy_key (key : α → Nat) (xs : List α) :
    (sortBy (fun a b => decide (key a ≤ key b)) xs).Pairwise (fun a b => key a ≤ key b) := by
  have sorted : (sortBy (fun a b => decide (key a ≤ key b)) xs).Pairwise
      (fun a b => decide (key a ≤ key b) = true) := by
    refine pairwise_sortBy ?_ ?_ xs
    · intro a b c
      simp only [decide_eq_true_eq]
      exact Nat.le_trans
    · intro a b
      simp only [decide_eq_true_eq]
      exact Nat.le_total _ _
  exact sorted.imp fun h => of_decide_eq_true h

theorem sortBy_of_pairwise {xs : List α} (h : xs.Pairwise (le · · = true)) :
    sortBy le xs = xs := by
  induction xs with
  | nil => rfl
  | cons x xs ih =>
      obtain ⟨least, sorted⟩ := List.pairwise_cons.1 h
      rw [sortBy, ih sorted]
      cases xs with
      | nil => rfl
      | cons y ys => rw [insertBy, if_pos (least y List.mem_cons_self)]

/-- Lists of the same elements, whose keys are distinct, are sorted to one list. -/
theorem sortBy_key_congr {key : α → Nat} {xs ys : List α} (distinct : (xs.map key).Nodup)
    (distinct' : (ys.map key).Nodup) (same : ∀ x, x ∈ xs ↔ x ∈ ys) :
    sortBy (fun a b => decide (key a ≤ key b)) xs =
      sortBy (fun a b => decide (key a ≤ key b)) ys := by
  have perm : xs.Perm ys :=
    (List.perm_ext_iff_of_nodup (distinct.of_map key) (distinct'.of_map key)).2 same
  refine List.Perm.eq_of_pairwise ?_ (pairwise_sortBy_key key xs) (pairwise_sortBy_key key ys)
    ((perm_sortBy _ xs).trans (perm.trans (perm_sortBy _ ys).symm))
  intro a b mem mem' le ge
  rw [mem_sortBy] at mem mem'
  exact List.inj_on_of_nodup_map distinct mem ((same b).2 mem') (Nat.le_antisymm le ge)

/-- A list in which the elements of one sort come first is split by sorts. -/
theorem eq_filter_append_filter {p : α → Bool} {xs : List α}
    (h : xs.Pairwise fun a b => p b = true → p a = true) :
    xs = xs.filter p ++ xs.filter (!p ·) := by
  induction xs with
  | nil => rfl
  | cons x xs ih =>
      obtain ⟨first, rest⟩ := List.pairwise_cons.1 h
      cases sort : p x with
      | true =>
          rw [List.filter_cons_of_pos sort, List.filter_cons_of_neg (by simp [sort]),
            List.cons_append, ← ih rest]
      -- behind an element of the other sort there are only such
      | false =>
          have none : xs.filter p = [] := by
            rw [List.filter_eq_nil_iff]
            intro y mem sort'
            rw [first y mem sort'] at sort
            cases sort
          have all : xs.filter (!p ·) = xs := by
            rw [List.filter_eq_self]
            intro y mem
            simpa using List.filter_eq_nil_iff.1 none y mem
          rw [List.filter_cons_of_neg (by simp [sort]), none, List.nil_append,
            List.filter_cons_of_pos (by simp [sort]), all]

theorem insertBy_map {β : Type} (f : β → α) (x : β) (xs : List β) :
    insertBy le (f x) (xs.map f) = (insertBy (fun a b => le (f a) (f b)) x xs).map f := by
  induction xs with
  | nil => rfl
  | cons y ys ih =>
      rw [List.map_cons, insertBy, insertBy, ih]
      split <;> rfl

theorem sortBy_map {β : Type} (f : β → α) (xs : List β) :
    sortBy le (xs.map f) = (sortBy (fun a b => le (f a) (f b)) xs).map f := by
  induction xs with
  | nil => rfl
  | cons x xs ih => rw [List.map_cons, sortBy, ih, insertBy_map, sortBy]

/-! ## Keyed lists -/

section

variable {κ : Type} {key : α → κ} {items : List α}

/-- Under a key stands the only item that has it. -/
theorem find?_key_eq_some_iff [BEq κ] [LawfulBEq κ] (distinct : (items.map key).Nodup) {k : κ}
    {item : α} :
    items.find? (fun other => key other == k) = some item ↔ item ∈ items ∧ key item = k := by
  constructor
  · intro found
    exact ⟨List.mem_of_find?_eq_some found, by simpa using List.find?_some found⟩
  · rintro ⟨mem, rfl⟩
    cases found : items.find? fun other => key other == key item with
    | none => simpa using List.find?_eq_none.1 found item mem
    -- what is found instead has the same key and so is the same item
    | some other =>
        have same : key other = key item := by simpa using List.find?_some found
        rw [List.inj_on_of_nodup_map distinct (List.mem_of_find?_eq_some found) mem same]

/-- Items with different keys stand at one position if their keys are the same. -/
theorem position_eq_of_key_eq (distinct : (items.map key).Nodup) {position other : Nat}
    {item item' : α} (here : items[position]? = some item) (there : items[other]? = some item')
    (same : key item = key item') : position = other := by
  have inside : position < (items.map key).length := by
    rw [List.length_map]
    exact (List.getElem?_eq_some_iff.1 here).1
  apply (List.getElem?_inj inside distinct).1
  rw [List.getElem?_map, List.getElem?_map, here, there, Option.map_some, Option.map_some, same]

end

end ProtoWire
