import Mathlib.Algebra.GroupWithZero.Nat
import Mathlib.Data.List.Basic

namespace Dv8.Lib

/-!
# The items of a stream that are complete

Items of given sizes follow each other in a stream.  `complete size xs n` are those that
end within the first `n` units.

* `complete_append` — items behind others;
* `complete_prefix` — more units complete more items;
* `map_complete` — only the sizes of the items matter;
* `exists_complete_append` — the complete items, and the items behind them.
-/

variable {α : Type*} (size : α → Nat)

/-- The size of a sequence of items. -/
def total (xs : List α) : Nat := (xs.map size).sum

@[simp] theorem total_nil : total size [] = 0 := rfl

@[simp] theorem total_cons (x : α) (xs : List α) : total size (x :: xs) = size x + total size xs :=
  rfl

@[simp] theorem total_append (xs ys : List α) :
    total size (xs ++ ys) = total size xs + total size ys := by
  simp [total]

/-- The items that end within the first `n` units. -/
def complete : List α → Nat → List α
  | [], _ => []
  | x :: xs, n => if size x ≤ n then x :: complete xs (n - size x) else []

theorem complete_cons_of_le {x : α} {n : Nat} (xs : List α) (h : size x ≤ n) :
    complete size (x :: xs) n = x :: complete size xs (n - size x) := if_pos h

theorem complete_cons_of_lt {x : α} {n : Nat} (xs : List α) (h : n < size x) :
    complete size (x :: xs) n = [] := if_neg (by omega)

/-- Items behind others are complete in what is left of the units. -/
theorem complete_append (xs ys : List α) {n : Nat} (h : total size xs ≤ n) :
    complete size (xs ++ ys) n = xs ++ complete size ys (n - total size xs) := by
  induction xs generalizing n with
  | nil => rfl
  | cons x xs ih =>
    rw [total_cons] at h
    rw [List.cons_append, complete_cons_of_le size _ (by omega), ih (by omega), total_cons,
      Nat.sub_add_eq, List.cons_append]

/-- The complete items come first, and fit. -/
theorem exists_complete_append (xs : List α) (n : Nat) :
    ∃ ys, xs = complete size xs n ++ ys ∧ total size (complete size xs n) ≤ n ∧
      complete size ys (n - total size (complete size xs n)) = [] := by
  induction xs generalizing n with
  | nil => exact ⟨[], rfl, Nat.zero_le n, rfl⟩
  | cons x xs ih =>
    by_cases h : size x ≤ n
    · obtain ⟨ys, heq, hfit, hnext⟩ := ih (n - size x)
      refine ⟨ys, ?_, ?_, ?_⟩
      · rw [complete_cons_of_le size _ h, List.cons_append, ← heq]
      · rw [complete_cons_of_le size _ h, total_cons]
        omega
      · rw [complete_cons_of_le size _ h, total_cons, Nat.sub_add_eq]
        exact hnext
    · have hlt : n < size x := by omega
      refine ⟨x :: xs, ?_, ?_, ?_⟩
      · rw [complete_cons_of_lt size _ hlt, List.nil_append]
      · rw [complete_cons_of_lt size _ hlt]
        exact Nat.zero_le n
      · rw [complete_cons_of_lt size xs hlt, total_nil, Nat.sub_zero,
          complete_cons_of_lt size xs hlt]

/-- Later at least the same items are complete. -/
theorem complete_prefix (xs : List α) {m n : Nat} (h : m ≤ n) :
    complete size xs m <+: complete size xs n := by
  induction xs generalizing m n with
  | nil => exact List.prefix_refl []
  | cons x xs ih =>
    by_cases hm : size x ≤ m
    · rw [complete_cons_of_le size _ hm, complete_cons_of_le size _ (Nat.le_trans hm h)]
      exact (List.prefix_cons_inj x).mpr (ih (Nat.sub_le_sub_right h _))
    · rw [complete_cons_of_lt size _ (by omega)]
      exact List.nil_prefix

/-- Which items are complete is a matter of their sizes. -/
theorem map_complete {β γ : Type*} {size : α → Nat} {weight : β → Nat} {f : α → γ} {g : β → γ}
    {xs : List α} {ys : List β}
    (h : xs.map (fun x => (size x, f x)) = ys.map fun y => (weight y, g y)) (n : Nat) :
    (complete size xs n).map f = (complete weight ys n).map g := by
  induction xs generalizing ys n with
  | nil =>
    obtain rfl : ys = [] := by simpa using h.symm
    rfl
  | cons x xs ih =>
    cases ys with
    | nil => simp at h
    | cons y ys =>
      simp only [List.map_cons, List.cons.injEq, Prod.mk.injEq] at h
      obtain ⟨⟨hsize, hval⟩, hrest⟩ := h
      by_cases hle : size x ≤ n
      · rw [complete_cons_of_le size _ hle, complete_cons_of_le weight _ (hsize ▸ hle), ← hsize]
        simp [hval, ih hrest]
      · rw [complete_cons_of_lt size _ (by omega), complete_cons_of_lt weight _ (by omega)]
        rfl

/-- Without units nothing is complete, when every item has a size. -/
theorem complete_zero (hpos : ∀ x, 0 < size x) (xs : List α) : complete size xs 0 = [] := by
  cases xs with
  | nil => rfl
  | cons x xs => exact complete_cons_of_lt size xs (hpos x)

/-- Items that are not complete take more than the units. -/
theorem lt_total_of_complete_nil {xs : List α} {n : Nat} (hne : xs ≠ [])
    (h : complete size xs n = []) : n < total size xs := by
  cases xs with
  | nil => contradiction
  | cons x xs =>
    by_contra hle
    rw [total_cons] at hle
    rw [complete_cons_of_le size xs (by omega)] at h
    contradiction

end Dv8.Lib
