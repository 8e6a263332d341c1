import Mathlib.Data.List.Chain
import Mathlib.Data.List.Induction

namespace Dv8.Lib

/-!
# Pieces that run together

A list of events of which some are pieces of one datum: what such a list says does not depend on
how the datum is cut.

* `Join` — which two neighbours are pieces of one datum, and what they are together;
* `gather` — a list with its neighbours joined, the last event first;
* `gather_pieces` — a piece is the same as its parts, wherever it stands;
* `foldl_gather` — a reader for whom a piece is the same as its parts sees the joined list;
* `gather_of_apart`, `gather_alone` — what joins nothing is left as it is.
-/

variable {α : Type*}

/-- Which two neighbours are one, and what they are together. -/
structure Join (α : Type*) where
  join : α → α → Option α
  /-- A third piece joins both or neither. -/
  assoc : ∀ {w x y z}, join x y = some z →
    (join w x = none ∧ join w z = none) ∨
      ∃ u v, join w x = some u ∧ join u y = some v ∧ join w z = some v

/-- An event behind others, of which the last is the first of the list. -/
def Join.into (j : Join α) : List α → α → List α
  | [], x => [x]
  | w :: ws, x =>
    match j.join w x with
    | some u => u :: ws
    | none => x :: w :: ws

/-- A list with its neighbours joined, the last event first. -/
def Join.gather (j : Join α) (xs : List α) : List α := xs.foldl j.into []

@[simp] theorem gather_nil (j : Join α) : j.gather [] = [] := rfl

theorem gather_append (j : Join α) (xs ys : List α) :
    j.gather (xs ++ ys) = ys.foldl j.into (j.gather xs) := by
  rw [Join.gather, List.foldl_append, Join.gather]

theorem gather_snoc (j : Join α) (xs : List α) (x : α) :
    j.gather (xs ++ [x]) = j.into (j.gather xs) x := gather_append j xs [x]

/-- What comes behind says the same behind lists that say the same. -/
theorem gather_congr {j : Join α} {xs ys : List α} (h : j.gather xs = j.gather ys)
    (zs : List α) : j.gather (xs ++ zs) = j.gather (ys ++ zs) := by
  rw [gather_append, h, gather_append]

/-- Two pieces, one behind the other. -/
theorem into_pieces {j : Join α} {x y z : α} (h : j.join x y = some z) (ws : List α) :
    j.into (j.into ws x) y = j.into ws z := by
  cases ws with
  | nil =>
    show j.into [x] y = [z]
    rw [Join.into, h]
  | cons w ws =>
    rcases j.assoc (w := w) h with ⟨hx, hz⟩ | ⟨u, v, hx, hy, hz⟩
    · rw [Join.into, Join.into, hx, hz]
      show j.into (x :: w :: ws) y = _
      rw [Join.into, h]
    · rw [Join.into, Join.into, hx, hz]
      show j.into (u :: ws) y = _
      rw [Join.into, hy]

/-- Two pieces in front of others. -/
theorem gather_joined {j : Join α} {x y z : α} (h : j.join x y = some z) (zs : List α) :
    j.gather (x :: y :: zs) = j.gather (z :: zs) :=
  gather_congr (show j.gather [x, y] = j.gather [z] from into_pieces h []) zs

/-- A piece is the same as its parts. -/
theorem gather_pieces {j : Join α} {x y z : α} (h : j.join x y = some z) (xs : List α) :
    j.gather (xs ++ [z]) = j.into (j.gather (xs ++ [x])) y := by
  rw [gather_snoc, gather_snoc, into_pieces h]

/-- Behind other events only the joined list matters. -/
theorem foldl_into (j : Join α) (xs ws : List α) :
    xs.foldl j.into ws = (j.gather xs).reverse.foldl j.into ws := by
  induction xs using List.reverseRecOn with
  | nil => rfl
  | append_singleton xs x ih =>
    rw [List.foldl_append, ih, gather_snoc]
    show j.into ((j.gather xs).reverse.foldl j.into ws) x = _
    cases j.gather xs with
    | nil => rfl
    | cons y ys =>
      rw [Join.into, List.reverse_cons, List.foldl_append]
      cases h : j.join y x with
      | none =>
        dsimp only
        rw [List.reverse_cons, List.reverse_cons, List.foldl_append, List.foldl_append]
        rfl
      | some z =>
        dsimp only
        rw [List.reverse_cons, List.foldl_append]
        exact into_pieces h _

/-- Lists that say the same say the same behind others. -/
theorem gather_congr_right {j : Join α} {xs ys : List α} (h : j.gather xs = j.gather ys)
    (ws : List α) : j.gather (ws ++ xs) = j.gather (ws ++ ys) := by
  rw [gather_append, gather_append, foldl_into, h, ← foldl_into]

/-! ### Readers -/

/-- A reader for whom two pieces are the same as what they are together. -/
theorem foldl_gather {β : Type*} {j : Join α} {f : β → α → β}
    (hf : ∀ b {x y z}, j.join x y = some z → f (f b x) y = f b z) (b : β) (xs : List α) :
    xs.foldl f b = (j.gather xs).reverse.foldl f b := by
  induction xs using List.reverseRecOn with
  | nil => rfl
  | append_singleton xs x ih =>
    rw [List.foldl_append, ih, gather_snoc]
    cases j.gather xs with
    | nil => rfl
    | cons w ws =>
      rw [Join.into]
      cases h : j.join w x with
      | none => simp
      | some z => simp [hf _ h]

/-- What joins nothing is counted as before. -/
theorem countP_gather {j : Join α} {P : α → Bool}
    (hP : ∀ {x y z}, j.join x y = some z → P x = false ∧ P y = false ∧ P z = false)
    (xs : List α) : (j.gather xs).countP P = xs.countP P := by
  induction xs using List.reverseRecOn with
  | nil => rfl
  | append_singleton xs x ih =>
    rw [gather_snoc, List.countP_append, ← ih]
    cases j.gather xs with
    | nil => simp [Join.into]
    | cons w ws =>
      rw [Join.into]
      cases h : j.join w x with
      | none => simp [List.countP_cons, Nat.add_comm]
      | some z =>
        obtain ⟨hw, hx, hz⟩ := hP h
        simp [hw, hx, hz]

/-! ### What joins nothing -/

/-- Where no two neighbours are one, nothing is joined. -/
theorem gather_of_apart {j : Join α} {xs : List α}
    (h : xs.IsChain fun x y => j.join x y = none) : j.gather xs = xs.reverse := by
  induction xs using List.reverseRecOn with
  | nil => rfl
  | append_singleton xs x ih =>
    obtain ⟨hxs, -, hlast⟩ := List.isChain_append.mp h
    rw [gather_snoc, ih hxs, List.reverse_append]
    cases hrev : xs.reverse with
    | nil => rfl
    | cons w ws =>
      have hw : w ∈ xs.getLast? := by
        rw [List.getLast?_eq_head?_reverse, hrev]
        rfl
      rw [Join.into, hlast w hw x rfl]
      rfl

/-- An event that joins nothing stands between what is in front of it and what is behind. -/
theorem gather_alone {j : Join α} {e : α} (hl : ∀ w, j.join w e = none)
    (hr : ∀ y, j.join e y = none) (xs ys : List α) :
    j.gather (xs ++ e :: ys) = j.gather ys ++ e :: j.gather xs := by
  have hinto : j.into (j.gather xs) e = e :: j.gather xs := by
    cases j.gather xs with
    | nil => rfl
    | cons w ws => rw [Join.into, hl w]
  rw [gather_append, List.foldl_cons, hinto]
  induction ys using List.reverseRecOn with
  | nil => rfl
  | append_singleton ys y ih =>
    rw [List.foldl_append, ih, gather_snoc]
    show j.into (j.gather ys ++ e :: j.gather xs) y = _
    cases j.gather ys with
    | nil =>
      show j.into (e :: j.gather xs) y = y :: e :: j.gather xs
      rw [Join.into, hr y]
    | cons w ws =>
      rw [List.cons_append, Join.into, Join.into]
      cases j.join w y <;> rfl

end Dv8.Lib
