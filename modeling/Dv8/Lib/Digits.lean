import Mathlib.Data.Nat.Digits.Lemmas

namespace Dv8.Lib

/-!
# Numerals

A number as its digits, the highest first, and what a reader makes of them from left to right.

* `value` — what has been read, behind `a`;
* `numeral` — the digits of a number, at least one;
* `value_numeral` — reading them gives the number back.
-/

variable {b n d : ℕ}

/-- The number that digits to the base `b` make behind `a`. -/
def value (b a : ℕ) (ds : List ℕ) : ℕ := ds.foldl (fun a d => a * b + d) a

@[simp] theorem value_nil (b a : ℕ) : value b a [] = a := rfl

@[simp] theorem value_cons (b a d : ℕ) (ds : List ℕ) :
    value b a (d :: ds) = value b (a * b + d) ds := rfl

/-- Reading on makes a number larger. -/
theorem le_value (hb : 0 < b) (a : ℕ) (ds : List ℕ) : a ≤ value b a ds := by
  induction ds generalizing a with
  | nil => exact Nat.le_refl a
  | cons d ds ih =>
    calc a ≤ a * b := Nat.le_mul_of_pos_right a hb
      _ ≤ a * b + d := Nat.le_add_right ..
      _ ≤ value b a (d :: ds) := ih _

/-- The digits of `n` to the base `b`, the highest first. -/
def numeral (b n : ℕ) : List ℕ := if n = 0 then [0] else (Nat.digits b n).reverse

theorem numeral_ne_nil (b n : ℕ) : numeral b n ≠ [] := by
  unfold numeral
  split
  · simp
  · simpa [Nat.digits_eq_nil_iff_eq_zero]

theorem lt_of_mem_numeral (hb : 1 < b) (hd : d ∈ numeral b n) : d < b := by
  unfold numeral at hd
  split at hd
  · obtain rfl := List.mem_singleton.mp hd
    exact Nat.zero_lt_of_lt hb
  · exact Nat.digits_lt_base hb (List.mem_reverse.mp hd)

theorem value_numeral (b n : ℕ) : value b 0 (numeral b n) = n := by
  unfold numeral
  split
  · simp [*]
  · rw [value, List.foldl_reverse]
    conv_rhs => rw [← Nat.ofDigits_digits b n, Nat.ofDigits_eq_foldr]
    congr
    funext d a
    simp only [Nat.cast_id]
    ring

theorem numeral_length_le {k : ℕ} (hb : 1 < b) (hk : 0 < k) (hn : n < b ^ k) :
    (numeral b n).length ≤ k := by
  unfold numeral
  split
  · exact hk
  · rw [List.length_reverse]
    exact (Nat.digits_length_le_iff hb n).mpr hn

end Dv8.Lib
