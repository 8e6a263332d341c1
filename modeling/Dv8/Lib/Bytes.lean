import Mathlib.Data.List.Basic
import Mathlib.Tactic.Ring

namespace Dv8.Lib

/-!
# Flat memory — ranges of a list and writes into it

A block of memory is a list of cells.  A read takes the range `[off, off + len)` and
a write replaces such a range; both are partial, `none` when the range leaves the
block.  The lemmas say what a reader relies on:

* `slice_append_left` / `slice_append_right` — a range inside one half of a block;
* `slice_writeAt_same` — a range reads back what was written to it;
* `slice_writeAt_before` / `slice_writeAt_after` — a write leaves the ranges beside it alone;
* `slice_writeAt_within` — a range inside the written one reads a range of the
  written text;
* `slice_overlay_iff` — which texts can be written over the start of a block without a change to
  a range.
-/

variable {α : Type*}

/-- The cells `[off, off + len)` of a block, without a bound check. -/
def slice (b : List α) (off len : Nat) : List α :=
  (b.drop off).take len

/-- Read `len` cells at `off`; `none` when the range is not inside the block. -/
def readAt (b : List α) (off len : Nat) : Option (List α) :=
  if off + len ≤ b.length then some (slice b off len) else none

/-- Replace the cells from `off` on by `xs`; `none` when they do not fit. -/
def writeAt (b : List α) (off : Nat) (xs : List α) : Option (List α) :=
  if off + xs.length ≤ b.length then some (b.take off ++ xs ++ b.drop (off + xs.length))
  else none

@[simp] theorem slice_zero (b : List α) (off : Nat) : slice b off 0 = [] := by
  simp [slice]

theorem length_slice {b : List α} {off len : Nat} (h : off + len ≤ b.length) :
    (slice b off len).length = len := by
  rw [slice, List.length_take, List.length_drop]
  omega

theorem slice_all (b : List α) : slice b 0 b.length = b := by
  simp [slice]

/-- A range is two adjacent ranges. -/
theorem slice_add (b : List α) (off m n : Nat) :
    slice b off (m + n) = slice b off m ++ slice b (off + m) n := by
  rw [slice, slice, slice, List.take_add, List.drop_drop]

theorem slice_append_left {b c : List α} {off len : Nat} (h : off + len ≤ b.length) :
    slice (b ++ c) off len = slice b off len := by
  rw [slice, slice, List.drop_append_of_le_length (by omega),
    List.take_append_of_le_length (by rw [List.length_drop]; omega)]

theorem slice_append_right (b c : List α) (off len : Nat) :
    slice (b ++ c) (b.length + off) len = slice c off len := by
  rw [slice, slice, ← List.drop_drop, List.drop_left]

/-- A range starting at the end of `b` lies in what follows `b`. -/
theorem slice_append_length (b c : List α) (len : Nat) :
    slice (b ++ c) b.length len = c.take len := by
  have h := slice_append_right b c 0 len
  rwa [Nat.add_zero, slice, slice, List.drop_zero] at h

theorem readAt_eq_some {b : List α} {off len : Nat} (h : off + len ≤ b.length) :
    readAt b off len = some (slice b off len) := if_pos h

theorem readAt_eq_some_iff {b xs : List α} {off len : Nat} :
    readAt b off len = some xs ↔ off + len ≤ b.length ∧ xs = slice b off len := by
  unfold readAt
  split <;> simp_all [eq_comm]

/-- A range between two others. -/
theorem readAt_middle {xs ys zs : List α} {off len : Nat} (hoff : off = xs.length)
    (hlen : len = ys.length) : readAt (xs ++ (ys ++ zs)) off len = some ys := by
  subst hoff hlen
  rw [readAt_eq_some (by simp), slice_append_length, List.take_left]

theorem writeAt_eq_some {b xs : List α} {off : Nat} (h : off + xs.length ≤ b.length) :
    writeAt b off xs = some (b.take off ++ xs ++ b.drop (off + xs.length)) := if_pos h

theorem writeAt_eq_some_iff {b b' xs : List α} {off : Nat} :
    writeAt b off xs = some b' ↔
      off + xs.length ≤ b.length ∧ b' = b.take off ++ xs ++ b.drop (off + xs.length) := by
  unfold writeAt
  split <;> simp_all [eq_comm]

theorem writeAt_zero {b xs : List α} (h : xs.length ≤ b.length) :
    writeAt b 0 xs = some (xs ++ b.drop xs.length) := by
  rw [writeAt_eq_some (by rw [Nat.zero_add]; exact h), Nat.zero_add]
  rfl

/-- A write right behind what has been written so far. -/
theorem writeAt_append {xs rest ys : List α} {off : Nat} (hoff : off = xs.length)
    (h : ys.length ≤ rest.length) :
    writeAt (xs ++ rest) off ys = some ((xs ++ ys) ++ rest.drop ys.length) := by
  subst hoff
  rw [writeAt_eq_some (by rw [List.length_append]; omega), List.take_left, ← List.drop_drop,
    List.drop_left]

/-- A write keeps the size of the block. -/
theorem writeAt_length {b b' xs : List α} {off : Nat} (h : writeAt b off xs = some b') :
    b'.length = b.length := by
  obtain ⟨hfit, rfl⟩ := writeAt_eq_some_iff.mp h
  simp only [List.length_append, List.length_take, List.length_drop]
  omega

/-- A write does not touch what lies before it. -/
theorem getElem?_writeAt_before {b b' xs : List α} {off i : Nat} (h : writeAt b off xs = some b')
    (hi : i < off) : b'[i]? = b[i]? := by
  obtain ⟨hfit, rfl⟩ := writeAt_eq_some_iff.mp h
  have hlen : i < (b.take off).length := by rw [List.length_take]; omega
  rw [List.append_assoc, List.getElem?_append_left hlen, List.getElem?_take_of_lt hi]

/-- The first element of a write. -/
theorem getElem?_writeAt_first {b b' xs : List α} {x : α} {off : Nat}
    (h : writeAt b off (x :: xs) = some b') : b'[off]? = some x := by
  obtain ⟨hfit, rfl⟩ := writeAt_eq_some_iff.mp h
  rw [List.length_cons] at hfit
  have hlen : (b.take off).length = off := by rw [List.length_take]; omega
  rw [List.append_assoc, List.getElem?_append_right (Nat.le_of_eq hlen), hlen, Nat.sub_self]
  rfl

/-- **What is written is read back.** -/
theorem slice_writeAt_same {b b' xs : List α} {off : Nat} (h : writeAt b off xs = some b') :
    slice b' off xs.length = xs := by
  obtain ⟨hfit, rfl⟩ := writeAt_eq_some_iff.mp h
  have hlen : (b.take off).length = off := by rw [List.length_take]; omega
  have hs := slice_append_length (b.take off) (xs ++ b.drop (off + xs.length)) xs.length
  rw [hlen] at hs
  rw [List.append_assoc, hs, List.take_left]

theorem slice_writeAt_within {b b' xs : List α} {off o n : Nat}
    (h : writeAt b off xs = some b') (ho : o + n ≤ xs.length) :
    slice b' (off + o) n = slice xs o n := by
  obtain ⟨hfit, rfl⟩ := writeAt_eq_some_iff.mp h
  have hlen : (b.take off).length = off := by rw [List.length_take]; omega
  have hs := slice_append_right (b.take off) (xs ++ b.drop (off + xs.length)) o n
  rw [hlen] at hs
  rw [List.append_assoc, hs, slice_append_left ho]

/-- Cells before the written range are untouched. -/
theorem slice_writeAt_before {b b' xs : List α} {off o n : Nat}
    (h : writeAt b off xs = some b') (ho : o + n ≤ off) : slice b' o n = slice b o n := by
  obtain ⟨hfit, rfl⟩ := writeAt_eq_some_iff.mp h
  have hlen : (b.take off).length = off := by rw [List.length_take]; omega
  rw [List.append_assoc, slice_append_left (by omega)]
  conv_rhs => rw [← List.take_append_drop off b]
  rw [slice_append_left (by omega)]

/-- Cells after the written range are untouched. -/
theorem slice_writeAt_after {b b' xs : List α} {off o n : Nat}
    (h : writeAt b off xs = some b') (ho : off + xs.length ≤ o) :
    slice b' o n = slice b o n := by
  obtain ⟨hfit, rfl⟩ := writeAt_eq_some_iff.mp h
  have hlen : (b.take off ++ xs).length = off + xs.length := by
    rw [List.length_append, List.length_take]; omega
  obtain ⟨k, rfl⟩ : ∃ k, o = (off + xs.length) + k := ⟨o - (off + xs.length), by omega⟩
  have hs := slice_append_right (b.take off ++ xs) (b.drop (off + xs.length)) k n
  rw [hlen] at hs
  rw [hs, slice, slice, List.drop_drop]

/-- Ranges are equal when their cells are. -/
theorem slice_eq_slice_iff {b d : List α} {off len : Nat} :
    slice b off len = slice d off len ↔ ∀ i, off ≤ i → i < off + len → b[i]? = d[i]? := by
  have hcell : ∀ (l : List α) (j : Nat), (slice l off len)[j]? =
      if j < len then l[off + j]? else none := by
    intro l j
    rw [slice, List.getElem?_take, List.getElem?_drop]
  constructor
  · intro h i hle hlt
    have hj := congrArg (fun l : List α => l[i - off]?) h
    simp only [hcell] at hj
    rwa [if_pos (by omega), if_pos (by omega), Nat.add_sub_cancel' hle] at hj
  · intro h
    apply List.ext_getElem?
    intro j
    rw [hcell, hcell]
    split
    · exact h (off + j) (by omega) (by omega)
    · rfl

/-! ### Writes at the start -/

/-- The block after a write at its start. -/
def overlay (b xs : List α) : List α := xs ++ b.drop xs.length

@[simp] theorem overlay_nil (b : List α) : overlay b [] = b := rfl

theorem eq_overlay_of_writeAt {b b' xs : List α} (h : writeAt b 0 xs = some b') :
    b' = overlay b xs := by
  obtain ⟨-, rfl⟩ := writeAt_eq_some_iff.mp h
  simp [overlay]

/-- A range is what it was if the text ends in front of it, or agrees with it. -/
theorem slice_overlay_iff {b xs : List α} {off len : Nat} :
    slice (overlay b xs) off len = slice b off len ↔
      ∀ i, off ≤ i → i < off + len → i < xs.length → xs[i]? = b[i]? := by
  rw [slice_eq_slice_iff]
  refine forall_congr' fun i => imp_congr_right fun _ => imp_congr_right fun _ => ?_
  by_cases hlt : i < xs.length
  · rw [overlay, List.getElem?_append_left hlt]
    exact ⟨fun h _ => h, fun h => h hlt⟩
  · rw [overlay, List.getElem?_append_right (Nat.le_of_not_lt hlt), List.getElem?_drop,
      Nat.add_sub_cancel' (Nat.le_of_not_lt hlt)]
    exact iff_of_true rfl fun h => absurd h hlt

end Dv8.Lib
