import Mathlib.Data.List.Basic

namespace Dv8.Lib

/-!
# Linked lists

Nodes are of any type; `next` is the node behind a node, if there is one.  A list is where it
starts.

* `Follows.of_isChain` — a list from its links;
* `Follows.unique` / `Follows.nodup` — a list that ends visits each of its nodes once;
* `Follows.apart` — two lists that end at different nodes share none.
-/

variable {α : Type*}

/-- Whoever follows `next` from the start visits these nodes, and then the list ends. -/
inductive Follows (next : α → Option α) : Option α → List α → Prop where
  | nil : Follows next none []
  | cons {a : α} {as : List α} (h : Follows next (next a) as) : Follows next (some a) (a :: as)

variable {next : α → Option α} {start start' : Option α} {xs ys : List α}

/-- There is one way to follow a list. -/
theorem Follows.unique (h : Follows next start xs) (h' : Follows next start ys) : xs = ys := by
  induction h generalizing ys with
  | nil =>
    cases h'
    rfl
  | cons _ ih =>
    cases h' with
    | cons h' => rw [ih h']

/-- From a node on, a list is the rest of it. -/
theorem Follows.from_mem {a : α} {rest : List α} (h : Follows next start (xs ++ a :: rest)) :
    Follows next (some a) (a :: rest) := by
  induction xs generalizing start with
  | nil =>
    cases h with
    | cons h => exact .cons h
  | cons x xs ih =>
    cases h with
    | cons h => exact ih h

/-- **Each node once**: behind a second visit the list would go on as behind the first. -/
theorem Follows.nodup (h : Follows next start xs) : xs.Nodup := by
  induction h with
  | nil => exact List.nodup_nil
  | @cons a as h ih =>
    refine List.nodup_cons.mpr ⟨fun hmem => ?_, ih⟩
    obtain ⟨l, r, hsplit⟩ := List.append_of_mem hmem
    have hfirst : Follows next (some a) (a :: as) := .cons h
    have hsecond : Follows next (some a) (a :: r) := (hsplit ▸ h).from_mem
    have hrest := congrArg List.length (hfirst.unique hsecond)
    have hlength := congrArg List.length hsplit
    simp only [List.length_cons, List.length_append] at hrest hlength
    omega

/-- **Two lists that end at different nodes share none.** -/
theorem Follows.apart (h : Follows next start xs) (h' : Follows next start' ys)
    (hends : xs ≠ [] → xs.getLast? ≠ ys.getLast?) : xs.Disjoint ys := by
  intro a hx hy
  obtain ⟨l, r, rfl⟩ := List.append_of_mem hx
  obtain ⟨l', r', rfl⟩ := List.append_of_mem hy
  have hrest : a :: r = a :: r' := h.from_mem.unique h'.from_mem
  refine hends (by simp) ?_
  rw [List.getLast?_append_of_ne_nil _ (by simp), List.getLast?_append_of_ne_nil _ (by simp),
    hrest]

/-- Nodes that are linked one by one, and the last to none, make a list. -/
theorem Follows.of_isChain (hchain : xs.IsChain fun a b => next a = some b)
    (hend : ∀ l, xs.getLast? = some l → next l = none) : Follows next xs.head? xs := by
  induction xs with
  | nil => exact .nil
  | cons a as ih =>
    refine .cons ?_
    cases as with
    | nil =>
      rw [hend a rfl]
      exact .nil
    | cons b bs =>
      obtain ⟨hlink, hchain⟩ := List.isChain_cons_cons.mp hchain
      rw [hlink]
      exact ih hchain fun l hl => hend l (by rwa [List.getLast?_cons_cons])

end Dv8.Lib
