import Mathlib.Data.List.ReduceOption

namespace Dv8.Lib

/-!
# Streams cut into chunks

A stream that arrives in pieces is a list of *events*: `some b` is an element and `none`
the end of a piece.  The stream itself is `e.reduceOption`.

* `ofChunks` — the events of a list of chunks;
* `AllCuts Q e` — every cut of `e` stands at a position where `Q` holds;
* `allCuts_iff` / `allCuts_ofChunks` — the same read off the event list and off the chunks;
* `events_split`, `events_first_cut`, `events_last` — events split where their stream
  does, at their first cut, and at their last element.
-/

variable {α : Type*}

/-- The events of a list of chunks: each chunk, then its end. -/
def ofChunks (chunks : List (List α)) : List (Option α) :=
  chunks.flatMap fun c => c.map some ++ [none]

@[simp] theorem ofChunks_nil : ofChunks ([] : List (List α)) = [] := rfl

theorem ofChunks_cons (c : List α) (chunks : List (List α)) :
    ofChunks (c :: chunks) = c.map some ++ none :: ofChunks chunks := by
  rw [ofChunks, List.flatMap_cons, List.append_assoc]
  rfl

theorem ofChunks_append (chunks chunks' : List (List α)) :
    ofChunks (chunks ++ chunks') = ofChunks chunks ++ ofChunks chunks' := List.flatMap_append

/-- Elements without cuts. -/
theorem reduceOption_map_some (xs : List α) : (xs.map some).reduceOption = xs := by
  induction xs with
  | nil => rfl
  | cons x xs ih => rw [List.map_cons, List.reduceOption_cons_of_some, ih]

/-- The stream of a list of chunks. -/
theorem reduceOption_ofChunks (chunks : List (List α)) :
    (ofChunks chunks).reduceOption = chunks.flatten := by
  induction chunks with
  | nil => rfl
  | cons c chunks ih =>
    rw [ofChunks_cons, List.reduceOption_append, List.reduceOption_cons_of_none,
      reduceOption_map_some, ih, List.flatten_cons]

/-- Every cut stands at a position of the stream where `Q` holds. -/
def AllCuts (Q : Nat → Prop) : List (Option α) → Prop
  | [] => True
  | none :: e => Q 0 ∧ AllCuts Q e
  | some _ :: e => AllCuts (fun n => Q (n + 1)) e

@[simp] theorem allCuts_nil (Q : Nat → Prop) : AllCuts Q ([] : List (Option α)) := trivial

@[simp] theorem allCuts_none (Q : Nat → Prop) (e : List (Option α)) :
    AllCuts Q (none :: e) ↔ Q 0 ∧ AllCuts Q e := Iff.rfl

@[simp] theorem allCuts_some (Q : Nat → Prop) (b : α) (e : List (Option α)) :
    AllCuts Q (some b :: e) ↔ AllCuts (fun n => Q (n + 1)) e := Iff.rfl

theorem allCuts_append (Q : Nat → Prop) (e₁ e₂ : List (Option α)) :
    AllCuts Q (e₁ ++ e₂) ↔
      AllCuts Q e₁ ∧ AllCuts (fun n => Q (n + e₁.reduceOption.length)) e₂ := by
  induction e₁ generalizing Q with
  | nil => simp
  | cons x e₁ ih =>
    cases x with
    | none => simp only [List.cons_append, allCuts_none, ih, List.reduceOption_cons_of_none,
        and_assoc]
    | some b => simp only [List.cons_append, allCuts_some, ih, List.reduceOption_cons_of_some,
        List.length_cons, Nat.add_assoc]

/-- The positions of the cuts, read off the event list. -/
theorem allCuts_iff (Q : Nat → Prop) (e : List (Option α)) :
    AllCuts Q e ↔ ∀ e₁ e₂, e = e₁ ++ none :: e₂ → Q e₁.reduceOption.length := by
  induction e generalizing Q with
  | nil => simp
  | cons x e ih =>
    cases x with
    | none =>
      rw [allCuts_none, ih]
      constructor
      · rintro ⟨h₀, h⟩ e₁ e₂ heq
        cases e₁ with
        | nil => exact h₀
        | cons y e₁ =>
          obtain ⟨rfl, rfl⟩ := List.cons.inj heq
          exact h e₁ e₂ rfl
      · intro h
        exact ⟨h [] e rfl, fun e₁ e₂ heq => h (none :: e₁) e₂ (by rw [heq]; rfl)⟩
    | some b =>
      rw [allCuts_some, ih]
      constructor
      · intro h e₁ e₂ heq
        cases e₁ with
        | nil => cases heq
        | cons y e₁ =>
          obtain ⟨rfl, rfl⟩ := List.cons.inj heq
          exact h e₁ e₂ rfl
      · intro h e₁ e₂ heq
        exact h (some b :: e₁) e₂ (by rw [heq]; rfl)

theorem AllCuts.mono {Q R : Nat → Prop} {e : List (Option α)} (h : AllCuts Q e)
    (hQR : ∀ n ≤ e.reduceOption.length, Q n → R n) : AllCuts R e := by
  rw [allCuts_iff] at h ⊢
  intro e₁ e₂ heq
  refine hQR _ ?_ (h e₁ e₂ heq)
  rw [heq, List.reduceOption_append, List.length_append]
  omega

theorem allCuts_of_forall {Q : Nat → Prop} {e : List (Option α)}
    (h : ∀ n ≤ e.reduceOption.length, Q n) : AllCuts Q e := by
  rw [allCuts_iff]
  intro e₁ e₂ heq
  refine h _ ?_
  rw [heq, List.reduceOption_append, List.length_append]
  omega

/-- Elements alone hold no cut. -/
theorem allCuts_map_some (Q : Nat → Prop) (xs : List α) : AllCuts Q (xs.map some) := by
  induction xs generalizing Q with
  | nil => trivial
  | cons x xs ih => exact ih _

/-- The cuts of a list of chunks are the ends of its non-empty prefixes. -/
theorem allCuts_ofChunks (Q : Nat → Prop) (chunks : List (List α)) :
    AllCuts Q (ofChunks chunks) ↔
      ∀ pre c post, chunks = pre ++ c :: post → Q (pre ++ [c]).flatten.length := by
  induction chunks generalizing Q with
  | nil => simp
  | cons c chunks ih =>
    rw [ofChunks_cons, allCuts_append, allCuts_none, ih, reduceOption_map_some]
    constructor
    · rintro ⟨-, h₀, h⟩ pre d post heq
      cases pre with
      | nil =>
        obtain ⟨rfl, rfl⟩ := List.cons.inj heq
        simpa using h₀
      | cons p pre =>
        obtain ⟨rfl, hrest⟩ := List.cons.inj heq
        have := h pre d post hrest
        rwa [List.cons_append, List.flatten_cons, List.length_append, Nat.add_comm]
    · intro h
      refine ⟨allCuts_map_some _ _, by simpa using h [] c chunks rfl, ?_⟩
      intro pre d post heq
      have := h (c :: pre) d post (by rw [heq]; rfl)
      rwa [List.cons_append, List.flatten_cons, List.length_append, Nat.add_comm] at this

/-- Events split where their stream does. -/
theorem events_split {e : List (Option α)} {xs ys : List α} (h : e.reduceOption = xs ++ ys) :
    ∃ e₁ e₂, e = e₁ ++ e₂ ∧ e₁.reduceOption = xs ∧ e₂.reduceOption = ys :=
  (List.reduceOption_eq_append_iff e xs ys).mp h

/-- Events without a cut, or with a first one. -/
theorem events_first_cut (e : List (Option α)) :
    e = e.reduceOption.map some ∨
      ∃ (xs : List α) (e' : List (Option α)), e = xs.map some ++ none :: e' := by
  induction e with
  | nil => exact Or.inl rfl
  | cons x e ih =>
    cases x with
    | none => exact Or.inr ⟨[], e, rfl⟩
    | some b =>
      rcases ih with ih | ⟨xs, e', rfl⟩
      · left
        rw [List.reduceOption_cons_of_some, List.map_cons, ← ih]
      · exact Or.inr ⟨b :: xs, e', rfl⟩

/-- Events that hold an element have a last one. -/
theorem events_last {e : List (Option α)} (h : e.reduceOption ≠ []) :
    ∃ (e₁ : List (Option α)) (b : α) (e₂ : List (Option α)),
      e = e₁ ++ some b :: e₂ ∧ e₂.reduceOption = [] := by
  induction e with
  | nil => exact absurd rfl h
  | cons x e ih =>
    by_cases he : e.reduceOption = []
    · cases x with
      | none => exact absurd he h
      | some b => exact ⟨[], b, e, rfl, he⟩
    · obtain ⟨e₁, b, e₂, rfl, h₂⟩ := ih he
      exact ⟨x :: e₁, b, e₂, rfl, h₂⟩

end Dv8.Lib
