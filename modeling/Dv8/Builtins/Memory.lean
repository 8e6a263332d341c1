import Dv8.Lib.Machine
import Mathlib.Tactic.Ring

namespace Dv8.Memory

open Dv8.Lib

/-!
# The memory of `Buffer` objects

`Alloc`, `Free` and `Destroy` share two fields of an object, the data pointer and the length, and a
running total kept by V8.  `Free` and `Destroy` clear neither field, `Alloc` looks at neither, and
the constructor sets neither.

* `Tidy` — what the blocks, the objects and the total have to do with each other at any time;
* `step_tidy` — a step keeps that exactly when it is `Careful`;
* `tidy_iff` — the same for runs.
-/

/-- A data pointer: not set, null, or the block with this number. -/
inductive Data where
  | unset
  | null
  | block (j : Nat)
  deriving DecidableEq, Repr

/-- A `Buffer`; a length that is not set is none. -/
structure Buffer where
  data : Data := .unset
  length : Option Nat := none
  deriving DecidableEq, Repr

/-- A block made by `calloc`, and how often it was passed to `free`. -/
structure Block where
  length : Nat
  released : Nat := 0
  deriving DecidableEq, Repr

def Block.release (k : Block) : Block := { k with released := k.released + 1 }

/-- The objects of a process, its blocks, and the external memory reported to V8. -/
structure Process where
  /-- how many objects have been made -/
  made : Nat := 0
  buffers : Nat → Option Buffer := fun _ => none
  blocks : List Block := []
  external : Int := 0
  /-- a field was used that is not set -/
  undefined : Bool := false

inductive Act where
  | new
  /-- `calloc` may fail -/
  | alloc (i n : Nat) (ok : Bool)
  | free (i : Nat)
  /-- the garbage collector calls `Destroy` and deletes the object -/
  | collect (i : Nat)
  deriving DecidableEq, Repr

/-! ### The functions of `buffer.cc` -/

def Process.set (p : Process) (i : Nat) (b : Option Buffer) : Process :=
  { p with buffers := Function.update p.buffers i b }

/-- `Buffer::New`. -/
def Process.new (p : Process) : Process :=
  { p.set p.made (some {}) with made := p.made + 1 }

/-- `Buffer::Alloc` of the `Uint32Value` of its argument. -/
def Process.alloc (p : Process) (i n : Nat) (ok : Bool) (b : Buffer) : Process :=
  let length := n % 2 ^ 32
  if 0 < length then
    if ok then
      { p.set i (some { data := .block p.blocks.length, length := some length }) with
        blocks := p.blocks ++ [{ length := length }], external := p.external + length }
    else p.set i (some { data := .null, length := some 0 })
  else p.set i (some { b with length := some 0 })

/-- The end of `Buffer::Free` and of `Buffer::Destroy`. -/
def Process.free (p : Process) (b : Buffer) : Process :=
  match b.data, b.length with
  | .null, some length => { p with external := p.external - length }
  | .block j, some length =>
    { p with external := p.external - length, blocks := p.blocks.modify j Block.release }
  | _, _ => { p with undefined := true }

/-- One step; there is none behind the use of a field that is not set. -/
def Process.step (p : Process) (a : Act) : Option Process :=
  if p.undefined then none
  else
    match a with
    | .new => some p.new
    | .alloc i n ok => (p.buffers i).map fun b => p.alloc i n ok b
    | .free i => (p.buffers i).map fun b => p.free b
    | .collect i => (p.buffers i).map fun b => (p.free b).set i none

/-! ### What ought to hold -/

/-- The bytes of the blocks that have not been released. -/
def allocated (blocks : List Block) : Nat :=
  (blocks.map fun k => if k.released = 0 then k.length else 0).sum

/-- No block is released twice, one that is not released is the current block of an object, and the
    total reported to V8 is that of the blocks not released. -/
structure Tidy (p : Process) : Prop where
  once : ∀ k ∈ p.blocks, k.released ≤ 1
  current : ∀ j k, p.blocks[j]? = some k → k.released = 0 →
    ∃ i b, p.buffers i = some b ∧ b.data = .block j
  external : p.external = allocated p.blocks
  defined : p.undefined = false

/-- The current block of an object. -/
def Process.block (p : Process) (b : Buffer) : Option Block :=
  match b.data with
  | .block j => p.blocks[j]?
  | _ => none

/-- The object has a block that is not released. -/
def Process.Holds (p : Process) (b : Buffer) : Prop := ∃ k ∈ p.block b, k.released = 0

/-- The object has no block because `calloc` failed, or it has one that is not released, and still
    the length of that. -/
def Process.Intact (p : Process) (b : Buffer) : Prop :=
  b.data = .null ∨ ∃ k ∈ p.block b, k.released = 0 ∧ b.length = some k.length

/-- A block is allocated only for an object that holds none, and released only while the object has
    it as it was allocated. -/
def Careful (p : Process) : Act → Prop
  | .new => True
  | .alloc i n _ => 0 < n % 2 ^ 32 → ∀ b ∈ p.buffers i, ¬ p.Holds b
  | .free i | .collect i => ∀ b ∈ p.buffers i, p.Intact b

theorem Tidy.external_nonneg {p : Process} (h : Tidy p) : 0 ≤ p.external := by
  rw [h.external]
  exact Int.natCast_nonneg _

/-! ### Instances -/

instance (p : Process) (b : Buffer) : Decidable (p.Holds b) :=
  inferInstanceAs (Decidable (∃ k ∈ p.block b, _))

instance (p : Process) (b : Buffer) : Decidable (p.Intact b) :=
  inferInstanceAs (Decidable (_ ∨ ∃ k ∈ p.block b, _))

instance (p : Process) : ∀ a, Decidable (Careful p a)
  | .new => isTrue trivial
  | .alloc i n _ => inferInstanceAs (Decidable (0 < n % 2 ^ 32 → ∀ b ∈ p.buffers i, ¬ p.Holds b))
  | .free i | .collect i => inferInstanceAs (Decidable (∀ b ∈ p.buffers i, p.Intact b))

/-! ### The blocks -/

theorem allocated_append (blocks : List Block) (length : Nat) :
    allocated (blocks ++ [{ length := length }]) = allocated blocks + length := by
  simp [allocated]

/-- A release takes the length of the block off, the first time. -/
theorem allocated_release {blocks : List Block} {j : Nat} {k : Block} (h : blocks[j]? = some k) :
    allocated (blocks.modify j Block.release) + (if k.released = 0 then k.length else 0) =
      allocated blocks := by
  induction blocks generalizing j with
  | nil => contradiction
  | cons k' blocks ih =>
    cases j with
    | zero =>
      cases h
      rw [List.modify_zero_cons, allocated, allocated, List.map_cons, List.sum_cons, List.map_cons,
        List.sum_cons, Block.release, if_neg (Nat.succ_ne_zero _)]
      omega
    | succ j =>
      have hrest := ih (j := j) h
      rw [List.modify_succ_cons]
      simp only [allocated, List.map_cons, List.sum_cons] at hrest ⊢
      omega

theorem getElem?_release (blocks : List Block) (i j : Nat) :
    (blocks.modify j Block.release)[i]? =
      if i = j then blocks[i]?.map Block.release else blocks[i]? := by
  rw [List.getElem?_modify]
  split_ifs <;> simp_all

/-! ### The objects -/

/-- Every object that has a block or failed to get one has a length, and no two have one block. -/
structure WellFormed (p : Process) : Prop where
  fresh : ∀ i, p.made ≤ i → p.buffers i = none
  null : ∀ i b, p.buffers i = some b → b.data = .null → b.length = some 0
  block : ∀ i b j, p.buffers i = some b → b.data = .block j →
    j < p.blocks.length ∧ ∃ length, b.length = some length
  own : ∀ i i' b b' j, p.buffers i = some b → p.buffers i' = some b' → b.data = .block j →
    b'.data = .block j → i = i'

/-- One object is made or changed. -/
theorem WellFormed.update {p q : Process} {i : Nat} {b : Buffer} (hwf : WellFormed p)
    (hmade : ∀ i', q.made ≤ i' → p.made ≤ i' ∧ i' ≠ i)
    (hbuffers : q.buffers = Function.update p.buffers i (some b))
    (hblocks : p.blocks.length ≤ q.blocks.length)
    (hnull : b.data = .null → b.length = some 0)
    (hblock : ∀ j, b.data = .block j → j < q.blocks.length ∧ ∃ length, b.length = some length)
    (hown : ∀ i' b' j, i' ≠ i → p.buffers i' = some b' → b'.data = .block j → b.data ≠ .block j) :
    WellFormed q := by
  have hcases : ∀ i' b', q.buffers i' = some b' →
      (i' = i ∧ b' = b) ∨ (i' ≠ i ∧ p.buffers i' = some b') := by
    intro i' b' h
    rw [hbuffers] at h
    by_cases hi : i' = i
    · subst hi
      rw [Function.update_self] at h
      cases h
      exact Or.inl ⟨rfl, rfl⟩
    · rw [Function.update_of_ne hi] at h
      exact Or.inr ⟨hi, h⟩
  refine ⟨?_, ?_, ?_, ?_⟩
  · intro i' hi
    obtain ⟨hold, hne⟩ := hmade i' hi
    rw [hbuffers, Function.update_of_ne hne]
    exact hwf.fresh i' hold
  · intro i' b' h hdata
    obtain ⟨-, rfl⟩ | ⟨-, h⟩ := hcases i' b' h
    · exact hnull hdata
    · exact hwf.null i' b' h hdata
  · intro i' b' j h hdata
    obtain ⟨-, rfl⟩ | ⟨-, h⟩ := hcases i' b' h
    · exact hblock j hdata
    · obtain ⟨hj, hlength⟩ := hwf.block i' b' j h hdata
      exact ⟨Nat.lt_of_lt_of_le hj hblocks, hlength⟩
  · intro i₁ i₂ b₁ b₂ j h₁ h₂ hdata₁ hdata₂
    obtain ⟨rfl, rfl⟩ | ⟨hne₁, h₁⟩ := hcases i₁ b₁ h₁
    · obtain ⟨rfl, rfl⟩ | ⟨hne₂, h₂⟩ := hcases i₂ b₂ h₂
      · rfl
      · exact absurd hdata₁ (hown i₂ b₂ j hne₂ h₂ hdata₂)
    · obtain ⟨rfl, rfl⟩ | ⟨hne₂, h₂⟩ := hcases i₂ b₂ h₂
      · exact absurd hdata₂ (hown i₁ b₁ j hne₁ h₁ hdata₁)
      · exact hwf.own i₁ i₂ b₁ b₂ j h₁ h₂ hdata₁ hdata₂

/-- Objects are deleted, or blocks released. -/
theorem WellFormed.restrict {p q : Process} (hwf : WellFormed p) (hmade : q.made = p.made)
    (hbuffers : ∀ i b, q.buffers i = some b → p.buffers i = some b)
    (hblocks : q.blocks.length = p.blocks.length) : WellFormed q := by
  refine ⟨?_, ?_, ?_, ?_⟩
  · intro i hi
    rw [hmade] at hi
    cases h : q.buffers i with
    | none => rfl
    | some b =>
      have hold := hbuffers i b h
      rw [hwf.fresh i hi] at hold
      contradiction
  · exact fun i b h hdata => hwf.null i b (hbuffers i b h) hdata
  · intro i b j h hdata
    rw [hblocks]
    exact hwf.block i b j (hbuffers i b h) hdata
  · exact fun i i' b b' j h h' hdata hdata' =>
      hwf.own i i' b b' j (hbuffers i b h) (hbuffers i' b' h') hdata hdata'

theorem block_eq {p : Process} {b : Buffer} {j : Nat} (hdata : b.data = .block j) :
    p.block b = p.blocks[j]? := by
  rw [Process.block, hdata]

/-- An object with a block that is held has the number of it. -/
theorem holds_iff {p : Process} {b : Buffer} :
    p.Holds b ↔ ∃ j k, b.data = .block j ∧ p.blocks[j]? = some k ∧ k.released = 0 := by
  constructor
  · rintro ⟨k, hk, hreleased⟩
    cases hdata : b.data with
    | unset | null =>
      rw [Process.block, hdata] at hk
      contradiction
    | block j =>
      rw [block_eq hdata] at hk
      exact ⟨j, k, rfl, hk, hreleased⟩
  · rintro ⟨j, k, hdata, hk, hreleased⟩
    refine ⟨k, ?_, hreleased⟩
    rw [block_eq hdata]
    exact hk

/-- An object gets another block, or none: those that are held stay current when its own was not. -/
theorem current_update_iff {p : Process} {i : Nat} {b c : Buffer} (hwf : WellFormed p)
    (ht : Tidy p) (hb : p.buffers i = some b)
    (hc : ∀ j, j < p.blocks.length → c.data ≠ .block j) :
    (∀ j k, p.blocks[j]? = some k → k.released = 0 →
        ∃ i' b', Function.update p.buffers i (some c) i' = some b' ∧ b'.data = .block j) ↔
      ¬ p.Holds b := by
  constructor
  · intro hcurrent hholds
    obtain ⟨j, k, hdata, hk, hreleased⟩ := holds_iff.mp hholds
    obtain ⟨hj, -⟩ := hwf.block i b j hb hdata
    obtain ⟨i', b', h, hdata'⟩ := hcurrent j k hk hreleased
    by_cases hi : i' = i
    · subst hi
      rw [Function.update_self] at h
      cases h
      exact hc j hj hdata'
    · rw [Function.update_of_ne hi] at h
      exact hi (hwf.own i' i b' b j h hb hdata' hdata)
  · intro hno j k hk hreleased
    obtain ⟨i', b', h, hdata⟩ := ht.current j k hk hreleased
    have hi : i' ≠ i := by
      rintro rfl
      rw [hb] at h
      cases h
      exact hno (holds_iff.mpr ⟨j, k, hdata, hk, hreleased⟩)
    exact ⟨i', b', by rw [Function.update_of_ne hi]; exact h, hdata⟩

/-! ### Step by step -/

theorem new_tidy {p : Process} (hwf : WellFormed p) (ht : Tidy p) :
    WellFormed p.new ∧ Tidy p.new := by
  constructor
  · refine hwf.update (i := p.made) (b := {}) ?_ rfl (Nat.le_refl _) ?_ ?_ ?_
    · intro i' hi
      have hi : p.made + 1 ≤ i' := hi
      exact ⟨by omega, by omega⟩
    · exact fun hdata => Data.noConfusion hdata
    · exact fun j hdata => Data.noConfusion hdata
    · exact fun _ _ _ _ _ _ hdata => Data.noConfusion hdata
  · refine ⟨ht.once, fun j k hk hreleased => ?_, ht.external, ht.defined⟩
    obtain ⟨i, b, h, hdata⟩ := ht.current j k hk hreleased
    refine ⟨i, b, ?_, hdata⟩
    have hi : i ≠ p.made := by
      rintro rfl
      rw [hwf.fresh p.made (Nat.le_refl _)] at h
      contradiction
    show Function.update p.buffers p.made (some {}) i = some b
    rw [Function.update_of_ne hi]
    exact h

/-- Nobody has the number of a new block. -/
theorem newBlock_ne {p : Process} (j : Nat) (hj : j < p.blocks.length) :
    Data.block p.blocks.length ≠ Data.block j := by
  intro heq
  cases heq
  exact Nat.lt_irrefl _ hj

/-- A new block takes the place of the one that the object holds. -/
theorem newBlock_tidy_iff {p : Process} {i length : Nat} {b : Buffer} (hwf : WellFormed p)
    (ht : Tidy p) (hb : p.buffers i = some b) :
    Tidy { p.set i (some { data := .block p.blocks.length, length := some length }) with
        blocks := p.blocks ++ [{ length := length }], external := p.external + length } ↔
      ¬ p.Holds b := by
  let c : Buffer := { data := .block p.blocks.length, length := some length }
  rw [← current_update_iff (c := c) hwf ht hb newBlock_ne]
  constructor
  · intro hq j k hk hreleased
    have hj : j < p.blocks.length := (List.getElem?_eq_some_iff.mp hk).1
    exact hq.current j k (by rw [List.getElem?_append_left hj]; exact hk) hreleased
  · intro hcurrent
    refine ⟨?_, ?_, ?_, ht.defined⟩
    · intro k hk
      obtain hk | hk := List.mem_append.mp hk
      · exact ht.once k hk
      · rw [List.mem_singleton.mp hk]
        exact Nat.zero_le _
    · intro j k hk hreleased
      by_cases hj : j < p.blocks.length
      · refine hcurrent j k ?_ hreleased
        rw [← hk]
        exact (List.getElem?_append_left hj).symm
      · have hlast : j = p.blocks.length := by
          have := (List.getElem?_eq_some_iff.mp hk).1
          simp only [List.length_append, List.length_singleton] at this
          omega
        exact ⟨i, _, Function.update_self .., by rw [hlast]⟩
    · show p.external + _ = ((allocated (p.blocks ++ _) : Nat) : Int)
      rw [allocated_append, ht.external]
      exact (Int.natCast_add _ _).symm

/-- **`Alloc`** loses the block that the object holds. -/
theorem alloc_tidy {p : Process} {i n : Nat} {ok : Bool} {b : Buffer} (hwf : WellFormed p)
    (ht : Tidy p) (hb : p.buffers i = some b) :
    WellFormed (p.alloc i n ok b) ∧
      (Tidy (p.alloc i n ok b) ↔ (0 < n % 2 ^ 32 → ¬ p.Holds b)) := by
  have hmade : ∀ i', p.made ≤ i' → p.made ≤ i' ∧ i' ≠ i := by
    rintro i' hi
    refine ⟨hi, ?_⟩
    rintro rfl
    rw [hwf.fresh i' hi] at hb
    contradiction
  unfold Process.alloc
  simp only
  split_ifs with hn hok
  · constructor
    · refine hwf.update hmade rfl ?_ ?_ ?_ ?_
      · rw [List.length_append]
        exact Nat.le_add_right _ _
      · exact fun hdata => Data.noConfusion hdata
      · intro j hdata
        cases hdata
        exact ⟨by simp, _, rfl⟩
      · exact fun i' b' j _ h hdata => newBlock_ne j (hwf.block i' b' j h hdata).1
    · rw [newBlock_tidy_iff hwf ht hb]
      exact ⟨fun hno _ => hno, fun hno => hno hn⟩
  · -- the pointer is null
    have hown : ∀ j, j < p.blocks.length → Data.null ≠ Data.block j :=
      fun _ _ heq => Data.noConfusion heq
    constructor
    · refine hwf.update hmade rfl (Nat.le_refl _) (fun _ => rfl) ?_ ?_
      · exact fun j hdata => Data.noConfusion hdata
      · exact fun _ _ j _ _ _ hdata => Data.noConfusion hdata
    · rw [← current_update_iff (c := { data := .null, length := some 0 }) hwf ht hb hown]
      exact ⟨fun hq _ => hq.current,
        fun hcurrent => ⟨ht.once, hcurrent hn, ht.external, ht.defined⟩⟩
  · -- only the length is cleared
    constructor
    · refine hwf.update hmade rfl (Nat.le_refl _) (fun _ => rfl) ?_ ?_
      · exact fun j hdata => ⟨(hwf.block i b j hb hdata).1, 0, rfl⟩
      · exact fun i' b' j hne h hdata hdata' => hne (hwf.own i' i b' b j h hb hdata hdata')
    · refine iff_of_true ⟨ht.once, fun j k hk hreleased => ?_, ht.external, ht.defined⟩
        (fun hpos => absurd hpos hn)
      obtain ⟨i', b', h, hdata⟩ := ht.current j k hk hreleased
      by_cases hi : i' = i
      · subst hi
        rw [hb] at h
        cases h
        exact ⟨i', _, Function.update_self .., hdata⟩
      · exact ⟨i', b', (Function.update_of_ne hi ..).trans h, hdata⟩

theorem free_frame (p : Process) (b : Buffer) :
    (p.free b).buffers = p.buffers ∧ (p.free b).made = p.made ∧
      (p.free b).blocks.length = p.blocks.length := by
  unfold Process.free
  split
  · exact ⟨rfl, rfl, rfl⟩
  · exact ⟨rfl, rfl, List.length_modify ..⟩
  · exact ⟨rfl, rfl, rfl⟩

/-- The owner of a block that is held is somebody else's when it is not this one. -/
theorem current_other {p q : Process} {i j : Nat} {b : Buffer} {k : Block} (ht : Tidy p)
    (hb : p.buffers i = some b) (hothers : ∀ i', i' ≠ i → q.buffers i' = p.buffers i')
    (hdata : b.data ≠ .block j) (hk : p.blocks[j]? = some k) (hreleased : k.released = 0) :
    ∃ i' b', q.buffers i' = some b' ∧ b'.data = .block j := by
  obtain ⟨i', b', h, hdata'⟩ := ht.current j k hk hreleased
  have hi : i' ≠ i := by
    rintro rfl
    rw [hb] at h
    cases h
    exact hdata hdata'
  exact ⟨i', b', (hothers i' hi).trans h, hdata'⟩

/-- A block is released by an object that has it as it was allocated, or something goes wrong. -/
theorem released_tidy {p q : Process} {i j length : Nat} {b : Buffer} {k : Block} (ht : Tidy p)
    (hb : p.buffers i = some b) (hothers : ∀ i', i' ≠ i → q.buffers i' = p.buffers i')
    (hdata : b.data = .block j) (hk : p.blocks[j]? = some k)
    (hblocks : q.blocks = p.blocks.modify j Block.release)
    (hexternal : q.external = p.external - length) (hdefined : q.undefined = p.undefined) :
    Tidy q ↔ k.released = 0 ∧ length = k.length := by
  have hown : q.blocks[j]? = some k.release := by
    rw [hblocks, getElem?_release, if_pos rfl, hk]
    rfl
  have hsum := allocated_release hk
  rw [← hblocks] at hsum
  have htotal := ht.external
  constructor
  · intro hq
    have honce : k.released + 1 ≤ 1 := hq.once _ (List.mem_of_getElem? hown)
    have hreleased : k.released = 0 := by omega
    have htotal' := hq.external
    rw [if_pos hreleased] at hsum
    exact ⟨hreleased, by omega⟩
  · rintro ⟨hreleased, rfl⟩
    rw [if_pos hreleased] at hsum
    have hcases : ∀ j' k', q.blocks[j']? = some k' →
        (j' = j ∧ k' = k.release) ∨ (j' ≠ j ∧ p.blocks[j']? = some k') := by
      intro j' k' h
      by_cases hj : j' = j
      · subst hj
        rw [hown] at h
        cases h
        exact Or.inl ⟨rfl, rfl⟩
      · rw [hblocks, getElem?_release, if_neg hj] at h
        exact Or.inr ⟨hj, h⟩
    refine ⟨?_, ?_, by omega, hdefined.trans ht.defined⟩
    · intro k' hk'
      obtain ⟨j', hj'⟩ := List.mem_iff_getElem?.mp hk'
      obtain ⟨-, rfl⟩ | ⟨-, h⟩ := hcases j' k' hj'
      · show k.released + 1 ≤ 1
        omega
      · exact ht.once k' (List.mem_of_getElem? h)
    · intro j' k' hk' hheld
      obtain ⟨-, rfl⟩ | ⟨hj, h⟩ := hcases j' k' hk'
      · exact absurd hheld (Nat.succ_ne_zero _)
      · refine current_other ht hb hothers (fun heq => hj ?_) h hheld
        rw [hdata] at heq
        cases heq
        rfl

/-- **`Free` and `Destroy`** release what the object has, once and with its length, only if it is
    intact. -/
theorem free_tidy_iff {p q : Process} {i : Nat} {b : Buffer} (hwf : WellFormed p) (ht : Tidy p)
    (hb : p.buffers i = some b) (hothers : ∀ i', i' ≠ i → q.buffers i' = p.buffers i')
    (hblocks : q.blocks = (p.free b).blocks) (hexternal : q.external = (p.free b).external)
    (hdefined : q.undefined = (p.free b).undefined) : Tidy q ↔ p.Intact b := by
  cases hdata : b.data with
  | unset =>
    rw [Process.free, hdata] at hdefined
    refine iff_of_false (fun hq => absurd (hdefined.symm.trans hq.defined) (by simp)) ?_
    rintro (hnull | ⟨k, hk, -⟩)
    · rw [hdata] at hnull
      contradiction
    · rw [Process.block, hdata] at hk
      contradiction
  | null =>
    have hlength := hwf.null i b hb hdata
    rw [Process.free, hdata, hlength] at hblocks hexternal hdefined
    refine iff_of_true ⟨?_, fun j k hk hreleased => ?_, ?_, hdefined.trans ht.defined⟩
      (Or.inl hdata)
    · rw [hblocks]
      exact ht.once
    · rw [hblocks] at hk
      refine current_other ht hb hothers (fun heq => ?_) hk hreleased
      rw [hdata] at heq
      contradiction
    · rw [hexternal, hblocks, ht.external]
      exact Int.sub_zero _
  | block j =>
    obtain ⟨hj, length, hlength⟩ := hwf.block i b j hb hdata
    have hk := List.getElem?_eq_getElem hj
    rw [Process.free, hdata, hlength] at hblocks hexternal hdefined
    rw [released_tidy ht hb hothers hdata hk hblocks hexternal hdefined, Process.Intact,
      block_eq hdata, hk, hdata, hlength]
    simp

/-- **Step lemma.** A step keeps the memory tidy exactly when it is careful. -/
theorem step_tidy {p q : Process} {a : Act} (hwf : WellFormed p) (ht : Tidy p)
    (h : p.step a = some q) : WellFormed q ∧ (Tidy q ↔ Careful p a) := by
  obtain ⟨-, h⟩ := Option.ite_none_left_eq_some.mp h
  cases a with
  | new =>
    cases h
    obtain ⟨hnew, htidy⟩ := new_tidy hwf ht
    exact ⟨hnew, iff_of_true htidy trivial⟩
  | alloc i n ok =>
    obtain ⟨b, hb, rfl⟩ := Option.map_eq_some_iff.mp h
    have halloc : WellFormed (p.alloc i n ok b) ∧ _ := alloc_tidy hwf ht hb
    refine ⟨halloc.1, halloc.2.trans ?_⟩
    simp only [Careful, hb, Option.mem_def, Option.some.injEq, forall_eq']
  | free i =>
    obtain ⟨b, hb, rfl⟩ := Option.map_eq_some_iff.mp h
    obtain ⟨hbuffers, hmade, hlength⟩ := free_frame p b
    refine ⟨hwf.restrict hmade (fun i b h => hbuffers ▸ h) hlength, ?_⟩
    rw [free_tidy_iff hwf ht hb (fun i' _ => by rw [hbuffers]) rfl rfl rfl]
    simp only [Careful, hb, Option.mem_def, Option.some.injEq, forall_eq']
  | collect i =>
    obtain ⟨b, hb, rfl⟩ := Option.map_eq_some_iff.mp h
    obtain ⟨hbuffers, hmade, hlength⟩ := free_frame p b
    have hothers : ∀ i', i' ≠ i → ((p.free b).set i none).buffers i' = p.buffers i' := by
      intro i' hi
      show Function.update (p.free b).buffers i none i' = _
      rw [Function.update_of_ne hi, hbuffers]
    refine ⟨hwf.restrict hmade (fun i' b' h => ?_) hlength, ?_⟩
    · by_cases hi : i' = i
      · subst hi
        exact absurd ((Function.update_self ..).symm.trans h) (by simp)
      · exact (hothers i' hi).symm.trans h
    · rw [free_tidy_iff hwf ht hb hothers rfl rfl rfl]
      simp only [Careful, hb, Option.mem_def, Option.some.injEq, forall_eq']

/-- **The memory of all objects stays tidy** exactly when a block is only ever allocated for an
    object that holds none, and only released by one that has it as it was allocated. -/
theorem tidy_iff {as : List Act} {p : Process} (hrun : run Process.step {} as = some p) :
    (∀ bs cs q, as = bs ++ cs → run Process.step {} bs = some q → Tidy q) ↔
      Along Process.step Careful {} as := by
  have hnone : ∀ i b, ({} : Process).buffers i ≠ some b := by
    intro i b h
    contradiction
  have hwf : WellFormed {} :=
    ⟨fun _ _ => rfl, fun i b h => absurd h (hnone i b), fun i b _ h => absurd h (hnone i b),
      fun i _ b _ _ h => absurd h (hnone i b)⟩
  have ht : Tidy {} :=
    ⟨fun _ hk => absurd hk List.not_mem_nil, fun _ _ hk => absurd hk (by simp), rfl, rfl⟩
  exact forall_prefix_iff_along (fun _ _ _ hwf ht hstep => step_tidy hwf ht hstep) hwf ht hrun

/-- One object is collected with its block, another one allocates anew behind a `free`. -/
def tidyRun : List Act :=
  [.new, .alloc 0 16 true, .new, .alloc 1 8 true, .collect 0, .free 1, .alloc 1 32 true]

theorem tidy_iff_tidyRun :
    ∃ p, run Process.step {} tidyRun = some p ∧ Tidy p ∧ p.external = 32 :=
  ⟨_, rfl, (tidy_iff rfl).mpr (by decide) tidyRun [] _ rfl rfl, by decide⟩

/-- An object that was freed is collected. -/
def freedThenCollected : List Act := [.new, .alloc 0 16 true, .free 0, .collect 0]

/-- Its block is released twice, and the total is below zero. -/
theorem not_tidy_freedThenCollected : ∃ p,
    run Process.step {} freedThenCollected = some p ∧ p.external = -16 ∧
      p.blocks = [{ length := 16, released := 2 }] ∧ ¬ Tidy p := by
  refine ⟨_, rfl, rfl, rfl, fun h => ?_⟩
  exact absurd h.external_nonneg (by decide)

end Dv8.Memory
