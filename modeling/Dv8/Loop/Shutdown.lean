import Dv8.Lib.Machine
import Mathlib.Data.List.Count
import Mathlib.Data.List.Nodup

namespace Dv8.Shutdown

open Dv8.Lib

/-!
# `dv8::shutdown`

`shutdown` walks over the handles of the event loop and calls `uv_close` on each.  A handle that
its owner has passed to `uv_close` stays in the loop until its close callback has run, and
`uv_walk` visits it too; `uv_close` asserts that the handle it is given is not closing.

Owners are everything else that holds handles: sockets, timers, the `EventLoop` with its
`Reset`.  They pass a handle to `uv_close` once.

* `calls_exact_iff` — one call of `shutdown` closes what it should, and no more, exactly when no
  handle is closing;
* `shutdowns_exact_iff_along` — the same for all calls of `shutdown` in a run.
-/

/-- A handle in the loop. -/
structure Handle where
  id : Nat
  /-- `UV_HANDLE_CLOSING` -/
  closing : Bool := false
  /-- `UV_HANDLE_INTERNAL`, for handles of libuv itself; `uv_walk` does not show them -/
  internal : Bool := false
  deriving DecidableEq, Repr

/-- `uv_close`; `none` is its assertion. -/
def uvClose (h : Handle) : Option Handle :=
  if h.closing then none else some { h with closing := true }

/-- What a walk with `uv_close` comes to: the handles of the loop, those `uv_close` was called on,
    and whether its assertion has failed. -/
structure Walk where
  queue : List Handle
  calls : List Nat := []
  aborted : Bool := false
  deriving DecidableEq, Repr

/-- `uv_walk` over the handle queue, with the callback of `shutdown`. -/
def walk : List Handle → Walk
  | [] => ⟨[], [], false⟩
  | h :: queue =>
    if h.internal then { walk queue with queue := h :: (walk queue).queue }
    else
      match uvClose h with
      -- the process is gone, and the rest of the queue is not visited
      | none => ⟨h :: queue, [h.id], true⟩
      | some h' => { walk queue with queue := h' :: (walk queue).queue
                                     calls := h.id :: (walk queue).calls }

/-- The event loop. -/
structure Loop where
  queue : List Handle := []
  /-- how many handles there have been -/
  size : Nat := 0
  aborted : Bool := false
  deriving DecidableEq, Repr

inductive Action where
  /-- `uv_*_init` -/
  | init (internal : Bool)
  /-- the owner of a handle calls `uv_close` -/
  | close (id : Nat)
  /-- `dv8::shutdown`, from JavaScript or from `main` -/
  | shutdown
  /-- a closing handle leaves the loop, and its close callback runs -/
  | finish (id : Nat)
  deriving DecidableEq, Repr

/-- A handle with this number that its owner may close. -/
def Loop.isOpen (l : Loop) (id : Nat) : Prop := ∃ h ∈ l.queue, h.id = id ∧ h.closing = false

instance (l : Loop) (id : Nat) : Decidable (l.isOpen id) := by
  unfold Loop.isOpen
  infer_instance

/-- A closing handle with this number. -/
def Loop.isClosing (l : Loop) (id : Nat) : Prop := ∃ h ∈ l.queue, h.id = id ∧ h.closing = true

instance (l : Loop) (id : Nat) : Decidable (l.isClosing id) := by
  unfold Loop.isClosing
  infer_instance

/-- One step. -/
def step (l : Loop) (a : Action) : Option Loop :=
  if l.aborted then none
  else
    match a with
    | .init internal =>
      some { l with queue := l.queue ++ [{ id := l.size, internal := internal }]
                    size := l.size + 1 }
    | .close id =>
      if l.isOpen id then
        some { l with queue := l.queue.map fun h =>
                        if h.id = id then { h with closing := true } else h }
      else none
    | .shutdown => some { l with queue := (walk l.queue).queue, aborted := (walk l.queue).aborted }
    | .finish id =>
      if l.isClosing id then some { l with queue := l.queue.filter (·.id ≠ id) } else none

/-- What `shutdown` ought to do: call `uv_close` once on each handle that is not closing, and on no
    other. -/
def CallsExact (l : Loop) : Prop :=
  ∀ h ∈ l.queue, h.internal = false →
    (walk l.queue).calls.count h.id = if h.closing then 0 else 1

/-- No handle that `uv_walk` shows is closing. -/
def NoneClosing (l : Loop) : Prop := ∀ h ∈ l.queue, h.internal = false → h.closing = false

instance (l : Loop) : Decidable (NoneClosing l) := by
  unfold NoneClosing
  infer_instance

/-! ### One walk -/

/-- Numbers are not used twice. -/
structure Numbered (l : Loop) : Prop where
  nodup : (l.queue.map Handle.id).Nodup
  lt : ∀ h ∈ l.queue, h.id < l.size

/-- Where no handle is closing, `uv_close` is called on all of them. -/
theorem calls_walk {queue : List Handle} (h : ∀ x ∈ queue, x.internal = false → x.closing = false) :
    (walk queue).calls = (queue.filter fun x => !x.internal).map Handle.id ∧
      (walk queue).aborted = false := by
  induction queue with
  | nil => exact ⟨rfl, rfl⟩
  | cons x queue ih =>
    obtain ⟨hcalls, habort⟩ := ih fun y hy => h y (List.mem_cons_of_mem x hy)
    cases hint : x.internal with
    | true => simp [walk, hint, hcalls, habort]
    | false =>
      have hopen := h x List.mem_cons_self hint
      simp [walk, uvClose, hint, hopen, hcalls, habort]

/-- Otherwise it is called on a closing one, and its assertion fails. -/
theorem calls_walk_of_closing {queue : List Handle} {x : Handle} (hx : x ∈ queue)
    (hint : x.internal = false) (hclosing : x.closing = true) :
    (walk queue).aborted = true ∧
      ∃ y ∈ queue, y.internal = false ∧ y.closing = true ∧ y.id ∈ (walk queue).calls := by
  induction queue with
  | nil => cases hx
  | cons z queue ih =>
    -- the walk ends at the first one that is closing
    by_cases hz : z.internal = false ∧ z.closing = true
    · have hwalk : walk (z :: queue) = ⟨z :: queue, [z.id], true⟩ := by
        simp [walk, uvClose, hz.1, hz.2]
      rw [hwalk]
      exact ⟨rfl, z, List.mem_cons_self, hz.1, hz.2, List.mem_singleton_self _⟩
    · have hne : x ≠ z := by
        rintro rfl
        exact hz ⟨hint, hclosing⟩
      obtain ⟨habort, y, hy, hyint, hyclosing, hcall⟩ := ih ((List.mem_cons.mp hx).resolve_left hne)
      cases hzint : z.internal with
      | true =>
        have hwalk : walk (z :: queue) = { walk queue with queue := z :: (walk queue).queue } := by
          simp [walk, hzint]
        rw [hwalk]
        exact ⟨habort, y, List.mem_cons_of_mem z hy, hyint, hyclosing, hcall⟩
      | false =>
        have hzopen : z.closing = false := by
          cases hzc : z.closing with
          | true => exact absurd ⟨hzint, hzc⟩ hz
          | false => rfl
        have hcalls : (walk (z :: queue)).calls = z.id :: (walk queue).calls ∧
            (walk (z :: queue)).aborted = (walk queue).aborted := by
          simp [walk, uvClose, hzint, hzopen]
        rw [hcalls.1, hcalls.2]
        exact ⟨habort, y, List.mem_cons_of_mem z hy, hyint, hyclosing, List.mem_cons_of_mem _ hcall⟩

/-- **One call of `shutdown`** closes each handle that is not closing once, and no other, exactly
    when none is closing. -/
theorem calls_exact_iff {l : Loop} (hl : Numbered l) : CallsExact l ↔ NoneClosing l := by
  constructor
  · intro hexact x hx hint
    by_contra hclosing
    have hclosing : x.closing = true := by simpa using hclosing
    obtain ⟨-, y, hy, hyint, hyclosing, hcall⟩ := calls_walk_of_closing hx hint hclosing
    -- `y` should not have been closed, but was
    have hcount := hexact y hy hyint
    rw [if_pos hyclosing, List.count_eq_zero] at hcount
    exact hcount hcall
  · intro hnone x hx hint
    have hsub : ((l.queue.filter fun y => !y.internal).map Handle.id).Nodup :=
      hl.nodup.sublist (List.filter_sublist.map _)
    rw [(calls_walk hnone).1, hnone x hx hint]
    refine List.count_eq_one_of_mem hsub (List.mem_map_of_mem ?_)
    rw [List.mem_filter, hint]
    exact ⟨hx, rfl⟩

/-! ### Runs -/

/-- A walk keeps the handles, in their order. -/
theorem map_id_walk (queue : List Handle) :
    (walk queue).queue.map Handle.id = queue.map Handle.id := by
  induction queue with
  | nil => rfl
  | cons h queue ih =>
    unfold walk uvClose
    split_ifs
    · simp [ih]
    · rfl
    · simp [ih]

/-- The numbers of the handles are all that `Numbered` looks at. -/
private theorem numbered_congr {l l' : Loop} (hl : Numbered l) (hsize : l.size ≤ l'.size)
    (hids : (l'.queue.map Handle.id).Sublist (l.queue.map Handle.id)) : Numbered l' := by
  refine ⟨hl.nodup.sublist hids, fun h hh => ?_⟩
  obtain ⟨h', hh', heq⟩ := List.mem_map.mp (hids.subset (List.mem_map_of_mem hh))
  have := hl.lt h' hh'
  omega

/-- Every step keeps the numbers apart. -/
theorem Numbered.step {l l' : Loop} {a : Action} (hl : Numbered l)
    (h : Shutdown.step l a = some l') : Numbered l' := by
  obtain ⟨-, h⟩ := Option.ite_none_left_eq_some.mp h
  cases a with
  | init internal =>
    cases h
    refine ⟨?_, fun x hx => ?_⟩
    · rw [List.map_append, List.nodup_append]
      refine ⟨hl.nodup, List.nodup_singleton _, ?_⟩
      -- the numbers so far are below the new one
      rintro i hi j hj rfl
      obtain ⟨x, hx, rfl⟩ := List.mem_map.mp hi
      have hlt := hl.lt x hx
      have heq : x.id = l.size := List.mem_singleton.mp hj
      omega
    · show x.id < l.size + 1
      rcases List.mem_append.mp hx with hx | hx
      · have := hl.lt x hx
        omega
      · rw [List.mem_singleton.mp hx]
        exact Nat.lt_succ_self _
  | close id =>
    obtain ⟨-, h⟩ := Option.ite_none_right_eq_some.mp h
    cases h
    have hids : (l.queue.map fun h => if h.id = id then { h with closing := true } else h).map
        Handle.id = l.queue.map Handle.id := by
      rw [List.map_map]
      refine List.map_congr_left fun x _ => ?_
      show Handle.id (if x.id = id then _ else _) = _
      split <;> rfl
    exact numbered_congr hl (Nat.le_refl _) (hids ▸ List.Sublist.refl _)
  | shutdown =>
    cases h
    exact numbered_congr hl (Nat.le_refl _) (map_id_walk l.queue ▸ List.Sublist.refl _)
  | finish id =>
    obtain ⟨-, h⟩ := Option.ite_none_right_eq_some.mp h
    cases h
    exact numbered_congr hl (Nat.le_refl _) (List.filter_sublist.map _)

/-- **Every call of `shutdown` in a run** closes each handle that is not closing once, and no
    other, exactly when none is closing whenever it is called. -/
theorem shutdowns_exact_iff_along (as : List Action) :
    (∀ bs cs l, as = bs ++ .shutdown :: cs → run step {} bs = some l → CallsExact l) ↔
      Along step (fun l a => a = .shutdown → NoneClosing l) {} as := by
  have hstart : Numbered {} := ⟨List.nodup_nil, fun h hh => absurd hh List.not_mem_nil⟩
  have hnumbered : ∀ bs l, run step {} bs = some l → Numbered l := fun bs l hrun =>
    run_invariant (fun _ _ _ hl hstep => Numbered.step hl hstep) hstart hrun
  rw [along_iff_forall]
  constructor
  · rintro h bs a cs l heq hrun rfl
    exact (calls_exact_iff (hnumbered bs l hrun)).mp (h bs cs l heq hrun)
  · exact fun h bs cs l heq hrun =>
      (calls_exact_iff (hnumbered bs l hrun)).mpr (h bs _ cs l heq hrun rfl)

/-- **A handle whose owner has just closed it** is passed to `uv_close` again, which aborts. -/
theorem not_shutdowns_exact :
    ¬ ∀ (as bs cs : List Action) (l : Loop), as = bs ++ .shutdown :: cs →
      run step {} bs = some l → CallsExact l := by
  intro h
  have hexact := h [.init false, .close 0, .shutdown] [.init false, .close 0] []
    ⟨[⟨0, true, false⟩], 1, false⟩ rfl rfl
  exact absurd (hexact ⟨0, true, false⟩ List.mem_cons_self rfl) (by decide)

end Dv8.Shutdown
