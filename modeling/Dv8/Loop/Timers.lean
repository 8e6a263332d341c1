import Dv8.Lib.Machine

namespace Dv8.Loop

open Dv8.Lib

/-!
# `setTimeout`, `setInterval` and `clearTimeout`

A timer is closed in two places that know nothing of each other: behind the callback of a
one-shot timer, and in `clearTimeout`.  Both call `uv_close`, which asserts that the handle is
not closing; the close callback frees the handle.

`timers_closed_once_iff` says which runs close every timer as they should: those in which a
timer is cleared only while it is open, and a one-shot callback leaves its timer to the other
of the two places.
-/

/-- The two kinds of timers `main.js` makes. -/
inductive Kind where
  | timeout
  | interval
  deriving DecidableEq, Repr

/-- A `Timer` and its handle.  The last three fields record what has been done to it:
    `uv_close` calls, an operation on a handle that was closing, and a call of its callback. -/
structure Timer where
  kind : Kind
  repeatMs : Nat
  active : Bool
  closing : Bool
  closes : Nat
  usedAfterClose : Bool
  fired : Bool
  deriving DecidableEq, Repr

/-- `Timer::New` and `Timer::Start`. -/
def Timer.start (kind : Kind) (repeatMs : Nat) : Timer :=
  { kind := kind, repeatMs := repeatMs, active := true, closing := false, closes := 0,
    usedAfterClose := false, fired := false }

/-- `Timer::Stop` -/
def Timer.stop (t : Timer) : Timer :=
  { t with active := false, usedAfterClose := t.usedAfterClose || t.closing }

/-- `Timer::Close` -/
def Timer.close (t : Timer) : Timer :=
  { t with active := false, closing := true, closes := t.closes + 1,
           usedAfterClose := t.usedAfterClose || t.closing }

/-- `clearTimeout`, which is `clearInterval` too. -/
def clearTimeout (t : Timer) : Timer := t.stop.close

/-- `uv__run_timers` up to the callback: the timer is stopped, and started again if it repeats. -/
def Timer.fire (t : Timer) : Timer :=
  { t with active := decide (t.repeatMs ≠ 0), fired := true }

/-- All timers, and the one whose callback is running. -/
structure Timers where
  timers : List Timer
  current : Option Nat
  deriving DecidableEq, Repr

/-- Before the first timer. -/
def Timers.init : Timers := ⟨[], none⟩

/-- What a program and the event loop can do: make a timer, clear one, fire one, and return from or
    throw in the callback that is running. -/
inductive Op where
  | setTimeout
  | setInterval (repeatMs : Nat)
  | clear (i : Nat)
  | fire (i : Nat)
  | ret
  | throw
  deriving DecidableEq, Repr

/-- The wrapper of `setTimeout` closes its timer behind `fn`. -/
def Timer.closeAfter (t : Timer) : Timer :=
  match t.kind with
  | .timeout => t.close
  | .interval => t

/-- The transitions.  A program can make and clear timers at any time; callbacks run one at a
    time, in any order. -/
def Timers.step (s : Timers) : Op → Option Timers
  | .setTimeout => some { s with timers := s.timers ++ [.start .timeout 0] }
  | .setInterval repeatMs => some { s with timers := s.timers ++ [.start .interval repeatMs] }
  | .clear i =>
    if i < s.timers.length then some { s with timers := s.timers.modify i clearTimeout } else none
  | .fire i =>
    if s.current = none ∧ s.timers[i]?.any (·.active) then
      some ⟨s.timers.modify i .fire, some i⟩
    else none
  | .ret => s.current.map fun i => ⟨s.timers.modify i .closeAfter, none⟩
  | .throw => s.current.map fun _ => ⟨s.timers, none⟩

/-! ### What should hold, and when it does -/

/-- A handle is closed at most once and then left alone; a one-shot timer that has fired, and
    whose callback is over, is closed. -/
structure Timer.Proper (t : Timer) (running : Prop) : Prop where
  once : t.closes ≤ 1
  unused : t.usedAfterClose = false
  closed : t.kind = .timeout → t.fired = true → ¬ running → t.closes = 1

/-- Every timer is as it should be. -/
def Timers.Proper (s : Timers) : Prop :=
  ∀ (i : Nat) (t : Timer), s.timers[i]? = some t → t.Proper (s.current = some i)

/-- Timer `i` is open: nothing has closed it yet. -/
def Timers.isOpen (s : Timers) (i : Nat) : Bool := s.timers[i]?.any fun t => !t.closing

/-- Timer `i` is a one-shot timer. -/
def Timers.isTimeout (s : Timers) (i : Nat) : Bool :=
  s.timers[i]?.any fun t => t.kind = .timeout

/-- A timer is cleared while it is open.  A one-shot callback that returns has not cleared its
    own timer, and one that throws has. -/
def Timers.Clean (s : Timers) : Op → Prop
  | .clear i => s.isOpen i = true
  | .ret => ∀ i, s.current = some i → s.isTimeout i = true → s.isOpen i = true
  | .throw => ∀ i, s.current = some i → s.isTimeout i = true → s.isOpen i = false
  | _ => True

/-- What every step keeps, whether it is clean or not. -/
structure Timers.Sane (s : Timers) : Prop where
  closing : ∀ (i : Nat) (t : Timer), s.timers[i]? = some t → (t.closing = true ↔ 1 ≤ t.closes)
  current : ∀ i, s.current = some i → ∃ t, s.timers[i]? = some t ∧ t.fired = true

variable {s s' : Timers}

/-- A timer of a modified list. -/
theorem exists_of_modify {ts : List Timer} {i j : Nat} {f : Timer → Timer} {t' : Timer}
    (h : (ts.modify i f)[j]? = some t') :
    ∃ t, ts[j]? = some t ∧ t' = if i = j then f t else t := by
  rw [List.getElem?_modify, Option.map_eq_map, Option.map_eq_some_iff] at h
  obtain ⟨t, ht, heq⟩ := h
  exact ⟨t, ht, heq.symm⟩

/-- `f` keeps the count of `uv_close` calls right, and what has fired. -/
structure Keeps (f : Timer → Timer) : Prop where
  closing : ∀ t : Timer, (t.closing = true ↔ 1 ≤ t.closes) →
    ((f t).closing = true ↔ 1 ≤ (f t).closes)
  fired : ∀ t : Timer, t.fired = true → (f t).fired = true

theorem keeps_clearTimeout : Keeps clearTimeout where
  closing t _ := by simp [clearTimeout, Timer.close]
  fired t h := h

theorem keeps_closeAfter : Keeps Timer.closeAfter where
  closing t h := by
    unfold Timer.closeAfter
    split
    · simp [Timer.close]
    · exact h
  fired t h := by
    unfold Timer.closeAfter
    split <;> exact h

theorem keeps_fire : Keeps Timer.fire where
  closing _ h := h
  fired _ _ := rfl

theorem Timers.Sane.modify (h : s.Sane) (i : Nat) {f : Timer → Timer} (hf : Keeps f) :
    Timers.Sane { s with timers := s.timers.modify i f } where
  closing j t' ht' := by
    obtain ⟨t, ht, rfl⟩ := exists_of_modify ht'
    split
    · exact hf.closing t (h.closing j t ht)
    · exact h.closing j t ht
  current j hj := by
    obtain ⟨t, ht, hfired⟩ := h.current j hj
    refine ⟨if i = j then f t else t, ?_, ?_⟩
    · simp [List.getElem?_modify, ht]
    · split
      · exact hf.fired t hfired
      · exact hfired

theorem Timers.Sane.idle (h : s.Sane) : Timers.Sane { s with current := none } :=
  ⟨h.closing, fun _ hi => by contradiction⟩

theorem Timers.Sane.new (h : s.Sane) (kind : Kind) (repeatMs : Nat) :
    Timers.Sane { s with timers := s.timers ++ [.start kind repeatMs] } where
  closing i t ht := by
    rw [List.getElem?_append] at ht
    split at ht
    · exact h.closing i t ht
    · rw [List.getElem?_singleton] at ht
      split at ht
      · cases ht
        simp [Timer.start]
      · contradiction
  current i hi := by
    obtain ⟨t, ht, hfired⟩ := h.current i hi
    obtain ⟨hlt, -⟩ := List.getElem?_eq_some_iff.mp ht
    exact ⟨t, by rw [List.getElem?_append_left hlt, ht], hfired⟩

theorem Timers.Sane.step {a : Op} (h : s.Sane) (hs : s.step a = some s') : s'.Sane := by
  cases a with
  | setTimeout =>
    cases hs
    exact h.new _ _
  | setInterval repeatMs =>
    cases hs
    exact h.new _ _
  | clear i =>
    simp only [Timers.step] at hs
    split at hs
    · cases hs
      exact h.modify i keeps_clearTimeout
    · contradiction
  | fire i =>
    simp only [Timers.step] at hs
    split at hs
    · rename_i hc
      cases hs
      have hmod := h.modify i keeps_fire
      -- the timer whose callback runs is there
      obtain ⟨t, ht, -⟩ := (Option.any_eq_true _ _).mp hc.2
      refine ⟨hmod.closing, fun j hj => ?_⟩
      cases hj
      exact ⟨t.fire, by simp [ht], rfl⟩
    · contradiction
  | ret =>
    simp only [Timers.step, Option.map_eq_some_iff] at hs
    obtain ⟨i, -, rfl⟩ := hs
    exact (h.modify i keeps_closeAfter).idle
  | throw =>
    simp only [Timers.step, Option.map_eq_some_iff] at hs
    obtain ⟨i, -, rfl⟩ := hs
    exact h.idle

/-! ### Steps and runs -/

/-- A step that changes timer `i` alone leaves every timer proper exactly when it leaves that one
    so. -/
theorem Timers.Proper.modify_iff (h : s.Proper) {i : Nat} {f : Timer → Timer} {current : Option Nat}
    (hcurrent : ∀ j, j ≠ i → (s.current = some j ↔ current = some j)) :
    Timers.Proper ⟨s.timers.modify i f, current⟩ ↔
      ∀ t, s.timers[i]? = some t → (f t).Proper (current = some i) := by
  constructor
  · intro hp t ht
    exact hp i (f t) (by simp [ht])
  · intro hp j t' ht'
    obtain ⟨t, ht, rfl⟩ := exists_of_modify ht'
    by_cases hij : i = j
    · subst hij
      rw [if_pos rfl]
      exact hp t ht
    · rw [if_neg hij]
      have hold := h j t ht
      exact ⟨hold.once, hold.unused,
        fun hkind hfired hrun => hold.closed hkind hfired (by rwa [hcurrent j (Ne.symm hij)])⟩

/-- A proper timer is closed by one more call exactly when it is open. -/
theorem Timer.Proper.close_iff {t t' : Timer} {running running' : Prop} (h : t.Proper running)
    (hclosing : t.closing = true ↔ 1 ≤ t.closes) (hcloses : t'.closes = t.closes + 1)
    (hused : t'.usedAfterClose = (t.usedAfterClose || t.closing)) :
    t'.Proper running' ↔ t.closing = false := by
  constructor
  · intro hp
    have hunused := hp.unused
    rw [hused, Bool.or_eq_false_iff] at hunused
    exact hunused.2
  · intro hopen
    have hzero : t.closes = 0 := by
      by_contra hne
      have hclosed := hclosing.mpr (by omega)
      rw [hopen] at hclosed
      contradiction
    refine ⟨by omega, ?_, fun _ _ _ => by omega⟩
    rw [hused, h.unused, hopen]
    rfl

theorem Timers.isOpen_eq_true {i : Nat} {t : Timer} (ht : s.timers[i]? = some t) :
    s.isOpen i = true ↔ t.closing = false := by
  simp [Timers.isOpen, ht]

theorem Timers.isTimeout_eq_true {i : Nat} {t : Timer} (ht : s.timers[i]? = some t) :
    s.isTimeout i = true ↔ t.kind = .timeout := by
  simp [Timers.isTimeout, ht]

/-- A new timer is proper and changes no other. -/
theorem Timers.Proper.new (h : s.Proper) (kind : Kind) (repeatMs : Nat) :
    Timers.Proper { s with timers := s.timers ++ [.start kind repeatMs] } := by
  intro i t ht
  rw [List.getElem?_append] at ht
  split at ht
  · exact h i t ht
  · rw [List.getElem?_singleton] at ht
    split at ht
    · cases ht
      exact ⟨Nat.zero_le 1, rfl, fun _ hfired => by simp [Timer.start] at hfired⟩
    · contradiction

theorem Timers.Proper.fire (h : s.Proper) {i : Nat} (hidle : s.current = none) :
    Timers.Proper ⟨s.timers.modify i .fire, some i⟩ := by
  refine (h.modify_iff fun j hj => ?_).mpr fun t ht => ?_
  · rw [hidle]
    simpa using Ne.symm hj
  · have hold := h i t ht
    exact ⟨hold.once, hold.unused, fun _ _ hrun => absurd rfl hrun⟩

theorem Timers.Proper.clear_iff (hs : s.Sane) (h : s.Proper) {i : Nat} (hi : i < s.timers.length) :
    Timers.Proper { s with timers := s.timers.modify i clearTimeout } ↔ s.isOpen i = true := by
  have ht : s.timers[i]? = some s.timers[i] := List.getElem?_eq_getElem hi
  have hclose : (clearTimeout s.timers[i]).Proper (s.current = some i) ↔
      s.timers[i].closing = false :=
    (h i _ ht).close_iff (hs.closing i _ ht) rfl (by simp [clearTimeout, Timer.stop, Timer.close])
  rw [h.modify_iff fun j _ => Iff.rfl, Timers.isOpen_eq_true ht, ← hclose]
  simp [ht]

/-- A callback that returns: the wrapper of `setTimeout` closes a timer that must still be open. -/
theorem Timers.Proper.ret_iff (hs : s.Sane) (h : s.Proper) {i : Nat} (hi : s.current = some i) :
    Timers.Proper ⟨s.timers.modify i .closeAfter, none⟩ ↔
      (s.isTimeout i = true → s.isOpen i = true) := by
  obtain ⟨t, ht, -⟩ := hs.current i hi
  have hold := h i t ht
  have hcurrent : ∀ j, j ≠ i → (s.current = some j ↔ none = some j) := fun j hj => by
    simpa [hi] using Ne.symm hj
  rw [h.modify_iff hcurrent, Timers.isOpen_eq_true ht, Timers.isTimeout_eq_true ht]
  cases hkind : t.kind with
  | timeout =>
    have hclose : t.closeAfter.Proper (none = some i) ↔ t.closing = false := by
      apply hold.close_iff (hs.closing i t ht)
      · simp [Timer.closeAfter, hkind, Timer.close]
      · simp [Timer.closeAfter, hkind, Timer.close]
    rw [← hclose]
    simp [ht]
  | interval =>
    -- the wrapper is the callback itself
    have hsame : t.closeAfter = t := by simp [Timer.closeAfter, hkind]
    have hproper : t.Proper False :=
      ⟨hold.once, hold.unused, fun hk _ _ => by rw [hkind] at hk; contradiction⟩
    simp [ht, hsame, hproper]

/-- A callback that throws skips the `close` of the wrapper: a one-shot timer must be closed
    already. -/
theorem Timers.Proper.throw_iff (hs : s.Sane) (h : s.Proper) {i : Nat} (hi : s.current = some i) :
    Timers.Proper ⟨s.timers, none⟩ ↔ (s.isTimeout i = true → s.isOpen i = false) := by
  obtain ⟨t, ht, hfired⟩ := hs.current i hi
  have hold := h i t ht
  have hcurrent : ∀ j, j ≠ i → (s.current = some j ↔ none = some j) := fun j hj => by
    simpa [hi] using Ne.symm hj
  have hiff := h.modify_iff (f := id) hcurrent
  rw [List.modify_id] at hiff
  rw [hiff, Timers.isTimeout_eq_true ht, ← Bool.not_eq_true, Timers.isOpen_eq_true ht,
    Bool.not_eq_false, hs.closing i t ht]
  constructor
  · intro hp hkind
    have hclosed := (hp t ht).closed hkind hfired (by simp)
    exact Nat.le_of_eq hclosed.symm
  · intro hp t' ht'
    rw [ht] at ht'
    cases ht'
    exact ⟨hold.once, hold.unused, fun hkind _ _ => Nat.le_antisymm hold.once (hp hkind)⟩

/-- **A step keeps every timer proper exactly when it is clean.** -/
theorem Timers.step_proper_iff {a : Op} (hsane : s.Sane) (h : s.Proper)
    (hs : s.step a = some s') : s'.Proper ↔ s.Clean a := by
  cases a with
  | setTimeout =>
    cases hs
    exact ⟨fun _ => trivial, fun _ => h.new _ _⟩
  | setInterval repeatMs =>
    cases hs
    exact ⟨fun _ => trivial, fun _ => h.new _ _⟩
  | clear i =>
    simp only [Timers.step] at hs
    split at hs
    · rename_i hi
      cases hs
      exact h.clear_iff hsane hi
    · contradiction
  | fire i =>
    simp only [Timers.step] at hs
    split at hs
    · rename_i hc
      cases hs
      exact ⟨fun _ => trivial, fun _ => h.fire hc.1⟩
    · contradiction
  | ret =>
    simp only [Timers.step, Option.map_eq_some_iff] at hs
    obtain ⟨i, hi, rfl⟩ := hs
    rw [h.ret_iff hsane hi]
    simp [Timers.Clean, hi]
  | throw =>
    simp only [Timers.step, Option.map_eq_some_iff] at hs
    obtain ⟨i, hi, rfl⟩ := hs
    rw [h.throw_iff hsane hi]
    simp [Timers.Clean, hi]

theorem Timers.sane_init : Timers.Sane .init :=
  ⟨fun i t ht => by simp [Timers.init] at ht, fun i hi => by simp [Timers.init] at hi⟩

theorem Timers.proper_init : Timers.Proper .init := fun i t ht => by simp [Timers.init] at ht

/-- **Timers are closed once** all along a run exactly when each of its steps is clean. -/
theorem timers_closed_once_iff {as : List Op} (h : run Timers.step .init as = some s) :
    (∀ bs cs u, as = bs ++ cs → run Timers.step .init bs = some u → u.Proper) ↔
      Along Timers.step Timers.Clean .init as :=
  forall_prefix_iff_along (I := Timers.Sane)
    (fun _ _ _ hsane hp hs => ⟨hsane.step hs, Timers.step_proper_iff hsane hp hs⟩)
    Timers.sane_init Timers.proper_init h

instance (s : Timers) (a : Op) : Decidable (s.Clean a) := by
  cases a <;> unfold Timers.Clean <;> infer_instance

/-- A one-shot timer runs out, and an interval fires twice before it is cleared. -/
theorem timers_closed_once_two :
    ∃ s, run Timers.step .init
        [.setTimeout, .setInterval 10, .fire 1, .ret, .fire 0, .ret, .fire 1, .clear 1, .ret] =
      some s ∧ s.Proper := by
  obtain ⟨s, hs⟩ : ∃ s, run Timers.step .init
      [.setTimeout, .setInterval 10, .fire 1, .ret, .fire 0, .ret, .fire 1, .clear 1, .ret] =
    some s := ⟨_, rfl⟩
  exact ⟨s, hs, (timers_closed_once_iff hs).mpr (by decide) _ [] s (by simp) hs⟩

/-- A one-shot callback that clears its own timer: the wrapper closes the handle again. -/
theorem timers_closed_twice :
    ∃ s, run Timers.step .init [.setTimeout, .fire 0, .clear 0, .ret] = some s ∧ ¬ s.Proper := by
  refine ⟨_, rfl, fun h => ?_⟩
  have hused := (h 0 _ rfl).unused
  contradiction

end Dv8.Loop
