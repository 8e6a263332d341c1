import Dv8.Lib.Machine

namespace Dv8.Loop

open Dv8.Lib

/-!
# `process.nextTick`

Functions are queued in JavaScript and called by an idle callback of the event loop.  Four
pieces of state say whether that callback is due: `idleActive` and the queue in `main.js`,
`callbacks.onIdle` in `EventLoop`, and the idle handle in libuv.

The functions are numbered in the order they are queued in, so that `called ++ queue` lists
all of them (`Tidy.order`).  `nextTick_spec` collects what holds in every state a run reaches.
-/

/-- Where JavaScript is: outside of the idle callback, at the head of its loop with `len`
    functions to go, or inside a queued function. -/
inductive Phase where
  | outside
  | batch (len : Nat)
  | inFunction (len : Nat)
  deriving DecidableEq, Repr

/-- `main.js`, `EventLoop` and the idle handle, and what has happened so far: how many functions
    have been queued, which have been called, and those of the latest batch and of before it. -/
structure Ticker where
  queue : List Nat
  idleActive : Bool
  ticks : Nat
  onIdle : Bool
  handleActive : Bool
  phase : Phase
  queued : Nat
  called : List Nat
  batchCalls : List Nat
  queuedBefore : Nat
  deriving DecidableEq, Repr

/-- Before the first call. -/
def Ticker.init : Ticker :=
  { queue := [], idleActive := false, ticks := 0, onIdle := false, handleActive := false,
    phase := .outside, queued := 0, called := [], batchCalls := [], queuedBefore := 0 }

/-- `EventLoop::OnIdle` with a function: `uv_idle_start` leaves an active handle as it is. -/
def Ticker.startIdle (t : Ticker) : Ticker := { t with handleActive := true, onIdle := true }

/-- `EventLoop::OnIdle` without one. -/
def Ticker.stopIdle (t : Ticker) : Ticker := { t with handleActive := false, onIdle := false }

/-- `queue.push` -/
def Ticker.push (t : Ticker) : Ticker :=
  { t with queue := t.queue ++ [t.queued], queued := t.queued + 1 }

/-- `nextTick` -/
def Ticker.nextTick (t : Ticker) : Ticker :=
  if t.idleActive then t.push else { t.push.startIdle with idleActive := true }

/-- `on_idle`, up to the loop over the queue. -/
def Ticker.onIdleCallback (t : Ticker) : Ticker :=
  if t.onIdle then
    { t with ticks := t.ticks + 1, phase := .batch t.queue.length, batchCalls := [],
             queuedBefore := t.queued }
  else t

/-- An exception leaves the idle callback; `on_idle` reports it. -/
def Ticker.leave (t : Ticker) : Ticker := { t with phase := .outside }

/-- Behind the loop. -/
def Ticker.endBatch (t : Ticker) : Ticker :=
  if t.queue = [] then { { t with idleActive := false }.stopIdle with phase := .outside }
  else t.leave

/-- One turn of the loop, up to the call: `undefined` is not a function. -/
def Ticker.turn (t : Ticker) : Nat → Ticker
  | 0 => t.endBatch
  | len + 1 =>
    match t.queue with
    | [] => t.leave
    | fun_ :: queue =>
      { t with queue := queue, phase := .inFunction len, called := t.called ++ [fun_],
               batchCalls := t.batchCalls ++ [fun_] }

/-- What can happen: JavaScript calls `nextTick`, the event loop runs the idle handle, the loop of
    the callback goes on, and a queued function returns or throws. -/
inductive Action where
  | nextTick | idle | turn | ret | throw
  deriving DecidableEq, Repr

/-- The transitions.  While the loop itself runs there is no user code to call `nextTick`. -/
def step (t : Ticker) : Action → Option Ticker
  | .nextTick =>
    match t.phase with
    | .batch _ => none
    | _ => some t.nextTick
  | .idle => if t.phase = .outside ∧ t.handleActive then some t.onIdleCallback else none
  | .turn =>
    match t.phase with
    | .batch len => some (t.turn len)
    | _ => none
  | .ret =>
    match t.phase with
    | .inFunction len => some { t with phase := .batch len }
    | _ => none
  | .throw =>
    match t.phase with
    | .inFunction _ => some t.leave
    | _ => none

/-! ### The invariant -/

/-- The functions the current batch has still to call. -/
def Phase.left : Phase → Nat
  | .outside => 0
  | .batch len | .inFunction len => len

/-- What every step keeps. -/
structure Tidy (t : Ticker) : Prop where
  order : t.called ++ t.queue = List.range t.queued
  handle : t.handleActive = t.idleActive
  callback : t.onIdle = t.idleActive
  pending : t.queue ≠ [] → t.idleActive = true
  running : t.phase ≠ .outside → t.idleActive = true
  left_le : t.phase.left ≤ t.queue.length
  before : t.phase ≠ .outside → t.called.length + t.phase.left = t.queuedBefore
  batch : ∀ j ∈ t.batchCalls, j < t.queuedBefore

theorem tidy_init : Tidy .init where
  order := rfl
  handle := rfl
  callback := rfl
  pending h := absurd rfl h
  running h := absurd rfl h
  left_le := Nat.le_refl _
  before h := absurd rfl h
  batch j hj := by simp [Ticker.init] at hj

variable {t t' : Ticker}

/-- The function at the head of the queue is the one whose number is the number of calls. -/
theorem Tidy.head_queue (h : Tidy t) {job : Nat} {queue : List Nat}
    (hqueue : t.queue = job :: queue) :
    job = t.called.length := by
  have hget : (List.range t.queued)[t.called.length]? = some job := by
    rw [← h.order, hqueue, List.getElem?_append_right (Nat.le_refl _), Nat.sub_self,
      List.getElem?_cons_zero]
  obtain ⟨_, hjob⟩ := List.getElem?_eq_some_iff.mp hget
  simpa using hjob.symm

theorem Tidy.length_called (h : Tidy t) : t.called.length + t.queue.length = t.queued := by
  rw [← List.length_append, h.order, List.length_range]

theorem Tidy.nextTick (h : Tidy t) : Tidy t.nextTick := by
  have horder : t.called ++ (t.queue ++ [t.queued]) = List.range (t.queued + 1) := by
    rw [← List.append_assoc, h.order, List.range_succ]
  have hlen : t.phase.left ≤ (t.queue ++ [t.queued]).length := by
    simpa using Nat.le_succ_of_le h.left_le
  unfold Ticker.nextTick
  split
  · rename_i hactive
    exact ⟨horder, h.handle, h.callback, fun _ => hactive, fun _ => hactive, hlen, h.before,
      h.batch⟩
  · -- a queue that was empty: the idle handle starts
    exact ⟨horder, rfl, rfl, fun _ => rfl, fun _ => rfl, hlen, h.before, h.batch⟩

theorem Tidy.onIdleCallback (h : Tidy t) (hactive : t.handleActive = true) :
    Tidy t.onIdleCallback := by
  have hon : t.onIdle = true := by rw [h.callback, ← h.handle, hactive]
  have hidle : t.idleActive = true := by rw [← h.handle, hactive]
  unfold Ticker.onIdleCallback
  rw [if_pos hon]
  exact ⟨h.order, h.handle, h.callback, h.pending, fun _ => hidle, Nat.le_refl _,
    fun _ => h.length_called, fun j hj => by simp at hj⟩

theorem Tidy.leave (h : Tidy t) : Tidy t.leave :=
  ⟨h.order, h.handle, h.callback, h.pending, fun hne => absurd rfl hne, Nat.zero_le _,
    fun hne => absurd rfl hne, h.batch⟩

theorem Tidy.ret (h : Tidy t) {len : Nat} (hphase : t.phase = .inFunction len) :
    Tidy { t with phase := .batch len } := by
  have hrunning : t.phase ≠ .outside := by simp [hphase]
  have hleft := h.left_le
  have hbefore := h.before hrunning
  rw [hphase] at hleft hbefore
  exact ⟨h.order, h.handle, h.callback, h.pending, fun _ => h.running hrunning, hleft,
    fun _ => hbefore, h.batch⟩

theorem Tidy.endBatch (h : Tidy t) : Tidy t.endBatch := by
  unfold Ticker.endBatch
  split
  · rename_i hempty
    exact ⟨h.order, rfl, rfl, fun hne => absurd hempty hne, fun hne => absurd rfl hne,
      Nat.zero_le _, fun hne => absurd rfl hne, h.batch⟩
  · exact h.leave

/-- The functions of a batch were there when it began, so the queue does not run out. -/
theorem Tidy.turn (h : Tidy t) {len : Nat} (hphase : t.phase = .batch len) : Tidy (t.turn len) := by
  have hrunning : t.phase ≠ .outside := by simp [hphase]
  have hactive := h.running hrunning
  cases len with
  | zero => exact h.endBatch
  | succ len =>
    have hleft := h.left_le
    have hbefore := h.before hrunning
    have horder := h.order
    rw [hphase] at hleft hbefore
    unfold Ticker.turn
    cases hqueue : t.queue with
    | nil =>
      rw [hqueue] at hleft
      -- the batch is never longer than the queue
      exact absurd hleft (by simp [Phase.left])
    | cons job queue =>
      rw [hqueue] at hleft horder
      refine ⟨?_, h.handle, h.callback, fun _ => hactive, fun _ => hactive, ?_, fun _ => ?_, ?_⟩
      · simpa using horder
      · simpa [Phase.left] using hleft
      · simp only [Phase.left, List.length_append, List.length_singleton] at hbefore ⊢
        omega
      · intro j hj
        rcases List.mem_append.mp hj with hj | hj
        · exact h.batch j hj
        · rw [List.mem_singleton.mp hj, h.head_queue hqueue]
          simp only [Phase.left] at hbefore
          show t.called.length < t.queuedBefore
          omega

/-- **Every step keeps the invariant.** -/
theorem step_tidy {a : Action} (h : Tidy t) (hs : step t a = some t') : Tidy t' := by
  cases a with
  | nextTick =>
    simp only [step] at hs
    split at hs
    · contradiction
    · cases hs
      exact h.nextTick
  | idle =>
    simp only [step] at hs
    split at hs
    · rename_i hc
      cases hs
      exact h.onIdleCallback hc.2
    · contradiction
  | turn =>
    simp only [step] at hs
    split at hs
    · rename_i len hphase
      cases hs
      exact h.turn hphase
    · contradiction
  | ret =>
    simp only [step] at hs
    split at hs
    · rename_i len hphase
      cases hs
      exact h.ret hphase
    · contradiction
  | throw =>
    simp only [step] at hs
    split at hs
    · cases hs
      exact h.leave
    · contradiction

/-! ### Runs -/

/-- What a program can rely on. -/
structure Spec (t : Ticker) : Prop where
  /-- Every function is called at most once. -/
  once : t.called.Nodup
  /-- Functions are called in the order they are queued in, from the first one on. -/
  fifo : t.called.Pairwise (· < ·) ∧ t.called ++ t.queue = List.range t.queued
  /-- A function queued while a batch runs is not called in that batch. -/
  batch : ∀ j ∈ t.batchCalls, j < t.queuedBefore
  /-- Between callbacks the idle handle is active, with a callback, exactly when `idleActive`. -/
  handle : t.phase = .outside →
    ((t.handleActive = true ∧ t.onIdle = true) ↔ t.idleActive = true) ∧
      (t.handleActive = true ↔ t.idleActive = true)
  /-- No function is stranded: the idle callback is due and will find the whole queue. -/
  due : t.phase = .outside → t.queue ≠ [] → t.idleActive = true ∧
    ∃ t', step t .idle = some t' ∧ t'.phase = .batch t.queue.length

theorem Tidy.spec (h : Tidy t) : Spec t where
  once := by
    have hall : (t.called ++ t.queue).Nodup := h.order ▸ List.nodup_range
    exact (List.nodup_append.mp hall).1
  fifo := by
    have hall : (t.called ++ t.queue).Pairwise (· < ·) := h.order ▸ List.pairwise_lt_range
    exact ⟨(List.pairwise_append.mp hall).1, h.order⟩
  batch := h.batch
  handle _ := by
    rw [h.handle, h.callback]
    simp
  due hphase hqueue := by
    have hactive := h.pending hqueue
    have hhandle : t.handleActive = true := h.handle.trans hactive
    have hon : t.onIdle = true := h.callback.trans hactive
    refine ⟨hactive, t.onIdleCallback, if_pos ⟨hphase, hhandle⟩, ?_⟩
    simp [Ticker.onIdleCallback, hon]

/-- **The queue of `nextTick`**: in every state a run reaches, functions have been called once,
    in order, and only from the batch they belong to, and whatever is queued has its idle
    callback due, whether queued functions returned or threw. -/
theorem nextTick_spec {as : List Action} (h : run step .init as = some t) : Spec t :=
  (run_invariant (fun _ _ _ hi hs => step_tidy hi hs) tidy_init h).spec

/-- A function that queues another one and throws: the second one is called in the next batch. -/
theorem nextTick_spec_throw :
    ∃ t, run step .init [.nextTick, .idle, .turn, .nextTick, .throw, .idle, .turn, .ret, .turn] =
      some t ∧ Spec t ∧ t.called = [0, 1] := by
  obtain ⟨t, ht⟩ : ∃ t, run step .init
      [.nextTick, .idle, .turn, .nextTick, .throw, .idle, .turn, .ret, .turn] = some t :=
    ⟨_, rfl⟩
  refine ⟨t, ht, nextTick_spec ht, ?_⟩
  cases ht
  rfl

end Dv8.Loop
