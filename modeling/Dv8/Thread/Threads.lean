import Dv8.Ipc.Parser
import Dv8.Lib.Machine
import Dv8.Thread.StartBlock

namespace Dv8.Thread

open Dv8.Lib Dv8.V8 Dv8.Builtins

/-!
# Threads — from `process.spawn` to `onComplete`

The main thread numbers the threads it spawns and keeps each of them in `process.threads` until
its completion has been delivered.  What happens in between is spread over `main.js`, which
queues the start, `thread.cc`, whose `start_context` is the body of the worker, and the worker's
own `main.js`.

`on_context_complete` frees `th` and then reads `th->error`; what it reads is taken to be what was
there.  The texts of the report are not modelled, so neither is a reported exception without a
stack trace: `ReportException` leaves `th->error.stack` as `malloc` gave it, and
`on_context_complete` makes a string of it and frees it.

* `Spawned.step` — what can happen to one thread;
* `Threads.step` — spawns, and events of any thread in any order;
* `Sound` — what every step keeps (`Threads.Sound.step`): ids count up from 1, a block holds its
  thread's id, and a thread's calls of `onComplete` follow from its stage.
-/

/-- The context of a worker: its `process` object, `th->error.hasError`, and whether an exception
    has been left uncaught in it so far. -/
structure Context where
  proc : Ipc.Process
  hasError : Bool
  uncaught : Bool
  deriving DecidableEq, Repr

/-- Where a spawned thread is. -/
inductive Stage where
  /-- its function waits in the queue of `process.nextTick` -/
  | queued
  /-- `uv_thread_create` has failed -/
  | failed
  /-- `start_context` has begun -/
  | created
  /-- its `main.js` has read the start-up block -/
  | running (context : Context)
  /-- `start_context` has returned early, without `uv_async_send` -/
  | lost
  /-- `uv_async_send` has been called -/
  | ended (context : Context)
  /-- `on_context_complete` has been called -/
  | completed (context : Context)
  deriving DecidableEq, Repr

/-- A `Thread` object, and the calls of its `onComplete`: was `err` not `null`? -/
structure Spawned where
  id : Nat
  buffer : List UInt8
  stage : Stage
  calls : List Bool
  deriving DecidableEq, Repr

/-- What can happen to a thread. -/
inductive Event where
  /-- `thread.start`, whose result is `r` -/
  | start (r : Int)
  /-- `main.js` is not compiled or not instantiated in the worker -/
  | abort
  /-- the worker's `main.js` reads `process.TID` -/
  | boot
  /-- an exception of a callback goes to `ReportException` -/
  | report
  /-- `module->Evaluate` comes back, with an exception or not -/
  | finish (throws : Bool)
  /-- the main loop runs `on_context_complete` -/
  | complete
  deriving DecidableEq, Repr

/-- One event of a thread; `PID` is the process id. -/
def Spawned.step (PID : Nat) (t : Spawned) : Event → Option Spawned
  | .start r =>
    match t.stage with
    | .queued =>
      if r = 0 then some { t with stage := .created }
      else some { t with stage := .failed, calls := t.calls ++ [true] }
    | _ => none
  | .abort =>
    match t.stage with
    | .created => some { t with stage := .lost }
    | _ => none
  | .boot =>
    match t.stage with
    | .created => (DataView.getUint8 t.buffer 0).map fun TID =>
      { t with stage := .running ⟨⟨TID.toNat, PID⟩, false, false⟩ }
    | _ => none
  | .report =>
    match t.stage with
    | .running c => some { t with stage := .running { c with hasError := true, uncaught := true } }
    | _ => none
  | .finish throws =>
    match t.stage with
    | .running c => some { t with stage := .ended { c with uncaught := c.uncaught || throws } }
    | _ => none
  | .complete =>
    match t.stage with
    | .ended c => some { t with stage := .completed c, calls := t.calls ++ [c.hasError] }
    | _ => none

/-- The counter `next`, all threads spawned so far, and the keys of `process.threads`. -/
structure Threads where
  next : Nat
  spawned : List Spawned
  threads : List Nat
  deriving DecidableEq, Repr

/-- Before the first spawn. -/
def Threads.init : Threads := ⟨1, [], []⟩

/-- A call of `process.spawn`, with the file descriptor of its socket, or an event of the `i`th
    thread. -/
inductive Action where
  | spawn (env : Env) (args : List JsString) (fd : Nat)
  | event (i : Nat) (e : Event)

/-- The transitions.  A `RangeError` leaves `process.spawn` before `next++`. -/
def Threads.step (PID : Nat) (s : Threads) : Action → Option Threads
  | .spawn env args fd =>
    match spawn env args s.next fd with
    | none => some s
    | some buffer =>
      some { next := s.next + 1, spawned := s.spawned ++ [⟨s.next, buffer, .queued, []⟩],
             threads := s.threads ++ [s.next] }
  | .event i e =>
    s.spawned[i]?.bind fun t => (t.step PID e).map fun t' =>
      { s with spawned := s.spawned.set i t',
               threads := if e = .complete then s.threads.filter (· ≠ t.id) else s.threads }

/-! ### The invariant -/

/-- The calls of `onComplete` that a stage stands for. -/
def Stage.calls : Stage → List Bool
  | .failed => [true]
  | .completed c => [c.hasError]
  | _ => []

/-- The context of a worker that has one. -/
def Stage.context : Stage → Option Context
  | .running c | .ended c | .completed c => some c
  | _ => none

/-- `delete threads[thread.id]` has been done. -/
def Stage.deleted : Stage → Bool
  | .completed _ => true
  | _ => false

/-- What is so of a thread at every time. -/
structure Spawned.Sound (PID : Nat) (t : Spawned) : Prop where
  buffer : DataView.getUint8 t.buffer 0 = some (UInt8.ofNat t.id)
  calls : t.calls = t.stage.calls
  proc : ∀ c, t.stage.context = some c → c.proc = ⟨(UInt8.ofNat t.id).toNat, PID⟩
  reported : ∀ c, t.stage.context = some c → c.hasError = true → c.uncaught = true

/-- What every run keeps. -/
structure Threads.Sound (PID : Nat) (s : Threads) : Prop where
  next : s.next = s.spawned.length + 1
  id : ∀ (i : Nat) (t : Spawned), s.spawned[i]? = some t → t.id = i + 1
  thread : ∀ t ∈ s.spawned, t.Sound PID
  threads : ∀ id, id ∈ s.threads ↔ ∃ t ∈ s.spawned, t.id = id ∧ t.stage.deleted = false

variable {PID : Nat} {s s' : Threads} {t t' : Spawned}

/-- The events of a thread by the stages they lead between. -/
inductive Spawned.Moves (PID : Nat) (t : Spawned) : Event → Spawned → Prop
  | start (h : t.stage = .queued) : t.Moves PID (.start 0) { t with stage := .created }
  | fail {r : Int} (h : t.stage = .queued) (hr : r ≠ 0) :
      t.Moves PID (.start r) { t with stage := .failed, calls := t.calls ++ [true] }
  | abort (h : t.stage = .created) : t.Moves PID .abort { t with stage := .lost }
  | boot {TID : UInt8} (h : t.stage = .created) (hTID : DataView.getUint8 t.buffer 0 = some TID) :
      t.Moves PID .boot { t with stage := .running ⟨⟨TID.toNat, PID⟩, false, false⟩ }
  | report {c : Context} (h : t.stage = .running c) :
      t.Moves PID .report { t with stage := .running { c with hasError := true, uncaught := true } }
  | finish {c : Context} {throws : Bool} (h : t.stage = .running c) :
      t.Moves PID (.finish throws)
        { t with stage := .ended { c with uncaught := c.uncaught || throws } }
  | complete {c : Context} (h : t.stage = .ended c) :
      t.Moves PID .complete { t with stage := .completed c, calls := t.calls ++ [c.hasError] }

/-- Every event is one of these. -/
theorem Spawned.moves_of_step {e : Event} (h : t.step PID e = some t') : t.Moves PID e t' := by
  cases e with
  | start r =>
    simp only [Spawned.step] at h
    split at h
    · rename_i hstage
      split at h
      · rename_i hr
        cases hr
        cases h
        exact .start hstage
      · rename_i hr
        cases h
        exact .fail hstage hr
    · contradiction
  | abort =>
    simp only [Spawned.step] at h
    split at h
    · rename_i hstage
      cases h
      exact .abort hstage
    · contradiction
  | boot =>
    simp only [Spawned.step] at h
    split at h
    · rename_i hstage
      obtain ⟨TID, hTID, rfl⟩ := Option.map_eq_some_iff.mp h
      exact .boot hstage hTID
    · contradiction
  | report =>
    simp only [Spawned.step] at h
    split at h
    · rename_i hstage
      cases h
      exact .report hstage
    · contradiction
  | finish throws =>
    simp only [Spawned.step] at h
    split at h
    · rename_i hstage
      cases h
      exact .finish hstage
    · contradiction
  | complete =>
    simp only [Spawned.step] at h
    split at h
    · rename_i hstage
      cases h
      exact .complete hstage
    · contradiction

/-- An event leaves the thread object as it is. -/
theorem Spawned.Moves.frame {e : Event} (h : t.Moves PID e t') :
    t'.id = t.id ∧ t'.buffer = t.buffer := by
  cases h <;> exact ⟨rfl, rfl⟩

/-- Only `on_context_complete` deletes a thread. -/
theorem Spawned.Moves.deleted {e : Event} (h : t.Moves PID e t') :
    t.stage.deleted = false ∧ t'.stage.deleted = decide (e = .complete) := by
  cases h with
  | start h | fail h | abort h | boot h | report h | finish h | complete h =>
    exact ⟨by rw [h]; rfl, rfl⟩

/-- A thread without a context. -/
theorem Spawned.Sound.of_none (hbuffer : DataView.getUint8 t.buffer 0 = some (UInt8.ofNat t.id))
    (hcalls : t.calls = t.stage.calls) (hnone : t.stage.context = none) : t.Sound PID where
  buffer := hbuffer
  calls := hcalls
  proc c hc := by simp [hnone] at hc
  reported c hc := by simp [hnone] at hc

/-- A thread with a context. -/
theorem Spawned.Sound.of_some {c : Context}
    (hbuffer : DataView.getUint8 t.buffer 0 = some (UInt8.ofNat t.id))
    (hcalls : t.calls = t.stage.calls) (hsome : t.stage.context = some c)
    (hproc : c.proc = ⟨(UInt8.ofNat t.id).toNat, PID⟩)
    (hreported : c.hasError = true → c.uncaught = true) : t.Sound PID where
  buffer := hbuffer
  calls := hcalls
  proc c' hc := by
    rw [hsome] at hc
    cases hc
    exact hproc
  reported c' hc := by
    rw [hsome] at hc
    cases hc
    exact hreported

/-- **An event keeps what is so of its thread.** -/
theorem Spawned.Sound.moves {e : Event} (hs : t.Sound PID) (h : t.Moves PID e t') :
    t'.Sound PID := by
  have hcalls := hs.calls
  cases h with
  | start h | abort h =>
    rw [h] at hcalls
    exact .of_none hs.buffer hcalls rfl
  | fail h hr =>
    rw [h] at hcalls
    exact .of_none hs.buffer (by simp [hcalls, Stage.calls]) rfl
  | boot h hTID =>
    rw [h] at hcalls
    rw [hs.buffer, Option.some.injEq] at hTID
    subst hTID
    -- the context reads its TID from the first byte of the block
    exact .of_some hs.buffer hcalls rfl rfl fun herror => herror
  | @report c h =>
    rw [h] at hcalls
    have hcontext : t.stage.context = some c := by rw [h]; rfl
    exact .of_some hs.buffer hcalls rfl (hs.proc c hcontext) fun herror => herror
  | @finish c throws h =>
    rw [h] at hcalls
    have hcontext : t.stage.context = some c := by rw [h]; rfl
    refine .of_some hs.buffer hcalls rfl (hs.proc c hcontext) fun herror => ?_
    simp [hs.reported c hcontext herror]
  | @complete c h =>
    rw [h] at hcalls
    have hcontext : t.stage.context = some c := by rw [h]; rfl
    exact .of_some hs.buffer (by simp [hcalls, Stage.calls]) rfl (hs.proc c hcontext)
      (hs.reported c hcontext)

/-- The block of a thread begins with its id, as far as one byte holds it. -/
theorem getUint8_spawn {env : Env} {args : List JsString} {id fd : Nat} {buffer : List UInt8}
    (h : spawn env args id fd = some buffer) :
    DataView.getUint8 buffer 0 = some (UInt8.ofNat id) := by
  have henv : (stringify env.toJson).length ≤ kMaxLength := by
    by_contra hlong
    rw [spawn, jsonStringify, if_neg hlong] at h
    contradiction
  have hargs : (stringify (argsJson args)).length ≤ kMaxLength := by
    by_contra hlong
    rw [spawn, jsonStringify, if_pos henv, jsonStringify, if_neg hlong] at h
    contradiction
  rw [spawn_eq henv hargs, Option.some.injEq] at h
  rw [← h, blockOf, bigEndian_one]
  rfl

theorem Threads.sound_init : Threads.Sound PID .init where
  next := rfl
  id i t ht := by simp [Threads.init] at ht
  thread t ht := by simp [Threads.init] at ht
  threads id := by simp [Threads.init]

/-- No two threads share an id. -/
theorem Threads.Sound.eq_of_id {u : Spawned} (h : s.Sound PID) (ht : t ∈ s.spawned)
    (hu : u ∈ s.spawned) (hid : t.id = u.id) : t = u := by
  obtain ⟨i, hi⟩ := List.mem_iff_getElem?.mp ht
  obtain ⟨j, hj⟩ := List.mem_iff_getElem?.mp hu
  rw [h.id i t hi, h.id j u hj, Nat.add_right_cancel_iff] at hid
  subst hid
  rw [hi] at hj
  exact Option.some.inj hj

theorem Threads.Sound.spawn (h : s.Sound PID) {buffer : List UInt8}
    (hbuffer : DataView.getUint8 buffer 0 = some (UInt8.ofNat s.next)) :
    Threads.Sound PID { next := s.next + 1, spawned := s.spawned ++ [⟨s.next, buffer, .queued, []⟩],
                        threads := s.threads ++ [s.next] } where
  next := by simp [h.next]
  id i t ht := by
    -- an old thread keeps its place, the new one stands behind all of them
    rw [List.getElem?_append] at ht
    split at ht
    · exact h.id i t ht
    · rw [List.getElem?_singleton] at ht
      split at ht
      · cases ht
        have hnext := h.next
        show s.next = i + 1
        omega
      · contradiction
  thread t ht := by
    rcases List.mem_append.mp ht with ht | ht
    · exact h.thread t ht
    · rw [List.mem_singleton.mp ht]
      exact .of_none hbuffer rfl rfl
  threads id := by
    simp only [List.mem_append, List.mem_singleton, h.threads]
    constructor
    · rintro (⟨t, ht, hid⟩ | rfl)
      · exact ⟨t, .inl ht, hid⟩
      · exact ⟨_, .inr rfl, rfl, rfl⟩
    · rintro ⟨t, ht | rfl, hid, hdeleted⟩
      · exact .inl ⟨t, ht, hid, hdeleted⟩
      · exact .inr hid.symm

/-- The elements of a list with one of them replaced. -/
theorem mem_set_iff {α : Type*} {l : List α} {i : Nat} {x y : α} (hi : i < l.length) :
    x ∈ l.set i y ↔ x = y ∨ ∃ j, j ≠ i ∧ l[j]? = some x := by
  rw [List.mem_iff_getElem?]
  constructor
  · rintro ⟨j, hj⟩
    rw [List.getElem?_set] at hj
    split at hj
    · exact .inl (Option.some.inj hj).symm
    · rename_i hne
      exact .inr ⟨j, Ne.symm hne, hj⟩
  · rintro (rfl | ⟨j, hne, hj⟩)
    · exact ⟨i, by simp [hi]⟩
    · exact ⟨j, by rw [List.getElem?_set_ne (Ne.symm hne), hj]⟩

/-- What is so of all elements stays so when one of them is replaced, if it is so of the new one. -/
theorem forall_mem_set_iff {α : Type*} {P : α → Prop} {l : List α} {i : Nat} {y : α}
    (hi : i < l.length) (h : ∀ x ∈ l, P x) : (∀ x ∈ l.set i y, P x) ↔ P y := by
  constructor
  · exact fun hall => hall y (List.mem_set hi y)
  · intro hy x hx
    rcases (mem_set_iff hi).mp hx with rfl | ⟨j, -, hj⟩
    · exact hy
    · exact h x (List.mem_of_getElem? hj)

/-- An event deletes its own thread from `process.threads`, and only if it is the completion. -/
theorem Threads.Sound.undeleted_event_iff (h : s.Sound PID) {i : Nat} {e : Event}
    (ht : s.spawned[i]? = some t) (hmove : t.Moves PID e t') (id : Nat) :
    (∃ u ∈ s.spawned.set i t', u.id = id ∧ u.stage.deleted = false) ↔
      id ∈ s.threads ∧ ¬ (e = .complete ∧ id = t.id) := by
  obtain ⟨hi, -⟩ := List.getElem?_eq_some_iff.mp ht
  have hmem : t ∈ s.spawned := List.mem_of_getElem? ht
  obtain ⟨hold, hnew⟩ := hmove.deleted
  rw [h.threads]
  constructor
  · rintro ⟨u, hu, rfl, hdeleted⟩
    rcases (mem_set_iff hi).mp hu with rfl | ⟨j, hne, hj⟩
    · rw [hnew, decide_eq_false_iff_not] at hdeleted
      exact ⟨⟨t, hmem, hmove.frame.1.symm, hold⟩, fun hcomplete => hdeleted hcomplete.1⟩
    · -- the other threads have other ids
      refine ⟨⟨u, List.mem_of_getElem? hj, rfl, hdeleted⟩, fun hcomplete => hne ?_⟩
      have hid := hcomplete.2
      rw [h.id j u hj, h.id i t ht] at hid
      omega
  · rintro ⟨⟨u, hu, rfl, hdeleted⟩, hnot⟩
    obtain ⟨j, hj⟩ := List.mem_iff_getElem?.mp hu
    by_cases hij : j = i
    · subst hij
      obtain rfl := Option.some.inj (ht.symm.trans hj)
      refine ⟨t', List.mem_set hi t', hmove.frame.1, ?_⟩
      rw [hnew, decide_eq_false_iff_not]
      exact fun he => hnot ⟨he, rfl⟩
    · exact ⟨u, (mem_set_iff hi).mpr (.inr ⟨j, hij, hj⟩), rfl, hdeleted⟩

theorem Threads.Sound.event (h : s.Sound PID) {i : Nat} {e : Event} (ht : s.spawned[i]? = some t)
    (hmove : t.Moves PID e t') :
    Threads.Sound PID { s with spawned := s.spawned.set i t',
                               threads := if e = .complete then s.threads.filter (· ≠ t.id)
                                          else s.threads } := by
  obtain ⟨hi, -⟩ := List.getElem?_eq_some_iff.mp ht
  have hmem : t ∈ s.spawned := List.mem_of_getElem? ht
  constructor
  · simp [h.next]
  · intro j u hu
    simp only [List.getElem?_set] at hu
    split at hu
    · rename_i hij
      subst hij
      cases hu
      rw [hmove.frame.1, h.id i t ht]
    · exact h.id j u hu
  · exact (forall_mem_set_iff hi h.thread).mpr ((h.thread t hmem).moves hmove)
  · intro id
    rw [h.undeleted_event_iff ht hmove id]
    by_cases he : e = .complete
    · simp [he, List.mem_filter]
    · simp [he]

/-- What a step of the whole can be. -/
theorem Threads.step_cases {a : Action} (h : s.step PID a = some s') :
    (∃ env args fd, a = .spawn env args fd ∧ (s' = s ∨ ∃ buffer,
      spawn env args s.next fd = some buffer ∧
        s' = { next := s.next + 1, spawned := s.spawned ++ [⟨s.next, buffer, .queued, []⟩],
               threads := s.threads ++ [s.next] })) ∨
    ∃ i e t t', a = .event i e ∧ s.spawned[i]? = some t ∧ t.Moves PID e t' ∧
      s' = { s with spawned := s.spawned.set i t',
                    threads := if e = .complete then s.threads.filter (· ≠ t.id)
                               else s.threads } := by
  cases a with
  | spawn env args fd =>
    refine .inl ⟨env, args, fd, rfl, ?_⟩
    simp only [Threads.step] at h
    split at h
    · cases h
      exact .inl rfl
    · rename_i buffer hbuffer
      cases h
      exact .inr ⟨buffer, hbuffer, rfl⟩
  | event i e =>
    simp only [Threads.step, Option.bind_eq_some_iff, Option.map_eq_some_iff] at h
    obtain ⟨t, ht, t', hstep, rfl⟩ := h
    exact .inr ⟨i, e, t, t', rfl, ht, Spawned.moves_of_step hstep, rfl⟩

/-- **Every step keeps the invariant.** -/
theorem Threads.Sound.step {a : Action} (h : s.Sound PID) (hs : s.step PID a = some s') :
    s'.Sound PID := by
  obtain ⟨env, args, fd, rfl, rfl | ⟨buffer, hbuffer, rfl⟩⟩ | ⟨i, e, t, t', rfl, ht, hmove, rfl⟩ :=
    Threads.step_cases hs
  · exact h
  · exact h.spawn (getUint8_spawn hbuffer)
  · exact h.event ht hmove

end Dv8.Thread
