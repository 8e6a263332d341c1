import Dv8.Thread.Threads

namespace Dv8.Thread

open Dv8.Lib

/-!
# What `onComplete` is told

`process.spawn` promises one call of `onComplete` for each thread.  It makes the call itself when
`thread.start` fails, and leaves it to `on_context_complete` otherwise, which takes `err` from
`th->error`.

`settled_iff_along` says in which runs every call is made, tells the truth, and leaves
`process.threads` as it should be: no start fails, no worker fails to compile `main.js`, and a
script that throws does so after an exception has been reported.
-/

variable {PID : Nat} {s s' : Threads} {t t' : Spawned}

/-- A thread is over when it has failed to start, or has ended and no completion is due. -/
def Stage.over : Stage → Bool
  | .failed | .lost | .completed _ => true
  | _ => false

/-- The start has failed, or an exception has not been caught: in the compilation of `main.js`,
    in a callback, or in the worker's script. -/
def Stage.erred : Stage → Bool
  | .failed | .lost => true
  | .running c | .ended c | .completed c => c.uncaught
  | .queued | .created => false

/-- What `onComplete` and `process.threads` tell is so. -/
structure Threads.Settled (s : Threads) : Prop where
  /-- `onComplete` is called once for a thread that is over, and not before. -/
  once : ∀ t ∈ s.spawned, t.calls.length = if t.stage.over then 1 else 0
  /-- `err` is `null` exactly when nothing went wrong. -/
  err : ∀ t ∈ s.spawned, ∀ e ∈ t.calls, e = t.stage.erred
  /-- `process.threads` has the threads that are not over. -/
  registry : ∀ id, id ∈ s.threads ↔ ∃ t ∈ s.spawned, t.id = id ∧ t.stage.over = false

/-- A thread that has ended and is not over has its completion due. -/
theorem Threads.exists_complete {i : Nat} {c : Context} (ht : s.spawned[i]? = some t)
    (hstage : t.stage = .ended c) : ∃ s', s.step PID (.event i .complete) = some s' := by
  simp [Threads.step, ht, Spawned.step, hstage]

/-- The stages a thread can be in when all is well. -/
def Stage.Fine : Stage → Prop
  | .failed | .lost => False
  | .completed c => c.hasError = c.uncaught
  | _ => True

theorem Threads.Settled.fine (hsound : s.Sound PID) (h : s.Settled) (ht : t ∈ s.spawned) :
    t.stage.Fine := by
  have hcalls := (hsound.thread t ht).calls
  cases hstage : t.stage with
  | queued | created | running | ended => trivial
  | failed =>
    -- the thread is still in `process.threads`
    have hkept : t.id ∈ s.threads := (hsound.threads t.id).mpr ⟨t, ht, rfl, by rw [hstage]; rfl⟩
    obtain ⟨u, hu, hid, hover⟩ := (h.registry t.id).mp hkept
    rw [hsound.eq_of_id hu ht hid, hstage] at hover
    contradiction
  | lost =>
    -- nobody has called `onComplete`
    have honce := h.once t ht
    rw [hcalls, hstage] at honce
    contradiction
  | completed c =>
    have herr := h.err t ht c.hasError (by simp [hcalls, hstage, Stage.calls])
    rw [hstage] at herr
    exact herr

/-- **All is well** exactly when no thread has come to a stage where something is amiss. -/
theorem Threads.Sound.settled_iff (h : s.Sound PID) :
    s.Settled ↔ ∀ t ∈ s.spawned, t.stage.Fine := by
  constructor
  · exact fun hsettled t ht => hsettled.fine h ht
  · intro hfine
    constructor
    · intro t ht
      have hcalls := (h.thread t ht).calls
      have hf := hfine t ht
      cases hstage : t.stage with
      | failed | lost =>
        rw [hstage] at hf
        exact hf.elim
      | queued | created | running | ended | completed =>
        rw [hcalls, hstage]
        rfl
    · intro t ht e he
      rw [(h.thread t ht).calls] at he
      have hf := hfine t ht
      cases hstage : t.stage with
      | failed | lost =>
        rw [hstage] at hf
        exact hf.elim
      | completed c =>
        rw [hstage] at he hf
        rw [List.mem_singleton.mp he]
        exact hf
      | queued | created | running | ended =>
        rw [hstage] at he
        contradiction
    · intro id
      rw [h.threads]
      -- a thread is deleted exactly when it is over
      have hsame : ∀ t ∈ s.spawned, t.stage.over = t.stage.deleted := by
        intro t ht
        have hf := hfine t ht
        cases hstage : t.stage with
        | failed | lost =>
          rw [hstage] at hf
          exact hf.elim
        | queued | created | running | ended | completed => rfl
      constructor
      · rintro ⟨t, ht, hid, hdeleted⟩
        exact ⟨t, ht, hid, (hsame t ht).trans hdeleted⟩
      · rintro ⟨t, ht, hid, hover⟩
        exact ⟨t, ht, hid, (hsame t ht).symm.trans hover⟩

/-! ### Runs -/

/-- A thread starts, its worker compiles `main.js`, and when its completion is delivered an
    exception that was not caught has been reported. -/
def Threads.Clean (s : Threads) : Action → Prop
  | .event _ (.start r) => r = 0
  | .event _ .abort => False
  | .event i .complete => ∀ t c, s.spawned[i]? = some t → t.stage = .ended c →
      c.uncaught = true → c.hasError = true
  | _ => True

/-- A clean step keeps all threads fine, and only such a step. -/
theorem Threads.step_fine_iff {a : Action} (hsound : s.Sound PID)
    (hfine : ∀ t ∈ s.spawned, t.stage.Fine) (hs : s.step PID a = some s') :
    (∀ t ∈ s'.spawned, t.stage.Fine) ↔ s.Clean a := by
  obtain ⟨env, args, fd, rfl, rfl | ⟨buffer, hbuffer, rfl⟩⟩ | ⟨i, e, t, t', rfl, ht, hmove, rfl⟩ :=
    Threads.step_cases hs
  · exact ⟨fun _ => trivial, fun _ => hfine⟩
  · refine ⟨fun _ => trivial, fun _ t ht => ?_⟩
    rcases List.mem_append.mp ht with ht | ht
    · exact hfine t ht
    · rw [List.mem_singleton.mp ht]
      trivial
  · obtain ⟨hi, -⟩ := List.getElem?_eq_some_iff.mp ht
    refine (forall_mem_set_iff (P := fun t => t.stage.Fine) hi hfine).trans ?_
    cases hmove with
    | fail hstage hr => simp [Threads.Clean, Stage.Fine, hr]
    | @complete c hstage =>
      -- what was reported was not caught
      have hreported := (hsound.thread t (List.mem_of_getElem? ht)).reported c
        (by rw [hstage]; rfl)
      show c.hasError = c.uncaught ↔ _
      rw [Bool.eq_iff_iff]
      constructor
      · intro hiff u d hu hd
        rw [ht] at hu
        cases hu
        rw [hstage] at hd
        cases hd
        exact hiff.mpr
      · exact fun hclean => ⟨hreported, hclean t c ht hstage⟩
    | start | abort | boot | report | finish => simp [Threads.Clean, Stage.Fine]

/-- **Every completion is called once, tells the truth, and clears the registry** all along a run
    exactly when all its steps are clean. -/
theorem settled_iff_along {as : List Action} (h : run (Threads.step PID) .init as = some s) :
    (∀ bs cs u, as = bs ++ cs → run (Threads.step PID) .init bs = some u → u.Settled) ↔
      Along (Threads.step PID) Threads.Clean .init as := by
  refine forall_prefix_iff_along (I := Threads.Sound PID) ?_ Threads.sound_init ?_ h
  · intro s a s' hsound hsettled hs
    have hsound' := hsound.step hs
    refine ⟨hsound', ?_⟩
    rw [hsound'.settled_iff]
    exact Threads.step_fine_iff hsound (hsound.settled_iff.mp hsettled) hs
  · have hinit : Threads.Sound PID .init := Threads.sound_init
    apply hinit.settled_iff.mpr
    exact fun t ht => by simp [Threads.init] at ht

/-- A start that succeeds, a worker that compiles, a script that returns. -/
def Action.Returns : Action → Prop
  | .event _ (.start r) => r = 0
  | .event _ .abort => False
  | .event _ (.finish throws) => throws = false
  | _ => True

/-- Whatever was not caught in the worker has been reported. -/
def Stage.Reported (stage : Stage) : Prop :=
  ∀ c, stage.context = some c → c.uncaught = true → c.hasError = true

/-- As long as scripts return, exceptions are reported. -/
theorem Threads.step_reported {a : Action} (h : ∀ t ∈ s.spawned, t.stage.Reported)
    (ha : a.Returns) (hs : s.step PID a = some s') : ∀ t ∈ s'.spawned, t.stage.Reported := by
  obtain ⟨env, args, fd, rfl, rfl | ⟨buffer, hbuffer, rfl⟩⟩ | ⟨i, e, t, t', rfl, ht, hmove, rfl⟩ :=
    Threads.step_cases hs
  · exact h
  · intro t ht
    rcases List.mem_append.mp ht with ht | ht
    · exact h t ht
    · rw [List.mem_singleton.mp ht]
      exact fun c hc => by contradiction
  · obtain ⟨hi, -⟩ := List.getElem?_eq_some_iff.mp ht
    have hold := h t (List.mem_of_getElem? ht)
    refine (forall_mem_set_iff (P := fun t => t.stage.Reported) hi h).mpr ?_
    cases hmove with
    | start | fail | abort => exact fun c hc => by contradiction
    | boot | report =>
      intro c hc _
      cases hc
      simp_all
    -- a body that returns leaves no error, so what is uncaught was reported before
    | @finish c throws hstage =>
      intro d hd huncaught
      cases hd
      have hreturns : throws = false := ha
      rw [hreturns, Bool.or_false] at huncaught
      exact hold c (by rw [hstage]; rfl) huncaught
    | @complete c hstage =>
      intro d hd
      cases hd
      exact hold c (by rw [hstage]; rfl)

/-- **Runs in which every script returns are clean.** -/
theorem along_clean_of_returns {as : List Action}
    (h : run (Threads.step PID) .init as = some s) (has : ∀ a ∈ as, a.Returns) :
    Along (Threads.step PID) Threads.Clean .init as := by
  refine Along.of_forall (I := fun s => ∀ t ∈ s.spawned, t.stage.Reported)
    (fun _ _ _ hi ha hstep => Threads.step_reported hi ha hstep) ?_
    (fun t ht => by simp [Threads.init] at ht) h has
  intro s a s' hi ha _
  cases a with
  | spawn env args fd => trivial
  | event i e =>
    cases e with
    | start | abort => exact ha
    | boot | report | finish => trivial
    | complete => exact fun t c ht hstage => hi t (List.mem_of_getElem? ht) c (by rw [hstage]; rfl)

/-- A worker in which a callback throws, and which goes on to its end. -/
theorem settled_iff_along_report : ∃ s, run (Threads.step 7) .init
    [.spawn ⟨[], by decide⟩ [] 0, .event 0 (.start 0), .event 0 .boot, .event 0 .report,
      .event 0 (.finish false), .event 0 .complete] = some s ∧ s.Settled := by
  obtain ⟨s, hs⟩ : ∃ s, run (Threads.step 7) .init
      [.spawn ⟨[], by decide⟩ [] 0, .event 0 (.start 0), .event 0 .boot, .event 0 .report,
        .event 0 (.finish false), .event 0 .complete] = some s := by
    apply Option.isSome_iff_exists.mp
    decide +kernel
  have hclean := along_clean_of_returns hs (by simp [Action.Returns])
  exact ⟨s, hs, (settled_iff_along hs).mpr hclean _ [] s (by simp) hs⟩

/-- A worker whose script throws: `onComplete` is told that nothing went wrong. -/
theorem not_settled_throw : ∃ s, run (Threads.step 7) .init
    [.spawn ⟨[], by decide⟩ [] 0, .event 0 (.start 0), .event 0 .boot, .event 0 (.finish true),
      .event 0 .complete] = some s ∧ ¬ s.Settled := by
  have hcalls : (run (Threads.step 7) .init
      [.spawn ⟨[], by decide⟩ [] 0, .event 0 (.start 0), .event 0 .boot, .event 0 (.finish true),
        .event 0 .complete]).map (fun s => s.spawned.map fun t => (t.calls, t.stage.erred)) =
          some [([false], true)] := by decide +kernel
  obtain ⟨s, hs, hcalls⟩ := Option.map_eq_some_iff.mp hcalls
  refine ⟨s, hs, fun hsettled => ?_⟩
  obtain ⟨t, ht, heq⟩ := List.mem_map.mp (hcalls ▸ List.mem_singleton_self ([false], true))
  obtain ⟨hfalse, htrue⟩ := Prod.mk.inj heq
  have herr := hsettled.err t ht false (by rw [hfalse]; exact List.mem_singleton_self false)
  rw [htrue] at herr
  contradiction

end Dv8.Thread
