import Dv8.Socket.Drain
import Dv8.Tty.Tty

namespace Dv8.Tty

open Dv8.Lib Dv8.Uv

/-!
# How often a `TTY` is closed

`uv_close` is reached from `Close`, from the end of an `after_write` that finds the queue empty, and
from `after_read` with an error; none of them asks whether the handle is closing.  And a close that
`Close` puts off is only done by an `after_write` of a request that succeeded.

* `callsUvClose` and `endsFailing` say, from the state before a step, whether it reaches `uv_close`
  and whether an `after_write` ends in it with a failure;
* `step_outcome` — what these mean for the handle, for every step;
* `closed_once_iff_along` — a `TTY` is closed at most once, and closed once that was asked for and
  nothing is outstanding, exactly in the runs whose steps are all `Fine`.
-/

/-! ### What a step reaches -/

/-- The requests `uv__write_callbacks` has still to report. -/
def Phase.pq : Phase → List WriteReq
  | .reporting pq _ | .onWrite _ pq _ | .onWriteError pq _ | .onDrain _ pq _ => pq
  | _ => []

/-- JavaScript runs in a callback made by `after_write`. -/
def Phase.inAfterWrite : Phase → Bool
  | .onWrite .. | .onWriteError .. | .onDrain .. => true
  | _ => false

/-- The requests libuv holds besides those it is reporting. -/
def TTY.pending (t : TTY) : List WriteReq := t.handle.completed ++ t.handle.writeQueue

/-- No write is outstanding: none is queued or waits to be reported, and no `after_write` is in
    progress. -/
def TTY.Drained (t : TTY) : Prop := t.phase.pq ++ t.pending = [] ∧ t.phase.inAfterWrite = false

/-- `after_write` of `r` reaches its deferred close, without a stop in `onDrain`. -/
def TTY.endsClosing (t : TTY) (r : WriteReq) : Bool :=
  decide (0 ≤ r.error) && decide (t.handle.writeQueueSize = 0) &&
    !(t.blocked && t.callbacks.onDrain) && t.closing

/-- The step reaches `uv_close`. -/
def callsUvClose (t : TTY) : Act → Bool
  | .close => decide (t.handle.writeQueueSize = 0)
  | .readError => !t.callbacks.onError
  | .next =>
    match t.phase with
    | .reporting (r :: _) _ => !t.callbacks.onWrite && (t.released r).endsClosing r
    | _ => false
  | .ret =>
    decide (t.stack = []) &&
      match t.phase with
      | .onWrite r _ _ => t.endsClosing r
      | .onDrain .. => t.closing
      | .onReadError => true
      | _ => false
  | _ => false

/-- `after_write` of `r`, with `pq` still to report, is over with a failure. -/
def TTY.failing (t : TTY) (r : WriteReq) (pq : List WriteReq) : Option (List WriteReq) :=
  if r.error < 0 ∧ t.callbacks.onError = false then some pq else none

/-- An `after_write` ends in this step with a failure; what is then still to report. -/
def endsFailing (t : TTY) : Act → Option (List WriteReq)
  | .next =>
    match t.phase with
    | .reporting (r :: pq) _ => if t.callbacks.onWrite then none else t.failing r pq
    | _ => none
  | .ret =>
    if t.stack = [] then
      match t.phase with
      | .onWrite r pq _ => t.failing r pq
      | .onWriteError pq _ => some pq
      | _ => none
    else none
  | _ => none

/-- With `pq` still to report: something is outstanding, or `uv_close` has been called if that was
    asked for. -/
def TTY.NotLast (t : TTY) (pq : List WriteReq) : Prop :=
  t.requested = true → pq ++ t.pending = [] → t.handle.closing = true

instance (t : TTY) (pq : List WriteReq) : Decidable (t.NotLast pq) :=
  inferInstanceAs (Decidable (_ → _))

/-- The step does not call `uv_close` on a closing handle, and if an `after_write` ends in it with a
    failure, its request is not the last one outstanding of a `TTY` that was asked to close. -/
structure Fine (t : TTY) (a : Act) : Prop where
  once : callsUvClose t a = true → t.handle.closing = false
  last : ∀ pq ∈ endsFailing t a, t.NotLast pq

instance (t : TTY) (a : Act) : Decidable (Fine t a) :=
  decidable_of_iff ((callsUvClose t a = true → t.handle.closing = false) ∧
    ∀ pq ∈ endsFailing t a, t.NotLast pq) ⟨fun h => ⟨h.1, h.2⟩, fun h => ⟨h.1, h.2⟩⟩

/-! ### What it comes to -/

/-- When a close was asked for and nothing is outstanding, the handle has been closed. -/
def TTY.Promise (t : TTY) : Prop := t.requested = true → t.Drained → t.handle.closing = true

/-- The size of the queue is right, and a close that was asked for is marked or done. -/
structure Inv (t : TTY) : Prop where
  accounted : t.handle.Accounted t.phase.pq
  marked : t.requested = true → t.closing = true ∨ t.handle.closing = true

/-- A step calls `uv_close` (`b`) or not, and keeps the promise unless a last request fails in it
    (`f`). -/
structure Outcome (t t' : TTY) (b : Bool) (f : Option (List WriteReq)) : Prop where
  inv : Inv t'
  closeCalls : t'.closeCalls = t.closeCalls + b.toNat
  closing : t'.handle.closing = (b || t.handle.closing)
  promise : t'.Promise ↔ ∀ pq ∈ f, t.NotLast pq

/-- The queue of the stream. -/
def TTY.queue (t : TTY) : List WriteReq × List WriteReq × Nat :=
  (t.handle.writeQueue, t.handle.completed, t.handle.writeQueueSize)

/-- What closing looks at, besides the queue. -/
def TTY.life (t : TTY) : Bool × Bool × Bool × Nat :=
  (t.handle.closing, t.closing, t.requested, t.closeCalls)

theorem accounted_congr {t t' : TTY} {pq : List WriteReq} (hqueue : t'.queue = t.queue)
    (h : t.handle.Accounted pq) : t'.handle.Accounted pq := by
  simp only [TTY.queue, Prod.mk.injEq] at hqueue
  obtain ⟨hwrite, hcompleted, hsize⟩ := hqueue
  refine ⟨?_, ?_⟩
  · rw [hsize, hcompleted, hwrite]
    exact h.size
  · rw [hcompleted]
    exact h.reported

theorem pending_congr {t t' : TTY} (hqueue : t'.queue = t.queue) : t'.pending = t.pending := by
  simp only [TTY.queue, Prod.mk.injEq] at hqueue
  rw [TTY.pending, TTY.pending, hqueue.1, hqueue.2.1]

/-- There is nothing to promise while JavaScript runs in a callback of `after_write`. -/
theorem promise_of_inAfterWrite {t : TTY} (h : t.phase.inAfterWrite = true) : t.Promise := by
  intro _ hdrained
  rw [hdrained.2] at h
  contradiction

theorem promise_of_closing {t : TTY} (h : t.handle.closing = true) : t.Promise := fun _ _ => h

/-- Outside those callbacks it is about what is still to report. -/
theorem promise_iff_notLast {t : TTY} {pq : List WriteReq} (hpq : t.phase.pq = pq)
    (hafter : t.phase.inAfterWrite = false) : t.Promise ↔ ∀ qs ∈ some pq, t.NotLast qs := by
  subst hpq
  constructor
  · rintro hp _ ⟨⟩ hrequested hnil
    exact hp hrequested ⟨hnil, hafter⟩
  · intro hlast hrequested hdrained
    exact hlast _ rfl hrequested hdrained.1

namespace Outcome

/-- A step that changes neither the queue nor the life of the handle. -/
theorem of_same {t t' : TTY} (ht : Inv t) (hp : t.Promise) (hqueue : t'.queue = t.queue)
    (hlife : t'.life = t.life) (hpq : t'.phase.pq = t.phase.pq)
    (hafter : t'.phase.inAfterWrite = t.phase.inAfterWrite) : Outcome t t' false none := by
  simp only [TTY.life, Prod.mk.injEq] at hlife
  obtain ⟨hhandle, hclosing, hrequested, hcalls⟩ := hlife
  refine ⟨⟨?_, ?_⟩, hcalls, hhandle, iff_of_true ?_ (by simp)⟩
  · rw [hpq]
    exact accounted_congr hqueue ht.accounted
  · rw [hrequested, hclosing, hhandle]
    exact ht.marked
  · rw [TTY.Promise, TTY.Drained, hrequested, hhandle, hpq, hafter, pending_congr hqueue]
    exact hp

/-- A step that calls `uv_close`. -/
theorem of_closed {t t' : TTY} (hacc : t'.handle.Accounted t'.phase.pq)
    (hcalls : t'.closeCalls = t.closeCalls + 1) (hclosing : t'.handle.closing = true) :
    Outcome t t' true none where
  inv := ⟨hacc, fun _ => Or.inr hclosing⟩
  closeCalls := hcalls
  closing := by rw [hclosing, Bool.true_or]
  promise := iff_of_true (promise_of_closing hclosing) (by simp)

end Outcome

section Functions

variable (t : TTY) (r : WriteReq) (pq : List WriteReq) (d : Bool)

theorem uvClose_closing : t.uvClose.handle.closing = true := by
  unfold TTY.uvClose
  split
  · assumption
  · rfl

theorem uvClose_closeCalls : t.uvClose.closeCalls = t.closeCalls + 1 := by
  unfold TTY.uvClose
  split <;> rfl

theorem uvClose_queue : t.uvClose.queue = t.queue := by
  unfold TTY.uvClose
  split <;> rfl

theorem uvClose_phase : t.uvClose.phase = t.phase := by
  unfold TTY.uvClose
  split <;> rfl

/-- The end of a successful `after_write` that found the queue empty closes the handle if that was
    put off. -/
theorem afterWriteClose_outcome {t : TTY} {pq : List WriteReq} (hacc : t.handle.Accounted pq)
    (hmarked : t.requested = true → t.closing = true ∨ t.handle.closing = true) :
    Outcome t (t.afterWriteClose r pq d) t.closing none := by
  unfold TTY.afterWriteClose
  split
  · rename_i hc
    rw [hc]
    exact Outcome.of_closed (accounted_congr (uvClose_queue t) hacc) (uvClose_closeCalls t)
      (uvClose_closing t)
  · rename_i hc
    rw [Bool.not_eq_true] at hc
    rw [hc]
    refine ⟨⟨hacc, hmarked⟩, rfl, rfl, iff_of_true ?_ (by simp)⟩
    intro hrequested _
    -- nothing was put off, so a close that was asked for is done
    exact (hmarked hrequested).resolve_left (by simp [hc])

theorem afterWriteDrained_outcome {t : TTY} {pq : List WriteReq} (hacc : t.handle.Accounted pq)
    (hmarked : t.requested = true → t.closing = true ∨ t.handle.closing = true) :
    Outcome t (t.afterWriteDrained r pq d) t.closing none := by
  have h := afterWriteClose_outcome r d (t := { t with
    stats := { t.stats with drain := t.stats.drain + 1 }, blocked := false }) hacc hmarked
  exact ⟨h.inv, h.closeCalls, h.closing, h.promise⟩

/-- `after_write` behind `onWrite`. -/
theorem afterWriteStatus_outcome {t : TTY} {pq : List WriteReq} (hacc : t.handle.Accounted pq)
    (hmarked : t.requested = true → t.closing = true ∨ t.handle.closing = true) :
    Outcome t (t.afterWriteStatus r pq d) (t.endsClosing r) (t.failing r pq) := by
  unfold TTY.afterWriteStatus TTY.failing
  by_cases herr : r.error < 0
  · -- a failed request returns before anything is closed
    have hends : t.endsClosing r = false := by simp [TTY.endsClosing, not_le.mpr herr]
    rw [if_pos herr, hends]
    simp only [herr, true_and]
    cases hcb : t.callbacks.onError with
    | true =>
      simp only [if_true]
      exact ⟨⟨hacc, hmarked⟩, rfl, rfl, iff_of_true (promise_of_inAfterWrite rfl) (by simp)⟩
    | false =>
      simp only [Bool.false_eq_true, if_false, if_true]
      exact ⟨⟨hacc, hmarked⟩, rfl, rfl, promise_iff_notLast rfl rfl⟩
  · have hok : 0 ≤ r.error := not_lt.mp herr
    have hnone : (if r.error < 0 ∧ t.callbacks.onError = false then some pq else none) = none :=
      if_neg fun h => herr h.1
    rw [if_neg herr, hnone]
    by_cases hsize : t.handle.writeQueueSize = 0
    · have hmax : ¬ t.stats.maxQueue < t.handle.writeQueueSize := by omega
      simp only [if_neg hmax, if_pos hsize]
      cases hb : t.blocked with
      | false =>
        have hends : t.endsClosing r = t.closing := by simp [TTY.endsClosing, hok, hsize, hb]
        rw [hends]
        exact afterWriteClose_outcome r d hacc hmarked
      | true =>
        cases hd : t.callbacks.onDrain with
        | false =>
          have hends : t.endsClosing r = t.closing := by simp [TTY.endsClosing, hok, hsize, hb, hd]
          rw [hends]
          exact afterWriteDrained_outcome r d hacc hmarked
        | true =>
          have hends : t.endsClosing r = false := by simp [TTY.endsClosing, hb, hd]
          rw [hends]
          exact ⟨⟨hacc, hmarked⟩, rfl, rfl, iff_of_true (promise_of_inAfterWrite rfl) (by simp)⟩
    · -- bytes are still queued
      have hends : t.endsClosing r = false := by simp [TTY.endsClosing, hsize]
      rw [hends]
      simp only [if_neg hsize]
      have hne := Socket.ne_nil_of_size hacc hsize
      split
      all_goals
        refine ⟨⟨hacc, hmarked⟩, rfl, rfl, iff_of_true ?_ (by simp)⟩
        exact fun _ hdrained => absurd hdrained.1 hne

/-- `after_write`. -/
theorem afterWrite_outcome {t : TTY} {r : WriteReq} {pq : List WriteReq} (ht : Inv t)
    (hphase : t.phase = .reporting (r :: pq) d) :
    Outcome t (t.afterWrite r pq d) (!t.callbacks.onWrite && (t.released r).endsClosing r)
      (if t.callbacks.onWrite then none else t.failing r pq) := by
  have hacc : (t.released r).handle.Accounted pq := by
    have hacc := ht.accounted
    rw [hphase] at hacc
    exact hacc.release
  have hclosing : (t.released r).handle.closing = t.handle.closing := by
    unfold TTY.released Stream.release
    split <;> rfl
  have hpending : (t.released r).pending = t.pending := by
    unfold TTY.released Stream.release TTY.pending
    split <;> rfl
  have hmarked : (t.released r).requested = true →
      (t.released r).closing = true ∨ (t.released r).handle.closing = true := by
    rw [hclosing]
    exact ht.marked
  unfold TTY.afterWrite
  cases hcb : t.callbacks.onWrite with
  | true =>
    simp only [if_true, Bool.not_true, Bool.false_and]
    exact ⟨⟨hacc, hmarked⟩, rfl, hclosing, iff_of_true (promise_of_inAfterWrite rfl) (by simp)⟩
  | false =>
    have h := afterWriteStatus_outcome r d hacc hmarked
    simp only [Bool.false_eq_true, if_false, Bool.not_false, Bool.true_and]
    refine ⟨h.inv, h.closeCalls, by rw [h.closing, hclosing], ?_⟩
    rw [h.promise]
    -- releasing the bytes of the request leaves the others alone
    have hlast : ∀ qs, (t.released r).NotLast qs ↔ t.NotLast qs := by
      intro qs
      rw [TTY.NotLast, TTY.NotLast, hpending, hclosing]
      exact Iff.rfl
    exact forall_congr' fun qs => imp_congr_right fun _ => hlast qs

end Functions

/-! ### The steps -/

/-- `uv_try_write` and `uv_write` neither close the handle nor lose a request. -/
structure Wrote (h h' : Stream) : Prop where
  closing : h'.closing = h.closing
  accounted : ∀ pq, h.Accounted pq → h'.Accounted pq
  pending : h'.completed ++ h'.writeQueue = [] → h.completed ++ h.writeQueue = []

theorem Wrote.of_tryWrite {h h' : Stream} {bytes : List UInt8} {a : Answer} {r : Int}
    (hw : h.tryWrite bytes a = some (h', r)) : Wrote h h' where
  closing := (tryWrite_sameFlags hw).closing
  accounted := fun _ => tryWrite_accounted hw
  pending := (tryWrite_eq_nil_iff hw).mp

theorem Wrote.of_uvWrite {h h' : Stream} {bytes : List UInt8} {a : Answer} {status : Int}
    (hw : h.uvWrite bytes a = some (h', status)) : Wrote h h' where
  closing := (uvWrite_sameFlags hw).closing
  accounted := fun _ => uvWrite_accounted hw
  pending := Socket.uvWrite_mono hw

theorem Wrote.trans {h h' h'' : Stream} (p : Wrote h h') (q : Wrote h' h'') : Wrote h h'' where
  closing := q.closing.trans p.closing
  accounted := fun pq hacc => q.accounted pq (p.accounted pq hacc)
  pending := p.pending ∘ q.pending

/-- `Write` touches the handle, and nothing else that closing looks at. -/
theorem write_frame {t t' : TTY} {length : Nat} {tried queued : Answer}
    (h : t.write length tried queued = some t') :
    Wrote t.handle t'.handle ∧ t'.phase = t.phase ∧ t'.closing = t.closing ∧
      t'.requested = t.requested ∧ t'.closeCalls = t.closeCalls := by
  obtain ⟨bytes, -, h⟩ := Option.bind_eq_some_iff.mp h
  obtain ⟨⟨handle, r⟩, htry, h⟩ := Option.bind_eq_some_iff.mp h
  have hwrote := Wrote.of_tryWrite htry
  simp only at h
  split_ifs at h
  · obtain ⟨⟨handle', status⟩, hw, rfl⟩ := Option.map_eq_some_iff.mp h
    exact ⟨hwrote.trans (Wrote.of_uvWrite hw), rfl, rfl, rfl, rfl⟩
  · cases h
    exact ⟨hwrote, rfl, rfl, rfl, rfl⟩
  · cases h
    exact ⟨hwrote, rfl, rfl, rfl, rfl⟩
  · obtain ⟨⟨handle', status⟩, hw, rfl⟩ := Option.map_eq_some_iff.mp h
    exact ⟨hwrote.trans (Wrote.of_uvWrite hw), rfl, rfl, rfl, rfl⟩
  · cases h
    exact ⟨hwrote, rfl, rfl, rfl, rfl⟩

theorem write_outcome {t t' : TTY} {length : Nat} {tried queued : Answer} (ht : Inv t)
    (hp : t.Promise) (h : t.write length tried queued = some t') : Outcome t t' false none := by
  obtain ⟨hwrote, hphase, hclosing, hrequested, hcalls⟩ := write_frame h
  refine ⟨⟨?_, ?_⟩, hcalls, hwrote.closing, iff_of_true ?_ (by simp)⟩
  · rw [hphase]
    exact hwrote.accounted _ ht.accounted
  · rw [hrequested, hclosing, hwrote.closing]
    exact ht.marked
  · rw [TTY.Promise, TTY.Drained, hrequested, hwrote.closing, hphase]
    rintro hr ⟨hnil, hafter⟩
    obtain ⟨hpq, hpending⟩ := List.append_eq_nil_iff.mp hnil
    -- a call only adds requests
    refine hp hr ⟨?_, hafter⟩
    rw [hpq]
    exact hwrote.pending hpending

theorem close_outcome {t : TTY} (ht : Inv t) :
    Outcome t t.close (decide (t.handle.writeQueueSize = 0)) none := by
  unfold TTY.close
  simp only
  split
  · -- the close is put off, and something is outstanding
    rename_i hsize
    have hne := Socket.ne_nil_of_size ht.accounted (by omega)
    rw [decide_eq_false (by omega)]
    refine ⟨⟨ht.accounted, fun _ => Or.inl rfl⟩, rfl, rfl, iff_of_true ?_ (by simp)⟩
    exact fun _ hdrained => absurd hdrained.1 hne
  · rename_i hsize
    rw [decide_eq_true (by omega)]
    have hqueue := uvClose_queue { t with requested := true }
    have hphase := uvClose_phase { t with requested := true }
    refine Outcome.of_closed ?_ (uvClose_closeCalls _) (uvClose_closing _)
    show Stream.Accounted _ (TTY.uvClose { t with requested := true }).phase.pq
    rw [hphase]
    exact accounted_congr (t := t) hqueue ht.accounted

theorem readFailed_outcome {t : TTY} (ht : Inv t) (hpq : t.phase.pq = []) :
    Outcome t t.readFailed true none := by
  have hacc := ht.accounted
  rw [hpq] at hacc
  refine Outcome.of_closed ?_ (uvClose_closeCalls t.countReadError) (uvClose_closing _)
  show Stream.Accounted _ t.countReadError.uvClose.phase.pq
  rw [uvClose_phase]
  exact accounted_congr (t := t) (uvClose_queue t.countReadError) hacc

/-- A JavaScript function returns. -/
private theorem ret_outcome {t t' : TTY} (ht : Inv t) (hp : t.Promise) (h : t.ret = some t') :
    Outcome t t' (callsUvClose t .ret) (endsFailing t .ret) := by
  unfold TTY.ret at h
  split at h
  · rename_i blocks stack hstack
    cases h
    have hno : callsUvClose t .ret = false ∧ endsFailing t .ret = none := by
      simp [callsUvClose, endsFailing, hstack]
    rw [hno.1, hno.2]
    exact Outcome.of_same ht hp rfl rfl rfl rfl
  · rename_i hstack
    have hacc := ht.accounted
    split at h
    all_goals first | contradiction | (rename_i hphase; cases h)
    all_goals
      rw [hphase] at hacc
      simp only [callsUvClose, endsFailing, hstack, hphase, decide_true, Bool.true_and, if_true]
    · exact Outcome.of_same ht hp rfl rfl (hphase ▸ rfl) (hphase ▸ rfl)
    · exact Outcome.of_same ht hp rfl rfl (hphase ▸ rfl) (hphase ▸ rfl)
    · exact afterWriteStatus_outcome _ _ hacc ht.marked
    · -- a failed request is over
      exact ⟨⟨hacc, ht.marked⟩, rfl, rfl, promise_iff_notLast rfl rfl⟩
    · exact afterWriteDrained_outcome _ _ hacc ht.marked
    · exact Outcome.of_same ht hp rfl rfl (hphase ▸ rfl) (hphase ▸ rfl)
    · exact Outcome.of_same ht hp rfl rfl (hphase ▸ rfl) (hphase ▸ rfl)
    · exact readFailed_outcome ht (hphase ▸ rfl)

/-- libuv goes on. -/
private theorem next_outcome {t t' : TTY} (ht : Inv t) (hp : t.Promise) (h : t.next = some t') :
    Outcome t t' (callsUvClose t .next) (endsFailing t .next) := by
  unfold TTY.next at h
  split at h
  all_goals first | contradiction | (rename_i hphase; cases h)
  all_goals simp only [callsUvClose, endsFailing, hphase]
  · exact afterWrite_outcome _ ht hphase
  · exact Outcome.of_same ht hp rfl rfl (hphase ▸ rfl) (hphase ▸ rfl)
  · exact Outcome.of_same ht hp rfl rfl (hphase ▸ rfl) (hphase ▸ rfl)
  · unfold TTY.onClose
    simp only
    split
    all_goals exact Outcome.of_same ht hp rfl rfl (hphase ▸ rfl) (hphase ▸ rfl)

/-- What is completed is handed over to be reported. -/
private theorem handOver_outcome {t : TTY} {handle : Stream} {d : Bool} (ht : Inv t)
    (hacc : handle.Accounted []) (hclosing : handle.closing = t.handle.closing)
    (hp : handle.completed ++ handle.writeQueue = [] → t.requested = true →
      t.handle.closing = true) :
    Outcome t { t with handle := { handle with completed := [] }
                       phase := .reporting handle.completed d } false none := by
  refine ⟨⟨hacc.handOver, ?_⟩, rfl, hclosing, iff_of_true ?_ (by simp)⟩
  · show t.requested = true → t.closing = true ∨ handle.closing = true
    rw [hclosing]
    exact ht.marked
  · intro hrequested hdrained
    exact hclosing.trans (hp hdrained.1 hrequested)

/-- **Step lemma.** -/
theorem step_outcome {t t' : TTY} {a : Act} (ht : Inv t) (hp : t.Promise)
    (h : step t a = some t') : Outcome t t' (callsUvClose t a) (endsFailing t a) := by
  obtain ⟨-, h⟩ := Option.ite_none_left_eq_some.mp h
  cases a with
  | ret => exact ret_outcome ht hp h
  | next =>
    obtain ⟨-, h⟩ := Option.ite_none_right_eq_some.mp h
    exact next_outcome ht hp h
  | write length tried queued =>
    obtain ⟨-, h⟩ := Option.ite_none_right_eq_some.mp h
    exact write_outcome ht hp h
  | close =>
    obtain ⟨-, h⟩ := Option.ite_none_right_eq_some.mp h
    cases h
    exact close_outcome ht
  | enter =>
    obtain ⟨hc, h⟩ := Option.ite_none_right_eq_some.mp h
    cases h
    exact Outcome.of_same ht hp rfl rfl (hc.1 ▸ rfl) (hc.1 ▸ rfl)
  | pause | setup | on =>
    obtain ⟨-, h⟩ := Option.ite_none_right_eq_some.mp h
    cases h
    exact Outcome.of_same ht hp rfl rfl rfl rfl
  | resume =>
    obtain ⟨-, h⟩ := Option.ite_none_right_eq_some.mp h
    cases h
    unfold TTY.resume Stream.readStart
    split
    · split_ifs
      all_goals exact Outcome.of_same ht hp rfl rfl rfl rfl
    · exact Outcome.of_same ht hp rfl rfl rfl rfl
  | readData nread =>
    obtain ⟨hc, h⟩ := Option.ite_none_right_eq_some.mp h
    cases h
    split
    all_goals exact Outcome.of_same ht hp rfl rfl (hc.1 ▸ rfl) (hc.1 ▸ rfl)
  | readEof =>
    obtain ⟨hc, h⟩ := Option.ite_none_right_eq_some.mp h
    cases h
    split
    all_goals exact Outcome.of_same ht hp rfl rfl (hc.1 ▸ rfl) (hc.1 ▸ rfl)
  | readError =>
    obtain ⟨hc, h⟩ := Option.ite_none_right_eq_some.mp h
    cases h
    simp only [callsUvClose, endsFailing]
    cases hcb : t.callbacks.onError with
    | true => exact Outcome.of_same ht hp rfl rfl (hc.1 ▸ rfl) (hc.1 ▸ rfl)
    | false => exact readFailed_outcome ht (hc.1 ▸ rfl)
  | ioWrite a =>
    obtain ⟨hc, h⟩ := Option.ite_none_right_eq_some.mp h
    obtain ⟨handle, hcall, h⟩ := Option.map_eq_some_iff.mp h
    cases h
    have hacc := ht.accounted
    rw [hc.1] at hacc
    refine handOver_outcome ht (write1_accounted hcall hacc) (write1_sameFlags hcall).closing ?_
    intro hnil hrequested
    refine hp hrequested ⟨?_, hc.1 ▸ rfl⟩
    rw [hc.1]
    exact (write1_eq_nil_iff hcall).mp hnil
  | destroy =>
    obtain ⟨hc, h⟩ := Option.ite_none_right_eq_some.mp h
    cases h
    have hacc := ht.accounted
    rw [hc.1] at hacc
    exact handOver_outcome ht hacc.flush rfl fun _ _ => hc.2.2.1

/-! ### Runs -/

/-- `uv_close` is called at most once, and has been called when that was asked for and no write is
    outstanding. -/
structure ClosedOnce (t : TTY) : Prop where
  atMostOnce : t.closeCalls ≤ 1
  closed : t.requested = true → t.Drained → 1 ≤ t.closeCalls

/-- The handle is closing exactly when `uv_close` has been called. -/
def TTY.Counted (t : TTY) : Prop := t.handle.closing = true ↔ 1 ≤ t.closeCalls

theorem Outcome.counted {t t' : TTY} {b : Bool} {f : Option (List WriteReq)}
    (h : Outcome t t' b f) (ht : t.Counted) : t'.Counted := by
  rw [TTY.Counted, h.closing, h.closeCalls, Bool.or_eq_true]
  cases b with
  | true => simp
  | false => simpa [TTY.Counted] using ht

theorem ClosedOnce.promise {t : TTY} (h : ClosedOnce t) (ht : t.Counted) : t.Promise :=
  fun hrequested hdrained => ht.mpr (h.closed hrequested hdrained)

/-- A step keeps the handle closed once exactly when it is fine. -/
theorem closedOnce_iff_fine {t t' : TTY} {a : Act} (ht : Inv t) (hcount : t.Counted)
    (hgood : ClosedOnce t) (h : step t a = some t') : ClosedOnce t' ↔ Fine t a := by
  have hout := step_outcome ht (hgood.promise hcount) h
  have hcount' := hout.counted hcount
  have honce : t'.closeCalls ≤ 1 ↔ (callsUvClose t a = true → t.handle.closing = false) := by
    have hle := hgood.atMostOnce
    rw [hout.closeCalls]
    cases callsUvClose t a with
    | false => simpa using hle
    | true =>
      -- the step is the first call exactly when the handle is not closing
      rw [TTY.Counted] at hcount
      cases hc : t.handle.closing with
      | false =>
        have hzero : ¬ 1 ≤ t.closeCalls := fun h1 => by simp [hcount.mpr h1] at hc
        simp only [Bool.toNat_true, implies_true, iff_true]
        omega
      | true =>
        have hone := hcount.mp hc
        simp only [Bool.toNat_true, Bool.true_eq_false, imp_false, not_true, iff_false]
        omega
  constructor
  · intro hgood'
    exact ⟨honce.mp hgood'.atMostOnce, hout.promise.mp (hgood'.promise hcount')⟩
  · intro hfine
    refine ⟨honce.mpr hfine.once, fun hrequested hdrained => ?_⟩
    exact hcount'.mp (hout.promise.mpr hfine.last hrequested hdrained)

/-- **A `TTY` is closed once**, all along a run, exactly when all its steps are fine. -/
theorem closed_once_iff_along (buf : List UInt8) (writable : Bool) (as : List Act) (t : TTY)
    (hrun : run step (TTY.new buf writable) as = some t) :
    (∀ bs cs u, as = bs ++ cs → run step (TTY.new buf writable) bs = some u → ClosedOnce u) ↔
      Along step Fine (TTY.new buf writable) as := by
  have hstart : Inv (TTY.new buf writable) ∧ (TTY.new buf writable).Counted := by
    refine ⟨⟨⟨rfl, fun _ hr => absurd hr List.not_mem_nil⟩, fun h => ?_⟩, ?_⟩
    · contradiction
    · simp [TTY.Counted, TTY.new]
  have hgood : ClosedOnce (TTY.new buf writable) :=
    ⟨Nat.zero_le 1, fun h => by contradiction⟩
  refine forall_prefix_iff_along (I := fun t => Inv t ∧ t.Counted) ?_ hstart hgood hrun
  intro s a s' hs hgood h
  have hout := step_outcome hs.1 (hgood.promise hs.2) h
  exact ⟨⟨hout.inv, hout.counted hs.2⟩, closedOnce_iff_fine hs.1 hs.2 hgood h⟩

/-- A half-written line, `close` in the meantime, and the rest written. -/
def closeWhileWriting : List Act :=
  [.enter, .write 2 (.wrote 1) .again, .close, .ret, .ioWrite (.wrote 1), .next, .next, .destroy,
    .next, .next]

theorem closed_once_iff_along_closeWhileWriting :
    ∃ t, run step (TTY.new [1, 2] true) closeWhileWriting = some t ∧ ClosedOnce t ∧
      t.closeCalls = 1 :=
  ⟨_, rfl, (closed_once_iff_along [1, 2] true closeWhileWriting _ rfl).mpr (by decide)
    closeWhileWriting [] _ rfl rfl, rfl⟩

/-- **A second `close`** before the close callback calls `uv_close` a second time. -/
theorem not_closedOnce_closeTwice :
    ¬ ∀ (buf : List UInt8) (writable : Bool) (as : List Act) (t : TTY),
      run step (TTY.new buf writable) as = some t → ClosedOnce t := by
  intro h
  have htwice := (h [] true [.enter, .close, .close] _ rfl).atMostOnce
  revert htwice
  decide

/-- The last write fails, and the handle is left open for ever. -/
example : ∃ t, run step (TTY.new [1, 2] true) [.enter, .write 2 (.wrote 1) .again, .close, .ret,
    .ioWrite (.failed 5), .next, .next] = some t ∧ t.requested = true ∧ t.Drained ∧
      t.closeCalls = 0 :=
  ⟨_, rfl, rfl, ⟨rfl, rfl⟩, rfl⟩

end Dv8.Tty
