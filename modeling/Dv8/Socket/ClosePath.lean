import Dv8.Socket.Steps

namespace Dv8.Socket

open Dv8.Lib Dv8.Uv

/-!
# Which steps close the handle

`callsUvClose` says, from the state before a step, whether the step reaches `uv_close`;
`step_closeEffect` proves it.  Only one of the places that reach it looks at the handle
first, the end of the stream.  `Guarded` states what the other four leave unchecked, and
`closeCalls_le_one_iff` that a run closes its handle at most once exactly when all its steps are
guarded.  The run `closeOnEnd` is not.
-/

/-! ### Reaching `uv_close` -/

/-- `after_write` of `r` reaches its deferred close, without a stop in `onDrain`. -/
def Sock.endsClosing (s : Sock) (r : WriteReq) : Bool :=
  decide (0 ≤ r.error) && decide (s.handle.writeQueueSize = 0) &&
    !(s.ctx.blocked && s.callbacks.onDrain) && s.ctx.closing

/-- The step reaches `uv_close`. -/
def callsUvClose (s : Sock) : Act → Bool
  | .close doShutdown => !doShutdown && decide (s.handle.writeQueueSize = 0)
  | .readError => !s.callbacks.onError
  | .drain _ =>
    decide (s.handle.writeQueue = [] ∧ s.handle.shutting ∧ ¬ s.handle.closing ∧
      ¬ s.handle.shut) && decide (s.handle.writeQueueSize = 0)
  | .next =>
    match s.phase with
    | .reporting (r :: _) _ => !s.callbacks.onWrite && (s.released r).endsClosing r
    | .cancelShutdown => s.handle.shutting && decide (s.handle.writeQueueSize = 0)
    | _ => false
  | .ret =>
    decide (s.depth = 0) &&
      match s.phase with
      | .onWrite r _ _ => s.endsClosing r
      | .onDrain .. => s.ctx.closing
      | .onReadError => true
      | _ => false
  | _ => false

/-- What a step does to the life of the handle when it calls `uv_close` (`b`) or does not. -/
structure CloseEffect (s s' : Sock) (b : Bool) : Prop where
  closeCalls : s'.closeCalls = s.closeCalls + b.toNat
  closing : s'.handle.closing = (b || s.handle.closing)
  aborted : s'.aborted = (s.aborted || (b && s.handle.closing))
  /-- reading goes on or starts again only on a handle that is open -/
  reading : s'.handle.reading = true →
    s'.handle.closing = false ∨ (s.handle.reading = true ∧ s'.handle.closing = s.handle.closing)

namespace CloseEffect

/-- A change of fields that have nothing to do with the handle's life. -/
theorem of_eq {s s' : Sock} (hcalls : s'.closeCalls = s.closeCalls)
    (hclosing : s'.handle.closing = s.handle.closing) (haborted : s'.aborted = s.aborted)
    (hreading : s'.handle.reading = true → s.handle.reading = true) : CloseEffect s s' false where
  closeCalls := hcalls
  closing := hclosing
  aborted := by rw [haborted, Bool.false_and, Bool.or_false]
  reading := fun h => Or.inr ⟨hreading h, hclosing⟩

theorem trans_left {s s' s'' : Sock} {b : Bool} (p : CloseEffect s s' false)
    (q : CloseEffect s' s'' b) : CloseEffect s s'' b where
  closeCalls := by rw [q.closeCalls, p.closeCalls, Bool.toNat_false, Nat.add_zero]
  closing := by rw [q.closing, p.closing, Bool.false_or]
  aborted := by rw [q.aborted, p.aborted, p.closing, Bool.false_and, Bool.or_false, Bool.false_or]
  reading := by
    intro h
    obtain h | ⟨hr, hc⟩ := q.reading h
    · exact Or.inl h
    · obtain h' | ⟨hr', -⟩ := p.reading hr
      · exact Or.inl (hc.trans h')
      · exact Or.inr ⟨hr', by rw [hc, p.closing, Bool.false_or]⟩

theorem trans_right {s s' s'' : Sock} {b : Bool} (p : CloseEffect s s' b)
    (q : CloseEffect s' s'' false) : CloseEffect s s'' b where
  closeCalls := by rw [q.closeCalls, p.closeCalls, Bool.toNat_false, Nat.add_zero]
  closing := by rw [q.closing, p.closing, Bool.false_or]
  aborted := by rw [q.aborted, p.aborted, Bool.false_and, Bool.or_false]
  reading := by
    intro h
    obtain h | ⟨hr, hc⟩ := q.reading h
    · exact Or.inl h
    · obtain h' | ⟨hr', hc'⟩ := p.reading hr
      · exact Or.inl (hc.trans h')
      · exact Or.inr ⟨hr', hc.trans hc'⟩

end CloseEffect

/-! ### Function by function -/

section Effects

variable (s : Sock) (r : WriteReq) (pq : List WriteReq) (d : Bool)

theorem uvClose_effect : CloseEffect s s.uvClose true := by
  unfold Sock.uvClose
  split
  · rename_i hc
    exact ⟨rfl, hc, by simp [hc], fun h => Or.inr ⟨h, rfl⟩⟩
  · rename_i hc
    refine ⟨rfl, rfl, by simp [hc], ?_⟩
    intro h
    contradiction

theorem afterWriteClose_effect : CloseEffect s (s.afterWriteClose r pq d) s.ctx.closing := by
  unfold Sock.afterWriteClose
  split
  · rename_i hc
    rw [hc]
    apply CloseEffect.trans_right (uvClose_effect s)
    exact CloseEffect.of_eq rfl rfl rfl id
  · rename_i hc
    rw [Bool.not_eq_true] at hc
    rw [hc]
    exact CloseEffect.of_eq rfl rfl rfl id

theorem afterWriteDrained_effect :
    CloseEffect s (s.afterWriteDrained r pq d) s.ctx.closing := by
  have hunblock : CloseEffect s s.unblock false := CloseEffect.of_eq rfl rfl rfl id
  apply hunblock.trans_left
  exact afterWriteClose_effect s.unblock r pq d

theorem afterWriteStatus_effect :
    CloseEffect s (s.afterWriteStatus r pq d) (s.endsClosing r) := by
  have hmoved : ∀ stats phase, CloseEffect s (s.moved stats phase) false := fun _ _ =>
    CloseEffect.of_eq rfl rfl rfl id
  obtain ⟨stats, herr, -, h⟩ | ⟨stats, herr, hsize, -, h⟩ | ⟨herr, hsize, hb, h⟩ |
    ⟨herr, hsize, hb, hd, h⟩ | ⟨herr, hsize, hb, hd, h⟩ := afterWriteStatus_cases s r pq d
  all_goals rw [h]
  · have hends : s.endsClosing r = false := by simp [Sock.endsClosing, not_le.mpr herr]
    rw [hends]
    exact hmoved _ _
  · have hends : s.endsClosing r = false := by simp [Sock.endsClosing, hsize]
    rw [hends]
    exact hmoved _ _
  · have hends : s.endsClosing r = s.ctx.closing := by
      simp [Sock.endsClosing, not_lt.mp herr, hsize, hb]
    rw [hends]
    exact afterWriteClose_effect s r pq d
  · have hends : s.endsClosing r = s.ctx.closing := by
      simp [Sock.endsClosing, not_lt.mp herr, hsize, hd]
    rw [hends]
    exact afterWriteDrained_effect s r pq d
  · have hends : s.endsClosing r = false := by simp [Sock.endsClosing, hb, hd]
    rw [hends]
    exact CloseEffect.of_eq rfl rfl rfl id

theorem released_effect : CloseEffect s (s.released r) false := by
  unfold Sock.released Stream.release
  split <;> exact CloseEffect.of_eq rfl rfl rfl id

theorem afterWrite_effect :
    CloseEffect s (s.afterWrite r pq d)
      (!s.callbacks.onWrite && (s.released r).endsClosing r) := by
  rw [afterWrite_eq]
  split
  · rename_i hcb
    rw [hcb]
    exact CloseEffect.trans_right (released_effect s r) (CloseEffect.of_eq rfl rfl rfl id)
  · rename_i hcb
    rw [Bool.not_eq_true] at hcb
    rw [hcb]
    exact CloseEffect.trans_left (released_effect s r) (afterWriteStatus_effect _ r pq d)

theorem afterShutdown_effect :
    CloseEffect s s.afterShutdown (decide (s.handle.writeQueueSize = 0)) := by
  unfold Sock.afterShutdown
  split
  · rename_i hpos
    rw [decide_eq_false (by omega)]
    exact CloseEffect.of_eq rfl rfl rfl id
  · rename_i hzero
    rw [decide_eq_true (by omega)]
    exact uvClose_effect s

theorem closed_effect : CloseEffect s s.closed false := by
  unfold Sock.closed
  split <;> exact CloseEffect.of_eq rfl rfl rfl id

theorem onClose_effect : CloseEffect s s.onClose false := by
  unfold Sock.onClose
  simp only
  split
  · exact CloseEffect.of_eq rfl rfl rfl id
  · refine CloseEffect.trans_left ?_ (closed_effect _)
    exact CloseEffect.of_eq rfl rfl rfl id

theorem afterPlugin_effect : CloseEffect s s.afterPlugin false := by
  unfold Sock.afterPlugin
  split <;> exact CloseEffect.of_eq rfl rfl rfl id

theorem afterReadData_effect (nread : Nat) : CloseEffect s (s.afterReadData nread) false := by
  unfold Sock.afterReadData
  simp only
  split
  · exact CloseEffect.of_eq rfl rfl rfl id
  · refine CloseEffect.trans_left ?_ (afterPlugin_effect _)
    exact CloseEffect.of_eq rfl rfl rfl id

/-- The end of the stream never closes. -/
theorem ended_effect : CloseEffect s s.ended false := by
  unfold Sock.ended
  simp only
  split <;> exact CloseEffect.of_eq rfl rfl rfl (fun h => absurd h Bool.false_ne_true)

theorem readFailed_effect : CloseEffect s s.readFailed true := by
  have hcount : CloseEffect s s.countReadError false := CloseEffect.of_eq rfl rfl rfl id
  apply CloseEffect.trans_right (hcount.trans_left (uvClose_effect _))
  exact CloseEffect.of_eq rfl rfl rfl (fun h => absurd h Bool.false_ne_true)

theorem close_effect (doShutdown : Bool) :
    CloseEffect s (s.close doShutdown)
      (!doShutdown && decide (s.handle.writeQueueSize = 0)) := by
  unfold Sock.close
  split
  · rename_i hshut
    rw [hshut]
    unfold Stream.shutdown
    split <;> exact CloseEffect.of_eq rfl rfl rfl id
  · rename_i hshut
    rw [Bool.not_eq_true] at hshut
    rw [hshut, Bool.not_false, Bool.true_and]
    exact afterShutdown_effect s

theorem resume_effect : CloseEffect s s.resume false := by
  unfold Sock.resume Stream.readStart
  split
  · split
    · exact CloseEffect.of_eq rfl rfl rfl id
    · rename_i hc
      split
      · exact CloseEffect.of_eq rfl rfl rfl id
      · exact ⟨rfl, rfl, by simp, fun _ => Or.inl (by simpa using hc)⟩
  · exact CloseEffect.of_eq rfl rfl rfl id

end Effects

/-! ### Every step -/

/-- libuv takes the shutdown request off the stream and calls `after_shutdown`. -/
private theorem shutdownDone_effect {s s' : Sock}
    (hsize : s'.handle.writeQueueSize = s.handle.writeQueueSize) (p : CloseEffect s s' false) :
    CloseEffect s s'.afterShutdown (decide (s.handle.writeQueueSize = 0)) := by
  rw [← hsize]
  exact p.trans_left (afterShutdown_effect s')

/-- A return to libuv calls `uv_close` in `after_write` or behind `onError`. -/
private theorem callsUvClose_ret {s : Sock} (hdepth : s.depth = 0) :
    callsUvClose s .ret = match s.phase with
      | .onWrite r _ _ => s.endsClosing r
      | .onDrain .. => s.ctx.closing
      | .onReadError => true
      | _ => false := by
  simp only [callsUvClose, hdepth, decide_true, Bool.true_and]

private theorem ret_closeEffect {s s' : Sock} (h : s.ret = some s') :
    CloseEffect s s' (callsUvClose s .ret) := by
  have hquiet : ∀ t : Sock, t.closeCalls = s.closeCalls → t.handle = s.handle →
      t.aborted = s.aborted → CloseEffect s t false := fun t hc hh ha =>
    CloseEffect.of_eq hc (by rw [hh]) ha (by rw [hh]; exact id)
  cases ret_cases h with
  | inner hdepth =>
    have hno : callsUvClose s .ret = false := by simp [callsUvClose, hdepth.ne']
    rw [hno]
    exact hquiet _ rfl rfl rfl
  | outside hdepth hphase | onRead hdepth hphase | pluginClose hdepth hphase
  | onWriteError hdepth hphase =>
    rw [callsUvClose_ret hdepth, hphase]
    exact hquiet _ rfl rfl rfl
  | onWrite hdepth hphase =>
    rw [callsUvClose_ret hdepth, hphase]
    exact afterWriteStatus_effect s _ _ _
  | onDrain hdepth hphase =>
    rw [callsUvClose_ret hdepth, hphase]
    exact afterWriteDrained_effect s _ _ _
  | plugin hdepth hphase =>
    rw [callsUvClose_ret hdepth, hphase]
    exact afterPlugin_effect s
  | onEnd hdepth hphase =>
    rw [callsUvClose_ret hdepth, hphase]
    exact ended_effect s
  | onReadError hdepth hphase =>
    rw [callsUvClose_ret hdepth, hphase]
    exact readFailed_effect s
  | onClose hdepth hphase =>
    rw [callsUvClose_ret hdepth, hphase]
    exact closed_effect s

private theorem next_closeEffect {s s' : Sock} (h : s.next = some s') :
    CloseEffect s s' (callsUvClose s .next) := by
  cases next_cases h with
  | report hphase =>
    simp only [callsUvClose, hphase]
    exact afterWrite_effect s _ _ _
  | reported hphase | flushed hphase =>
    simp only [callsUvClose, hphase]
    exact CloseEffect.of_eq rfl rfl rfl id
  | cancelled hphase hshut =>
    simp only [callsUvClose, hphase]
    rw [hshut, Bool.true_and]
    exact shutdownDone_effect rfl (CloseEffect.of_eq rfl rfl rfl id)
  | notShutting hphase hshut =>
    simp only [callsUvClose, hphase]
    rw [hshut]
    exact CloseEffect.of_eq rfl rfl rfl id
  | closeCallback hphase =>
    simp only [callsUvClose, hphase]
    exact onClose_effect s

private theorem drain_closeEffect {s s' : Sock} {ok : Bool} (h : s.drain ok = some s') :
    CloseEffect s s' (callsUvClose s (.drain ok)) := by
  simp only [callsUvClose]
  cases drain_cases h with
  | shutdown _ hready =>
    rw [decide_eq_true hready, Bool.true_and]
    exact shutdownDone_effect rfl (CloseEffect.of_eq rfl rfl rfl id)
  | nothing _ hready =>
    rw [decide_eq_false hready]
    exact CloseEffect.of_eq rfl rfl rfl id

/-- **Step lemma.** A step calls `uv_close` exactly when `callsUvClose` says so. -/
theorem step_closeEffect {s s' : Sock} {a : Act} (h : step s a = some s') :
    CloseEffect s s' (callsUvClose s a) := by
  unfold step at h
  split at h
  · contradiction
  · cases a with
    | ret => exact ret_closeEffect h
    | next =>
      obtain ⟨-, h⟩ := Option.ite_none_right_eq_some.mp h
      exact next_closeEffect h
    | drain ok =>
      obtain ⟨-, h⟩ := Option.ite_none_right_eq_some.mp h
      exact drain_closeEffect h
    | write len off tried queued =>
      obtain ⟨-, h⟩ := Option.ite_none_right_eq_some.mp h
      -- a write closes nothing
      have same := write_sameLife h
      exact CloseEffect.of_eq same.closeCalls same.flags.closing same.aborted
        (fun hr => same.flags.reading ▸ hr)
    | ioWrite a =>
      obtain ⟨-, h⟩ := Option.ite_none_right_eq_some.mp h
      rw [Option.map_eq_some_iff] at h
      obtain ⟨handle, hcall, h⟩ := h
      cases h
      have hflags := write1_sameFlags hcall
      exact CloseEffect.of_eq rfl hflags.closing rfl (fun hr => hflags.reading ▸ hr)
    | close doShutdown =>
      obtain ⟨-, h⟩ := Option.ite_none_right_eq_some.mp h
      cases h
      exact close_effect s doShutdown
    | resume =>
      obtain ⟨-, h⟩ := Option.ite_none_right_eq_some.mp h
      cases h
      exact resume_effect s
    | pause =>
      obtain ⟨-, h⟩ := Option.ite_none_right_eq_some.mp h
      cases h
      exact CloseEffect.of_eq rfl rfl rfl (fun hr => absurd hr Bool.false_ne_true)
    | readData nread =>
      obtain ⟨-, h⟩ := Option.ite_none_right_eq_some.mp h
      cases h
      exact afterReadData_effect s nread
    | readEof =>
      obtain ⟨-, h⟩ := Option.ite_none_right_eq_some.mp h
      cases h
      simp only [callsUvClose]
      split
      · exact CloseEffect.of_eq rfl rfl rfl id
      · exact ended_effect s
    | readError =>
      obtain ⟨-, h⟩ := Option.ite_none_right_eq_some.mp h
      cases h
      simp only [callsUvClose]
      split
      · rename_i hcb
        rw [hcb]
        exact CloseEffect.of_eq rfl rfl rfl id
      · rename_i hcb
        rw [Bool.not_eq_true] at hcb
        rw [hcb]
        exact readFailed_effect s
    -- the rest leave the handle and the context alone
    | enter | fill | on | destroy =>
      obtain ⟨-, h⟩ := Option.ite_none_right_eq_some.mp h
      cases h
      exact CloseEffect.of_eq rfl rfl rfl id

/-! ### At most once -/

/-- The four places that call `uv_close` without a look at the handle find it open:
    `Close(0)` with an empty queue, the deferred close of `after_write`, and `after_read` behind
    `onError`; and no shutdown request is pending when the handle is destroyed. -/
def Guarded (s : Sock) : Act → Prop
  | .close false => s.handle.writeQueueSize = 0 → s.handle.closing = false
  | .next =>
    match s.phase with
    | .reporting (r :: _) _ =>
      s.callbacks.onWrite = false → (s.released r).endsClosing r = true →
        s.handle.closing = false
    | .cancelShutdown => s.handle.shutting = false
    | _ => True
  | .ret =>
    s.depth = 0 →
      match s.phase with
      | .onWrite r _ _ => s.endsClosing r = true → s.handle.closing = false
      | .onDrain .. => s.ctx.closing = true → s.handle.closing = false
      | .onReadError => s.handle.closing = false
      | _ => True
  | _ => True

/-- What holds as long as the handle was closed at most once. -/
structure Life (s : Sock) : Prop where
  accounted : s.handle.Accounted s.phase.pq
  reading : s.handle.reading = true → s.handle.closing = false
  /-- a handle that is being destroyed has given up its requests -/
  destroying : s.phase.destroying = true → s.handle.closing = true ∧
    s.handle.completed = [] ∧ s.handle.writeQueue = []
  count : s.closeCalls = s.handle.closing.toNat
  sound : s.aborted = false

/-- Where `uv_close` is reached, the guard says that the handle is open. -/
theorem guarded_iff {s s' : Sock} {a : Act} (hs : Life s) (h : step s a = some s') :
    Guarded s a ↔ (callsUvClose s a = true → s.handle.closing = false) := by
  cases a with
  | close doShutdown =>
    cases doShutdown <;> simp [Guarded, callsUvClose]
  | readError =>
    -- libuv reports a read error only while it reads
    unfold step at h
    rw [if_neg (by simp [hs.sound])] at h
    obtain ⟨hc, -⟩ := Option.ite_none_right_eq_some.mp h
    simp [Guarded, hs.reading hc.2.2]
  | drain ok =>
    simp only [Guarded, callsUvClose, true_iff, Bool.and_eq_true, decide_eq_true_eq]
    intro hc
    simpa using hc.1.2.2.1
  | next =>
    simp only [Guarded, callsUvClose]
    split
    · simp
    · -- the requests are all reported, so nothing is left in the queue
      rename_i hphase
      obtain ⟨hclosing, hcomp, hqueue⟩ := hs.destroying (by rw [hphase]; rfl)
      have hsize : s.handle.writeQueueSize = 0 := by
        rw [hs.accounted.size, hphase, hcomp, hqueue]
        rfl
      simp [hclosing, hsize]
    · simp
  | ret =>
    simp only [Guarded, callsUvClose]
    by_cases hdepth : s.depth = 0
    · simp only [hdepth, decide_true, Bool.true_and, true_imp_iff]
      split <;> simp
    · simp [hdepth]
  | _ => simp [Guarded, callsUvClose]

theorem released_queue (s : Sock) (r : WriteReq) :
    (s.released r).handle.completed = s.handle.completed ∧
      (s.released r).handle.writeQueue = s.handle.writeQueue := by
  unfold Sock.released Stream.release
  split <;> exact ⟨rfl, rfl⟩

/-- A closing handle that has no requests gets none. -/
theorem step_stays_empty {s s' : Sock} {a : Act}
    (hs : s.handle.closing = true ∧ s.handle.completed = [] ∧ s.handle.writeQueue = [])
    (h : step s a = some s') :
    s'.handle.closing = true ∧ s'.handle.completed = [] ∧ s'.handle.writeQueue = [] := by
  obtain ⟨hc, hcomp, hqueue⟩ := hs
  have hclosing : s'.handle.closing = true := by
    rw [(step_closeEffect h).closing, hc, Bool.or_true]
  refine ⟨hclosing, ?_⟩
  cases step_writeStep h with
  | js same | quiet same =>
    rw [same.completed, same.writeQueue]
    exact ⟨hcomp, hqueue⟩
  | write call =>
    -- a callback may write, but the handle is closing
    rw [write_of_closing call hc]
    exact ⟨hcomp, hqueue⟩
  | attempt _ call =>
    have hopen := (write1_cases call).1
    rw [hc] at hopen
    contradiction
  | destroy => exact ⟨rfl, rfl⟩
  | @report r pq d _ hphase =>
    -- releasing the bytes of a failed request leaves the queue alone
    have hrel := released_queue s r
    rw [afterWrite_eq]
    split
    · exact ⟨hrel.1.trans hcomp, hrel.2.trans hqueue⟩
    · have same := (afterWriteStatus_frame (s.released r) r pq d).1
      rw [same.completed, same.writeQueue, hrel.1, hrel.2]
      exact ⟨hcomp, hqueue⟩
  | @status r pq d _ hphase =>
    have same := (afterWriteStatus_frame s r pq d).1
    rw [same.completed, same.writeQueue]
    exact ⟨hcomp, hqueue⟩
  | failed => exact ⟨hcomp, hqueue⟩
  | @drained r pq d _ hphase =>
    have same := afterWriteDrained_sameWriting s r pq d
    rw [same.completed, same.writeQueue]
    exact ⟨hcomp, hqueue⟩

/-- A handle that is being destroyed stays without requests. -/
theorem step_destroying {s s' : Sock} {a : Act}
    (hs : s.phase.destroying = true → s.handle.closing = true ∧
      s.handle.completed = [] ∧ s.handle.writeQueue = [])
    (h : step s a = some s') (hd : s'.phase.destroying = true) :
    s'.handle.closing = true ∧ s'.handle.completed = [] ∧ s'.handle.writeQueue = [] := by
  cases step_writeStep h with
  | js same hphase => exact step_stays_empty (hs (hphase ▸ hd)) h
  -- no calm step starts to destroy the handle
  | quiet _ _ _ hdestroying => exact step_stays_empty (hs (hdestroying hd)) h
  | write call =>
    rw [(write_sameLife call).phase] at hd
    exact step_stays_empty (hs hd) h
  | attempt => contradiction
  | destroy _ hclosing => exact ⟨hclosing, rfl, rfl⟩
  | @report r pq d _ hphase =>
    refine step_stays_empty (hs ?_) h
    rw [afterWrite_eq] at hd
    rw [hphase]
    split at hd
    · exact hd
    · exact (afterWriteStatus_frame (s.released r) r pq d).2.2.symm.trans hd
  | @status r pq d _ hphase =>
    refine step_stays_empty (hs ?_) h
    rw [hphase]
    exact (afterWriteStatus_frame s r pq d).2.2.symm.trans hd
  | failed _ hphase =>
    refine step_stays_empty (hs ?_) h
    rw [hphase]
    exact hd
  | @drained r pq d _ hphase =>
    refine step_stays_empty (hs ?_) h
    rw [afterWriteDrained_phase] at hd
    rw [hphase]
    exact hd

/-- **Step lemma.** A guarded step keeps the handle closed at most once. -/
theorem step_life {s s' : Sock} {a : Act} (hs : Life s) (hguard : Guarded s a)
    (h : step s a = some s') : Life s' := by
  have heffect := step_closeEffect h
  have hopen := (guarded_iff hs h).mp hguard
  refine ⟨step_accounted hs.accounted h, ?_, step_destroying hs.destroying h, ?_, ?_⟩
  · intro hr
    obtain hc | ⟨hr, hc⟩ := heffect.reading hr
    · exact hc
    · rw [hc]
      exact hs.reading hr
  · rw [heffect.closeCalls, heffect.closing, hs.count]
    cases hcall : callsUvClose s a with
    | false => simp
    | true => simp [hopen hcall]
  · rw [heffect.aborted, hs.sound]
    cases hcall : callsUvClose s a with
    | false => rfl
    | true => simp [hopen hcall]

/-- A step that is not guarded closes the handle again. -/
theorem step_unguarded {s s' : Sock} {a : Act} (hs : Life s) (hguard : ¬ Guarded s a)
    (h : step s a = some s') : ¬ s'.closeCalls ≤ 1 := by
  have heffect := step_closeEffect h
  rw [guarded_iff hs h, Classical.not_imp, Bool.not_eq_false] at hguard
  rw [heffect.closeCalls, hs.count, hguard.1, hguard.2]
  decide

theorem life_connected (out : List UInt8) (callbacks : Callbacks) (first : Bool) :
    Life (Sock.connected out callbacks first) where
  accounted := ⟨rfl, fun _ hr => absurd hr List.not_mem_nil⟩
  reading := fun _ => rfl
  destroying := fun h => absurd h Bool.false_ne_true
  count := rfl
  sound := rfl

/-- **A connection handle is closed at most once exactly when every step is guarded.** -/
theorem closeCalls_le_one_iff (out : List UInt8) (callbacks : Callbacks) (first : Bool)
    (as : List Act) (s : Sock)
    (hrun : run step (Sock.connected out callbacks first) as = some s) :
    s.closeCalls ≤ 1 ↔ Along step Guarded (Sock.connected out callbacks first) as := by
  have hstart := life_connected out callbacks first
  constructor
  · intro hgood
    refine Along.of_good (G := fun s => s.closeCalls ≤ 1) ?_ ?_ ?_ hstart hrun hgood
    · intro s a s' hs hguard h
      exact step_life hs hguard h
    · intro s a s' hs hguard h
      exact step_unguarded hs hguard h
    · intro s a s' hbad h
      rw [(step_closeEffect h).closeCalls]
      omega
  · intro hguard
    have hlife : Life s := by
      refine run_invariant_along ?_ hstart hguard hrun
      intro s a s' hs hguard h
      exact step_life hs hguard h
    rw [hlife.count]
    exact Bool.toNat_le _

/-- JavaScript calls `Close`. -/
def Act.isClose : Act → Bool
  | .close _ => true
  | _ => false

/-- A write is half done; `Close()` asks for a shutdown, which waits for the rest, and closes
    the handle once it is written. -/
def shutdownOnce : List Act :=
  [.enter, .write 2 0 (.wrote 1) .again, .close true, .ret, .ioWrite (.wrote 1), .next, .next,
    .drain true, .destroy, .next, .next, .next]

theorem closeCalls_le_one_iff_shutdownOnce :
    Along step Guarded (Sock.connected [1, 2] {} false) shutdownOnce :=
  (closeCalls_le_one_iff [1, 2] {} false shutdownOnce _ rfl).mp (by decide)

/-- A write is half done when the peer ends its side, and `onEnd` calls `Close()`.  The end of
    the stream then marks the context as closing, so the rest of the write closes the handle in
    `after_write` while the shutdown request is pending; its cancellation closes it again. -/
def closeOnEnd : List Act :=
  [.enter, .write 2 0 (.wrote 1) .again, .ret, .readEof, .close true, .ret, .ioWrite (.wrote 1),
    .next, .next, .drain true, .destroy, .next, .next]

/-- One `Close` does not mean one `uv_close`. -/
theorem not_closed_once :
    ¬ ∀ (out : List UInt8) (callbacks : Callbacks) (first : Bool) (as : List Act) (s : Sock),
      as.countP Act.isClose ≤ 1 →
      run step (Sock.connected out callbacks first) as = some s → s.closeCalls ≤ 1 := by
  intro h
  have htwo := h [1, 2] { onEnd := true } false closeOnEnd _ (by decide) rfl
  revert htwo
  decide

end Dv8.Socket
