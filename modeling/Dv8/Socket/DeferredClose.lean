import Dv8.Socket.ClosePath
import Dv8.Socket.Drain

namespace Dv8.Socket

open Dv8.Lib Dv8.Uv

/-!
# The close that `Socket::Close` puts off

While bytes are queued `Close(0)` only sets `ctx->closing`; the handle is closed by the
`after_write` that finds the queue empty.  The error path of `after_write` returns before it
looks.  So a failed request that is the last one outstanding leaves the socket half closed: it
refuses every write, and nothing is due that would call `uv_close`.

* `step_marked` — once put off, the close is done or still marked;
* `step_promise` — a step breaks the promise exactly when it is not `LastNotFailed`;
* `ConnStep.promise` — so does a step of a connection that is being made;
* `closed_when_drained_iff` — the same for whole runs behind the call.
-/

/-- What `Socket::Close` returns. -/
def Sock.closeResult (s : Sock) (doShutdown : Bool) : Int :=
  if doShutdown then s.handle.shutdown.2
  else if 0 < s.handle.writeQueueSize then 1
  else 0

/-- No write is outstanding: none is queued or waits to be reported, and no `after_write` is in
    progress. -/
def Sock.Drained (s : Sock) : Prop := s.outstanding = [] ∧ s.phase.inAfterWrite = false

/-- `after_write` of a failed request is over, with `pq` still to report: it was not the last one,
    or `uv_close` has been called. -/
def Sock.NotLast (s : Sock) (pq : List WriteReq) : Prop :=
  pq ++ s.pending = [] → s.handle.closing = true

/-- In this step no `after_write` ends with a failure while its request is the last one
    outstanding and the handle is open. -/
def LastNotFailed (s : Sock) : Act → Prop
  | .next =>
    match s.phase with
    | .reporting (r :: pq) _ =>
      s.callbacks.onWrite = false → r.error < 0 → s.callbacks.onError = false → s.NotLast pq
    | _ => True
  | .ret =>
    s.depth = 0 →
      match s.phase with
      | .onWrite r pq _ => r.error < 0 → s.callbacks.onError = false → s.NotLast pq
      | .onWriteError pq _ => s.NotLast pq
      | _ => True
  | _ => True

/-- The same for a step of a connection. -/
def Conn.LastNotFailed (c : Conn) : ConnAct → Prop
  | .sock a => Socket.LastNotFailed c.sock a
  | _ => True

instance (s : Sock) (pq : List WriteReq) : Decidable (s.NotLast pq) :=
  inferInstanceAs (Decidable (_ → _))

instance (s : Sock) (a : Act) : Decidable (LastNotFailed s a) := by
  unfold LastNotFailed
  generalize s.phase = ph
  rcases a <;> rcases ph with _ | _ | ⟨_ | ⟨r, pq⟩, d⟩ <;> infer_instance

instance (c : Conn) : ∀ a, Decidable (c.LastNotFailed a)
  | .sock a => inferInstanceAs (Decidable (Socket.LastNotFailed c.sock a))
  | .onConnect | .connected _ | .attach _ | .handOn => isTrue trivial

/-! ### The mark -/

/-- The close is marked, or done. -/
def Sock.Marked (s : Sock) : Prop := s.ctx.closing = true ∨ s.handle.closing = true

section Marked

variable {s : Sock} (r : WriteReq) (pq : List WriteReq) (d : Bool)

theorem uvClose_marked (s : Sock) : s.uvClose.Marked :=
  Or.inr (by rw [(uvClose_effect s).closing, Bool.true_or])

/-- The deferred close of `after_write` clears the mark, but closes the handle. -/
theorem afterWriteClose_closing (h : s.Marked) :
    (s.afterWriteClose r pq d).handle.closing = true := by
  rw [(afterWriteClose_effect s r pq d).closing, Bool.or_eq_true]
  exact h

theorem afterWriteDrained_closing (h : s.Marked) :
    (s.afterWriteDrained r pq d).handle.closing = true := by
  rw [(afterWriteDrained_effect s r pq d).closing, Bool.or_eq_true]
  exact h

theorem afterWriteStatus_marked (h : s.Marked) : (s.afterWriteStatus r pq d).Marked := by
  obtain ⟨_, -, -, heq⟩ | ⟨_, -, -, -, heq⟩ | ⟨-, -, -, heq⟩ | ⟨-, -, -, -, heq⟩ |
    ⟨-, -, -, -, heq⟩ := afterWriteStatus_cases s r pq d
  all_goals rw [heq]
  · exact h
  · exact h
  · exact Or.inr (afterWriteClose_closing r pq d h)
  · exact Or.inr (afterWriteDrained_closing r pq d h)
  · exact h

theorem released_marked (h : s.Marked) : (s.released r).Marked := by
  refine h.imp id fun hc => ?_
  rw [(released_effect s r).closing, hc]
  rfl

theorem afterShutdown_marked (s : Sock) : s.afterShutdown.Marked := by
  unfold Sock.afterShutdown
  split
  · exact Or.inl rfl
  · exact uvClose_marked s

theorem close_marked (h : s.Marked) (doShutdown : Bool) : (s.close doShutdown).Marked := by
  unfold Sock.close Stream.shutdown
  split
  · split <;> exact h
  · exact afterShutdown_marked s

theorem resume_marked (h : s.Marked) : s.resume.Marked := by
  unfold Sock.resume Stream.readStart
  split
  · split_ifs <;> exact h
  · exact h

theorem ended_marked (h : s.Marked) : s.ended.Marked := by
  unfold Sock.ended
  simp only
  split
  · exact h
  · exact Or.inl rfl

theorem readFailed_marked (s : Sock) : s.readFailed.Marked :=
  Or.inr (by rw [(readFailed_effect s).closing, Bool.true_or])

theorem closed_marked (h : s.Marked) : s.closed.Marked := by
  unfold Sock.closed
  split <;> exact h

theorem onClose_marked (h : s.Marked) : s.onClose.Marked := by
  unfold Sock.onClose
  simp only
  split
  · exact h
  · exact closed_marked h

theorem afterPlugin_marked (h : s.Marked) : s.afterPlugin.Marked := by
  unfold Sock.afterPlugin
  split <;> exact h

theorem afterReadData_marked (h : s.Marked) (nread : Nat) : (s.afterReadData nread).Marked := by
  unfold Sock.afterReadData
  simp only
  split
  · exact h
  · exact afterPlugin_marked h

end Marked

private theorem ret_marked {s s' : Sock} (hs : s.Marked) (h : s.ret = some s') : s'.Marked := by
  cases ret_cases h with
  | inner | outside | onRead | pluginClose | onWriteError => exact hs
  | onWrite => exact afterWriteStatus_marked _ _ _ hs
  | onDrain => exact Or.inr (afterWriteDrained_closing _ _ _ hs)
  | plugin => exact afterPlugin_marked hs
  | onEnd => exact ended_marked hs
  | onReadError => exact readFailed_marked s
  | onClose => exact closed_marked hs

private theorem next_marked {s s' : Sock} (hs : s.Marked) (h : s.next = some s') : s'.Marked := by
  cases next_cases h with
  | report =>
    rw [afterWrite_eq]
    split
    · exact released_marked _ hs
    · exact afterWriteStatus_marked _ _ _ (released_marked _ hs)
  | reported | flushed | notShutting => exact hs
  | cancelled => exact afterShutdown_marked _
  | closeCallback => exact onClose_marked hs

private theorem drain_marked {s s' : Sock} {ok : Bool} (hs : s.Marked)
    (h : s.drain ok = some s') : s'.Marked := by
  cases drain_cases h with
  | shutdown => exact afterShutdown_marked _
  | nothing => exact hs

/-- **Once put off, the close is done or still marked.** -/
theorem step_marked {s s' : Sock} {a : Act} (hs : s.Marked) (h : step s a = some s') :
    s'.Marked := by
  unfold step at h
  split at h
  · contradiction
  · cases a with
    | ret => exact ret_marked hs h
    | next =>
      obtain ⟨-, h⟩ := Option.ite_none_right_eq_some.mp h
      exact next_marked hs h
    | drain ok =>
      obtain ⟨-, h⟩ := Option.ite_none_right_eq_some.mp h
      exact drain_marked hs h
    | write len off tried queued =>
      obtain ⟨-, h⟩ := Option.ite_none_right_eq_some.mp h
      -- a write neither marks nor closes
      have same := write_sameLife h
      exact hs.imp same.closing.trans same.flags.closing.trans
    | ioWrite a =>
      obtain ⟨-, h⟩ := Option.ite_none_right_eq_some.mp h
      rw [Option.map_eq_some_iff] at h
      obtain ⟨handle, hcall, h⟩ := h
      cases h
      exact hs.imp id (write1_sameFlags hcall).closing.trans
    | close doShutdown =>
      obtain ⟨-, h⟩ := Option.ite_none_right_eq_some.mp h
      cases h
      exact close_marked hs doShutdown
    | resume =>
      obtain ⟨-, h⟩ := Option.ite_none_right_eq_some.mp h
      cases h
      exact resume_marked hs
    | readData nread =>
      obtain ⟨-, h⟩ := Option.ite_none_right_eq_some.mp h
      cases h
      exact afterReadData_marked hs nread
    | readEof =>
      obtain ⟨-, h⟩ := Option.ite_none_right_eq_some.mp h
      cases h
      split
      · exact hs
      · exact ended_marked hs
    | readError =>
      obtain ⟨-, h⟩ := Option.ite_none_right_eq_some.mp h
      cases h
      split
      · exact hs
      · exact readFailed_marked s
    | enter | pause | fill | on | destroy =>
      obtain ⟨-, h⟩ := Option.ite_none_right_eq_some.mp h
      cases h
      exact hs

/-! ### The promise -/

/-- When no write is outstanding any more, the handle has been closed. -/
def Sock.Promise (s : Sock) : Prop := s.Drained → s.handle.closing = true

/-- Nothing is drained while JavaScript runs in a callback of `after_write`. -/
theorem promise_of_inAfterWrite {s : Sock} (h : s.phase.inAfterWrite = true) : s.Promise := by
  intro hdrained
  rw [hdrained.2] at h
  contradiction

/-- The last stage of `after_write` keeps the promise unless it ends with a failure. -/
theorem afterWriteStatus_promise {s : Sock} {r : WriteReq} {pq : List WriteReq} {d : Bool}
    (hacc : s.handle.Accounted pq) (hs : s.Marked) :
    (s.afterWriteStatus r pq d).Promise ↔
      (r.error < 0 → s.callbacks.onError = false → s.NotLast pq) := by
  obtain ⟨stats, herr, -, heq⟩ | ⟨stats, herr, hsize, -, heq⟩ | ⟨herr, -, -, heq⟩ |
    ⟨herr, -, -, -, heq⟩ | ⟨herr, -, -, -, heq⟩ := afterWriteStatus_cases s r pq d
  all_goals rw [heq]
  · cases hcb : s.callbacks.onError with
    | true =>
      rw [if_pos rfl]
      exact ⟨fun _ _ hno => by contradiction, fun _ => promise_of_inAfterWrite rfl⟩
    | false =>
      rw [if_neg Bool.false_ne_true]
      exact ⟨fun hp _ _ hnil => hp ⟨hnil, rfl⟩, fun hp hdrained => hp herr rfl hdrained.1⟩
  · -- bytes are still queued
    refine ⟨fun _ hneg => absurd hneg herr, fun _ hdrained => ?_⟩
    exact absurd hdrained.1 (ne_nil_of_size hacc hsize)
  · exact ⟨fun _ hneg => absurd hneg herr, fun _ _ => afterWriteClose_closing r pq d hs⟩
  · exact ⟨fun _ hneg => absurd hneg herr, fun _ _ => afterWriteDrained_closing r pq d hs⟩
  · exact ⟨fun _ hneg => absurd hneg herr, fun _ => promise_of_inAfterWrite rfl⟩

/-- A closing socket queues nothing. -/
theorem write_pending {s s' : Sock} {len off : Nat} {tried queued : Answer}
    (h : s.write len off tried queued = some s') (hs : s.Marked) : s'.handle = s.handle := by
  rcases hs with hmark | hclosing
  · obtain ⟨bytes, -, ⟨-, rfl⟩ | ⟨handle, r, hopen, -⟩⟩ := write_cases h
    · rfl
    · rw [hmark] at hopen
      contradiction
  · exact write_of_closing h hclosing

/-- Where no request is being reported none can fail. -/
theorem lastNotFailed_of_idle {s : Sock} (h : s.phase.Idle) (a : Act) : LastNotFailed s a := by
  obtain ⟨hpq, hafter⟩ := h
  cases a with
  | next =>
    simp only [LastNotFailed]
    split
    · rename_i hphase
      rw [hphase] at hpq
      contradiction
    · trivial
  | ret =>
    intro _
    split
    · rename_i hphase
      rw [hphase] at hafter
      contradiction
    · rename_i hphase
      rw [hphase] at hafter
      contradiction
    · trivial
  | _ => trivial

/-- Every stage of `after_write` ends in another phase. -/
theorem lastNotFailed_of_phase {s s' : Sock} {a : Act} (h : step s a = some s')
    (hsame : s'.phase = s.phase) : LastNotFailed s a := by
  cases a with
  | next =>
    simp only [LastNotFailed]
    split
    · rename_i r pq d hphase
      intro hcb
      obtain ⟨-, h⟩ := Option.ite_none_left_eq_some.mp h
      obtain ⟨-, h⟩ := Option.ite_none_right_eq_some.mp h
      simp only [Sock.next, hphase, Option.some.injEq] at h
      rw [← h, afterWrite_eq, if_neg (by simp [hcb])] at hsame
      -- the phase behind has one request less, or is another stage
      obtain hp | hp | ⟨hp, -⟩ := afterWriteStatus_phase hsame <;> simp [hphase] at hp
    · trivial
  | ret =>
    intro hdepth
    obtain ⟨-, h⟩ := Option.ite_none_left_eq_some.mp h
    split
    · rename_i r pq d hphase
      simp only [Sock.ret, hdepth, hphase, Nat.lt_irrefl, if_false, Option.some.injEq] at h
      rw [← h] at hsame
      obtain hp | hp | ⟨hp, -⟩ := afterWriteStatus_phase hsame <;> simp [hphase] at hp
    · rename_i pq d hphase
      simp only [Sock.ret, hdepth, hphase, Nat.lt_irrefl, if_false, Option.some.injEq] at h
      rw [← h, hphase] at hsame
      contradiction
    · trivial
  | _ => trivial

/-- **Step lemma.** A step keeps the promise exactly when no last request fails in it. -/
theorem step_promise {s s' : Sock} {a : Act} (hacc : s.handle.Accounted s.phase.pq)
    (hs : s.Marked) (hp : s.Promise) (h : step s a = some s') :
    s'.Promise ↔ LastNotFailed s a := by
  have hmono : s.handle.closing = true → s'.handle.closing = true := by
    intro hc
    rw [(step_closeEffect h).closing, hc, Bool.or_true]
  cases step_writeStep h with
  -- where the queue does not grow, what is drained now was drained before
  | js same hphase =>
    refine ⟨fun _ => lastNotFailed_of_phase h hphase, fun _ hdrained => hmono (hp ?_)⟩
    rw [Sock.Drained, outstanding_eq, same.toSameQueue.pending, hphase] at hdrained
    exact hdrained
  | quiet same hidle hidle' =>
    refine ⟨fun _ => lastNotFailed_of_idle hidle a, fun _ hdrained => hmono (hp ?_)⟩
    rw [Sock.Drained, outstanding_eq, same.toSameQueue.pending, hidle'.1] at hdrained
    rw [Sock.Drained, outstanding_eq, hidle.1]
    exact ⟨hdrained.1, hidle.2⟩
  | write call =>
    refine ⟨fun _ => trivial, fun _ hdrained => hmono (hp ?_)⟩
    rw [Sock.Drained, Sock.outstanding, write_pending call hs, (write_sameLife call).phase]
      at hdrained
    exact hdrained
  | @attempt _ handle hphase call =>
    refine ⟨fun _ => trivial, fun _ hdrained => hmono (hp ?_)⟩
    rw [Sock.Drained, outstanding_eq, hphase]
    exact ⟨(write1_eq_nil_iff call).mp hdrained.1, rfl⟩
  -- a handle is destroyed when it has been closed
  | destroy hphase hclosing => exact ⟨fun _ => trivial, fun _ _ => hclosing⟩
  | @report r pq d _ hphase =>
    rw [hphase] at hacc
    have hstatus := afterWriteStatus_promise (r := r) (d := d) (s := s.released r) hacc.release
      (released_marked r hs)
    simp only [LastNotFailed, hphase]
    rw [afterWrite_eq]
    split
    · rename_i hcb
      exact ⟨fun _ hno => by rw [hcb] at hno; contradiction, fun _ => promise_of_inAfterWrite rfl⟩
    · rename_i hcb
      rw [hstatus]
      -- releasing the bytes of the request leaves the other requests
      have hlast : (s.released r).NotLast pq ↔ s.NotLast pq := by
        rw [Sock.NotLast, released_pending, (released_effect s r).closing, Bool.false_or]
        exact Iff.rfl
      rw [hlast]
      exact ⟨fun hn _ => hn, fun hn => hn (by simpa using hcb)⟩
  | @status r pq d hdepth hphase =>
    rw [hphase] at hacc
    simp only [LastNotFailed, hphase, hdepth, true_imp_iff]
    exact afterWriteStatus_promise hacc hs
  | @failed pq d hdepth hphase =>
    simp only [LastNotFailed, hphase, hdepth, true_imp_iff]
    exact ⟨fun hp hnil => hp ⟨hnil, rfl⟩, fun hlast hdrained => hlast hdrained.1⟩
  | @drained r pq d hdepth hphase =>
    simp only [LastNotFailed, hphase, implies_true, iff_true]
    exact fun _ => afterWriteDrained_closing r pq d hs

/-! ### Runs -/

/-- The handle is closing exactly when `uv_close` has been called. -/
def Sock.Counted (s : Sock) : Prop := s.handle.closing = true ↔ 1 ≤ s.closeCalls

theorem step_counted {s s' : Sock} {a : Act} (hs : s.Counted) (h : step s a = some s') :
    s'.Counted := by
  have heffect := step_closeEffect h
  rw [Sock.Counted, heffect.closing, heffect.closeCalls, Bool.or_eq_true]
  cases callsUvClose s a with
  | true => simp
  | false => simpa [Sock.Counted] using hs

/-! ### The steps of a connection -/

theorem Aside.drained {s s' : Sock} (h : Aside s s') : s'.Drained ↔ s.Drained := by
  rw [Sock.Drained, Sock.Drained, outstanding_eq, outstanding_eq,
    h.sameWriting.toSameQueue.pending, h.pq.1, h.pq.2]

/-- A context that is marked has a handle. -/
theorem Sock.Fresh.not_marked {s : Sock} (hs : s.Fresh) : ¬ s.Marked := by
  rintro (hc | hc)
  · exact Bool.false_ne_true (hs.closing.symm.trans hc)
  · rw [hs.handle] at hc
    exact Bool.false_ne_true hc

theorem ConnStep.marked {c : Conn} {a : ConnAct} {s' : Sock} (h : ConnStep c a s')
    (hs : c.sock.Marked) : s'.Marked := by
  cases h with
  | sock step => exact step_marked hs step
  | wait _ call =>
    obtain ⟨bytes, -, ⟨-, heq⟩ | ⟨-, -, _, -, heq⟩ | ⟨-, -, heq⟩⟩ := writeConnecting_cases call
    all_goals
      rw [heq]
      exact hs
  | aside same | within same =>
    rw [Sock.Marked, same.closing.1, same.closing.2]
    exact hs
  | cancel => exact hs
  | init fresh => exact absurd hs fresh.not_marked

theorem ConnStep.counted {c : Conn} {a : ConnAct} {s' : Sock} (h : ConnStep c a s')
    (hs : c.sock.Counted) : s'.Counted := by
  cases h with
  | sock step => exact step_counted hs step
  | wait _ call =>
    obtain ⟨bytes, -, ⟨-, heq⟩ | ⟨-, -, _, -, heq⟩ | ⟨-, -, heq⟩⟩ := writeConnecting_cases call
    all_goals
      rw [heq]
      exact hs
  | aside same | within same =>
    have hcalls : s'.closeCalls = c.sock.closeCalls := congrArg (fun k => k.2.2.2.2.1) same.kept
    rw [Sock.Counted, same.closing.2, hcalls]
    exact hs
  | cancel => exact hs
  | init fresh =>
    rw [Sock.Counted, fresh.closeCalls]
    exact iff_of_false Bool.false_ne_true (Nat.not_succ_le_zero 0)

/-- **Step lemma**, for a connection. -/
theorem ConnStep.promise {c : Conn} {a : ConnAct} {s' : Sock} (h : ConnStep c a s')
    (hacc : c.sock.handle.Accounted c.sock.phase.pq) (hs : c.sock.Marked) (hp : c.sock.Promise) :
    s'.Promise ↔ c.LastNotFailed a := by
  cases h with
  | sock step => exact step_promise hacc hs hp step
  | wait _ call =>
    refine ⟨fun _ => trivial, fun _ => ?_⟩
    obtain ⟨bytes, -, ⟨-, heq⟩ | ⟨-, -, _, -, heq⟩ | ⟨hopen, hno, -⟩⟩ := writeConnecting_cases call
    · rw [heq]
      exact hp
    · rw [heq]
      exact hp
    · -- a request that waits finds nothing marked
      exact absurd hs (not_or.mpr ⟨by simp [hopen], fun hc => hno (Or.inl hc)⟩)
  | aside same outer =>
    have hpromise : s'.Promise ↔ c.sock.Promise := by
      rw [Sock.Promise, Sock.Promise, same.drained, same.closing.2]
    refine iff_of_true (hpromise.mpr hp) ?_
    cases a with
    | sock b => exact absurd rfl (outer b)
    | _ => trivial
  | within same calm =>
    have hpromise : s'.Promise ↔ c.sock.Promise := by
      rw [Sock.Promise, Sock.Promise, same.drained, same.closing.2]
    exact iff_of_true (hpromise.mpr hp) (lastNotFailed_of_idle (Phase.idle_of_calm calm) _)
  | cancel reading action calm =>
    obtain ⟨hpq, hafter⟩ := Phase.idle_of_calm calm
    refine iff_of_true (fun hdrained => hp ⟨?_, hafter⟩) ?_
    · rw [outstanding_eq, hpq]
      simpa [Sock.outstanding, Sock.pending, Stream.flush, Phase.pq] using hdrained.1
    · obtain rfl | ⟨rfl, -⟩ := action
      · trivial
      · exact lastNotFailed_of_idle (s := c.sock) ⟨hpq, hafter⟩ .ret
  | init fresh => exact absurd hs fresh.not_marked

/-- What every run keeps. -/
structure Conn.Kept (c : Conn) : Prop extends Conn.Placed c where
  accounted : c.sock.handle.Accounted c.sock.phase.pq
  counted : c.sock.Counted

theorem conn_step_kept {c c' : Conn} {a : ConnAct} (hc : c.Kept) (h : c.step a = some c') :
    c'.Kept where
  toPlaced := conn_step_placed hc.toPlaced h
  accounted := (conn_step_cases hc.toPlaced h).accounted hc.accounted
  counted := (conn_step_cases hc.toPlaced h).counted hc.counted

theorem kept_obtained (way : Way) (out : List UInt8) (callbacks : Callbacks)
    (plugins : List Plugins.Kind) (onConnect : Bool) :
    (Conn.obtained way out callbacks plugins onConnect).Kept where
  toPlaced := placed_obtained way out callbacks plugins onConnect
  accounted := (flagged_obtained way out callbacks plugins onConnect).accounted
  counted := by cases way <;> exact iff_of_false Bool.false_ne_true (Nat.not_succ_le_zero 0)

/-- **A deferred close completes**: behind a `Close(0)` that returned 1 the handle has been closed
    in every state in which no write is outstanding, exactly when no last request fails on an open
    handle. -/
theorem closed_when_drained_iff (way : Way) (out : List UInt8) (callbacks : Callbacks)
    (plugins : List Plugins.Kind) (onConnect : Bool) (as bs : List ConnAct) (c d e : Conn)
    (hrun : run Conn.step (Conn.obtained way out callbacks plugins onConnect) as = some c)
    (hclose : c.step (.sock (.close false)) = some d) (hdeferred : c.sock.closeResult false = 1)
    (hrun' : run Conn.step d bs = some e) :
    (∀ cs ds v, bs = cs ++ ds → run Conn.step d cs = some v → v.sock.Drained →
        1 ≤ v.sock.closeCalls) ↔
      Along Conn.step Conn.LastNotFailed d bs := by
  have hc : c.Kept := run_invariant (fun _ _ _ hs hstep => conn_step_kept hs hstep)
    (kept_obtained way out callbacks plugins onConnect) hrun
  have hsize : 0 < c.sock.handle.writeQueueSize := by
    by_contra hno
    simp [Sock.closeResult, hno] at hdeferred
  have hd := conn_step_kept hc hclose
  -- the close was put off, so the context is marked, and bytes are still queued
  have hmarked : d.sock.Marked ∧ d.sock.handle.writeQueueSize ≠ 0 := by
    have hcases := conn_step_cases hc.toPlaced hclose
    generalize d.sock = s' at hcases
    cases hcases with
    | sock step =>
      obtain ⟨-, step⟩ := Option.ite_none_left_eq_some.mp step
      obtain ⟨-, step⟩ := Option.ite_none_right_eq_some.mp step
      cases step
      refine ⟨afterShutdown_marked c.sock, ?_⟩
      rw [(close_sameWriting c.sock false).size]
      omega
    | aside _ outer => exact absurd rfl (outer _)
    | within _ _ place =>
      obtain h | h | ⟨-, fresh⟩ := place
      · contradiction
      · contradiction
      · rw [fresh.handle] at hsize
        exact absurd hsize (by decide)
    | cancel _ action => obtain h | ⟨h, -⟩ := action <;> contradiction
  have hpromise : d.sock.Promise := fun hdrained =>
    absurd hdrained.1 (ne_nil_of_size hd.accounted hmarked.2)
  have hpromise_iff : ∀ c : Conn, c.Kept →
      ((c.sock.Drained → 1 ≤ c.sock.closeCalls) ↔ c.sock.Promise) :=
    fun c hc => imp_congr_right fun _ => hc.counted.symm
  refine forall_prefix_iff_along (G := fun c : Conn => c.sock.Drained → 1 ≤ c.sock.closeCalls)
    (I := fun c => c.Kept ∧ c.sock.Marked) ?_ ⟨hd, hmarked.1⟩
    ((hpromise_iff d hd).mpr hpromise) hrun'
  -- behind the call every step keeps the mark, and keeps the promise if it is `LastNotFailed`
  intro c a c' ⟨hc, hs⟩ hp hstep
  have hcases := conn_step_cases hc.toPlaced hstep
  have hc' := conn_step_kept hc hstep
  refine ⟨⟨hc', hcases.marked hs⟩, ?_⟩
  rw [hpromise_iff c' hc']
  exact hcases.promise hc.accounted hs ((hpromise_iff c hc).mp hp)

/-- `Close(0)` while half a range waits. -/
def closeHalf : List ConnAct :=
  [.sock .ret, .sock .enter, .sock (.write 2 0 (.wrote 1) .again)]

/-- The rest is written, or the connection is reset. -/
def afterClose (a : Answer) : List ConnAct :=
  [.sock .ret, .sock (.ioWrite a), .sock .next, .sock .next]

theorem closed_when_drained_iff_afterClose :
    ∃ c d v, run Conn.step (Conn.obtained .accept [1, 2] {} [] false) closeHalf = some c ∧
      c.step (.sock (.close false)) = some d ∧
      run Conn.step d (afterClose (.wrote 1)) = some v ∧ v.sock.Drained ∧
      1 ≤ v.sock.closeCalls := by
  have hiff := closed_when_drained_iff .accept [1, 2] {} [] false closeHalf
    (afterClose (.wrote 1)) _ _ _ rfl rfl rfl rfl
  exact ⟨_, _, _, rfl, rfl, rfl, ⟨rfl, rfl⟩,
    hiff.mpr (by decide) (afterClose (.wrote 1)) [] _ rfl rfl ⟨rfl, rfl⟩⟩

/-- The last request fails, and the handle is left open for ever. -/
theorem not_closed_when_drained :
    ∃ c d v, run Conn.step (Conn.obtained .accept [1, 2] {} [] false) closeHalf = some c ∧
      c.step (.sock (.close false)) = some d ∧ c.sock.closeResult false = 1 ∧
      run Conn.step d (afterClose (.failed 104)) = some v ∧ v.sock.Drained ∧
      v.sock.closeCalls = 0 :=
  ⟨_, _, _, rfl, rfl, rfl, rfl, ⟨rfl, rfl⟩, rfl⟩

end Dv8.Socket
