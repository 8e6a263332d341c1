import Dv8.Socket.Socket

namespace Dv8.Socket

open Dv8.Lib Dv8.Uv

/-!
# What one step does to the write path

`Returns`, `Goes` and `UvDrain` list where control goes when no JavaScript is called; what a step
does to any part of the socket is proved from these lists.

Most steps leave the write path alone (`SameWriting`).  `WriteStep` lists the others: a call of
`Socket::Write`, an attempt at the head of the queue, the destruction of the handle, and the
stages of `after_write`.  `afterWriteStatus_cases` does the same for the one stage that branches.
Every invariant of the write path is proved from these lists.
-/

/-! ### The requests that are being reported -/

/-- The requests `uv__write_callbacks` has still to report. -/
def Phase.pq : Phase → List WriteReq
  | .reporting pq _ | .onWrite _ pq _ | .onWriteError pq _ | .onDrain _ pq _ => pq
  | _ => []

/-- JavaScript runs in a callback made by `after_write`. -/
def Phase.inAfterWrite : Phase → Bool
  | .onWrite .. | .onWriteError .. | .onDrain .. => true
  | _ => false

/-- The handle is being destroyed and its requests are not all reported. -/
def Phase.destroying : Phase → Bool
  | .reporting _ d | .onWrite _ _ d | .onWriteError _ d | .onDrain _ _ d => d
  | .cancelShutdown => true
  | _ => false

/-- No request is being reported. -/
def Phase.Idle (p : Phase) : Prop := p.pq = [] ∧ p.inAfterWrite = false

/-- The phases that have nothing to do with writing, destroying or a read error. -/
def Phase.calm : Phase → Bool
  | .loop | .outside | .draining | .plugin _ | .onRead | .onEnd | .closeCallback | .onClose
  | .pluginClose => true
  | _ => false

theorem Phase.calm_spec {p : Phase} (h : p.calm = true) :
    p.Idle ∧ p.destroying = false ∧ p ≠ .onReadError := by
  cases p <;> first | contradiction | exact ⟨⟨rfl, rfl⟩, rfl, by simp⟩

theorem Phase.idle_of_calm {p : Phase} (h : p.calm = true) : p.Idle := (Phase.calm_spec h).1

/-- The requests that have been queued and whose `after_write` has not begun. -/
def Sock.outstanding (s : Sock) : List WriteReq :=
  s.phase.pq ++ (s.handle.completed ++ s.handle.writeQueue)

/-! ### Frames -/

/-- The queue and the calls are untouched. -/
structure SameQueue (s s' : Sock) : Prop where
  writeQueue : s'.handle.writeQueue = s.handle.writeQueue
  completed : s'.handle.completed = s.handle.completed
  size : s'.handle.writeQueueSize = s.handle.writeQueueSize
  sent : s'.handle.sent = s.handle.sent
  calls : s'.calls = s.calls

/-- The write path is untouched: the queue, and whether the writer is blocked. -/
structure SameWriting (s s' : Sock) : Prop extends SameQueue s s' where
  blocked : s'.ctx.blocked = s.ctx.blocked
  drain : s'.ctx.stats.drain = s.ctx.stats.drain

/-- What the write path looks at. -/
def Sock.writing (s : Sock) :
    (List WriteReq × List WriteReq × Nat × List UInt8 × List Call) × Bool × Nat :=
  ((s.handle.writeQueue, s.handle.completed, s.handle.writeQueueSize, s.handle.sent, s.calls),
    s.ctx.blocked, s.ctx.stats.drain)

theorem SameQueue.of_writing {s s' : Sock} (h : s'.writing.1 = s.writing.1) : SameQueue s s' := by
  simp only [Sock.writing, Prod.mk.injEq] at h
  obtain ⟨hqueue, hcompleted, hsize, hsent, hcalls⟩ := h
  exact ⟨hqueue, hcompleted, hsize, hsent, hcalls⟩

theorem SameWriting.of_writing {s s' : Sock} (h : s'.writing = s.writing) : SameWriting s s' where
  toSameQueue := SameQueue.of_writing (congrArg Prod.fst h)
  blocked := congrArg (fun w => w.2.1) h
  drain := congrArg (fun w => w.2.2) h

theorem SameQueue.refl (s : Sock) : SameQueue s s := SameQueue.of_writing rfl

theorem SameQueue.trans {s s' s'' : Sock} (p : SameQueue s s') (q : SameQueue s' s'') :
    SameQueue s s'' where
  writeQueue := q.writeQueue.trans p.writeQueue
  completed := q.completed.trans p.completed
  size := q.size.trans p.size
  sent := q.sent.trans p.sent
  calls := q.calls.trans p.calls

theorem SameWriting.refl (s : Sock) : SameWriting s s := ⟨SameQueue.refl s, rfl, rfl⟩

theorem SameWriting.trans {s s' s'' : Sock} (p : SameWriting s s') (q : SameWriting s' s'') :
    SameWriting s s'' where
  toSameQueue := p.toSameQueue.trans q.toSameQueue
  blocked := q.blocked.trans p.blocked
  drain := q.drain.trans p.drain

theorem SameQueue.accounted {s s' : Sock} (h : SameQueue s s') {pq : List WriteReq}
    (hacc : s.handle.Accounted pq) : s'.handle.Accounted pq where
  size := by
    rw [h.size, h.completed, h.writeQueue]
    exact hacc.size
  reported := by
    rw [h.completed]
    exact hacc.reported

theorem SameQueue.output {s s' : Sock} (h : SameQueue s s') :
    s'.handle.output = s.handle.output := by
  rw [Stream.output, Stream.output, h.sent, h.writeQueue]

section Frames

variable (s : Sock) (r : WriteReq) (pq : List WriteReq) (d : Bool)

theorem uvClose_sameWriting : SameWriting s s.uvClose := by
  unfold Sock.uvClose
  split <;> exact SameWriting.of_writing rfl

theorem uvClose_phase : s.uvClose.phase = s.phase := by
  unfold Sock.uvClose
  split <;> rfl

theorem afterWriteFree_sameWriting : SameWriting s (s.afterWriteFree r pq d) :=
  (SameWriting.of_writing rfl)

theorem afterWriteClose_sameWriting : SameWriting s (s.afterWriteClose r pq d) := by
  unfold Sock.afterWriteClose
  split
  · apply SameWriting.trans (uvClose_sameWriting s)
    exact SameWriting.of_writing rfl
  · exact afterWriteFree_sameWriting s r pq d

theorem afterWriteClose_phase : (s.afterWriteClose r pq d).phase = .reporting pq d := by
  unfold Sock.afterWriteClose
  split <;> rfl

theorem afterWriteDrained_sameWriting : SameWriting s.unblock (s.afterWriteDrained r pq d) :=
  afterWriteClose_sameWriting s.unblock r pq d

theorem afterWriteDrained_phase : (s.afterWriteDrained r pq d).phase = .reporting pq d :=
  afterWriteClose_phase s.unblock r pq d

theorem afterShutdown_sameWriting : SameWriting s s.afterShutdown := by
  unfold Sock.afterShutdown
  split
  · exact SameWriting.of_writing rfl
  · exact uvClose_sameWriting s

theorem afterShutdown_phase : s.afterShutdown.phase = s.phase := by
  unfold Sock.afterShutdown
  split
  · rfl
  · exact uvClose_phase s

theorem closed_sameWriting : SameWriting s s.closed := by
  unfold Sock.closed
  split <;> exact SameWriting.of_writing rfl

theorem close_sameWriting (doShutdown : Bool) : SameWriting s (s.close doShutdown) := by
  unfold Sock.close Stream.shutdown
  split
  · split <;> exact SameWriting.of_writing rfl
  · split
    · exact SameWriting.of_writing rfl
    · exact uvClose_sameWriting s

theorem close_phase (doShutdown : Bool) : (s.close doShutdown).phase = s.phase := by
  unfold Sock.close
  split
  · rfl
  · split
    · rfl
    · exact uvClose_phase s

theorem resume_sameWriting : SameWriting s s.resume := by
  unfold Sock.resume Stream.readStart
  split
  · split_ifs <;> exact SameWriting.of_writing rfl
  · exact SameWriting.refl s

theorem resume_phase : s.resume.phase = s.phase := by
  unfold Sock.resume
  split <;> rfl

theorem ended_sameWriting : SameWriting s s.ended := by
  unfold Sock.ended
  simp only
  split <;> exact SameWriting.of_writing rfl

theorem ended_phase : s.ended.phase = .loop := by
  unfold Sock.ended
  simp only
  split <;> rfl

theorem readFailed_sameWriting : SameWriting s s.readFailed := by
  have hcount : SameWriting s s.countReadError := SameWriting.of_writing rfl
  apply SameWriting.trans (hcount.trans (uvClose_sameWriting _))
  exact SameWriting.of_writing rfl

theorem readFailed_phase : s.readFailed.phase = .loop := uvClose_phase s.countReadError

theorem onClose_sameWriting : SameWriting s s.onClose := by
  unfold Sock.onClose
  simp only
  split
  · exact SameWriting.of_writing rfl
  · refine SameWriting.trans ?_ (closed_sameWriting _)
    exact SameWriting.of_writing rfl

theorem afterPlugin_sameWriting : SameWriting s s.afterPlugin := by
  unfold Sock.afterPlugin
  split <;> exact SameWriting.of_writing rfl

theorem ended_calm : s.ended.phase.calm = true := by
  rw [ended_phase]
  rfl

theorem readFailed_calm : s.readFailed.phase.calm = true := by
  rw [readFailed_phase]
  rfl

theorem closed_calm : s.closed.phase.calm = true := by
  unfold Sock.closed
  split <;> rfl

theorem onClose_calm : s.onClose.phase.calm = true := by
  unfold Sock.onClose
  simp only
  split
  · rfl
  · exact closed_calm _

theorem afterPlugin_calm : s.afterPlugin.phase.calm = true := by
  unfold Sock.afterPlugin
  split <;> rfl

theorem afterReadData_sameWriting (nread : Nat) : SameWriting s (s.afterReadData nread) := by
  unfold Sock.afterReadData
  simp only
  split
  · exact SameWriting.of_writing rfl
  · refine SameWriting.trans ?_ (afterPlugin_sameWriting _)
    exact SameWriting.of_writing rfl

theorem afterReadData_calm (nread : Nat) : (s.afterReadData nread).phase.calm = true := by
  unfold Sock.afterReadData
  simp only
  split
  · rfl
  · exact afterPlugin_calm _

end Frames

/-! ### The stages of `after_write` -/

/-- The socket with other statistics, in another phase. -/
def Sock.moved (s : Sock) (stats : Stats) (phase : Phase) : Sock :=
  { s with ctx := { s.ctx with stats := stats }, phase := phase }

/-- `after_write` behind `onWrite`: a failed request is over, or over behind `onError`; one
    that succeeded finds bytes still queued, or an empty queue, which ends a blockade and may
    close the handle. -/
theorem afterWriteStatus_cases (s : Sock) (r : WriteReq) (pq : List WriteReq) (d : Bool) :
    (∃ stats, r.error < 0 ∧ stats.drain = s.ctx.stats.drain ∧
        s.afterWriteStatus r pq d =
          s.moved stats (if s.callbacks.onError then .onWriteError pq d else .reporting pq d)) ∨
      (∃ stats, ¬ r.error < 0 ∧ s.handle.writeQueueSize ≠ 0 ∧
        stats.drain = s.ctx.stats.drain ∧
        s.afterWriteStatus r pq d = s.moved stats (.reporting pq d)) ∨
      (¬ r.error < 0 ∧ s.handle.writeQueueSize = 0 ∧ s.ctx.blocked = false ∧
        s.afterWriteStatus r pq d = s.afterWriteClose r pq d) ∨
      (¬ r.error < 0 ∧ s.handle.writeQueueSize = 0 ∧ s.ctx.blocked = true ∧
        s.callbacks.onDrain = false ∧ s.afterWriteStatus r pq d = s.afterWriteDrained r pq d) ∨
      (¬ r.error < 0 ∧ s.handle.writeQueueSize = 0 ∧ s.ctx.blocked = true ∧
        s.callbacks.onDrain = true ∧
        s.afterWriteStatus r pq d = { s with phase := .onDrain r pq d }) := by
  by_cases herr : r.error < 0
  · refine Or.inl ?_
    unfold Sock.afterWriteStatus
    rw [if_pos herr]
    simp only
    split
    all_goals
      refine ⟨_, herr, ?_, rfl⟩
      rfl
  · refine Or.inr ?_
    by_cases hsize : s.handle.writeQueueSize = 0
    · -- an empty queue is never larger than the largest seen
      refine Or.inr ?_
      have hmax : ¬ s.ctx.stats.maxQueue < s.handle.writeQueueSize := by
        rw [hsize]
        exact Nat.not_lt_zero _
      unfold Sock.afterWriteStatus
      rw [if_neg herr]
      simp only [if_neg hmax, if_pos hsize]
      cases hb : s.ctx.blocked with
      | false => exact Or.inl ⟨herr, hsize, rfl, rfl⟩
      | true =>
        cases hd : s.callbacks.onDrain with
        | false => exact Or.inr (Or.inl ⟨herr, hsize, rfl, rfl, rfl⟩)
        | true => exact Or.inr (Or.inr ⟨herr, hsize, rfl, rfl, rfl⟩)
    · refine Or.inl ?_
      unfold Sock.afterWriteStatus
      rw [if_neg herr]
      simp only [if_neg hsize]
      split
      all_goals
        refine ⟨_, herr, hsize, ?_, rfl⟩
        rfl

/-- Whatever it does, this stage leaves the queue alone and reports no request. -/
theorem afterWriteStatus_frame (s : Sock) (r : WriteReq) (pq : List WriteReq) (d : Bool) :
    SameQueue s (s.afterWriteStatus r pq d) ∧ (s.afterWriteStatus r pq d).phase.pq = pq ∧
      (s.afterWriteStatus r pq d).phase.destroying = d := by
  obtain ⟨_, -, -, h⟩ | ⟨_, -, -, -, h⟩ | ⟨-, -, -, h⟩ | ⟨-, -, -, -, h⟩ | ⟨-, -, -, -, h⟩ :=
    afterWriteStatus_cases s r pq d
  all_goals rw [h]
  · refine ⟨SameQueue.of_writing rfl, ?_⟩
    unfold Sock.moved
    split <;> exact ⟨rfl, rfl⟩
  · exact ⟨SameQueue.of_writing rfl, rfl, rfl⟩
  · rw [afterWriteClose_phase]
    exact ⟨(afterWriteClose_sameWriting s r pq d).toSameQueue, rfl, rfl⟩
  · rw [afterWriteDrained_phase]
    have hun : SameQueue s s.unblock := SameQueue.of_writing rfl
    exact ⟨hun.trans (afterWriteDrained_sameWriting s r pq d).toSameQueue, rfl, rfl⟩
  · exact ⟨SameQueue.of_writing rfl, rfl, rfl⟩

/-- It ends in `onDrain`, with an empty queue, or still in `after_write`'s loop. -/
theorem afterWriteStatus_phase {s : Sock} {r : WriteReq} {pq : List WriteReq} {d : Bool} {p : Phase}
    (h : (s.afterWriteStatus r pq d).phase = p) :
    p = .onWriteError pq d ∨ p = .reporting pq d ∨
      (p = .onDrain r pq d ∧ s.handle.writeQueueSize = 0) := by
  obtain ⟨_, -, -, heq⟩ | ⟨_, -, -, -, heq⟩ | ⟨-, -, -, heq⟩ | ⟨-, -, -, -, heq⟩ |
    ⟨-, hsize, -, -, heq⟩ := afterWriteStatus_cases s r pq d
  all_goals rw [heq] at h
  · unfold Sock.moved at h
    split at h
    · exact Or.inl h.symm
    · exact Or.inr (Or.inl h.symm)
  · exact Or.inr (Or.inl h.symm)
  · rw [afterWriteClose_phase] at h
    exact Or.inr (Or.inl h.symm)
  · rw [afterWriteDrained_phase] at h
    exact Or.inr (Or.inl h.symm)
  · exact Or.inr (Or.inr ⟨h.symm, hsize⟩)

/-- `onDrain` is called with an empty queue. -/
theorem size_of_afterWriteStatus {s : Sock} {r r' : WriteReq} {pq pq' : List WriteReq}
    {d d' : Bool} (h : (s.afterWriteStatus r pq d).phase = .onDrain r' pq' d') :
    s.handle.writeQueueSize = 0 := by
  obtain h | h | ⟨-, hsize⟩ := afterWriteStatus_phase h
  · contradiction
  · contradiction
  · exact hsize

/-- The first stage of `after_write`, with the bytes of a failed request released. -/
def Sock.released (s : Sock) (r : WriteReq) : Sock := { s with handle := s.handle.release r }

theorem afterWrite_eq (s : Sock) (r : WriteReq) (pq : List WriteReq) (d : Bool) :
    s.afterWrite r pq d =
      if s.callbacks.onWrite then { s.released r with phase := .onWrite r pq d }
      else (s.released r).afterWriteStatus r pq d := rfl

/-! ### Where control goes -/

/-- What a JavaScript function returns to. -/
inductive Returns (s : Sock) : Sock → Prop
  /-- to the JavaScript that called `Write` -/
  | inner (depth : 0 < s.depth) : Returns s { s with depth := s.depth - 1 }
  | outside (depth : s.depth = 0) (phase : s.phase = .outside) : Returns s { s with phase := .loop }
  | onRead (depth : s.depth = 0) (phase : s.phase = .onRead) : Returns s { s with phase := .loop }
  | pluginClose (depth : s.depth = 0) (phase : s.phase = .pluginClose) :
      Returns s { s with phase := .loop }
  | onWrite {r pq d} (depth : s.depth = 0) (phase : s.phase = .onWrite r pq d) :
      Returns s (s.afterWriteStatus r pq d)
  | onWriteError {pq d} (depth : s.depth = 0) (phase : s.phase = .onWriteError pq d) :
      Returns s { s with phase := .reporting pq d }
  | onDrain {r pq d} (depth : s.depth = 0) (phase : s.phase = .onDrain r pq d) :
      Returns s (s.afterWriteDrained r pq d)
  | plugin {n} (depth : s.depth = 0) (phase : s.phase = .plugin n) : Returns s s.afterPlugin
  | onEnd (depth : s.depth = 0) (phase : s.phase = .onEnd) : Returns s s.ended
  | onReadError (depth : s.depth = 0) (phase : s.phase = .onReadError) : Returns s s.readFailed
  | onClose (depth : s.depth = 0) (phase : s.phase = .onClose) : Returns s s.closed

theorem ret_cases {s s' : Sock} (h : s.ret = some s') : Returns s s' := by
  unfold Sock.ret at h
  split at h
  · rename_i hdepth
    cases h
    exact .inner hdepth
  · rename_i hdepth
    have hdepth : s.depth = 0 := by omega
    split at h
    all_goals first | contradiction | (rename_i hphase; cases h)
    · exact .outside hdepth hphase
    · exact .onRead hdepth hphase
    · exact .pluginClose hdepth hphase
    · exact .onWrite hdepth hphase
    · exact .onWriteError hdepth hphase
    · exact .onDrain hdepth hphase
    · exact .plugin hdepth hphase
    · exact .onEnd hdepth hphase
    · exact .onReadError hdepth hphase
    · exact .onClose hdepth hphase

/-- How libuv goes on by itself. -/
inductive Goes (s : Sock) : Sock → Prop
  | report {r pq d} (phase : s.phase = .reporting (r :: pq) d) : Goes s (s.afterWrite r pq d)
  | reported (phase : s.phase = .reporting [] false) : Goes s { s with phase := .draining }
  /-- all requests of a handle that is being destroyed are reported -/
  | flushed (phase : s.phase = .reporting [] true) : Goes s { s with phase := .cancelShutdown }
  | cancelled (phase : s.phase = .cancelShutdown) (shutting : s.handle.shutting = true) :
      Goes s { s with handle := { s.handle with shutting := false }
                      phase := .closeCallback }.afterShutdown
  | notShutting (phase : s.phase = .cancelShutdown) (shutting : s.handle.shutting = false) :
      Goes s { s with phase := .closeCallback }
  | closeCallback (phase : s.phase = .closeCallback) : Goes s s.onClose

theorem next_cases {s s' : Sock} (h : s.next = some s') : Goes s s' := by
  unfold Sock.next at h
  split at h
  · rename_i hphase
    cases h
    exact .report hphase
  · rename_i hphase
    cases h
    exact .reported hphase
  · rename_i hphase
    cases h
    exact .flushed hphase
  · rename_i hphase
    split at h
    · rename_i hshut
      cases h
      exact .cancelled hphase hshut
    · rename_i hshut
      cases h
      exact .notShutting hphase (Bool.eq_false_iff.mpr hshut)
  · rename_i hphase
    cases h
    exact .closeCallback hphase
  · contradiction

/-- What `uv__drain` does. -/
inductive UvDrain (s : Sock) (ok : Bool) : Sock → Prop
  | shutdown (phase : s.phase = .draining)
      (ready : s.handle.writeQueue = [] ∧ s.handle.shutting ∧ ¬ s.handle.closing ∧
        ¬ s.handle.shut) :
      UvDrain s ok { s with handle := { s.handle with shutting := false, shut := ok }
                            phase := .loop }.afterShutdown
  | nothing (phase : s.phase = .draining)
      (ready : ¬ (s.handle.writeQueue = [] ∧ s.handle.shutting ∧ ¬ s.handle.closing ∧
        ¬ s.handle.shut)) : UvDrain s ok { s with phase := .loop }

theorem drain_cases {s s' : Sock} {ok : Bool} (h : s.drain ok = some s') :
    UvDrain s ok s' := by
  obtain ⟨hphase, h⟩ := Option.ite_none_left_eq_some.mp h
  have hphase := not_not.mp hphase
  split at h
  · rename_i hready
    cases h
    exact .shutdown hphase hready
  · rename_i hready
    cases h
    exact .nothing hphase hready

/-! ### The steps -/

/-- What a step does to the write path. -/
inductive WriteStep (s : Sock) : Act → Sock → Prop
  /-- JavaScript does something else; only `Close` marks the context as closing -/
  | js {a s'} (same : SameWriting s s') (phase : s'.phase = s.phase)
      (closing : a = .close false ∨ s'.ctx.closing = s.ctx.closing) : WriteStep s a s'
  /-- control moves on while no request is being reported -/
  | quiet {a s'} (same : SameWriting s s') (idle : s.phase.Idle) (idle' : s'.phase.Idle)
      (destroying : s'.phase.destroying = true → s.phase.destroying = true)
      (reading : s'.phase = .onReadError → a = .readError) : WriteStep s a s'
  | write {len off tried queued s'} (call : s.write len off tried queued = some s') :
      WriteStep s (.write len off tried queued) s'
  | attempt {a handle} (phase : s.phase = .loop) (call : s.handle.write1 a = some handle) :
      WriteStep s (.ioWrite a)
        { s with handle := { handle with completed := [] }
                 phase := .reporting handle.completed false }
  | destroy (phase : s.phase = .loop) (closing : s.handle.closing = true) :
      WriteStep s .destroy
        { s with handle := { s.handle.flush with completed := [] }
                 phase := .reporting s.handle.flush.completed true }
  | report {r pq d} (depth : s.depth = 0) (phase : s.phase = .reporting (r :: pq) d) :
      WriteStep s .next (s.afterWrite r pq d)
  | status {r pq d} (depth : s.depth = 0) (phase : s.phase = .onWrite r pq d) :
      WriteStep s .ret (s.afterWriteStatus r pq d)
  | failed {pq d} (depth : s.depth = 0) (phase : s.phase = .onWriteError pq d) :
      WriteStep s .ret { s with phase := .reporting pq d }
  | drained {r pq d} (depth : s.depth = 0) (phase : s.phase = .onDrain r pq d) :
      WriteStep s .ret (s.afterWriteDrained r pq d)

/-- A step into a calm phase. -/
private theorem quiet_of_calm {s s' : Sock} {a : Act} (same : SameWriting s s')
    (hs : s.phase.Idle) (hs' : s'.phase.calm = true) : WriteStep s a s' := by
  obtain ⟨hidle, hd, hr⟩ := Phase.calm_spec hs'
  refine .quiet same hs hidle ?_ (fun h => absurd h hr)
  rw [hd]
  exact fun h => absurd h Bool.false_ne_true

/-- A shutdown is over; `after_shutdown` may close the handle. -/
private theorem quiet_of_shutdown {s t : Sock} {a : Act} (same : SameWriting s t)
    (hs : s.phase.Idle) (ht : t.phase.calm = true) : WriteStep s a t.afterShutdown := by
  apply quiet_of_calm (same.trans (afterShutdown_sameWriting t)) hs
  rw [afterShutdown_phase]
  exact ht

private theorem ret_writeStep {s s' : Sock} (h : s.ret = some s') : WriteStep s .ret s' := by
  have hidle : ∀ p, s.phase = p → p.Idle → s.phase.Idle := fun p hp hc => hp ▸ hc
  cases ret_cases h with
  | inner => exact .js (SameWriting.of_writing rfl) rfl (Or.inr rfl)
  | outside _ hphase | onRead _ hphase | pluginClose _ hphase =>
    exact quiet_of_calm (SameWriting.of_writing rfl) (hidle _ hphase ⟨rfl, rfl⟩) rfl
  | onWrite hdepth hphase => exact .status hdepth hphase
  | onWriteError hdepth hphase => exact .failed hdepth hphase
  | onDrain hdepth hphase => exact .drained hdepth hphase
  | plugin _ hphase =>
    exact quiet_of_calm (afterPlugin_sameWriting s) (hidle _ hphase ⟨rfl, rfl⟩)
      (afterPlugin_calm s)
  | onEnd _ hphase =>
    exact quiet_of_calm (ended_sameWriting s) (hidle _ hphase ⟨rfl, rfl⟩)
      (by rw [ended_phase]; rfl)
  | onReadError _ hphase =>
    exact quiet_of_calm (readFailed_sameWriting s) (hidle _ hphase ⟨rfl, rfl⟩)
      (by rw [readFailed_phase]; rfl)
  | onClose _ hphase =>
    exact quiet_of_calm (closed_sameWriting s) (hidle _ hphase ⟨rfl, rfl⟩) (closed_calm s)

private theorem next_writeStep {s s' : Sock} (hdepth : s.depth = 0) (h : s.next = some s') :
    WriteStep s .next s' := by
  have hidle : ∀ p, s.phase = p → p.Idle → s.phase.Idle := fun p hp hc => hp ▸ hc
  cases next_cases h with
  | report hphase => exact .report hdepth hphase
  | reported hphase | notShutting hphase =>
    exact quiet_of_calm (SameWriting.of_writing rfl) (hidle _ hphase ⟨rfl, rfl⟩) rfl
  | flushed hphase =>
    refine .quiet (SameWriting.of_writing rfl) (hidle _ hphase ⟨rfl, rfl⟩) ⟨rfl, rfl⟩ ?_ ?_
    · intro _
      rw [hphase]
      rfl
    · intro hr
      contradiction
  | cancelled hphase =>
    exact quiet_of_shutdown (SameWriting.of_writing rfl) (hidle _ hphase ⟨rfl, rfl⟩) rfl
  | closeCallback hphase =>
    exact quiet_of_calm (onClose_sameWriting s) (hidle _ hphase ⟨rfl, rfl⟩) (onClose_calm s)

private theorem drain_writeStep {s s' : Sock} {ok : Bool} (h : s.drain ok = some s') :
    WriteStep s (.drain ok) s' := by
  have hidle : s.phase = .draining → s.phase.Idle := fun hp => hp ▸ ⟨rfl, rfl⟩
  cases drain_cases h with
  | shutdown hphase => exact quiet_of_shutdown (SameWriting.of_writing rfl) (hidle hphase) rfl
  | nothing hphase => exact quiet_of_calm (SameWriting.of_writing rfl) (hidle hphase) rfl

/-- Every step is one of the listed ones. -/
theorem step_writeStep {s s' : Sock} {a : Act} (h : step s a = some s') : WriteStep s a s' := by
  have hloop : s.phase = .loop → s.phase.Idle := fun hp => hp ▸ ⟨rfl, rfl⟩
  unfold step at h
  split at h
  · contradiction
  · cases a with
    | enter =>
      obtain ⟨hc, h⟩ := Option.ite_none_right_eq_some.mp h
      cases h
      exact quiet_of_calm (SameWriting.of_writing rfl) (hloop hc.1) rfl
    -- control comes back, goes on, or JavaScript acts
    | ret => exact ret_writeStep h
    | write len off tried queued =>
      obtain ⟨-, h⟩ := Option.ite_none_right_eq_some.mp h
      exact .write h
    | close doShutdown =>
      obtain ⟨-, h⟩ := Option.ite_none_right_eq_some.mp h
      cases h
      refine .js (close_sameWriting s doShutdown) (close_phase s doShutdown) ?_
      cases doShutdown with
      | false => exact Or.inl rfl
      | true => exact Or.inr rfl
    | resume =>
      obtain ⟨-, h⟩ := Option.ite_none_right_eq_some.mp h
      cases h
      refine .js (resume_sameWriting s) (resume_phase s) (Or.inr ?_)
      unfold Sock.resume
      split <;> rfl
    | pause | fill | on =>
      obtain ⟨-, h⟩ := Option.ite_none_right_eq_some.mp h
      cases h
      exact .js (SameWriting.of_writing rfl) rfl (Or.inr rfl)
    | ioWrite a =>
      obtain ⟨hc, h⟩ := Option.ite_none_right_eq_some.mp h
      rw [Option.map_eq_some_iff] at h
      obtain ⟨handle, hcall, h⟩ := h
      cases h
      exact .attempt hc.1 hcall
    | next =>
      obtain ⟨hc, h⟩ := Option.ite_none_right_eq_some.mp h
      exact next_writeStep hc h
    | drain ok =>
      obtain ⟨-, h⟩ := Option.ite_none_right_eq_some.mp h
      exact drain_writeStep h
    | readData nread =>
      obtain ⟨hc, h⟩ := Option.ite_none_right_eq_some.mp h
      cases h
      exact quiet_of_calm (afterReadData_sameWriting s nread) (hloop hc.1)
        (afterReadData_calm s nread)
    | readEof =>
      obtain ⟨hc, h⟩ := Option.ite_none_right_eq_some.mp h
      cases h
      split
      · exact quiet_of_calm (SameWriting.of_writing rfl) (hloop hc.1) rfl
      · exact quiet_of_calm (ended_sameWriting s) (hloop hc.1) (by rw [ended_phase]; rfl)
    | readError =>
      obtain ⟨hc, h⟩ := Option.ite_none_right_eq_some.mp h
      cases h
      split
      · exact .quiet (SameWriting.of_writing rfl) (hloop hc.1) ⟨rfl, rfl⟩
          (fun hd => absurd hd Bool.false_ne_true) (fun _ => rfl)
      · exact quiet_of_calm (readFailed_sameWriting s) (hloop hc.1)
          (by rw [readFailed_phase]; rfl)
    | destroy =>
      obtain ⟨hc, h⟩ := Option.ite_none_right_eq_some.mp h
      cases h
      exact .destroy hc.1 hc.2.2.1

/-! ### `Socket::Write` -/

/-- A call is refused on a closing socket, or `uv_try_write` decides: wait and queue everything,
    fail, queue the rest behind a prefix, or be done. -/
theorem write_cases {s s' : Sock} {len off : Nat} {tried queued : Answer}
    (h : s.write len off tried queued = some s') :
    ∃ bytes, readAt s.ctx.out off len = some bytes ∧
      ((s.ctx.closing = true ∧ s' = { s with calls := s.calls ++ [⟨bytes, -1⟩] }) ∨
        ∃ handle r, s.ctx.closing = false ∧ s.handle.tryWrite bytes tried = some (handle, r) ∧
          (((r = EAGAIN ∨ r = ENOSYS) ∧
              { s with handle := handle }.writeQueued bytes queued = some s') ∨
            (r < 0 ∧ r ≠ EAGAIN ∧ r ≠ ENOSYS ∧
              s' = { s with handle := handle }.writeFailed bytes r) ∨
            (0 ≤ r ∧ r.toNat < bytes.length ∧
              { s with handle := handle }.writePartial bytes r.toNat queued = some s') ∨
            (0 ≤ r ∧ bytes.length ≤ r.toNat ∧
              s' = { s with handle := handle }.writeFull bytes r.toNat))) := by
  rw [Sock.write, Option.bind_eq_some_iff] at h
  obtain ⟨bytes, hread, h⟩ := h
  refine ⟨bytes, hread, ?_⟩
  unfold Sock.writeBytes at h
  split at h
  · -- a context that is closing refuses the call
    rename_i hc
    cases h
    exact Or.inl ⟨hc, rfl⟩
  · rename_i hc
    rw [Option.bind_eq_some_iff] at h
    obtain ⟨⟨handle, r⟩, htry, h⟩ := h
    refine Or.inr ⟨handle, r, by simpa using hc, htry, ?_⟩
    simp only at h
    split at h
    · rename_i hr
      exact Or.inl ⟨hr, h⟩
    · rename_i hr
      rw [not_or] at hr
      split at h
      · rename_i hneg
        cases h
        exact Or.inr (Or.inl ⟨hneg, hr.1, hr.2, rfl⟩)
      · rename_i hneg
        split at h
        · rename_i hlt
          exact Or.inr (Or.inr (Or.inl ⟨by omega, hlt, h⟩))
        · rename_i hge
          cases h
          exact Or.inr (Or.inr (Or.inr ⟨by omega, by omega, rfl⟩))

/-- A call leaves alone whatever is not about writing. -/
structure SameLife (s s' : Sock) : Prop where
  flags : SameFlags s.handle s'.handle
  phase : s'.phase = s.phase
  closeCalls : s'.closeCalls = s.closeCalls
  aborted : s'.aborted = s.aborted
  closing : s'.ctx.closing = s.ctx.closing

theorem write_sameLife {s s' : Sock} {len off : Nat} {tried queued : Answer}
    (h : s.write len off tried queued = some s') : SameLife s s' := by
  obtain ⟨bytes, -, ⟨-, rfl⟩ | ⟨handle, r, -, htry, hcase⟩⟩ := write_cases h
  · exact ⟨SameFlags.refl _, rfl, rfl, rfl, rfl⟩
  · have hflags := tryWrite_sameFlags htry
    obtain ⟨-, hq⟩ | ⟨-, -, -, rfl⟩ | ⟨-, -, hq⟩ | ⟨-, -, rfl⟩ := hcase
    · rw [Sock.writeQueued, Option.map_eq_some_iff] at hq
      obtain ⟨⟨handle', status⟩, hw, rfl⟩ := hq
      exact ⟨hflags.trans (uvWrite_sameFlags hw), rfl, rfl, rfl, rfl⟩
    · exact ⟨hflags, rfl, rfl, rfl, rfl⟩
    · rw [Sock.writePartial, Option.map_eq_some_iff] at hq
      obtain ⟨⟨handle', status⟩, hw, rfl⟩ := hq
      exact ⟨hflags.trans (uvWrite_sameFlags hw), rfl, rfl, rfl, rfl⟩
    · exact ⟨hflags, rfl, rfl, rfl, rfl⟩

/-- What a call does to the handle: nothing, `uv_try_write`, or that and `uv_write`. -/
theorem write_handle {s s' : Sock} {len off : Nat} {tried queued : Answer}
    (h : s.write len off tried queued = some s') :
    s'.handle = s.handle ∨
      ∃ bytes handle r, s.handle.tryWrite bytes tried = some (handle, r) ∧
        (s'.handle = handle ∨
          ∃ rest status, handle.uvWrite rest queued = some (s'.handle, status)) := by
  obtain ⟨bytes, -, ⟨-, rfl⟩ | ⟨handle, r, -, htry, hcase⟩⟩ := write_cases h
  · exact Or.inl rfl
  · refine Or.inr ⟨bytes, handle, r, htry, ?_⟩
    obtain ⟨-, hq⟩ | ⟨-, -, -, rfl⟩ | ⟨-, -, hq⟩ | ⟨-, -, rfl⟩ := hcase
    · obtain ⟨⟨handle', status⟩, hw, rfl⟩ := Option.map_eq_some_iff.mp hq
      exact Or.inr ⟨bytes, status, hw⟩
    · exact Or.inl rfl
    · obtain ⟨⟨handle', status⟩, hw, rfl⟩ := Option.map_eq_some_iff.mp hq
      exact Or.inr ⟨_, status, hw⟩
    · exact Or.inl rfl

theorem write_accounted {s s' : Sock} {len off : Nat} {tried queued : Answer}
    {pq : List WriteReq} (h : s.write len off tried queued = some s')
    (hacc : s.handle.Accounted pq) : s'.handle.Accounted pq := by
  obtain hsame | ⟨bytes, handle, r, htry, hrest⟩ := write_handle h
  · rw [hsame]
    exact hacc
  · have hacc := tryWrite_accounted htry hacc
    obtain hsame | ⟨rest, status, hw⟩ := hrest
    · rw [hsame]
      exact hacc
    · exact uvWrite_accounted hw hacc

/-- Nothing is written or queued on a handle that is closing. -/
theorem write_of_closing {s s' : Sock} {len off : Nat} {tried queued : Answer}
    (h : s.write len off tried queued = some s') (hc : s.handle.closing = true) :
    s'.handle = s.handle := by
  obtain hsame | ⟨bytes, handle, r, htry, hrest⟩ := write_handle h
  · exact hsame
  · obtain rfl := tryWrite_of_closing htry hc
    obtain hsame | ⟨rest, status, hw⟩ := hrest
    · exact hsame
    · exact uvWrite_of_closing hw hc

/-! ### The account over a run -/

/-- **Step lemma of the account.** -/
theorem step_accounted {s s' : Sock} {a : Act} (hacc : s.handle.Accounted s.phase.pq)
    (h : step s a = some s') : s'.handle.Accounted s'.phase.pq := by
  cases step_writeStep h with
  | js same hphase =>
    rw [hphase]
    exact same.accounted hacc
  -- nothing is being reported before or after
  | quiet same hidle hidle' =>
    rw [hidle.1] at hacc
    rw [hidle'.1]
    exact same.accounted hacc
  | write call =>
    rw [(write_sameLife call).phase]
    exact write_accounted call hacc
  | attempt hphase call =>
    rw [hphase] at hacc
    -- what is completed is handed over to be reported
    exact (write1_accounted call hacc).handOver
  | destroy hphase _ =>
    rw [hphase] at hacc
    exact hacc.flush.handOver
  | @report r pq d _ hphase =>
    rw [hphase] at hacc
    have hrel : (s.released r).handle.Accounted pq := hacc.release
    rw [afterWrite_eq]
    split
    · exact hrel
    · obtain ⟨same, hpq, -⟩ := afterWriteStatus_frame (s.released r) r pq d
      rw [hpq]
      exact same.accounted hrel
  | @status r pq d _ hphase =>
    rw [hphase] at hacc
    obtain ⟨same, hpq, -⟩ := afterWriteStatus_frame s r pq d
    rw [hpq]
    exact same.accounted hacc
  | failed _ hphase =>
    rw [hphase] at hacc
    exact hacc
  | @drained r pq d _ hphase =>
    rw [hphase] at hacc
    rw [afterWriteDrained_phase]
    exact (afterWriteDrained_sameWriting s r pq d).accounted hacc

end Dv8.Socket
