import Dv8.Socket.Connection
import Dv8.Socket.WritePath
import Mathlib.Data.Int.ModEq
import Mathlib.Data.List.Induction

namespace Dv8.Socket

open Dv8.Lib Dv8.Uv

/-!
# The bytes of `socket_stats`

`stats.out.written` is advanced in two branches of `Socket::Write` and at the end of `after_write`;
`onWrite` is called in the same branches of `Socket::Write`, but at the start of `after_write`.  So
a request that succeeded is, while `onWrite` or `onDrain` runs, reported and not yet counted
(`Phase.uncounted`).

* `Sock.counted` — what has been counted, and what `after_write` is about to count; only
  `Socket::Write` and the start of an `after_write` change it (`step_moves`, `write_posts`), and
  nothing else does while the connection is being made (`ConnStep.entry`);
* `Ledger` — the invariant of a run, with the requests handed to `after_write` and the calls of
  `onWrite` beside the connection;
* `accounts_iff_along` — `onWrite` is told an `int32_t`, so the sum of what it is told is
  `stats.out.written` exactly in the runs without a successful request of 2^31 bytes or more.
-/

/-! ### What JavaScript is told -/

/-- `Integer::New` takes an `int32_t`. -/
def integerNew (n : Nat) : Int := Int.bmod n (2 ^ 32)

theorem integerNew_eq {n : Nat} (h : n < 2 ^ 32) :
    integerNew n = n - 2 ^ 32 * if 2 ^ 31 ≤ n then 1 else 0 := by
  unfold integerNew
  rw [Int.bmod_def]
  split_ifs <;> omega

/-- The calls of `onWrite` made by `Socket::Write`: the length and the status. -/
def Sock.writeReports (s : Sock) (bytes : List UInt8) (tried queued : Answer) : List (Int × Int) :=
  if s.ctx.closing ∨ ¬ s.callbacks.onWrite then []
  else
    match s.handle.tryWrite bytes tried with
    | none => []
    | some (handle, r) =>
      -- nothing is written: the call fails, or queues the whole range
      if r < 0 then []
      else if r.toNat < bytes.length then
        match handle.uvWrite (bytes.drop r.toNat) queued with
        | none => []
        | some (_, status) => [(r, status)]
      else [(r, 0)]

/-- The calls of `onWrite` made in a step. -/
def Sock.reports (s : Sock) : Act → List (Int × Int)
  | .write len off tried queued =>
    match readAt s.ctx.out off len with
    | none => []
    | some bytes => s.writeReports bytes tried queued
  | .next =>
    match s.phase with
    | .reporting (r :: _) _ =>
      if s.callbacks.onWrite then [(integerNew r.buf.length, r.error)] else []
    | _ => []
  | _ => []

/-- The request `after_write` is called for in a step. -/
def Sock.begun (s : Sock) : Act → List WriteReq
  | .next =>
    match s.phase with
    | .reporting (r :: _) _ => [r]
    | _ => []
  | _ => []

/-- The calls of `onWrite` made in a step of a connection: none by a call that waits. -/
def Conn.reports (c : Conn) : ConnAct → List (Int × Int)
  | .sock a => if a.isWrite && c.stage.early then [] else c.sock.reports a
  | _ => []

/-- The request `after_write` is called for in a step of a connection. -/
def Conn.begun (c : Conn) : ConnAct → List WriteReq
  | .sock a => c.sock.begun a
  | _ => []

/-! ### The connection and its books -/

/-- `Write` takes a `uint32_t` and an `int32_t`, here not negative. -/
def ConnAct.InRange : ConnAct → Prop
  | .sock (.write len off _ _) => len < 2 ^ 32 ∧ off < 2 ^ 31
  | _ => True

instance (a : ConnAct) : Decidable a.InRange := by
  unfold ConnAct.InRange
  split <;> infer_instance

/-- A connection, the requests handed to `after_write` and the calls of `onWrite`, both in order. -/
structure Books where
  conn : Conn
  told : List WriteReq := []
  reports : List (Int × Int) := []

abbrev Books.sock (o : Books) : Sock := o.conn.sock

/-- One step. -/
def Books.step (o : Books) (a : ConnAct) : Option Books :=
  if a.InRange then
    (o.conn.step a).map fun c' =>
      { conn := c', told := o.told ++ o.conn.begun a, reports := o.reports ++ o.conn.reports a }
  else none

/-- The books of a connection where it starts. -/
def Books.obtained (way : Way) (out : List UInt8) (callbacks : Callbacks)
    (plugins : List Plugins.Kind) (onConnect : Bool) : Books :=
  { conn := Conn.obtained way out callbacks plugins onConnect }

/-- The bytes the requests were made with. -/
def bytesOf (rs : List WriteReq) : Nat := (rs.map fun r => r.buf.length).sum

/-- The sum of the lengths that were reported with a non-negative status. -/
def reported (reports : List (Int × Int)) : Int :=
  ((reports.filter fun p => 0 ≤ p.2).map Prod.fst).sum

/-- Control is neither in a call of `Socket` nor in a callback of libuv. -/
def Sock.Between (s : Sock) : Prop :=
  s.depth = 0 ∧
    match s.phase with
    | .loop | .outside | .reporting .. | .draining | .cancelShutdown | .closeCallback => True
    | _ => False

/-- The accounts are right, the second of them if `onWrite` was set throughout. -/
structure Accounts (throughout : Bool) (o : Books) : Prop where
  written : o.sock.ctx.stats.written + bytesOf o.sock.outstanding +
      bytesOf (o.told.filter fun r => r.error < 0) ≡ (accepted o.sock.calls).length [MOD 2 ^ 64]
  reported : throughout = true →
    (o.sock.ctx.stats.written : Int) ≡ Socket.reported o.reports [ZMOD 2 ^ 64]
  alloc : o.sock.ctx.stats.alloc ≡ o.sock.ctx.stats.eagain + o.sock.ctx.stats.incomplete
    [MOD 2 ^ 32]

/-- A request that succeeds in this step was made with less than 2^31 bytes. -/
def Narrow (o : Books) (a : ConnAct) : Prop :=
  ∀ r ∈ o.conn.begun a, 0 ≤ r.error → r.buf.length < 2 ^ 31

instance (o : Books) (a : ConnAct) : Decidable (Narrow o a) := by
  unfold Narrow
  infer_instance

/-! ### The requests a stream holds -/

/-- What the requests a stream has not handed over were made with. -/
def bufs (h : Stream) : List (List UInt8) := (h.completed ++ h.writeQueue).map WriteReq.buf

/-- What the outstanding requests were made with. -/
def Sock.bufs (s : Sock) : List (List UInt8) := s.phase.pq.map WriteReq.buf ++ Socket.bufs s.handle

theorem map_buf_outstanding (s : Sock) : s.outstanding.map WriteReq.buf = s.bufs := by
  rw [Sock.outstanding, Sock.bufs, Socket.bufs, List.map_append]

theorem bytesOf_eq (rs : List WriteReq) : bytesOf rs = (rs.map WriteReq.buf).flatten.length := by
  rw [bytesOf, List.length_flatten, List.map_map]
  rfl

/-- A request is attempted and completed in its place. -/
theorem write1_bufs {h h' : Stream} {a : Answer} (hw : h.write1 a = some h') :
    bufs h' = bufs h := by
  obtain ⟨-, rfl | ⟨_, _, _, hq, -, -, rfl⟩ | ⟨_, _, _, hq, -, -, -, rfl⟩ |
    ⟨_, _, _, hq, -, -, rfl⟩⟩ := write1_cases hw
  · rfl
  all_goals simp [bufs, hq]

/-- `uv_write` appends what it accepts. -/
theorem uvWrite_bufs {h h' : Stream} {bytes : List UInt8} {a : Answer} {status : Int}
    (hw : h.uvWrite bytes a = some (h', status)) :
    bufs h' = bufs h ++ if 0 ≤ status then [bytes] else [] := by
  have hqueued : bufs (h.enqueue bytes) = bufs h ++ [bytes] := by
    simp [bufs, Stream.enqueue]
  obtain ⟨rfl, -, hneg⟩ | ⟨rfl, -, rfl | hw⟩ := uvWrite_cases hw
  · rw [if_neg (by omega), List.append_nil]
  · exact hqueued
  · rw [write1_bufs hw]
    exact hqueued

theorem tryWrite_bufs {h h' : Stream} {bytes : List UInt8} {a : Answer} {r : Int}
    (hw : h.tryWrite bytes a = some (h', r)) : bufs h' = bufs h := by
  obtain ⟨rfl, -, -⟩ | ⟨rfl, -⟩ | ⟨-, -, ⟨_, -, -, -, rfl, -⟩ | ⟨rfl, -⟩ | ⟨_, -, rfl, -, -⟩ |
    ⟨-, hw, -⟩⟩ := tryWrite_cases hw
  all_goals first | rfl | exact write1_bufs hw

/-- `uv_try_write` takes no more than it is given. -/
theorem tryWrite_le {h h' : Stream} {bytes : List UInt8} {a : Answer} {r : Int}
    (hw : h.tryWrite bytes a = some (h', r)) : r ≤ bytes.length := by
  have hagain : EAGAIN ≤ 0 := by decide
  obtain ⟨-, -, rfl⟩ | ⟨-, hneg, -⟩ | ⟨-, -, ⟨n, -, -, hn, -, rfl⟩ | ⟨-, rfl⟩ | ⟨_, -, -, -, rfl⟩ |
    ⟨-, -, rfl⟩⟩ := tryWrite_cases hw
  · omega
  · omega
  all_goals split <;> omega

theorem flush_bufs (h : Stream) : bufs h.flush = bufs h := by
  simp [bufs, Stream.flush, Function.comp_def]

theorem SameQueue.bufs {s s' : Sock} (h : SameQueue s s') :
    Socket.bufs s'.handle = Socket.bufs s.handle := by
  rw [Socket.bufs, Socket.bufs, h.completed, h.writeQueue]

/-! ### What the counters say -/

/-- The bytes of a request that has succeeded and been reported, but not been counted. -/
def Phase.uncounted : Phase → Nat
  | .onWrite r _ _ => if r.error < 0 then 0 else r.buf.length
  | .onDrain r _ _ => r.buf.length
  | _ => 0

theorem Phase.Idle.uncounted {p : Phase} (h : p.Idle) : p.uncounted = 0 := by
  obtain ⟨-, hp⟩ := h
  cases p <;> first | rfl | contradiction

/-- What is counted as written, or about to be. -/
def Sock.counted (s : Sock) : Nat := s.ctx.stats.written + s.phase.uncounted

/-- The counters the accounts are about, and the callbacks. -/
def Sock.counters (s : Sock) : (Nat × Nat × Nat × Nat) × Callbacks :=
  ((s.ctx.stats.written, s.ctx.stats.alloc, s.ctx.stats.eagain, s.ctx.stats.incomplete),
    s.callbacks)

/-- What no step touches but those that allocate, report or free a request. -/
def Sock.ledger (s : Sock) : ((Nat × Nat × Nat × Nat) × Callbacks) × Nat :=
  (s.counters, s.ctx.stats.free)

section Ledger

variable (s : Sock) (r : WriteReq) (pq : List WriteReq) (d : Bool)

@[simp] theorem uvClose_ledger : s.uvClose.ledger = s.ledger := by
  unfold Sock.uvClose
  split <;> rfl

@[simp] theorem afterShutdown_ledger : s.afterShutdown.ledger = s.ledger := by
  unfold Sock.afterShutdown
  split
  · rfl
  · exact uvClose_ledger s

@[simp] theorem close_ledger (doShutdown : Bool) :
    (s.close doShutdown).ledger = s.ledger := by
  unfold Sock.close
  split_ifs
  · rfl
  · rfl
  · exact uvClose_ledger s

@[simp] theorem resume_ledger : s.resume.ledger = s.ledger := by
  unfold Sock.resume
  split <;> rfl

@[simp] theorem ended_ledger : s.ended.ledger = s.ledger := by
  unfold Sock.ended
  simp only
  split <;> rfl

@[simp] theorem readFailed_ledger : s.readFailed.ledger = s.ledger :=
  uvClose_ledger s.countReadError

@[simp] theorem closed_ledger : s.closed.ledger = s.ledger := by
  unfold Sock.closed
  split <;> rfl

@[simp] theorem onClose_ledger : s.onClose.ledger = s.ledger := by
  unfold Sock.onClose
  simp only
  split
  · rfl
  · exact closed_ledger _

@[simp] theorem afterPlugin_ledger : s.afterPlugin.ledger = s.ledger := by
  unfold Sock.afterPlugin
  split <;> rfl

@[simp] theorem afterReadData_ledger (nread : Nat) :
    (s.afterReadData nread).ledger = s.ledger := by
  unfold Sock.afterReadData
  simp only
  split
  · rfl
  · exact afterPlugin_ledger _

/-- The end of `after_write` counts the request. -/
theorem afterWriteClose_counters :
    (s.afterWriteClose r pq d).counters =
      ((s.ctx.stats.written + r.buf.length, s.counters.1.2), s.callbacks) := by
  unfold Sock.afterWriteClose
  split
  · have h := congrArg Prod.fst (uvClose_ledger s)
    simp only [Sock.ledger] at h
    simp only [Sock.counters, Prod.mk.injEq] at h
    simp [Sock.afterWriteFree, Sock.counters, h]
  · rfl

end Ledger

/-! ### The steps that are not calls of `Write` -/

/-- A request is handed to `after_write`, which is going to count it if it succeeded. -/
structure Moves (s s' : Sock) (begun : List WriteReq) : Prop where
  counted : s'.counted = s.counted + bytesOf (begun.filter fun r => ¬ r.error < 0)
  bufs : s.bufs = begun.map WriteReq.buf ++ s'.bufs
  counters : s'.counters.1.2 = s.counters.1.2
  calls : s'.calls = s.calls
  onWrite : s.callbacks.onWrite = true → s'.callbacks.onWrite = true

theorem Moves.of_ledger {s s' : Sock} (same : SameQueue s s') (hl : s'.ledger = s.ledger)
    (hpq : s'.phase.pq = s.phase.pq) (hu : s'.phase.uncounted = s.phase.uncounted) :
    Moves s s' [] := by
  simp only [Sock.ledger, Sock.counters, Prod.mk.injEq] at hl
  obtain ⟨⟨⟨hwritten, hrest⟩, hcallbacks⟩, -⟩ := hl
  refine ⟨?_, ?_, ?_, same.calls, ?_⟩
  · show s'.counted = s.counted
    rw [Sock.counted, Sock.counted, hwritten, hu]
  · rw [Sock.bufs, Sock.bufs, hpq, same.bufs]
    rfl
  · simp [Sock.counters, hrest]
  · rw [hcallbacks]
    exact id

/-- A step between phases in which nothing is being reported. -/
theorem Moves.of_calm {s s' : Sock} (same : SameWriting s s') (hl : s'.ledger = s.ledger)
    (hs : s.phase.Idle) (hs' : s'.phase.Idle) : Moves s s' [] := by
  apply Moves.of_ledger same.toSameQueue hl
  · rw [hs'.1, hs.1]
  · rw [hs.uncounted, hs'.uncounted]

/-- `after_write` behind `onWrite` counts the request, or leaves it to be counted. -/
theorem afterWriteStatus_counted (s : Sock) (r : WriteReq) (pq : List WriteReq) (d : Bool) :
    (s.afterWriteStatus r pq d).counted =
        s.ctx.stats.written + (if r.error < 0 then 0 else r.buf.length) ∧
      (s.afterWriteStatus r pq d).counters.2 = s.counters.2 ∧
      (s.afterWriteStatus r pq d).counters.1.2 = s.counters.1.2 := by
  unfold Sock.afterWriteStatus
  by_cases herr : r.error < 0
  · rw [if_pos herr, if_pos herr]
    simp only
    split <;> exact ⟨rfl, rfl, rfl⟩
  · rw [if_neg herr, if_neg herr]
    -- the close of a waiting socket comes before the count
    have hclose : ∀ t : Sock, (t.afterWriteClose r pq d).counted =
          t.ctx.stats.written + r.buf.length ∧
        (t.afterWriteClose r pq d).counters.2 = t.counters.2 ∧
        (t.afterWriteClose r pq d).counters.1.2 = t.counters.1.2 := by
      intro t
      have hc := afterWriteClose_counters t r pq d
      have hw := congrArg (fun c => c.1.1) hc
      refine ⟨?_, by rw [hc]; rfl, by rw [hc]⟩
      rw [Sock.counted, afterWriteClose_phase]
      exact hw
    simp only
    split_ifs
    all_goals first | exact ⟨rfl, rfl, rfl⟩ | exact hclose _

/-- A request is handed over. -/
theorem afterWrite_moves (s : Sock) {r : WriteReq} {pq : List WriteReq} {d : Bool}
    (hphase : s.phase = .reporting (r :: pq) d) : Moves s (s.afterWrite r pq d) [r] := by
  have hbufs : Socket.bufs (s.handle.release r) = Socket.bufs s.handle := by
    unfold Stream.release
    split <;> rfl
  have hcounted : s.counted = s.ctx.stats.written := by
    rw [Sock.counted, hphase]
    rfl
  have hone : bytesOf ([r].filter fun r => ¬ r.error < 0) =
      if r.error < 0 then 0 else r.buf.length := by
    by_cases herr : r.error < 0
    · simp [bytesOf, herr]
    · simp [bytesOf, herr, not_lt.mp herr]
  rw [afterWrite_eq]
  split
  · -- `onWrite` is told first
    refine ⟨?_, ?_, rfl, rfl, id⟩
    · rw [hcounted, hone]
      rfl
    · show s.bufs = r.buf :: (pq.map WriteReq.buf ++ Socket.bufs (s.handle.release r))
      rw [hbufs, Sock.bufs, hphase]
      rfl
  · obtain ⟨hc, hcallbacks, hrest⟩ := afterWriteStatus_counted (s.released r) r pq d
    obtain ⟨same, hpq, -⟩ := afterWriteStatus_frame (s.released r) r pq d
    refine ⟨?_, ?_, hrest, same.calls, ?_⟩
    · rw [hc, hcounted, hone]
      rfl
    · rw [Sock.bufs, Sock.bufs, hpq, same.bufs, hphase]
      show _ = r.buf :: (pq.map WriteReq.buf ++ Socket.bufs (s.handle.release r))
      rw [hbufs]
      rfl
    · have heq : ((s.released r).afterWriteStatus r pq d).callbacks = s.callbacks := hcallbacks
      rw [heq]
      exact id

/-- What `onWrite` was told is counted, or left to be counted behind `onDrain`. -/
theorem afterWriteStatus_moves (s : Sock) {r : WriteReq} {pq : List WriteReq} {d : Bool}
    (hphase : s.phase = .onWrite r pq d) : Moves s (s.afterWriteStatus r pq d) [] := by
  obtain ⟨hc, hcallbacks, hrest⟩ := afterWriteStatus_counted s r pq d
  obtain ⟨same, hpq, -⟩ := afterWriteStatus_frame s r pq d
  refine ⟨?_, ?_, hrest, same.calls, ?_⟩
  · rw [hc, Sock.counted, hphase]
    rfl
  · rw [Sock.bufs, Sock.bufs, hpq, same.bufs, hphase]
    rfl
  · have heq : (s.afterWriteStatus r pq d).callbacks = s.callbacks := hcallbacks
    rw [heq]
    exact id

/-- Behind `onDrain` it is counted. -/
theorem afterWriteDrained_moves (s : Sock) {r : WriteReq} {pq : List WriteReq} {d : Bool}
    (hphase : s.phase = .onDrain r pq d) : Moves s (s.afterWriteDrained r pq d) [] := by
  have hc := afterWriteClose_counters s.unblock r pq d
  have same := (afterWriteDrained_sameWriting s r pq d).toSameQueue
  have hwritten : (s.afterWriteDrained r pq d).ctx.stats.written =
      s.ctx.stats.written + r.buf.length := congrArg (fun c => c.1.1) hc
  have hcallbacks : (s.afterWriteDrained r pq d).callbacks = s.callbacks :=
    congrArg (fun c => c.2) hc
  have hqueue : Socket.bufs (s.afterWriteDrained r pq d).handle = Socket.bufs s.handle := same.bufs
  refine ⟨?_, ?_, congrArg (fun c => c.1.2) hc, same.calls, ?_⟩
  · rw [Sock.counted, Sock.counted, hwritten, afterWriteDrained_phase, hphase]
    rfl
  · rw [Sock.bufs, Sock.bufs, afterWriteDrained_phase, hqueue, hphase]
    rfl
  · rw [hcallbacks]
    exact id

/-- A shutdown is over; `after_shutdown` may close the handle. -/
theorem afterShutdown_moves {s t : Sock} (same : SameWriting s t) (hl : t.ledger = s.ledger)
    (hs : s.phase.Idle) (ht : t.phase.Idle) : Moves s t.afterShutdown [] := by
  apply Moves.of_calm (same.trans (afterShutdown_sameWriting t))
    ((afterShutdown_ledger t).trans hl) hs
  rw [afterShutdown_phase]
  exact ht

private theorem ret_moves {s s' : Sock} (h : s.ret = some s') : Moves s s' [] := by
  cases ret_cases h with
  | inner => exact Moves.of_ledger (SameQueue.of_writing rfl) rfl rfl rfl
  | outside _ hphase | onRead _ hphase | pluginClose _ hphase =>
    exact Moves.of_calm (SameWriting.of_writing rfl) rfl (hphase ▸ ⟨rfl, rfl⟩) ⟨rfl, rfl⟩
  | onWrite _ hphase => exact afterWriteStatus_moves s hphase
  | onWriteError _ hphase =>
    -- a failed request is not counted
    refine Moves.of_ledger (SameQueue.of_writing rfl) rfl ?_ ?_
    · rw [hphase]
      rfl
    · rw [hphase]
      rfl
  | onDrain _ hphase => exact afterWriteDrained_moves s hphase
  | plugin _ hphase =>
    exact Moves.of_calm (afterPlugin_sameWriting s) (afterPlugin_ledger s)
      (hphase ▸ ⟨rfl, rfl⟩) (Phase.idle_of_calm (afterPlugin_calm s))
  | onEnd _ hphase =>
    exact Moves.of_calm (ended_sameWriting s) (ended_ledger s) (hphase ▸ ⟨rfl, rfl⟩)
      (Phase.idle_of_calm (ended_calm s))
  | onReadError _ hphase =>
    exact Moves.of_calm (readFailed_sameWriting s) (readFailed_ledger s)
      (hphase ▸ ⟨rfl, rfl⟩) (Phase.idle_of_calm (readFailed_calm s))
  | onClose _ hphase =>
    exact Moves.of_calm (closed_sameWriting s) (closed_ledger s) (hphase ▸ ⟨rfl, rfl⟩)
      (Phase.idle_of_calm (closed_calm s))

private theorem next_moves {s s' : Sock} (h : s.next = some s') : Moves s s' (s.begun .next) := by
  unfold Sock.begun
  cases next_cases h with
  | report hphase =>
    rw [hphase]
    exact afterWrite_moves s hphase
  | reported hphase | flushed hphase | notShutting hphase =>
    rw [hphase]
    exact Moves.of_calm (SameWriting.of_writing rfl) rfl (hphase ▸ ⟨rfl, rfl⟩) ⟨rfl, rfl⟩
  | cancelled hphase =>
    rw [hphase]
    exact afterShutdown_moves (SameWriting.of_writing rfl) rfl (hphase ▸ ⟨rfl, rfl⟩) ⟨rfl, rfl⟩
  | closeCallback hphase =>
    rw [hphase]
    exact Moves.of_calm (onClose_sameWriting s) (onClose_ledger s) (hphase ▸ ⟨rfl, rfl⟩)
      (Phase.idle_of_calm (onClose_calm s))

private theorem drain_moves {s s' : Sock} {ok : Bool} (h : s.drain ok = some s') :
    Moves s s' [] := by
  cases drain_cases h with
  | shutdown hphase =>
    exact afterShutdown_moves (SameWriting.of_writing rfl) rfl (hphase ▸ ⟨rfl, rfl⟩) ⟨rfl, rfl⟩
  | nothing hphase =>
    exact Moves.of_calm (SameWriting.of_writing rfl) rfl (hphase ▸ ⟨rfl, rfl⟩) ⟨rfl, rfl⟩

/-- What was completed is handed over to be reported. -/
private theorem handOver_moves {s : Sock} {handle : Stream} {d : Bool} (hphase : s.phase = .loop)
    (hbufs : Socket.bufs handle = Socket.bufs s.handle) :
    Moves s { s with handle := { handle with completed := [] }
                     phase := .reporting handle.completed d } [] := by
  refine ⟨?_, ?_, rfl, rfl, id⟩
  · show s.ctx.stats.written = s.ctx.stats.written + s.phase.uncounted
    rw [hphase]
    rfl
  · rw [Sock.bufs, hphase, ← hbufs]
    exact List.map_append

/-- **The other steps** hand over at most one request. -/
theorem step_moves {s s' : Sock} {a : Act} (h : step s a = some s')
    (ha : ∀ len off tried queued, a ≠ .write len off tried queued) : Moves s s' (s.begun a) := by
  have hloop : s.phase = .loop → s.phase.Idle := fun hp => hp ▸ ⟨rfl, rfl⟩
  unfold step at h
  split at h
  · contradiction
  · cases a with
    | write len off tried queued => exact absurd rfl (ha len off tried queued)
    | ret => exact ret_moves h
    | next =>
      obtain ⟨-, h⟩ := Option.ite_none_right_eq_some.mp h
      exact next_moves h
    | drain ok =>
      obtain ⟨-, h⟩ := Option.ite_none_right_eq_some.mp h
      exact drain_moves h
    | ioWrite a =>
      obtain ⟨hc, h⟩ := Option.ite_none_right_eq_some.mp h
      rw [Option.map_eq_some_iff] at h
      obtain ⟨handle, hcall, h⟩ := h
      cases h
      exact handOver_moves hc.1 (write1_bufs hcall)
    | destroy =>
      obtain ⟨hc, h⟩ := Option.ite_none_right_eq_some.mp h
      cases h
      exact handOver_moves hc.1 (flush_bufs s.handle)
    | enter =>
      obtain ⟨hc, h⟩ := Option.ite_none_right_eq_some.mp h
      cases h
      exact Moves.of_calm (SameWriting.of_writing rfl) rfl (hloop hc.1) ⟨rfl, rfl⟩
    | close doShutdown =>
      obtain ⟨-, h⟩ := Option.ite_none_right_eq_some.mp h
      cases h
      have hphase := close_phase s doShutdown
      exact Moves.of_ledger (close_sameWriting s doShutdown).toSameQueue
        (close_ledger s doShutdown) (by rw [hphase]) (by rw [hphase])
    | resume =>
      obtain ⟨-, h⟩ := Option.ite_none_right_eq_some.mp h
      cases h
      have hphase := resume_phase s
      exact Moves.of_ledger (resume_sameWriting s).toSameQueue (resume_ledger s)
        (by rw [hphase]) (by rw [hphase])
    | pause | fill =>
      obtain ⟨-, h⟩ := Option.ite_none_right_eq_some.mp h
      cases h
      exact Moves.of_ledger (SameQueue.of_writing rfl) rfl rfl rfl
    | on cb =>
      obtain ⟨-, h⟩ := Option.ite_none_right_eq_some.mp h
      cases h
      refine ⟨rfl, rfl, rfl, rfl, fun hset => ?_⟩
      cases cb with
      | onWrite => rfl
      | _ => exact hset
    | readData nread =>
      obtain ⟨hc, h⟩ := Option.ite_none_right_eq_some.mp h
      cases h
      exact Moves.of_calm (afterReadData_sameWriting s nread) (afterReadData_ledger s nread)
        (hloop hc.1) (Phase.idle_of_calm (afterReadData_calm s nread))
    | readEof =>
      obtain ⟨hc, h⟩ := Option.ite_none_right_eq_some.mp h
      cases h
      split
      · exact Moves.of_calm (SameWriting.of_writing rfl) rfl (hloop hc.1) ⟨rfl, rfl⟩
      · exact Moves.of_calm (ended_sameWriting s) (ended_ledger s) (hloop hc.1)
          (Phase.idle_of_calm (ended_calm s))
    | readError =>
      obtain ⟨hc, h⟩ := Option.ite_none_right_eq_some.mp h
      cases h
      split
      · exact Moves.of_calm (SameWriting.of_writing rfl) rfl (hloop hc.1) ⟨rfl, rfl⟩
      · exact Moves.of_calm (readFailed_sameWriting s) (readFailed_ledger s) (hloop hc.1)
          (Phase.idle_of_calm (readFailed_calm s))

/-! ### A call of `Write` -/

/-- A call counts the first `n` bytes as written, queues the `rest`, and reports what it counts. -/
structure Posts (s s' : Sock) (bytes : List UInt8) (result : Int) (reports : List (Int × Int))
    (n : Nat) (rest : List (List UInt8)) : Prop where
  calls : s'.calls = s.calls ++ [⟨bytes, result⟩]
  counted : s'.counted = s.counted + n
  bufs : s'.bufs = s.bufs ++ rest
  total : n + rest.flatten.length = if 0 ≤ result then bytes.length else 0
  fits : ∀ b ∈ rest, b.length ≤ bytes.length
  alloc : s'.ctx.stats.alloc + (s.ctx.stats.eagain + s.ctx.stats.incomplete) =
    s.ctx.stats.alloc + (s'.ctx.stats.eagain + s'.ctx.stats.incomplete)
  callbacks : s'.callbacks = s.callbacks
  reports : s.callbacks.onWrite = true → reported reports = n

theorem reported_single {r status : Int} (h : 0 ≤ status) : reported [(r, status)] = r := by
  simp [reported, h]

theorem writeReports_eq {s : Sock} {bytes : List UInt8} {tried queued : Answer} {handle : Stream}
    {r : Int} (hopen : s.ctx.closing = false) (hset : s.callbacks.onWrite = true)
    (htry : s.handle.tryWrite bytes tried = some (handle, r)) :
    s.writeReports bytes tried queued =
      if r < 0 then []
      else if r.toNat < bytes.length then
        match handle.uvWrite (bytes.drop r.toNat) queued with
        | none => []
        | some (_, status) => [(r, status)]
      else [(r, 0)] := by
  rw [Sock.writeReports, if_neg (by simp [hopen, hset]), htry]

/-- **One call.** -/
theorem write_posts {s s' : Sock} {len off : Nat} {tried queued : Answer}
    (h : s.write len off tried queued = some s') :
    ∃ bytes result n rest, bytes.length = len ∧
      Posts s s' bytes result (s.reports (.write len off tried queued)) n rest := by
  obtain ⟨bytes, hread, hcase⟩ := write_cases h
  have hlen : bytes.length = len := by
    obtain ⟨hin, heq⟩ := Option.ite_none_right_eq_some.mp hread
    cases heq
    exact length_slice hin
  have hreports : s.reports (.write len off tried queued) = s.writeReports bytes tried queued := by
    simp only [Sock.reports, hread]
  rw [hreports]
  obtain ⟨hclosing, rfl⟩ | ⟨handle, r, hopen, htry, hcase⟩ := hcase
  · refine ⟨bytes, -1, 0, [], hlen, rfl, rfl, (List.append_nil _).symm, rfl, ?_, rfl, rfl, ?_⟩
    · exact fun b hb => absurd hb List.not_mem_nil
    · intro _
      rw [Sock.writeReports, if_pos (Or.inl hclosing)]
      rfl
  · have hbufs := tryWrite_bufs htry
    obtain ⟨hr, hcall⟩ | ⟨hneg, -, -, rfl⟩ | ⟨hnonneg, hlt, hcall⟩ | ⟨hnonneg, hge, rfl⟩ := hcase
    · -- nothing is counted, everything is queued
      obtain ⟨⟨handle', status⟩, hw, rfl⟩ := Option.map_eq_some_iff.mp hcall
      refine ⟨bytes, status, 0, if 0 ≤ status then [bytes] else [], hlen, rfl, rfl, ?_, ?_, ?_, ?_,
        rfl, ?_⟩
      · rw [Sock.bufs, Sock.bufs, List.append_assoc, ← hbufs, ← uvWrite_bufs hw]
      · split <;> simp
      · intro b hb
        split at hb
        · exact le_of_eq (congrArg List.length (List.mem_singleton.mp hb))
        · exact absurd hb List.not_mem_nil
      · show s.ctx.stats.alloc + 1 + (s.ctx.stats.eagain + s.ctx.stats.incomplete) =
          s.ctx.stats.alloc + (s.ctx.stats.eagain + 1 + s.ctx.stats.incomplete)
        omega
      · intro hset
        have hneg : r < 0 := by
          obtain rfl | rfl := hr <;> decide
        rw [writeReports_eq hopen hset htry, if_pos hneg]
        rfl
    · refine ⟨bytes, r, 0, [], hlen, rfl, rfl, ?_, ?_, ?_, rfl, rfl, ?_⟩
      · rw [List.append_nil, Sock.bufs, Sock.bufs, ← hbufs]
        rfl
      · rw [if_neg (by omega)]
        rfl
      · exact fun b hb => absurd hb List.not_mem_nil
      · intro hset
        rw [writeReports_eq hopen hset htry, if_pos hneg]
        rfl
    · -- the prefix is counted and reported, the rest is queued
      obtain ⟨⟨handle', status⟩, hw, rfl⟩ := Option.map_eq_some_iff.mp hcall
      have hstatus : status = 0 := uvWrite_status_of_open hw (tryWrite_open htry hnonneg)
      subst hstatus
      refine ⟨bytes, r.toNat, r.toNat, [bytes.drop r.toNat], hlen, rfl, ?_, ?_, ?_, ?_, ?_, rfl, ?_⟩
      · show s.ctx.stats.written + r.toNat + s.phase.uncounted = s.counted + r.toNat
        rw [Sock.counted]
        omega
      · have hqueue := uvWrite_bufs hw
        rw [if_pos (by decide)] at hqueue
        rw [Sock.bufs, Sock.bufs, List.append_assoc, ← hbufs, ← hqueue]
      · rw [if_pos (by omega), List.flatten_singleton, List.length_drop]
        omega
      · intro b hb
        rw [List.mem_singleton.mp hb, List.length_drop]
        omega
      · show s.ctx.stats.alloc + 1 + (s.ctx.stats.eagain + s.ctx.stats.incomplete) =
          s.ctx.stats.alloc + (s.ctx.stats.eagain + (s.ctx.stats.incomplete + 1))
        omega
      · intro hset
        rw [writeReports_eq hopen hset htry, if_neg (by omega), if_pos hlt, hw]
        show reported [(r, 0)] = _
        rw [reported_single (le_refl 0)]
        omega
    · have hle := tryWrite_le htry
      refine ⟨bytes, r.toNat, r.toNat, [], hlen, rfl, ?_, ?_, ?_, ?_, rfl, rfl, ?_⟩
      · show s.ctx.stats.written + r.toNat + s.phase.uncounted = s.counted + r.toNat
        rw [Sock.counted]
        omega
      · rw [List.append_nil, Sock.bufs, Sock.bufs, ← hbufs]
        rfl
      · rw [if_pos (by omega), List.flatten_nil, List.length_nil]
        omega
      · exact fun b hb => absurd hb List.not_mem_nil
      · intro hset
        rw [writeReports_eq hopen hset htry, if_neg (by omega), if_neg (by omega),
          reported_single (le_refl 0)]
        omega

/-! ### The invariant of a run -/

/-- How many of the requests succeeded with 2^31 bytes or more. -/
def wide (rs : List WriteReq) : Nat := rs.countP fun r => 0 ≤ r.error ∧ 2 ^ 31 ≤ r.buf.length

theorem bytesOf_cons (r : WriteReq) (rs : List WriteReq) :
    bytesOf (r :: rs) = r.buf.length + bytesOf rs := rfl

theorem bytesOf_append (rs ts : List WriteReq) : bytesOf (rs ++ ts) = bytesOf rs + bytesOf ts := by
  simp [bytesOf]

theorem wide_append (rs ts : List WriteReq) : wide (rs ++ ts) = wide rs + wide ts :=
  List.countP_append

theorem reported_append (ps qs : List (Int × Int)) :
    reported (ps ++ qs) = reported ps + reported qs := by
  simp [reported]

/-- Requests fail or succeed. -/
theorem bytesOf_split (rs : List WriteReq) :
    bytesOf (rs.filter fun r => r.error < 0) + bytesOf (rs.filter fun r => ¬ r.error < 0) =
      bytesOf rs := by
  induction rs with
  | nil => rfl
  | cons r rs ih =>
    by_cases herr : r.error < 0
    · rw [List.filter_cons_of_pos (by simpa using herr),
        List.filter_cons_of_neg (by simpa using herr), bytesOf_cons, bytesOf_cons]
      omega
    · rw [List.filter_cons_of_neg (by simpa using herr),
        List.filter_cons_of_pos (by simpa using herr), bytesOf_cons, bytesOf_cons]
      omega

/-- What `after_write` tells `onWrite` about a request. -/
def tell (r : WriteReq) : Int × Int := (integerNew r.buf.length, r.error)

/-- The lengths it tells are right up to 2^32 for each one that does not fit. -/
theorem reported_tell {rs : List WriteReq} (h : ∀ r ∈ rs, r.buf.length < 2 ^ 32) :
    (bytesOf (rs.filter fun r => ¬ r.error < 0) : Int) =
      reported (rs.map tell) + 2 ^ 32 * wide rs := by
  induction rs with
  | nil => rfl
  | cons r rs ih =>
    have ih := ih fun q hq => h q (List.mem_cons_of_mem r hq)
    have hr := integerNew_eq (h r List.mem_cons_self)
    have hreported : ∀ ps, reported (tell r :: ps) = reported [tell r] + reported ps :=
      fun ps => reported_append [tell r] ps
    by_cases herr : r.error < 0
    · -- a failed request is on neither side
      have hno : reported [tell r] = 0 := by
        simp [reported, tell, herr]
      have hwide : wide (r :: rs) = wide rs := List.countP_cons_of_neg (by simp [herr])
      rw [List.filter_cons_of_neg (by simpa using herr), List.map_cons, hreported, hno, hwide]
      omega
    · have hone : reported [tell r] = integerNew r.buf.length :=
        reported_single (not_lt.mp herr)
      rw [List.filter_cons_of_pos (by simpa using herr), List.map_cons, hreported, hone,
        bytesOf_cons, hr]
      have hwide : wide (r :: rs) = wide rs + if 2 ^ 31 ≤ r.buf.length then 1 else 0 := by
        simp [wide, List.countP_cons, not_lt.mp herr]
      -- a length from 2^31 on is told as itself less 2^32
      rw [hwide]
      split <;> push_cast <;> omega

/-- The invariant: what is counted, owed and lost is what was accepted. -/
structure Ledger (throughout : Bool) (o : Books) : Prop where
  total : o.sock.counted + o.sock.bufs.flatten.length +
    bytesOf (o.told.filter fun r => r.error < 0) = (accepted o.sock.calls).length
  alloc : o.sock.ctx.stats.alloc = o.sock.ctx.stats.eagain + o.sock.ctx.stats.incomplete
  fits : ∀ b ∈ o.sock.bufs, b.length < 2 ^ 32
  onWrite : throughout = true → o.sock.callbacks.onWrite = true
  reported : throughout = true →
    (o.sock.counted : Int) = Socket.reported o.reports + 2 ^ 32 * wide o.told

theorem ledger_obtained (way : Way) (out : List UInt8) (callbacks : Callbacks)
    (plugins : List Plugins.Kind) (onConnect : Bool) :
    Ledger callbacks.onWrite (Books.obtained way out callbacks plugins onConnect) := by
  cases way
  all_goals exact ⟨rfl, rfl, fun _ hb => absurd hb List.not_mem_nil, id, fun _ => rfl⟩

theorem books_step_eq_some {o o' : Books} {a : ConnAct} (h : o.step a = some o') :
    a.InRange ∧ ∃ c', o.conn.step a = some c' ∧
      o' = ⟨c', o.told ++ o.conn.begun a, o.reports ++ o.conn.reports a⟩ := by
  obtain ⟨hrange, h⟩ := Option.ite_none_right_eq_some.mp h
  obtain ⟨c', hstep, heq⟩ := Option.map_eq_some_iff.mp h
  exact ⟨hrange, c', hstep, heq.symm⟩

/-- A call of `Write` keeps the ledger. -/
theorem Ledger.posts {t : Bool} {o : Books} {c' : Conn} {bytes : List UInt8} {result : Int}
    {reports : List (Int × Int)} {n : Nat} {rest : List (List UInt8)} (ho : Ledger t o)
    (h : Posts o.sock c'.sock bytes result reports n rest) (hlen : bytes.length < 2 ^ 32) :
    Ledger t ⟨c', o.told, o.reports ++ reports⟩ where
  total := by
    have htotal := ho.total
    have hcall := h.total
    have haccepted : (accepted c'.sock.calls).length =
        (accepted o.sock.calls).length + if 0 ≤ result then bytes.length else 0 := by
      rw [h.calls, accepted_snoc, List.length_append]
      split <;> rfl
    show c'.sock.counted + c'.sock.bufs.flatten.length +
      bytesOf (o.told.filter fun r => r.error < 0) = (accepted c'.sock.calls).length
    rw [haccepted, h.counted, h.bufs, List.flatten_append, List.length_append]
    omega
  alloc := by
    have halloc := ho.alloc
    have hcall := h.alloc
    show c'.sock.ctx.stats.alloc = c'.sock.ctx.stats.eagain + c'.sock.ctx.stats.incomplete
    omega
  fits := by
    intro b hb
    have hb : b ∈ c'.sock.bufs := hb
    rw [h.bufs, List.mem_append] at hb
    obtain hb | hb := hb
    · exact ho.fits b hb
    · exact lt_of_le_of_lt (h.fits b hb) hlen
  onWrite := fun ht => h.callbacks ▸ ho.onWrite ht
  reported := by
    intro ht
    have hbefore := ho.reported ht
    have hcall := h.reports (ho.onWrite ht)
    show (c'.sock.counted : Int) = Socket.reported (o.reports ++ reports) + 2 ^ 32 * wide o.told
    rw [h.counted, reported_append, hcall]
    push_cast
    omega

/-- So does every other step. -/
theorem Ledger.moves {t : Bool} {o : Books} {c' : Conn} {begun : List WriteReq}
    {reports : List (Int × Int)} (ho : Ledger t o) (h : Moves o.sock c'.sock begun)
    (hreports : o.sock.callbacks.onWrite = true → reports = begun.map tell) :
    Ledger t ⟨c', o.told ++ begun, o.reports ++ reports⟩ where
  total := by
    have htotal := ho.total
    have hsplit := bytesOf_split begun
    rw [h.bufs, List.flatten_append, List.length_append, ← bytesOf_eq] at htotal
    show c'.sock.counted + c'.sock.bufs.flatten.length + bytesOf ((o.told ++ begun).filter _) =
      (accepted c'.sock.calls).length
    rw [h.calls, h.counted, List.filter_append, bytesOf_append]
    omega
  alloc := by
    have heq := h.counters
    simp only [Sock.counters, Prod.mk.injEq] at heq
    obtain ⟨halloc, heagain, hincomplete⟩ := heq
    show c'.sock.ctx.stats.alloc = c'.sock.ctx.stats.eagain + c'.sock.ctx.stats.incomplete
    rw [halloc, heagain, hincomplete, ho.alloc]
  fits := fun b hb => ho.fits b (h.bufs ▸ List.mem_append_right _ hb)
  onWrite := fun ht => h.onWrite (ho.onWrite ht)
  reported := by
    intro ht
    have hfits : ∀ r ∈ begun, r.buf.length < 2 ^ 32 := fun r hr =>
      ho.fits _ (h.bufs ▸ List.mem_append_left _ (List.mem_map_of_mem hr))
    have hbefore := ho.reported ht
    have htold := reported_tell hfits
    show (c'.sock.counted : Int) =
      Socket.reported (o.reports ++ reports) + 2 ^ 32 * wide (o.told ++ begun)
    rw [hreports (ho.onWrite ht), h.counted, reported_append, wide_append]
    push_cast
    omega

/-- Where `onWrite` is set, a request that is handed over is reported. -/
theorem reports_eq {s : Sock} {a : Act}
    (ha : ∀ len off tried queued, a ≠ .write len off tried queued)
    (hset : s.callbacks.onWrite = true) : s.reports a = (s.begun a).map tell := by
  cases a with
  | write len off tried queued => exact absurd rfl (ha len off tried queued)
  | next =>
    simp only [Sock.reports, Sock.begun]
    split
    · rw [if_pos hset]
      rfl
    · rfl
  | _ => rfl

/-! ### The steps of a connection -/

theorem Aside.uncounted {s s' : Sock} (h : Aside s s') :
    s'.phase.uncounted = s.phase.uncounted := by
  obtain hsame | ⟨hcalm, hsame | hsame⟩ := h.phase
  · rw [hsame]
  all_goals
    rw [hsame, (Phase.idle_of_calm hcalm).uncounted]
    rfl

theorem Aside.moves {s s' : Sock} (h : Aside s s') : Moves s s' [] := by
  have hkept := h.kept
  simp only [Sock.kept, Prod.mk.injEq] at hkept
  obtain ⟨-, -, hstats, hcalls, -, hset⟩ := hkept
  have hwritten := congrArg Stats.written hstats
  have hcounters := congrArg (fun t => (t.alloc, t.eagain, t.incomplete)) hstats
  refine ⟨?_, ?_, hcounters, hcalls, fun h => hset.trans h⟩
  · rw [Sock.counted, Sock.counted, h.uncounted]
    exact congrArg (· + s.phase.uncounted) hwritten
  · rw [Sock.bufs, Sock.bufs, h.pq.1, h.sameWriting.toSameQueue.bufs]
    rfl

/-- A call that waits counts nothing. -/
theorem writeConnecting_posts {s s' : Sock} {len off : Nat}
    (h : s.writeConnecting len off = some s') :
    ∃ bytes result rest, bytes.length = len ∧ Posts s s' bytes result [] 0 rest := by
  obtain ⟨bytes, hread, hcase⟩ := writeConnecting_cases h
  have hlen : bytes.length = len := by
    obtain ⟨hin, heq⟩ := Option.ite_none_right_eq_some.mp hread
    cases heq
    exact length_slice hin
  have halloc : s.ctx.stats.alloc + 1 + (s.ctx.stats.eagain + s.ctx.stats.incomplete) =
      s.ctx.stats.alloc + (s.ctx.stats.eagain + 1 + s.ctx.stats.incomplete) := by omega
  have hnone : ∀ b ∈ ([] : List (List UInt8)), b.length ≤ bytes.length :=
    fun b hb => absurd hb List.not_mem_nil
  obtain ⟨-, heq⟩ | ⟨-, -, status, hneg, heq⟩ | ⟨-, -, heq⟩ := hcase
  all_goals subst heq
  · exact ⟨bytes, -1, [], hlen, rfl, rfl, (List.append_nil _).symm, rfl, hnone, rfl, rfl,
      fun _ => rfl⟩
  · refine ⟨bytes, status, [], hlen, rfl, rfl, (List.append_nil _).symm, ?_, hnone, halloc, rfl,
      fun _ => rfl⟩
    rw [if_neg (by omega)]
    rfl
  · refine ⟨bytes, 0, [bytes], hlen, rfl, rfl, ?_, ?_, ?_, halloc, rfl, fun _ => rfl⟩
    · simp [Sock.bufs, Socket.bufs, Sock.requested, Stream.enqueue]
    · simp
    · exact fun b hb => le_of_eq (congrArg List.length (List.mem_singleton.mp hb))

/-- What a failed attempt cancels is handed over. -/
theorem cancel_moves {s : Sock} (reading : Bool) (calm : s.phase.calm = true) :
    Moves s { s with
      handle := { s.handle with writeQueue := [], completed := [], reading := reading }
      phase := .reporting s.handle.flush.completed false } [] := by
  have hidle := Phase.idle_of_calm calm
  refine ⟨?_, ?_, rfl, rfl, id⟩
  · show s.ctx.stats.written = s.ctx.stats.written + s.phase.uncounted
    rw [hidle.uncounted, Nat.add_zero]
  · rw [Sock.bufs, hidle.1, ← flush_bufs s.handle]
    simp [Sock.bufs, Socket.bufs, Phase.pq, Stream.flush]

/-- `context_init` clears counters that are clear. -/
theorem init_moves {s : Sock} (fresh : s.Fresh) :
    Moves s { s with ctx := { out := s.ctx.out }, handle := {}, phase := .loop } [] := by
  have hwritten := congrArg Stats.written fresh.stats
  have hcounters := congrArg (fun t => (t.alloc, t.eagain, t.incomplete)) fresh.stats
  refine ⟨?_, ?_, hcounters.symm, rfl, id⟩
  · show 0 = s.ctx.stats.written + s.phase.uncounted
    rw [fresh.phase]
    exact congrArg (· + 0) hwritten.symm
  · rw [Sock.bufs, fresh.phase, fresh.handle]
    rfl

theorem Act.isWrite_iff {a : Act} :
    a.isWrite = true ↔ ∃ len off tried queued, a = .write len off tried queued := by
  cases a <;> simp [Act.isWrite]

/-- No request is handed over from a calm phase. -/
theorem begun_of_calm {s : Sock} (h : s.phase.calm = true) (a : Act) : s.begun a = [] := by
  unfold Sock.begun
  split
  · split
    · rename_i hphase
      rw [hphase] at h
      contradiction
    · rfl
  · rfl

/-- **A step of a connection** is a call of `Write`, or hands over at most one request and reports
    it. -/
theorem ConnStep.entry {c : Conn} {a : ConnAct} {s' : Sock} (h : ConnStep c a s') :
    (∃ len off tried queued bytes result n rest, a = .sock (.write len off tried queued) ∧
        bytes.length = len ∧ Posts c.sock s' bytes result (c.reports a) n rest) ∨
      (Moves c.sock s' (c.begun a) ∧
        (c.sock.callbacks.onWrite = true → c.reports a = (c.begun a).map tell)) := by
  cases h with
  | @sock a _ step late =>
    cases hw : a.isWrite with
    | true =>
      -- the call reaches the kernel, and may report to `onWrite` itself
      obtain ⟨len, off, tried, queued, rfl⟩ := Act.isWrite_iff.mp hw
      obtain ⟨-, step⟩ := Option.ite_none_left_eq_some.mp step
      obtain ⟨-, call⟩ := Option.ite_none_right_eq_some.mp step
      obtain ⟨bytes, result, n, rest, hlen, hposts⟩ := write_posts call
      refine Or.inl ⟨len, off, tried, queued, bytes, result, n, rest, rfl, hlen, ?_⟩
      rw [Conn.reports, late hw]
      exact hposts
    | false =>
      have hno : ∀ len off tried queued, a ≠ .write len off tried queued := by
        rintro _ _ _ _ rfl
        contradiction
      refine Or.inr ⟨step_moves step hno, fun hset => ?_⟩
      rw [Conn.reports, hw]
      exact reports_eq hno hset
  | @wait len off tried queued _ hstage call =>
    -- nothing is written, so nothing is reported until `after_write`
    obtain ⟨bytes, result, rest, hlen, hposts⟩ := writeConnecting_posts call
    refine Or.inl ⟨len, off, tried, queued, bytes, result, 0, rest, rfl, hlen, ?_⟩
    rw [Conn.reports, hstage]
    exact hposts
  | aside same outer =>
    cases a with
    | sock b => exact absurd rfl (outer b)
    | _ => exact Or.inr ⟨same.moves, fun _ => rfl⟩
  | @within a _ same calm place =>
    have hbegun : c.begun (.sock a) = [] := begun_of_calm calm a
    refine Or.inr ⟨by rw [hbegun]; exact same.moves, fun hset => ?_⟩
    rw [Conn.reports]
    cases hw : a.isWrite with
    | true =>
      obtain ⟨len, off, tried, queued, rfl⟩ := Act.isWrite_iff.mp hw
      obtain h | h | ⟨early, -⟩ := place
      · contradiction
      · contradiction
      · -- there is no handle, and the process ends
        rw [early, hbegun]
        rfl
    | false =>
      refine reports_eq (fun len off tried queued h => ?_) hset
      rw [h] at hw
      contradiction
  | cancel reading action calm =>
    obtain rfl | ⟨rfl, -⟩ := action
    all_goals exact Or.inr ⟨cancel_moves reading calm, fun _ => rfl⟩
  | init fresh => exact Or.inr ⟨init_moves fresh, fun _ => rfl⟩

/-- **Step lemma.** -/
theorem step_ledger {t : Bool} {o o' : Books} {a : ConnAct} (ho : Ledger t o)
    (hplaced : o.conn.Placed) (h : o.step a = some o') : Ledger t o' := by
  obtain ⟨hrange, c', hstep, rfl⟩ := books_step_eq_some h
  obtain ⟨len, off, tried, queued, bytes, result, n, rest, rfl, hlen, hposts⟩ |
    ⟨hmoves, hreports⟩ := (conn_step_cases hplaced hstep).entry
  · show Ledger t ⟨c', o.told ++ [], _⟩
    rw [List.append_nil]
    exact ho.posts hposts (hlen ▸ hrange.1)
  · exact ho.moves hmoves hreports

/-! ### Between calls and callbacks -/

/-- Nothing is waiting to be counted. -/
theorem Sock.Between.counted {s : Sock} (h : s.Between) : s.counted = s.ctx.stats.written := by
  obtain ⟨-, h⟩ := h
  have hnone : s.phase.uncounted = 0 := by
    split at h <;> first | contradiction | simp [Phase.uncounted, *]
  rw [Sock.counted, hnone, Nat.add_zero]

/-- The accounts are right up to the requests whose length does not fit. -/
theorem accounts_iff {t : Bool} {o : Books} (ho : Ledger t o) (hb : o.sock.Between) :
    Accounts t o ↔ (t = true → 2 ^ 32 ∣ wide o.told) := by
  have htotal := ho.total
  have hreported := ho.reported
  rw [hb.counted] at htotal hreported
  have hmod : t = true → ((o.sock.ctx.stats.written : Int) ≡ reported o.reports [ZMOD 2 ^ 64] ↔
      2 ^ 32 ∣ wide o.told) := by
    intro ht
    rw [hreported ht, Int.ModEq]
    omega
  constructor
  · exact fun h ht => (hmod ht).mp (h.reported ht)
  · refine fun h => ⟨?_, fun ht => (hmod ht).mpr (h ht), ?_⟩
    · rw [bytesOf_eq o.sock.outstanding, map_buf_outstanding, htotal]
    · rw [ho.alloc]

theorem afterWriteClose_depth (s : Sock) (r : WriteReq) (pq : List WriteReq) (d : Bool) :
    (s.afterWriteClose r pq d).depth = s.depth := by
  unfold Sock.afterWriteClose Sock.uvClose
  split
  · split <;> rfl
  · rfl

/-- What is waiting to be counted is counted before control is back in libuv. -/
theorem step_uncounted {s s' : Sock} {a : Act} (h : step s a = some s') (hnone : s.begun a = []) :
    s'.phase.uncounted = s.phase.uncounted ∨ s'.Between := by
  cases step_writeStep h with
  | js _ hphase => exact Or.inl (by rw [hphase])
  | quiet _ hidle hidle' => exact Or.inl (by rw [hidle.uncounted, hidle'.uncounted])
  | write call => exact Or.inl (by rw [(write_sameLife call).phase])
  | attempt hphase | destroy hphase =>
    rw [hphase]
    exact Or.inl rfl
  | report _ hphase =>
    rw [Sock.begun, hphase] at hnone
    contradiction
  | @status r pq d hdepth hphase =>
    obtain ⟨_, herr, -, heq⟩ | ⟨_, -, -, -, heq⟩ | ⟨-, -, -, heq⟩ | ⟨-, -, -, -, heq⟩ |
      ⟨herr, -, -, -, heq⟩ := afterWriteStatus_cases s r pq d
    all_goals rw [heq]
    · -- a failed request is not waiting to be counted
      refine Or.inl ?_
      rw [hphase, Phase.uncounted, if_pos herr]
      unfold Sock.moved
      split <;> rfl
    · exact Or.inr ⟨hdepth, trivial⟩
    · refine Or.inr ⟨(afterWriteClose_depth s r pq d).trans hdepth, ?_⟩
      rw [afterWriteClose_phase]
      trivial
    · refine Or.inr ⟨(afterWriteClose_depth s.unblock r pq d).trans hdepth, ?_⟩
      rw [afterWriteDrained_phase]
      trivial
    · refine Or.inl ?_
      rw [hphase, Phase.uncounted, Phase.uncounted, if_neg herr]
  | failed _ hphase =>
    rw [hphase]
    exact Or.inl rfl
  | @drained r pq d hdepth hphase =>
    refine Or.inr ⟨(afterWriteClose_depth s.unblock r pq d).trans hdepth, ?_⟩
    rw [afterWriteDrained_phase]
    trivial

/-- A request that is handed over with `onWrite` set waits to be counted. -/
theorem step_begun {s s' : Sock} {a : Act} {r : WriteReq} (h : step s a = some s')
    (hset : s.callbacks.onWrite = true) (hr : r ∈ s.begun a) :
    s.begun a = [r] ∧ s.phase.uncounted = 0 ∧
      s'.phase.uncounted = if r.error < 0 then 0 else r.buf.length := by
  cases a with
  | next =>
    obtain ⟨-, h⟩ := Option.ite_none_left_eq_some.mp h
    obtain ⟨-, h⟩ := Option.ite_none_right_eq_some.mp h
    unfold Sock.begun at hr ⊢
    unfold Sock.next at h
    simp only at hr ⊢
    split at hr
    · rename_i q pq d hphase
      obtain rfl := List.mem_singleton.mp hr
      rw [hphase] at h ⊢
      cases h
      rw [afterWrite_eq, if_pos hset]
      exact ⟨rfl, rfl, rfl⟩
    · contradiction
  | _ => contradiction

/-- What is waiting to be counted is counted before control is back in libuv. -/
theorem ConnStep.uncounted {c : Conn} {a : ConnAct} {s' : Sock} (h : ConnStep c a s')
    (hnone : c.begun a = []) : s'.phase.uncounted = c.sock.phase.uncounted ∨ s'.Between := by
  cases h with
  | sock step => exact step_uncounted step hnone
  | wait _ call =>
    obtain ⟨_, -, ⟨-, heq⟩ | ⟨-, -, _, -, heq⟩ | ⟨-, -, heq⟩⟩ := writeConnecting_cases call
    all_goals exact Or.inl (congrArg (fun s => s.phase.uncounted) heq)
  | aside same | within same => exact Or.inl same.uncounted
  | cancel _ _ calm => exact Or.inl (Phase.idle_of_calm calm).uncounted.symm
  | init fresh =>
    refine Or.inl ?_
    rw [fresh.phase]
    rfl

/-- A request is handed over by a step of the socket alone. -/
theorem ConnStep.handed {c : Conn} {a : ConnAct} {s' : Sock} {r : WriteReq} (h : ConnStep c a s')
    (hset : c.sock.callbacks.onWrite = true) (hr : r ∈ c.begun a) :
    c.begun a = [r] ∧ c.sock.phase.uncounted = 0 ∧
      s'.phase.uncounted = if r.error < 0 then 0 else r.buf.length := by
  -- the other steps start where nothing is handed over
  have hcalm (hc : c.sock.phase.calm = true) (b : Act) : r ∉ c.begun (.sock b) := by
    rw [Conn.begun, begun_of_calm hc]
    exact List.not_mem_nil
  cases h with
  | sock step => exact step_begun step hset hr
  | wait => exact absurd hr List.not_mem_nil
  | aside _ outer =>
    cases a with
    | sock b => exact absurd rfl (outer b)
    | _ => exact absurd hr List.not_mem_nil
  | within _ calm => exact absurd hr (hcalm calm _)
  | cancel _ action calm =>
    obtain rfl | ⟨rfl, -⟩ := action
    · exact absurd hr List.not_mem_nil
    · exact absurd hr (hcalm calm .ret)
  | init => exact absurd hr List.not_mem_nil

/-- At most one request was too long, and it is waiting to be counted. -/
structure Late (o : Books) : Prop where
  le : wide o.told ≤ 1
  waiting : wide o.told = 1 → 2 ^ 31 ≤ o.sock.phase.uncounted

theorem Late.of_zero {o : Books} (h : wide o.told = 0) : Late o where
  le := by omega
  waiting := by omega

/-- **Step lemma.** As long as the accounts are right between calls and callbacks, that is all. -/
theorem step_late {o o' : Books} {a : ConnAct} (ho : Ledger true o) (hplaced : o.conn.Placed)
    (hk : Late o) (h : o.step a = some o') (hacc : o'.sock.Between → Accounts true o') :
    Late o' := by
  have ho' := step_ledger ho hplaced h
  obtain ⟨-, c', hstep, rfl⟩ := books_step_eq_some h
  have hcases := conn_step_cases hplaced hstep
  have hle := hk.le
  have hwaiting := hk.waiting
  cases hbegun : o.conn.begun a with
  | nil =>
    rw [hbegun, List.append_nil] at ho' hacc
    obtain hsame | hb := hcases.uncounted hbegun
    · refine ⟨by simpa [hbegun] using hle, fun hone => ?_⟩
      show 2 ^ 31 ≤ c'.sock.phase.uncounted
      rw [hsame]
      exact hwaiting (by simpa [hbegun] using hone)
    · -- the accounts are right, so it was none
      have hdvd := (accounts_iff ho' hb).mp (hacc hb) rfl
      have hzero : wide o.told = 0 := by
        change 2 ^ 32 ∣ wide o.told at hdvd
        omega
      exact Late.of_zero (by simpa [hbegun] using hzero)
  | cons r rest =>
    have hmem : r ∈ o.conn.begun a := hbegun ▸ List.mem_cons_self
    obtain ⟨hone, hnone, huncounted⟩ := hcases.handed (ho.onWrite rfl) hmem
    have hzero : wide o.told = 0 := by
      rw [hnone] at hwaiting
      omega
    rw [hbegun] at hone
    have hwide : wide (o.told ++ r :: rest) = wide [r] := by
      rw [wide_append, hzero, hone, Nat.zero_add]
    have hcount : wide [r] = if 0 ≤ r.error ∧ 2 ^ 31 ≤ r.buf.length then 1 else 0 := by
      simp [wide, List.countP_cons]
    refine ⟨?_, fun hcounted => ?_⟩
    · show wide (o.told ++ r :: rest) ≤ 1
      rw [hwide, hcount]
      split <;> omega
    · change wide (o.told ++ r :: rest) = 1 at hcounted
      rw [hwide, hcount] at hcounted
      split at hcounted
      · rename_i hr
        show 2 ^ 31 ≤ c'.sock.phase.uncounted
        rw [huncounted, if_neg (by omega)]
        exact hr.2
      · contradiction

/-- A request that fits is not counted as too long, and the others are. -/
theorem narrow_iff {o o' : Books} {a : ConnAct} (h : o.step a = some o') :
    wide o'.told = wide o.told + wide (o.conn.begun a) ∧
      (wide (o.conn.begun a) = 0 ↔ Narrow o a) := by
  obtain ⟨-, c', -, rfl⟩ := books_step_eq_some h
  refine ⟨wide_append _ _, ?_⟩
  rw [wide, List.countP_eq_zero]
  refine forall_congr' fun r => forall_congr' fun _ => ?_
  simp

/-- **Run lemma.** -/
theorem run_ledger {way : Way} {out : List UInt8} {callbacks : Callbacks}
    {plugins : List Plugins.Kind} {onConnect : Bool} {as : List ConnAct} {o : Books}
    (h : run Books.step (Books.obtained way out callbacks plugins onConnect) as = some o) :
    Ledger callbacks.onWrite o ∧ o.conn.Placed := by
  refine run_invariant (I := fun o => Ledger callbacks.onWrite o ∧ o.conn.Placed) ?_
    ⟨ledger_obtained way out callbacks plugins onConnect,
      placed_obtained way out callbacks plugins onConnect⟩ h
  intro o a o' ho hstep
  obtain ⟨-, c', hconn, heq⟩ := books_step_eq_some hstep
  refine ⟨step_ledger ho.1 ho.2 hstep, ?_⟩
  rw [heq]
  exact conn_step_placed ho.2 hconn

/-- **The accounts of a connection** are right between calls and callbacks, all along a run, exactly
    when each request whose success is reported to `onWrite` was made with less than 2^31 bytes. -/
theorem accounts_iff_along (way : Way) (out : List UInt8) (callbacks : Callbacks)
    (plugins : List Plugins.Kind) (onConnect : Bool) (as : List ConnAct) (o : Books)
    (hrun : run Books.step (Books.obtained way out callbacks plugins onConnect) as = some o)
    (hend : o.sock.Between) :
    (∀ bs cs u, as = bs ++ cs →
        run Books.step (Books.obtained way out callbacks plugins onConnect) bs = some u →
        u.sock.Between → Accounts callbacks.onWrite u) ↔
      (callbacks.onWrite = true →
        Along Books.step Narrow (Books.obtained way out callbacks plugins onConnect) as) := by
  constructor
  · intro hall hset
    rw [hset] at hall
    -- the induction is on the prefix, from its end
    have hlate : ∀ bs cs u, as = bs ++ cs →
        run Books.step (Books.obtained way out callbacks plugins onConnect) bs = some u →
        Late u := by
      intro bs
      induction bs using List.reverseRecOn with
      | nil =>
        intro cs u _ hbs
        cases hbs
        exact Late.of_zero rfl
      | append_singleton bs a ih =>
        intro cs u heq hbs
        obtain ⟨v, hv, hstep⟩ := run_snoc_eq_some.mp hbs
        have hv' := ih (a :: cs) v (by rw [heq, List.append_assoc]; rfl) hv
        obtain ⟨hledger, hplaced⟩ := run_ledger hv
        exact step_late (hset ▸ hledger) hplaced hv' hstep (hall _ cs u heq hbs)
    have hzero : wide o.told = 0 := by
      have hle := (hlate as [] o (List.append_nil as).symm hrun).le
      have hdvd := (accounts_iff (hset ▸ (run_ledger hrun).1) hend).mp
        (hall as [] o (List.append_nil as).symm hrun hend) rfl
      omega
    refine Along.of_good (I := fun _ => True) (G := fun u => wide u.told = 0) ?_ ?_ ?_ trivial hrun
      hzero
    · exact fun _ _ _ _ _ _ => trivial
    · intro s a s' _ hmiss hstep
      obtain ⟨hwide, hiff⟩ := narrow_iff hstep
      have := mt hiff.mp hmiss
      omega
    · intro s a s' hmiss hstep
      have := (narrow_iff hstep).1
      omega
  · intro hnarrow bs cs u heq hbs hb
    -- along the run no request is too long, so none has been told wrongly
    refine (accounts_iff (run_ledger hbs).1 hb).mpr fun hset => ?_
    have halong := (along_append.mp (heq ▸ hnarrow hset)).1
    have hzero : wide u.told = 0 := by
      refine run_invariant_along (I := fun u => wide u.told = 0) ?_ rfl halong hbs
      intro s a s' hs hP hstep
      obtain ⟨hwide, hiff⟩ := narrow_iff hstep
      have := hiff.mpr hP
      omega
    rw [hzero]
    exact dvd_zero _

/-- A call that waits for the connection, and one that is split: its first byte is reported by
    `Write`, the others by `after_write`. -/
def splitWrite : List ConnAct :=
  [.sock (.write 1 2 .again .again), .sock .ret, .connected false, .sock (.ioWrite (.wrote 1)),
    .sock .next, .sock .ret, .sock .next, .sock (.drain true), .sock .enter,
    .sock (.write 3 0 (.wrote 1) .again), .sock .ret, .sock .ret, .sock (.ioWrite (.wrote 2)),
    .sock .next, .sock .ret]

theorem accounts_iff_along_splitWrite :
    ∃ o, run Books.step (Books.obtained (.connect true) [1, 2, 3] { onWrite := true } [] false)
        splitWrite = some o ∧
      Accounts true o ∧ o.reports = [(1, 0), (1, 0), (2, 0)] :=
  ⟨_, rfl, (accounts_iff_along (.connect true) [1, 2, 3] { onWrite := true } [] false splitWrite _
    rfl ⟨rfl, trivial⟩).mpr (fun _ => by decide) splitWrite [] _ rfl rfl ⟨rfl, trivial⟩, by decide⟩

/-- A call on a server's connection that has to wait, whose bytes the kernel takes in two
    pieces. -/
def twoPieces (m n : Nat) : List ConnAct :=
  [.sock .ret, .sock .enter, .sock (.write (m + n) 0 .again (.wrote m)), .sock .ret,
    .sock (.ioWrite (.wrote n)), .sock .next, .sock .ret]

/-- It is counted whole, and reported with the length `Integer::New` makes of it. -/
theorem run_twoPieces {out : List UInt8} {m n : Nat} (hout : out.length = m + n) (hn : 0 < n)
    (hm' : m ≤ maxRwCount) (hn' : n ≤ maxRwCount) (hlen : m + n < 2 ^ 32) :
    ∃ o, run Books.step (Books.obtained .accept out { onWrite := true } [] false) (twoPieces m n) =
        some o ∧ o.sock.Between ∧ o.sock.ctx.stats.written = m + n ∧
      o.reports = [(integerNew (m + n), 0)] := by
  have hne : out ≠ [] := by
    rintro rfl
    rw [List.length_nil] at hout
    omega
  have hread : readAt out 0 (m + n) = some out := by
    rw [← hout, readAt_eq_some (by omega), slice_all]
  have htry : ({} : Stream).tryWrite out .again = some ({}, EAGAIN) := by
    simp [Stream.tryWrite, Answer.Valid, hne]
  have hrest : out.drop m ≠ [] := by
    intro h
    have := congrArg List.length h
    rw [List.length_drop, hout, List.length_nil] at this
    omega
  -- the first piece goes out with the call
  have hfirst : ({} : Stream).uvWrite out (.wrote m) =
      some ({ writeQueue := [{ buf := out, written := m }], writeQueueSize := n
              sent := out.take m }, 0) := by
    simp [Stream.uvWrite, Stream.write1, Answer.Valid, WriteReq.left, hout, hm', hrest]
  -- and the second one finishes the request
  have hsecond : ({ writeQueue := [{ buf := out, written := m }], writeQueueSize := n
                    sent := out.take m } : Stream).write1 (.wrote n) =
      some { completed := [{ buf := out, written := m + n }]
             sent := out.take m ++ (out.drop m).take n } := by
    have hall : out.drop (m + n) = [] := List.drop_eq_nil_of_le (le_of_eq hout)
    simp [Stream.write1, Answer.Valid, WriteReq.left, hout, hn', hall]
  -- the states behind the call, in JavaScript and in the event loop
  let queued : Sock :=
    { Sock.connected out { onWrite := true } false with
      handle := { writeQueue := [{ buf := out, written := m }], writeQueueSize := n
                  sent := out.take m }
      ctx := { out := out, blocked := true, stats := { alloc := 1, eagain := 1 } }
      calls := [⟨out, 0⟩] }
  let done : Sock := { queued with
    handle := { sent := out.take m ++ (out.drop m).take n }
    phase := .reporting [{ buf := out, written := m + n }] false }
  have hcall : Books.step
      ⟨{ sock := { Sock.connected out { onWrite := true } false with phase := .outside }
         stage := .ready }, [], []⟩ (.sock (.write (m + n) 0 .again (.wrote m))) =
      some ⟨{ sock := { queued with phase := .outside }, stage := .ready }, [], []⟩ := by
    have hneg : EAGAIN < 0 := by decide
    have hrange : (ConnAct.sock (.write (m + n) 0 .again (.wrote m))).InRange := ⟨hlen, by decide⟩
    rw [Books.step, if_pos hrange]
    simp [Conn.step, step, Sock.connected, Sock.inJs, Phase.isJs, Sock.write, Sock.writeBytes,
      Sock.writeQueued, Conn.begun, Conn.reports, Stage.early, Sock.begun, Sock.reports,
      Sock.writeReports, hread, htry, hfirst, hneg, queued]
  have hio : Books.step ⟨{ sock := queued, stage := .ready }, [], []⟩
      (.sock (.ioWrite (.wrote n))) = some ⟨{ sock := done, stage := .ready }, [], []⟩ := by
    have hrange : (ConnAct.sock (.ioWrite (.wrote n))).InRange := trivial
    rw [Books.step, if_pos hrange]
    simp [Conn.step, step, Sock.connected, Conn.begun, Conn.reports, Sock.begun, Sock.reports,
      hsecond, queued, done]
  refine ⟨_, run_cons_eq_some.mpr ⟨_, rfl, run_cons_eq_some.mpr ⟨_, rfl,
    run_cons_eq_some.mpr ⟨_, hcall, run_cons_eq_some.mpr ⟨⟨⟨queued, false, [], .ready⟩, [], []⟩,
      rfl, run_cons_eq_some.mpr ⟨_, hio, run_cons_eq_some.mpr ⟨_, rfl,
        run_cons_eq_some.mpr ⟨_, rfl, run_nil _⟩⟩⟩⟩⟩⟩⟩, ⟨rfl, trivial⟩, ?_, ?_⟩
  · show 0 + out.length = m + n
    omega
  · show [(integerNew out.length, 0)] = _
    rw [hout]

/-- **A request of 2^31 bytes** is reported with a negative length. -/
theorem not_accounts :
    ¬ ∀ (way : Way) (out : List UInt8) (callbacks : Callbacks) (plugins : List Plugins.Kind)
        (onConnect : Bool) (as : List ConnAct) (o : Books),
      run Books.step (Books.obtained way out callbacks plugins onConnect) as = some o →
        o.sock.Between → Accounts callbacks.onWrite o := by
  intro h
  obtain ⟨o, hrun, hend, hwritten, hreports⟩ := run_twoPieces
    (List.length_replicate (n := 2 ^ 31) (a := (0 : UInt8))) (m := 2147479552) (n := 4096)
    (by decide) (by decide) (by decide) (by decide)
  have hmod := (h .accept _ _ [] false _ o hrun hend).reported rfl
  rw [hwritten, hreports] at hmod
  exact absurd hmod (by decide)

end Dv8.Socket
