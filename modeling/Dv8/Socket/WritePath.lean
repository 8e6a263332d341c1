import Dv8.Socket.ClosePath
import Dv8.Socket.Connection

namespace Dv8.Socket

open Dv8.Lib Dv8.Uv

/-!
# `Socket::Write` is an append to one byte stream

What the kernel took, followed by what is queued, is `Stream.output`.  A call that returns a
non-negative value appends its bytes to it, every other step leaves it alone
(`step_output`), as long as no system call fails and no queued byte is cancelled (`Fails`).
A call that waits for its connection appends its bytes too (`ConnStep.output`).
So along such a run it is the concatenation of the accepted calls (`output_eq_accepted`).

Queued bytes are cancelled when the handle is destroyed under them.  That takes a read error
or a `Close` without shutdown: without those a handle is only closed with an empty queue
(`queue_empty_of_closing`), so failed system calls, that of an attempt to connect among them,
are all there is to exclude (`along_not_fails`).
-/

/-- The bytes of the calls that returned a non-negative value, in the order of the calls. -/
def accepted (calls : List Call) : List UInt8 :=
  (calls.filter fun c => 0 ≤ c.result).flatMap Call.bytes

theorem accepted_snoc (calls : List Call) (bytes : List UInt8) (result : Int) :
    accepted (calls ++ [⟨bytes, result⟩]) =
      accepted calls ++ if 0 ≤ result then bytes else [] := by
  by_cases h : 0 ≤ result <;> simp [accepted, h]

/-- A system call answers an error. -/
def Act.isFailure : Act → Bool
  | .write _ _ tried queued => tried.isError || queued.isError
  | .ioWrite a => a.isError
  | _ => false

/-- The transport fails in this step: a system call answers an error, or queued bytes are
    cancelled (`UV_ECANCELED`). -/
def Fails (s : Sock) (a : Act) : Prop :=
  a.isFailure = true ∨ (a = .destroy ∧ s.handle.writeQueue.flatMap WriteReq.left ≠ [])

/-- The same for a step of a connection: an attempt can fail. -/
def Conn.Fails (c : Conn) : ConnAct → Prop
  | .sock a => Socket.Fails c.sock a
  | .connected failed => failed = true
  | _ => False

instance (s : Sock) (a : Act) : Decidable (Fails s a) := by
  unfold Fails
  infer_instance

instance (c : Conn) : ∀ a, Decidable (c.Fails a)
  | .sock a => inferInstanceAs (Decidable (Socket.Fails c.sock a))
  | .connected failed => inferInstanceAs (Decidable (failed = true))
  | .onConnect | .attach _ | .handOn => isFalse id

/-! ### One call -/

theorem uvWrite_status_of_open {h h' : Stream} {bytes : List UInt8} {a : Answer} {status : Int}
    (hw : h.uvWrite bytes a = some (h', status)) (hopen : h.closing = false ∧ h.writable = true) :
    status = 0 := by
  obtain ⟨-, hc | hc, -⟩ | ⟨hs, -⟩ := uvWrite_cases hw
  · rw [hopen.1] at hc
    contradiction
  · rw [hopen.2] at hc
    contradiction
  · exact hs

/-- A call is recorded, and appends its bytes exactly when it is accepted. -/
theorem write_output {s s' : Sock} {len off : Nat} {tried queued : Answer}
    (h : s.write len off tried queued = some s') (ht : tried.isError = false)
    (hq : queued.isError = false) :
    ∃ bytes result, readAt s.ctx.out off len = some bytes ∧
      s'.calls = s.calls ++ [⟨bytes, result⟩] ∧
      s'.handle.output = s.handle.output ++ if 0 ≤ result then bytes else [] := by
  obtain ⟨bytes, hread, ⟨-, rfl⟩ | ⟨handle, r, -, htry, hcase⟩⟩ := write_cases h
  · refine ⟨bytes, -1, hread, rfl, ?_⟩
    rw [if_neg (by decide), List.append_nil]
  · have hout := tryWrite_output htry ht
    obtain ⟨hr, hcall⟩ | ⟨hneg, -, -, rfl⟩ | ⟨hnonneg, hlt, hcall⟩ | ⟨hnonneg, hge, rfl⟩ := hcase
    · -- the whole range is queued
      have hzero : r.toNat = 0 := by
        obtain rfl | rfl := hr <;> rfl
      rw [hzero, List.take_zero, List.append_nil] at hout
      rw [Sock.writeQueued, Option.map_eq_some_iff] at hcall
      obtain ⟨⟨handle', status⟩, hw, rfl⟩ := hcall
      refine ⟨bytes, status, hread, rfl, ?_⟩
      show handle'.output = _
      rw [uvWrite_output hw hq, hout]
      obtain ⟨-, -, hneg⟩ | ⟨rfl, -⟩ := uvWrite_cases hw
      · rw [if_neg (by omega), if_neg (by omega)]
      · rfl
    · refine ⟨bytes, r, hread, rfl, ?_⟩
      show handle.output = _
      rw [hout, if_neg (by omega), Int.toNat_of_nonpos (by omega), List.take_zero]
    · -- a prefix was written: the suffix behind it is queued
      rw [Sock.writePartial, Option.map_eq_some_iff] at hcall
      obtain ⟨⟨handle', status⟩, hw, rfl⟩ := hcall
      have hstatus : status = 0 := uvWrite_status_of_open hw (tryWrite_open htry hnonneg)
      subst hstatus
      refine ⟨bytes, r.toNat, hread, rfl, ?_⟩
      show handle'.output = _
      rw [uvWrite_output hw hq, hout, if_pos rfl, if_pos (by omega), List.append_assoc,
        List.take_append_drop]
    · refine ⟨bytes, r.toNat, hread, rfl, ?_⟩
      show handle.output = _
      rw [hout, List.take_of_length_le hge, if_pos (by omega)]

/-! ### The other steps -/

theorem release_output (h : Stream) (r : WriteReq) : (h.release r).output = h.output := by
  unfold Stream.release
  split <;> rfl

/-- **One step.** Output and accepted bytes stay equal. -/
theorem step_output {s s' : Sock} {a : Act} (hs : s.handle.output = accepted s.calls)
    (hok : ¬ Fails s a) (h : step s a = some s') : s'.handle.output = accepted s'.calls := by
  rw [Fails, not_or, Bool.not_eq_true] at hok
  cases step_writeStep h with
  | js same | quiet same => rw [same.output, same.calls, hs]
  | @write len off tried queued _ call =>
    have hno := hok.1
    rw [Act.isFailure, Bool.or_eq_false_iff] at hno
    obtain ⟨bytes, result, -, hcalls, hout⟩ := write_output call hno.1 hno.2
    rw [hcalls, hout, accepted_snoc, hs]
  | attempt _ call =>
    have hout := write1_output call hok.1
    exact hout.trans hs
  | destroy _ _ =>
    -- `uv__stream_flush_write_queue` drops what is queued: nothing
    have hnone : s.handle.writeQueue.flatMap WriteReq.left = [] := by
      by_contra hne
      exact hok.2 ⟨rfl, hne⟩
    rw [Stream.output, hnone, List.append_nil] at hs
    show s.handle.sent ++ [] = _
    rw [List.append_nil, hs]
  | @report r pq d _ _ =>
    have hrel : (s.released r).handle.output = s.handle.output := release_output s.handle r
    rw [afterWrite_eq]
    split
    · exact hrel.trans hs
    · have same := (afterWriteStatus_frame (s.released r) r pq d).1
      rw [same.output, same.calls, hrel]
      exact hs
  | @status r pq d =>
    have same := (afterWriteStatus_frame s r pq d).1
    rw [same.output, same.calls, hs]
  | failed _ _ => exact hs
  | @drained r pq d _ _ =>
    have same := afterWriteDrained_sameWriting s r pq d
    rw [same.output, same.calls]
    exact hs

/-- Only `Socket::Write` is recorded as a call. -/
theorem step_calls {s s' : Sock} {a : Act}
    (ha : ∀ len off tried queued, a ≠ .write len off tried queued) (h : step s a = some s') :
    s'.calls = s.calls := by
  cases step_writeStep h with
  | js same | quiet same => exact same.calls
  | @write len off tried queued => exact absurd rfl (ha len off tried queued)
  | attempt | destroy | failed => rfl
  | @report r pq d =>
    rw [afterWrite_eq]
    split
    · rfl
    · exact (afterWriteStatus_frame (s.released r) r pq d).1.calls
  | @status r pq d => exact (afterWriteStatus_frame s r pq d).1.calls
  | @drained r pq d => exact (afterWriteDrained_sameWriting s r pq d).calls

theorem step_write {s s' : Sock} {len off : Nat} {tried queued : Answer}
    (h : step s (.write len off tried queued) = some s') :
    s.write len off tried queued = some s' := by
  unfold step at h
  split at h
  · contradiction
  · exact (Option.ite_none_right_eq_some.mp h).2

theorem write_sent {s s' : Sock} {len off : Nat} {tried queued : Answer}
    (h : s.write len off tried queued = some s') : s.handle.sent <+: s'.handle.sent := by
  obtain hsame | ⟨bytes, handle, r, htry, hrest⟩ := write_handle h
  · simp [hsame]
  · have hsent := tryWrite_sent htry
    obtain hsame | ⟨rest, status, hw⟩ := hrest
    · rw [hsame]
      exact hsent
    · exact hsent.trans (uvWrite_sent hw)

/-- What the kernel has taken, it has for good. -/
theorem step_sent {s s' : Sock} {a : Act} (h : step s a = some s') :
    s.handle.sent <+: s'.handle.sent := by
  have hsame : s'.handle.sent = s.handle.sent → s.handle.sent <+: s'.handle.sent := by
    intro heq
    simp [heq]
  have hreleased : ∀ r, (s.released r).handle.sent = s.handle.sent := by
    intro r
    unfold Sock.released Stream.release
    split <;> rfl
  cases step_writeStep h with
  | js same | quiet same => exact hsame same.sent
  | write call => exact write_sent call
  | attempt _ call =>
    have hsent := write1_sent call
    exact hsent
  | destroy | failed => exact List.prefix_refl _
  | @report r pq d =>
    refine hsame ?_
    rw [afterWrite_eq]
    split
    · exact hreleased r
    · rw [(afterWriteStatus_frame (s.released r) r pq d).1.sent, hreleased]
  | @status r pq d => exact hsame (afterWriteStatus_frame s r pq d).1.sent
  | @drained r pq d => exact hsame (afterWriteDrained_sameWriting s r pq d).sent

/-! ### The run -/

/-- **One step of a connection.** -/
theorem ConnStep.output {c : Conn} {a : ConnAct} {s' : Sock} (h : ConnStep c a s')
    (hs : c.sock.handle.output = accepted c.sock.calls) (hc : c.stage.hasFailed = false)
    (hok : ¬ c.Fails a) : s'.handle.output = accepted s'.calls := by
  cases h with
  | sock step => exact step_output hs hok step
  | wait _ call =>
    obtain ⟨bytes, -, ⟨-, heq⟩ | ⟨-, -, status, hneg, heq⟩ | ⟨-, -, heq⟩⟩ :=
      writeConnecting_cases call
    all_goals rw [heq]
    -- the two calls that are refused return a negative value
    · show c.sock.handle.output = accepted (c.sock.calls ++ [⟨bytes, -1⟩])
      rw [accepted_snoc, if_neg (by decide), List.append_nil, hs]
    · show c.sock.handle.output = accepted (c.sock.calls ++ [⟨bytes, status⟩])
      rw [accepted_snoc, if_neg (by omega), List.append_nil, hs]
    · show (c.sock.handle.enqueue bytes).output = accepted (c.sock.calls ++ [⟨bytes, 0⟩])
      rw [output_enqueue, accepted_snoc, if_pos (by decide), hs]
  | aside same | within same => rw [same.sameWriting.output, same.sameWriting.calls, hs]
  | cancel _ action =>
    -- only a failed attempt cancels what waits for it
    obtain rfl | ⟨-, hstage⟩ := action
    · exact absurd rfl hok
    · simp [hstage, Stage.hasFailed] at hc
  | init fresh =>
    rw [fresh.calls]
    rfl

/-- What a run keeps in which the transport does not fail. -/
structure Conn.Streams (c : Conn) : Prop extends Conn.Placed c where
  failed : c.stage.hasFailed = false
  output : c.sock.handle.output = Socket.accepted c.sock.calls

theorem streams_obtained (way : Way) (out : List UInt8) (callbacks : Callbacks)
    (plugins : List Plugins.Kind) (onConnect : Bool) :
    (Conn.obtained way out callbacks plugins onConnect).Streams where
  toPlaced := placed_obtained way out callbacks plugins onConnect
  failed := by cases way <;> rfl
  output := by cases way <;> rfl

theorem conn_step_streams {c c' : Conn} {a : ConnAct} (hc : c.Streams) (hok : ¬ c.Fails a)
    (h : c.step a = some c') : c'.Streams where
  toPlaced := conn_step_placed hc.toPlaced h
  failed := by
    refine conn_step_hasFailed hc.failed ?_ h
    rintro rfl
    exact hok rfl
  output := (conn_step_cases hc.toPlaced h).output hc.output hc.failed hok

/-- **The byte stream is preserved.** In every run in which the transport does not fail, the
    bytes the kernel took followed by the queued ones are the accepted bytes in order. -/
theorem output_eq_accepted (way : Way) (out : List UInt8) (callbacks : Callbacks)
    (plugins : List Plugins.Kind) (onConnect : Bool) (as : List ConnAct) (c : Conn)
    (hok : Along Conn.step (fun c a => ¬ c.Fails a)
      (Conn.obtained way out callbacks plugins onConnect) as)
    (hrun : run Conn.step (Conn.obtained way out callbacks plugins onConnect) as = some c) :
    c.sock.handle.sent ++ c.sock.handle.writeQueue.flatMap WriteReq.left =
      accepted c.sock.calls := by
  have hc : c.Streams := run_invariant_along (fun _ _ _ hc hok h => conn_step_streams hc hok h)
    (streams_obtained way out callbacks plugins onConnect) hok hrun
  exact hc.output

/-- A call waits for the connection.  When it has been made a range is half-written, overwritten
    and followed by another call before the rest of it goes out: the bytes are those of the
    calls. -/
def overwriteThenWrite : List ConnAct :=
  [.sock (.write 1 0 .again .again), .sock .ret, .connected false, .sock (.ioWrite (.wrote 1)),
    .sock .next, .sock .ret, .sock .next, .sock (.drain true), .sock .enter,
    .sock (.write 3 0 (.wrote 1) .again), .sock (.fill [9, 9, 9]),
    .sock (.write 1 2 .again .again), .sock .ret, .sock .ret, .sock (.ioWrite (.wrote 1)),
    .sock .next, .sock (.drain true)]

theorem output_eq_accepted_overwriteThenWrite :
    ∃ c, run Conn.step (Conn.obtained (.connect true) [1, 2, 3] { onWrite := true } [] false)
        overwriteThenWrite = some c ∧
      c.sock.handle.sent ++ c.sock.handle.writeQueue.flatMap WriteReq.left =
        accepted c.sock.calls ∧
      accepted c.sock.calls = [1, 1, 2, 3, 9] :=
  ⟨_, rfl, output_eq_accepted (.connect true) [1, 2, 3] { onWrite := true } [] false
    overwriteThenWrite _ (by decide) rfl, by decide⟩

/-! ### What cancels queued bytes -/

/-- A handle is closed with an empty queue, and `onDrain` runs with one if a close is waiting. -/
structure Emptied (s : Sock) : Prop where
  closing : s.handle.closing = true → s.handle.writeQueueSize = 0
  onDrain : ∀ r pq d, s.phase = .onDrain r pq d → s.ctx.closing = true →
    s.handle.writeQueueSize = 0
  noError : s.phase ≠ .onReadError

/-- JavaScript does not close without shutdown, and reading does not fail. -/
def Act.Calm (a : Act) : Prop := a ≠ .close false ∧ a ≠ .readError

theorem released_size_le (s : Sock) (r : WriteReq) :
    (s.released r).handle.writeQueueSize ≤ s.handle.writeQueueSize := by
  unfold Sock.released Stream.release
  split
  · exact Nat.sub_le _ _
  · exact Nat.le_refl _

/-- On a closing handle the queue does not grow. -/
theorem size_le_of_closing {s s' : Sock} {a : Act} (hc : s.handle.closing = true)
    (h : step s a = some s') : s'.handle.writeQueueSize ≤ s.handle.writeQueueSize := by
  cases step_writeStep h with
  | js same | quiet same => exact same.size.le
  | write call => rw [write_of_closing call hc]
  | attempt _ call =>
    rw [(write1_cases call).1] at hc
    contradiction
  | destroy => exact Nat.le_refl _
  | @report r pq d =>
    rw [afterWrite_eq]
    split
    · exact released_size_le s r
    · exact (afterWriteStatus_frame (s.released r) r pq d).1.size.le.trans (released_size_le s r)
  | @status r pq d => exact (afterWriteStatus_frame s r pq d).1.size.le
  | failed => exact Nat.le_refl _
  | @drained r pq d => exact (afterWriteDrained_sameWriting s r pq d).size.le

theorem afterWriteStatus_size (s : Sock) (r : WriteReq) (pq : List WriteReq) (d : Bool)
    (h : s.endsClosing r = true) : (s.afterWriteStatus r pq d).handle.writeQueueSize = 0 := by
  rw [(afterWriteStatus_frame s r pq d).1.size]
  simp only [Sock.endsClosing, Bool.and_eq_true, decide_eq_true_eq] at h
  exact h.1.1.2

/-- `uv_close` is reached with an empty queue. -/
theorem size_of_callsUvClose {s s' : Sock} {a : Act} (hs : Emptied s) (ha : a.Calm)
    (h : step s a = some s') (hcall : callsUvClose s a = true) : s'.handle.writeQueueSize = 0 := by
  have hstep := h
  unfold step at h
  split at h
  · contradiction
  · cases a with
    | close doShutdown =>
      cases doShutdown with
      | false => exact absurd rfl ha.1
      | true => contradiction
    | readError => exact absurd rfl ha.2
    | drain ok =>
      simp only [callsUvClose, Bool.and_eq_true, decide_eq_true_eq] at hcall
      cases step_writeStep hstep with
      | js same | quiet same => exact same.size.trans hcall.2
    | next =>
      simp only [callsUvClose] at hcall
      split at hcall
      · rename_i hphase
        obtain ⟨-, h⟩ := Option.ite_none_right_eq_some.mp h
        rw [Sock.next, hphase] at h
        cases h
        rw [Bool.and_eq_true, Bool.not_eq_true'] at hcall
        rw [afterWrite_eq, if_neg (by simp [hcall.1])]
        -- with status 0 `after_write` only closes a queue of size 0
        exact afterWriteStatus_size _ _ _ _ hcall.2
      · rename_i hphase
        cases step_writeStep hstep with
        | js same | quiet same =>
          simp only [Bool.and_eq_true, decide_eq_true_eq] at hcall
          exact same.size.trans hcall.2
        | report _ hp =>
          rw [hphase] at hp
          contradiction
      · contradiction
    | ret =>
      simp only [callsUvClose, Bool.and_eq_true, decide_eq_true_eq] at hcall
      obtain ⟨hdepth, hcall⟩ := hcall
      have h : s.ret = some s' := h
      rw [Sock.ret, if_neg (by rw [hdepth]; exact Nat.lt_irrefl 0)] at h
      split at hcall
      · rename_i hphase
        rw [hphase] at h
        cases h
        exact afterWriteStatus_size _ _ _ _ hcall
      · rename_i hphase
        rw [hphase] at h
        cases h
        rw [(afterWriteDrained_sameWriting s _ _ _).size]
        -- behind `onDrain` the queue may have grown, and then nothing is closed
        exact hs.onDrain _ _ _ hphase hcall
      · rename_i hphase
        exact absurd hphase hs.noError
      · contradiction
    | _ => contradiction

theorem step_emptied {s s' : Sock} {a : Act} (hs : Emptied s) (ha : a.Calm)
    (h : step s a = some s') : Emptied s' := by
  refine ⟨?_, ?_, ?_⟩
  · intro hc
    cases hcall : callsUvClose s a with
    | true => exact size_of_callsUvClose hs ha h hcall
    | false =>
      rw [(step_closeEffect h).closing, hcall, Bool.false_or] at hc
      -- the handle was closing before, with an empty queue
      have hle := size_le_of_closing hc h
      rw [hs.closing hc] at hle
      exact Nat.le_zero.mp hle
  · -- only a request that leaves the queue empty gets to `onDrain`
    intro r pq d hphase hc
    cases step_writeStep h with
    | js same hp hclosing =>
      rw [same.size]
      obtain rfl | hkeep := hclosing
      · exact absurd rfl ha.1
      · exact hs.onDrain r pq d (hp ▸ hphase) (hkeep ▸ hc)
    | quiet _ _ hidle =>
      rw [hphase] at hidle
      exact absurd hidle.2.symm Bool.false_ne_true
    | write call =>
      have hlife := write_sameLife call
      rw [hlife.closing] at hc
      obtain ⟨bytes, -, ⟨-, rfl⟩ | ⟨handle, r, hopen, -, -⟩⟩ := write_cases call
      · exact hs.onDrain r pq d (hlife.phase ▸ hphase) hc
      · rw [hc] at hopen
        contradiction
    | @report r' pq' d' =>
      rw [afterWrite_eq] at hphase ⊢
      split at hphase
      · contradiction
      · rename_i hcb
        rw [if_neg hcb, (afterWriteStatus_frame _ _ _ _).1.size]
        exact size_of_afterWriteStatus hphase
    | status =>
      rw [(afterWriteStatus_frame _ _ _ _).1.size]
      exact size_of_afterWriteStatus hphase
    | drained =>
      rw [afterWriteDrained_phase] at hphase
      contradiction
    | attempt | destroy | failed => contradiction
  · -- only a read error gets to `onError` of `after_read`
    intro hphase
    cases step_writeStep h with
    | js _ hp => exact hs.noError (hp ▸ hphase)
    | quiet _ _ _ _ hreading => exact ha.2 (hreading hphase)
    | write call => exact hs.noError ((write_sameLife call).phase ▸ hphase)
    | @report r pq d =>
      rw [afterWrite_eq] at hphase
      split at hphase
      · contradiction
      · obtain h | h | ⟨h, -⟩ := afterWriteStatus_phase hphase <;> contradiction
    | status =>
      obtain h | h | ⟨h, -⟩ := afterWriteStatus_phase hphase <;> contradiction
    | @drained r pq d =>
      rw [afterWriteDrained_phase] at hphase
      contradiction
    | attempt | destroy | failed => contradiction

theorem left_eq_nil_of_unwritten {rs : List WriteReq} (h : unwritten rs = 0) :
    rs.flatMap WriteReq.left = [] := by
  induction rs with
  | nil => rfl
  | cons r rs ih =>
    rw [unwritten_cons] at h
    have hr : r.left = [] := List.eq_nil_of_length_eq_zero (by omega)
    rw [List.flatMap_cons, hr, ih (by omega), List.append_nil]

/-- A handle is only closed with nothing left to write. -/
theorem queue_empty_of_closing {s : Sock} (hs : Emptied s) (hacc : s.handle.Accounted s.phase.pq)
    (hc : s.handle.closing = true) : s.handle.writeQueue.flatMap WriteReq.left = [] := by
  have hsize := hacc.size
  rw [hs.closing hc] at hsize
  exact left_eq_nil_of_unwritten (by omega)

/-- A step of a connection leaves the queue of a closed handle empty. -/
theorem ConnStep.emptied {c : Conn} {a : ConnAct} {s' : Sock} (h : ConnStep c a s')
    (hs : Emptied c.sock) (ha : ∀ b, a = .sock b → b.Calm) : Emptied s' := by
  cases h with
  | sock step => exact step_emptied hs (ha _ rfl) step
  | wait _ call =>
    obtain ⟨bytes, -, ⟨-, heq⟩ | ⟨-, -, _, -, heq⟩ | ⟨hopen, hno, heq⟩⟩ :=
      writeConnecting_cases call
    all_goals rw [heq]
    · exact ⟨hs.closing, hs.onDrain, hs.noError⟩
    · exact ⟨hs.closing, hs.onDrain, hs.noError⟩
    · -- the queue grows on an open handle
      exact ⟨fun hc => absurd (Or.inl hc) hno,
        fun _ _ _ _ hc => absurd (hopen.symm.trans hc) Bool.false_ne_true, hs.noError⟩
  | aside same | within same =>
    have hsize : s'.handle.writeQueueSize = c.sock.handle.writeQueueSize := same.sameWriting.size
    obtain ⟨hclosing, hhandle⟩ := same.closing
    refine ⟨fun hc => ?_, fun r pq d hphase hc => ?_, fun hphase => ?_⟩
    · rw [hsize]
      exact hs.closing (hhandle ▸ hc)
    · obtain hsame | ⟨-, hsame | hsame⟩ := same.phase
      · rw [hsize]
        exact hs.onDrain r pq d (hsame ▸ hphase) (hclosing ▸ hc)
      all_goals
        rw [hsame] at hphase
        contradiction
    · obtain hsame | ⟨-, hsame | hsame⟩ := same.phase
      · exact hs.noError (hsame ▸ hphase)
      all_goals
        rw [hsame] at hphase
        contradiction
  | cancel => exact ⟨hs.closing, fun _ _ _ h => Phase.noConfusion h, Phase.noConfusion⟩
  | init =>
    exact ⟨fun hc => absurd hc Bool.false_ne_true, fun _ _ _ h => Phase.noConfusion h,
      Phase.noConfusion⟩

/-- A handle that is destroyed is closing, or there is none yet. -/
theorem left_eq_nil_of_destroy {c : Conn} {s' : Sock} (h : ConnStep c (.sock .destroy) s')
    (hs : Emptied c.sock) (hacc : c.sock.handle.Accounted c.sock.phase.pq) :
    c.sock.handle.writeQueue.flatMap WriteReq.left = [] := by
  cases h with
  | sock step =>
    obtain ⟨-, step⟩ := Option.ite_none_left_eq_some.mp step
    exact queue_empty_of_closing hs hacc (Option.ite_none_right_eq_some.mp step).1.2.2.1
  | aside _ outer => exact absurd rfl (outer .destroy)
  | within _ _ place =>
    obtain h | h | ⟨-, fresh⟩ := place
    · contradiction
    · contradiction
    · rw [fresh.handle]
      rfl
  | cancel _ action => obtain h | ⟨h, -⟩ := action <;> contradiction

/-- JavaScript does not close without shutdown, and no system call fails. -/
def ConnAct.Calm : ConnAct → Prop
  | .sock a => a.Calm ∧ a.isFailure = false
  | .connected failed => failed = false
  | _ => True

/-- What a run of such steps keeps. -/
structure Conn.Calm (c : Conn) : Prop extends Conn.Placed c where
  failed : c.stage.hasFailed = false
  emptied : Emptied c.sock
  accounted : c.sock.handle.Accounted c.sock.phase.pq

theorem calm_obtained (way : Way) (out : List UInt8) (callbacks : Callbacks)
    (plugins : List Plugins.Kind) (onConnect : Bool) :
    (Conn.obtained way out callbacks plugins onConnect).Calm where
  toPlaced := placed_obtained way out callbacks plugins onConnect
  failed := by cases way <;> rfl
  emptied := by
    cases way
    all_goals exact ⟨fun _ => rfl, fun _ _ _ h => Phase.noConfusion h, Phase.noConfusion⟩
  accounted := by cases way <;> exact ⟨rfl, fun _ hr => absurd hr List.not_mem_nil⟩

/-- Runs without a `Close(0)`, a read error or a failing system call never fail. -/
theorem along_not_fails (way : Way) (out : List UInt8) (callbacks : Callbacks)
    (plugins : List Plugins.Kind) (onConnect : Bool) (as : List ConnAct) (c : Conn)
    (hrun : run Conn.step (Conn.obtained way out callbacks plugins onConnect) as = some c)
    (has : ∀ a ∈ as, a.Calm) :
    Along Conn.step (fun c a => ¬ c.Fails a)
      (Conn.obtained way out callbacks plugins onConnect) as := by
  refine Along.of_forall (I := Conn.Calm) ?_ ?_
    (calm_obtained way out callbacks plugins onConnect) hrun has
  · intro c a c' hc ha h
    have hcases := conn_step_cases hc.toPlaced h
    refine ⟨conn_step_placed hc.toPlaced h, conn_step_hasFailed hc.failed ?_ h,
      hcases.emptied hc.emptied ?_, hcases.accounted hc.accounted⟩
    · rintro rfl
      exact Bool.false_ne_true ha.symm
    · rintro b rfl
      exact ha.1
  · intro c a c' hc ha h hfail
    cases a with
    | sock a =>
      obtain hfail | ⟨rfl, hne⟩ := hfail
      · exact Bool.false_ne_true (ha.2.symm.trans hfail)
      · exact hne (left_eq_nil_of_destroy (conn_step_cases hc.toPlaced h) hc.emptied hc.accounted)
    | connected failed => exact Bool.false_ne_true (Eq.trans (Eq.symm ha) hfail)
    | onConnect | attach | handOn => exact hfail

end Dv8.Socket
