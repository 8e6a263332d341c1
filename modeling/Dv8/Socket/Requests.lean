import Dv8.Socket.Accounting

namespace Dv8.Socket

open Dv8.Lib Dv8.Uv

/-!
# Every write request is released

`Socket::Write` counts a request when it allocates it, `after_write` when it frees it.  In between
it belongs to libuv, or to the `after_write` that is running for it (`Phase.held`).  A request that
`uv_write` refuses belongs to nobody.

* `step_balance`, `ConnStep.balance` — a step keeps the account, but for a request that is refused;
* `step_closeCallback` — `on_close` runs when all requests have been reported;
* `released_iff` — all along a run of a connection the counts are right exactly when no request is
  refused up to the last state between callbacks.
-/

/-- The request `after_write` has been called for and has not freed. -/
def Phase.held : Phase → Nat
  | .onWrite .. | .onDrain .. => 1
  | _ => 0

/-- The requests that have been freed, or are about to be. -/
def Sock.freed (s : Sock) : Nat := s.ctx.stats.free + s.phase.held

/-- Behind `uv_try_write` the call has to wait, but the handle takes no request any more. -/
def Refused (s : Sock) : Act → Prop
  | .write .. => s.ctx.closing = false ∧ s.handle.writeQueueSize ≠ 0 ∧
      (s.handle.closing = true ∨ s.handle.writable = false)
  | _ => False

instance (s : Sock) : ∀ a, Decidable (Refused s a)
  | .write .. => inferInstanceAs (Decidable (_ ∧ _ ∧ (_ ∨ _)))
  | .enter | .ret | .close _ | .pause | .resume | .fill _ | .on _ | .ioWrite _ | .next | .drain _
  | .readData _ | .readEof | .readError | .destroy => isFalse id

/-- The same on a connection: while the attempt goes on every call has to wait. -/
def Conn.Refused (c : Conn) : ConnAct → Prop
  | .sock (.write ..) => c.sock.ctx.closing = false ∧
      (c.stage = .connecting ∨ c.sock.handle.writeQueueSize ≠ 0) ∧
      (c.sock.handle.closing = true ∨ c.sock.handle.writable = false)
  | _ => False

instance (c : Conn) : ∀ a, Decidable (c.Refused a)
  | .sock (.write ..) => inferInstanceAs (Decidable (_ ∧ (_ ∨ _) ∧ (_ ∨ _)))
  | .sock .enter | .sock .ret | .sock (.close _) | .sock .pause | .sock .resume | .sock (.fill _)
  | .sock (.on _) | .sock (.ioWrite _) | .sock .next | .sock (.drain _) | .sock (.readData _)
  | .sock .readEof | .sock .readError | .sock .destroy
  | .onConnect | .connected _ | .attach _ | .handOn => isFalse id

/-- The requests allocated and not freed are those libuv owns; none is left for `on_close`. -/
structure Released (s : Sock) : Prop where
  between : s.Between → s.ctx.stats.alloc = s.ctx.stats.free + s.outstanding.length
  onClose : s.phase = .closeCallback → s.ctx.stats.alloc = s.ctx.stats.free

theorem Phase.Idle.held {p : Phase} (h : p.Idle) : p.held = 0 := by
  obtain ⟨-, hp⟩ := h
  cases p <;> first | rfl | contradiction

theorem Sock.Between.held {s : Sock} (h : s.Between) : s.phase.held = 0 := by
  obtain ⟨-, h⟩ := h
  split at h <;> first | contradiction | simp [Phase.held, *]

/-! ### What is freed -/

section Freed

variable (s : Sock) (r : WriteReq) (pq : List WriteReq) (d : Bool)

/-- The end of `after_write` frees the request. -/
theorem afterWriteClose_freed : (s.afterWriteClose r pq d).freed = s.ctx.stats.free + 1 := by
  rw [Sock.freed, afterWriteClose_phase]
  unfold Sock.afterWriteClose
  split
  · show s.uvClose.ctx.stats.free + 1 + 0 = _
    have hfree : s.uvClose.ctx.stats.free = s.ctx.stats.free := congrArg Prod.snd (uvClose_ledger s)
    rw [hfree]
  · rfl

/-- `after_write` behind `onWrite` frees the request, or leaves it to be freed behind `onDrain`. -/
theorem afterWriteStatus_freed : (s.afterWriteStatus r pq d).freed = s.ctx.stats.free + 1 := by
  unfold Sock.afterWriteStatus
  simp only
  split_ifs
  all_goals first | rfl | exact afterWriteClose_freed _ r pq d

end Freed

/-- A step between phases in which nothing is being reported. -/
theorem freed_of_calm {s s' : Sock} (hl : s'.ledger = s.ledger)
    (hs : s.phase.Idle) (hs' : s'.phase.Idle) : s'.freed = s.freed := by
  have hfree : s'.ctx.stats.free = s.ctx.stats.free := congrArg Prod.snd hl
  rw [Sock.freed, Sock.freed, hfree, hs.held, hs'.held]

theorem freed_of_phase {s s' : Sock} (hf : s'.ctx.stats.free = s.ctx.stats.free)
    (hphase : s'.phase = s.phase) : s'.freed = s.freed := by
  rw [Sock.freed, Sock.freed, hf, hphase]

private theorem ret_freed {s s' : Sock} (h : s.ret = some s') : s'.freed = s.freed := by
  cases ret_cases h with
  | inner => rfl
  | outside _ hphase | onRead _ hphase | pluginClose _ hphase =>
    exact freed_of_calm rfl (hphase ▸ ⟨rfl, rfl⟩) ⟨rfl, rfl⟩
  | onWrite _ hphase =>
    rw [afterWriteStatus_freed, Sock.freed, hphase]
    rfl
  | onWriteError _ hphase =>
    -- a failed request was freed in front of `onError`
    rw [Sock.freed, Sock.freed, hphase]
    rfl
  | onDrain _ hphase =>
    rw [Sock.afterWriteDrained, afterWriteClose_freed, Sock.freed, hphase]
    rfl
  | plugin _ hphase =>
    exact freed_of_calm (afterPlugin_ledger s) (hphase ▸ ⟨rfl, rfl⟩)
      (Phase.idle_of_calm (afterPlugin_calm s))
  | onEnd _ hphase =>
    exact freed_of_calm (ended_ledger s) (hphase ▸ ⟨rfl, rfl⟩) (Phase.idle_of_calm (ended_calm s))
  | onReadError _ hphase =>
    exact freed_of_calm (readFailed_ledger s) (hphase ▸ ⟨rfl, rfl⟩)
      (Phase.idle_of_calm (readFailed_calm s))
  | onClose _ hphase =>
    exact freed_of_calm (closed_ledger s) (hphase ▸ ⟨rfl, rfl⟩)
      (Phase.idle_of_calm (closed_calm s))

/-- A shutdown is over; `after_shutdown` may close the handle. -/
theorem afterShutdown_freed {s t : Sock} (hl : t.ledger = s.ledger)
    (hs : s.phase.Idle) (ht : t.phase.Idle) : t.afterShutdown.freed = s.freed := by
  apply freed_of_calm ((afterShutdown_ledger t).trans hl) hs
  rw [afterShutdown_phase]
  exact ht

private theorem next_freed {s s' : Sock} (h : s.next = some s') :
    s'.freed = s.freed + (s.begun .next).length := by
  unfold Sock.begun
  cases next_cases h with
  | @report r pq d hphase =>
    -- the request is in the hands of `after_write`
    rw [hphase, Sock.freed.eq_def s, hphase]
    show _ = s.ctx.stats.free + 0 + 1
    rw [afterWrite_eq]
    split
    · rfl
    · exact afterWriteStatus_freed (s.released r) r pq d
  | reported hphase | flushed hphase | notShutting hphase =>
    rw [hphase]
    exact freed_of_calm rfl (hphase ▸ ⟨rfl, rfl⟩) ⟨rfl, rfl⟩
  | cancelled hphase =>
    rw [hphase]
    exact afterShutdown_freed rfl (hphase ▸ ⟨rfl, rfl⟩) ⟨rfl, rfl⟩
  | closeCallback hphase =>
    rw [hphase]
    exact freed_of_calm (onClose_ledger s) (hphase ▸ ⟨rfl, rfl⟩)
      (Phase.idle_of_calm (onClose_calm s))

private theorem drain_freed {s s' : Sock} {ok : Bool} (h : s.drain ok = some s') :
    s'.freed = s.freed := by
  cases drain_cases h with
  | shutdown hphase => exact afterShutdown_freed rfl (hphase ▸ ⟨rfl, rfl⟩) ⟨rfl, rfl⟩
  | nothing hphase => exact freed_of_calm rfl (hphase ▸ ⟨rfl, rfl⟩) ⟨rfl, rfl⟩

theorem write_free {s s' : Sock} {len off : Nat} {tried queued : Answer}
    (h : s.write len off tried queued = some s') : s'.ctx.stats.free = s.ctx.stats.free := by
  obtain ⟨bytes, -, ⟨-, rfl⟩ | ⟨handle, r, -, -, hcase⟩⟩ := write_cases h
  · rfl
  · obtain ⟨-, hq⟩ | ⟨-, -, -, rfl⟩ | ⟨-, -, hq⟩ | ⟨-, -, rfl⟩ := hcase
    · obtain ⟨_, -, rfl⟩ := Option.map_eq_some_iff.mp hq
      rfl
    · rfl
    · obtain ⟨_, -, rfl⟩ := Option.map_eq_some_iff.mp hq
      rfl
    · rfl

/-- **A step frees what it hands to `after_write`.** -/
theorem step_freed {s s' : Sock} {a : Act} (h : step s a = some s') :
    s'.freed = s.freed + (s.begun a).length := by
  have hloop : s.phase = .loop → s.phase.Idle := fun hp => hp ▸ ⟨rfl, rfl⟩
  unfold step at h
  split at h
  · contradiction
  · cases a with
    | ret => exact ret_freed h
    | next =>
      obtain ⟨-, h⟩ := Option.ite_none_right_eq_some.mp h
      exact next_freed h
    | drain ok =>
      obtain ⟨-, h⟩ := Option.ite_none_right_eq_some.mp h
      exact drain_freed h
    | write len off tried queued =>
      obtain ⟨-, h⟩ := Option.ite_none_right_eq_some.mp h
      exact freed_of_phase (write_free h) (write_sameLife h).phase
    | ioWrite a =>
      obtain ⟨hc, h⟩ := Option.ite_none_right_eq_some.mp h
      obtain ⟨handle, -, h⟩ := Option.map_eq_some_iff.mp h
      cases h
      rw [Sock.freed, Sock.freed, hc.1]
      rfl
    | destroy =>
      obtain ⟨hc, h⟩ := Option.ite_none_right_eq_some.mp h
      cases h
      rw [Sock.freed, Sock.freed, hc.1]
      rfl
    | enter =>
      obtain ⟨hc, h⟩ := Option.ite_none_right_eq_some.mp h
      cases h
      exact freed_of_calm rfl (hloop hc.1) ⟨rfl, rfl⟩
    | close doShutdown =>
      obtain ⟨-, h⟩ := Option.ite_none_right_eq_some.mp h
      cases h
      exact freed_of_phase (congrArg Prod.snd (close_ledger s doShutdown))
        (close_phase s doShutdown)
    | resume =>
      obtain ⟨-, h⟩ := Option.ite_none_right_eq_some.mp h
      cases h
      exact freed_of_phase (congrArg Prod.snd (resume_ledger s)) (resume_phase s)
    | pause | fill | on =>
      obtain ⟨-, h⟩ := Option.ite_none_right_eq_some.mp h
      cases h
      rfl
    | readData nread =>
      obtain ⟨hc, h⟩ := Option.ite_none_right_eq_some.mp h
      cases h
      exact freed_of_calm (afterReadData_ledger s nread) (hloop hc.1)
        (Phase.idle_of_calm (afterReadData_calm s nread))
    | readEof =>
      obtain ⟨hc, h⟩ := Option.ite_none_right_eq_some.mp h
      cases h
      split
      · exact freed_of_calm rfl (hloop hc.1) ⟨rfl, rfl⟩
      · exact freed_of_calm (ended_ledger s) (hloop hc.1) (Phase.idle_of_calm (ended_calm s))
    | readError =>
      obtain ⟨hc, h⟩ := Option.ite_none_right_eq_some.mp h
      cases h
      split
      · exact freed_of_calm rfl (hloop hc.1) ⟨rfl, rfl⟩
      · exact freed_of_calm (readFailed_ledger s) (hloop hc.1)
          (Phase.idle_of_calm (readFailed_calm s))

/-! ### The account -/

theorem length_bufs (s : Sock) : s.bufs.length = s.outstanding.length := by
  rw [← map_buf_outstanding, List.length_map]

/-- A request is refused only behind an attempt that had to wait. -/
theorem uvWrite_length {h h' : Stream} {bytes : List UInt8} {a : Answer} {status : Int}
    (hw : h.uvWrite bytes a = some (h', status)) :
    (Socket.bufs h').length = (Socket.bufs h).length +
      if h.closing = true ∨ h.writable = false then 0 else 1 := by
  rw [uvWrite_bufs hw, List.length_append]
  congr 1
  obtain ⟨-, hgone, hneg⟩ | ⟨rfl, hopen, -⟩ := uvWrite_cases hw
  · rw [if_neg (by omega), if_pos hgone]
    rfl
  · have hwritable : h.writable ≠ false := by
      intro hw'
      rw [Stream.uvWrite, if_neg (by rw [hopen]; exact Bool.false_ne_true), hw',
        if_pos (by decide)] at hw
      have hstatus : EPIPE = 0 := congrArg Prod.snd (Option.some.inj hw)
      exact absurd hstatus (by decide)
    have hno : ¬ (h.closing = true ∨ h.writable = false) := by
      rintro (hc | hc)
      · exact Bool.false_ne_true (hopen.symm.trans hc)
      · exact hwritable hc
    rw [if_pos (le_refl _), if_neg hno]
    rfl

/-- An attempt that finds nothing queued is refused, or made on an open handle. -/
theorem tryWrite_waits {h h' : Stream} {bytes : List UInt8} {a : Answer} {r : Int}
    (hw : h.tryWrite bytes a = some (h', r)) (hr : r = EAGAIN ∨ r = ENOSYS) :
    (h'.closing = true ∨ h'.writable = false) ↔
      h.writeQueueSize ≠ 0 ∧ (h.closing = true ∨ h.writable = false) := by
  have hflags := tryWrite_sameFlags hw
  rw [hflags.closing, hflags.writable]
  obtain ⟨-, hsize, -⟩ | ⟨-, -, hagain, hnosys⟩ | ⟨hopen, hwritable, -⟩ := tryWrite_cases hw
  · exact (and_iff_right hsize).symm
  · exact absurd hr (not_or.mpr ⟨hagain, hnosys⟩)
  · have hno : ¬ (h.closing = true ∨ h.writable = false) := by
      rw [hopen, hwritable]
      decide
    exact iff_of_false hno fun hgone => hno hgone.2

/-- **One call** allocates a request for every one it hands to libuv, and one more if that is
    refused. -/
theorem write_balance {s s' : Sock} {len off : Nat} {tried queued : Answer}
    (h : s.write len off tried queued = some s') :
    s'.ctx.stats.alloc + s.bufs.length = s.ctx.stats.alloc + s'.bufs.length +
      if Refused s (.write len off tried queued) then 1 else 0 := by
  have hphase := (write_sameLife h).phase
  rw [Sock.bufs, Sock.bufs, hphase, List.length_append, List.length_append]
  obtain ⟨bytes, -, ⟨hclosing, rfl⟩ | ⟨handle, r, hopen, htry, hcase⟩⟩ := write_cases h
  · rw [if_neg fun href => Bool.false_ne_true (href.1.symm.trans hclosing)]
    rfl
  · have hbufs := tryWrite_bufs htry
    have hnone (hr : r ≠ EAGAIN) : ¬ Refused s (.write len off tried queued) := by
      rintro ⟨-, hsize, -⟩
      rw [Stream.tryWrite.eq_def, if_pos hsize] at htry
      exact hr (congrArg Prod.snd (Option.some.inj htry)).symm
    obtain ⟨hr, hq⟩ | ⟨-, hagain, -, rfl⟩ | ⟨hnonneg, -, hq⟩ | ⟨hnonneg, -, rfl⟩ := hcase
    · obtain ⟨⟨handle', status⟩, hw, rfl⟩ := Option.map_eq_some_iff.mp hq
      have hlength := uvWrite_length hw
      have hiff : Refused s (.write len off tried queued) ↔
          (handle.closing = true ∨ handle.writable = false) :=
        (and_iff_right hopen).trans (tryWrite_waits htry hr).symm
      rw [hbufs] at hlength
      show s.ctx.stats.alloc + 1 + _ = s.ctx.stats.alloc + (_ + (Socket.bufs handle').length) + _
      rw [hlength]
      by_cases hgone : handle.closing = true ∨ handle.writable = false
      · rw [if_pos hgone, if_pos (hiff.mpr hgone)]
        omega
      · rw [if_neg hgone, if_neg (mt hiff.mp hgone)]
        omega
    · rw [if_neg (hnone hagain)]
      show _ = s.ctx.stats.alloc + (_ + (Socket.bufs handle).length) + 0
      rw [hbufs]
      rfl
    · -- behind a partial attempt the handle is open
      obtain ⟨⟨handle', status⟩, hw, rfl⟩ := Option.map_eq_some_iff.mp hq
      obtain ⟨hopen', hwritable⟩ := tryWrite_open htry hnonneg
      have hlength := uvWrite_length hw
      rw [hbufs, hopen', hwritable, if_neg (by decide)] at hlength
      have hr : r ≠ EAGAIN := by
        have : EAGAIN < 0 := by decide
        omega
      rw [if_neg (hnone hr)]
      show s.ctx.stats.alloc + 1 + _ = s.ctx.stats.alloc + (_ + (Socket.bufs handle').length) + 0
      rw [hlength]
      omega
    · have hr : r ≠ EAGAIN := by
        have : EAGAIN < 0 := by decide
        omega
      rw [if_neg (hnone hr)]
      show _ = s.ctx.stats.alloc + (_ + (Socket.bufs handle).length) + 0
      rw [hbufs]
      rfl

/-- The requests that are freed, about to be, or outstanding. -/
def Sock.settled (s : Sock) : Nat := s.freed + s.outstanding.length

/-- **Step lemma.** A step keeps the account, but for a request that is refused. -/
theorem step_balance {s s' : Sock} {a : Act} (h : step s a = some s') :
    s'.ctx.stats.alloc + s.settled = s.ctx.stats.alloc + s'.settled +
      if Refused s a then 1 else 0 := by
  have hfreed := step_freed h
  rw [Sock.settled, Sock.settled, ← length_bufs, ← length_bufs, hfreed]
  cases a with
  | write len off tried queued =>
    obtain ⟨-, hcall⟩ := Option.ite_none_left_eq_some.mp h
    obtain ⟨-, hcall⟩ := Option.ite_none_right_eq_some.mp hcall
    have hbalance := write_balance hcall
    show _ = s.ctx.stats.alloc + (s.freed + 0 + s'.bufs.length) + _
    omega
  | _ =>
    have hmoves := step_moves h (by simp)
    have hlength := congrArg List.length hmoves.bufs
    rw [List.length_append, List.length_map] at hlength
    have halloc : s'.ctx.stats.alloc = s.ctx.stats.alloc := congrArg Prod.fst hmoves.counters
    rw [halloc, hlength]
    split
    · rename_i href
      exact href.elim
    · omega

/-- Behind the attempt a call is refused for what is queued. -/
theorem refused_of_late {c : Conn} {a : Act} (late : a.isWrite = true → c.stage.early = false) :
    c.Refused (.sock a) ↔ Refused c.sock a := by
  cases a with
  | write len off tried queued =>
    have hstage : c.stage ≠ .connecting := by
      intro hstage
      have hlate := late rfl
      rw [hstage] at hlate
      contradiction
    simp [Conn.Refused, Refused, hstage]
  | _ => exact Iff.rfl

/-- A step that hands nothing over and frees nothing. -/
theorem Moves.settled {s s' : Sock} (h : Moves s s' []) (hfreed : s'.freed = s.freed) :
    s'.ctx.stats.alloc = s.ctx.stats.alloc ∧ s'.settled = s.settled := by
  refine ⟨congrArg Prod.fst h.counters, ?_⟩
  rw [Sock.settled, Sock.settled, ← length_bufs, ← length_bufs, hfreed, h.bufs]
  rfl

theorem Aside.freed {s s' : Sock} (h : Aside s s') : s'.freed = s.freed := by
  have hkept := h.kept
  simp only [Sock.kept, Prod.mk.injEq] at hkept
  obtain ⟨-, -, hstats, -, -, -⟩ := hkept
  have hfree := congrArg Stats.free hstats
  have hheld : s'.phase.held = s.phase.held := by
    obtain hsame | ⟨hcalm, hsame | hsame⟩ := h.phase
    · rw [hsame]
    all_goals
      rw [hsame, (Phase.idle_of_calm hcalm).held]
      rfl
  rw [Sock.freed, Sock.freed, hheld]
  exact congrArg (· + s.phase.held) hfree

/-- A call that waits allocates a request. -/
theorem writeConnecting_balance {c : Conn} {len off : Nat} {tried queued : Answer} {s' : Sock}
    (hstage : c.stage = .connecting) (h : c.sock.writeConnecting len off = some s') :
    s'.ctx.stats.alloc + c.sock.settled = c.sock.ctx.stats.alloc + s'.settled +
      if c.Refused (.sock (.write len off tried queued)) then 1 else 0 := by
  obtain ⟨bytes, -, ⟨hclosing, heq⟩ | ⟨hopen, hno, _, -, heq⟩ | ⟨-, hyes, heq⟩⟩ :=
    writeConnecting_cases h
  all_goals rw [heq]
  · rw [if_neg fun href => Bool.false_ne_true (href.1.symm.trans hclosing)]
    rfl
  · rw [if_pos ⟨hopen, Or.inl hstage, hno⟩]
    show c.sock.ctx.stats.alloc + 1 + c.sock.settled = c.sock.ctx.stats.alloc + c.sock.settled + 1
    omega
  · rw [if_neg fun href => hyes href.2.2]
    have hone : (c.sock.requested (c.sock.handle.enqueue bytes) ⟨bytes, 0⟩).settled =
        c.sock.settled + 1 := by
      simp [Sock.settled, Sock.freed, Sock.outstanding, Sock.requested, Stream.enqueue]
      omega
    rw [hone]
    show c.sock.ctx.stats.alloc + 1 + c.sock.settled = c.sock.ctx.stats.alloc + (c.sock.settled + 1)
    omega

/-- **Step lemma**, for a connection. -/
theorem ConnStep.balance {c : Conn} {a : ConnAct} {s' : Sock} (h : ConnStep c a s') :
    s'.ctx.stats.alloc + c.sock.settled = c.sock.ctx.stats.alloc + s'.settled +
      if c.Refused a then 1 else 0 := by
  have hkeeps (hmoves : Moves c.sock s' []) (hfreed : s'.freed = c.sock.freed)
      (hno : ¬ c.Refused a) :
      s'.ctx.stats.alloc + c.sock.settled = c.sock.ctx.stats.alloc + s'.settled +
        if c.Refused a then 1 else 0 := by
    obtain ⟨halloc, hsettled⟩ := hmoves.settled hfreed
    rw [if_neg hno, halloc, hsettled]
    rfl
  cases h with
  | sock step late =>
    simp only [refused_of_late late]
    exact step_balance step
  | wait hstage call => exact writeConnecting_balance hstage call
  | aside same outer =>
    refine hkeeps same.moves same.freed ?_
    cases a with
    | sock b => exact absurd rfl (outer b)
    | _ => exact id
  | within same _ place =>
    refine hkeeps same.moves same.freed fun href => ?_
    obtain rfl | rfl | ⟨-, fresh⟩ := place
    · exact href
    · exact href
    · -- nothing is closed before there is a handle
      unfold Conn.Refused at href
      split at href
      · obtain ⟨-, -, hc | hw⟩ := href
        · rw [fresh.handle] at hc
          contradiction
        · rw [fresh.handle] at hw
          contradiction
      · exact href
  | cancel reading action calm =>
    refine hkeeps (cancel_moves reading calm) ?_ ?_
    · rw [Sock.freed.eq_def c.sock, (Phase.idle_of_calm calm).held]
      rfl
    · obtain rfl | ⟨rfl, -⟩ := action <;> exact id
  | init fresh =>
    have hfree := congrArg Stats.free fresh.stats
    refine hkeeps (init_moves fresh) ?_ id
    rw [Sock.freed, Sock.freed, fresh.phase]
    exact congrArg (· + 0) hfree.symm

/-! ### `on_close` -/

section CloseCallback

variable (s : Sock)

theorem closed_ne : s.closed.phase ≠ .closeCallback := by
  unfold Sock.closed
  split <;> exact Phase.noConfusion

theorem onClose_ne : s.onClose.phase ≠ .closeCallback := by
  unfold Sock.onClose
  simp only
  split
  · exact Phase.noConfusion
  · exact closed_ne _

theorem afterPlugin_ne : s.afterPlugin.phase ≠ .closeCallback := by
  unfold Sock.afterPlugin
  split <;> exact Phase.noConfusion

theorem afterReadData_ne (nread : Nat) : (s.afterReadData nread).phase ≠ .closeCallback := by
  unfold Sock.afterReadData
  simp only
  split
  · exact Phase.noConfusion
  · exact afterPlugin_ne _

end CloseCallback

theorem afterWriteStatus_ne (s : Sock) (r : WriteReq) (pq : List WriteReq) (d : Bool) :
    (s.afterWriteStatus r pq d).phase ≠ .closeCallback := by
  intro h
  obtain h | h | ⟨h, -⟩ := afterWriteStatus_phase h <;> contradiction

private theorem ret_closeCallback {s s' : Sock} (h : s.ret = some s')
    (hphase : s'.phase = .closeCallback) : s.phase = .closeCallback := by
  cases ret_cases h with
  | inner => exact hphase
  | outside | onRead | pluginClose | onWriteError => contradiction
  | onWrite => exact absurd hphase (afterWriteStatus_ne s _ _ _)
  | onDrain =>
    rw [afterWriteDrained_phase] at hphase
    contradiction
  | plugin => exact absurd hphase (afterPlugin_ne s)
  | onEnd =>
    rw [ended_phase] at hphase
    contradiction
  | onReadError =>
    rw [readFailed_phase] at hphase
    contradiction
  | onClose => exact absurd hphase (closed_ne s)

theorem afterShutdown_depth (s : Sock) : s.afterShutdown.depth = s.depth := by
  unfold Sock.afterShutdown
  split
  · rfl
  · unfold Sock.uvClose
    split <;> rfl

private theorem next_closeCallback {s s' : Sock} (h : s.next = some s')
    (hphase : s'.phase = .closeCallback) :
    s.phase.destroying = true ∧ s'.depth = s.depth := by
  cases next_cases h with
  | report =>
    rw [afterWrite_eq] at hphase
    split at hphase
    · contradiction
    · exact absurd hphase (afterWriteStatus_ne _ _ _ _)
  | reported | flushed => contradiction
  | cancelled hcancel =>
    rw [hcancel]
    exact ⟨rfl, afterShutdown_depth _⟩
  | notShutting hcancel =>
    rw [hcancel]
    exact ⟨rfl, rfl⟩
  | closeCallback => exact absurd hphase (onClose_ne s)

private theorem drain_ne {s s' : Sock} {ok : Bool} (h : s.drain ok = some s') :
    s'.phase ≠ .closeCallback := by
  cases drain_cases h with
  | shutdown =>
    rw [afterShutdown_phase]
    exact Phase.noConfusion
  | nothing => exact Phase.noConfusion

/-- `on_close` is called when all requests have been reported. -/
theorem step_closeCallback {s s' : Sock} {a : Act} (h : step s a = some s')
    (hphase : s'.phase = .closeCallback) :
    (s.phase.destroying = true ∧ s'.depth = 0) ∨ s.phase = .closeCallback := by
  unfold step at h
  split at h
  · contradiction
  · cases a with
    | ret => exact Or.inr (ret_closeCallback h hphase)
    | next =>
      obtain ⟨hdepth, h⟩ := Option.ite_none_right_eq_some.mp h
      obtain ⟨hd, hsame⟩ := next_closeCallback h hphase
      exact Or.inl ⟨hd, hsame.trans hdepth⟩
    | drain ok =>
      obtain ⟨-, h⟩ := Option.ite_none_right_eq_some.mp h
      exact absurd hphase (drain_ne h)
    | write len off tried queued =>
      obtain ⟨-, h⟩ := Option.ite_none_right_eq_some.mp h
      exact Or.inr ((write_sameLife h).phase ▸ hphase)
    | ioWrite a =>
      obtain ⟨-, h⟩ := Option.ite_none_right_eq_some.mp h
      obtain ⟨handle, -, h⟩ := Option.map_eq_some_iff.mp h
      cases h
      contradiction
    | close doShutdown =>
      obtain ⟨-, h⟩ := Option.ite_none_right_eq_some.mp h
      cases h
      exact Or.inr (close_phase s doShutdown ▸ hphase)
    | resume =>
      obtain ⟨-, h⟩ := Option.ite_none_right_eq_some.mp h
      cases h
      exact Or.inr (resume_phase s ▸ hphase)
    | pause | fill | on =>
      obtain ⟨-, h⟩ := Option.ite_none_right_eq_some.mp h
      cases h
      exact Or.inr hphase
    | enter | destroy =>
      obtain ⟨-, h⟩ := Option.ite_none_right_eq_some.mp h
      cases h
      contradiction
    | readData nread =>
      obtain ⟨-, h⟩ := Option.ite_none_right_eq_some.mp h
      cases h
      exact absurd hphase (afterReadData_ne s nread)
    | readEof =>
      obtain ⟨-, h⟩ := Option.ite_none_right_eq_some.mp h
      cases h
      split at hphase
      · contradiction
      · rw [ended_phase] at hphase
        contradiction
    | readError =>
      obtain ⟨-, h⟩ := Option.ite_none_right_eq_some.mp h
      cases h
      split at hphase
      · contradiction
      · rw [readFailed_phase] at hphase
        contradiction

/-- `on_close` is the only step from there, and it does not call itself. -/
theorem step_leaves_closeCallback {s s' : Sock} {a : Act} (hs : s.phase = .closeCallback)
    (hdepth : s.depth = 0) (h : step s a = some s') : s'.phase ≠ .closeCallback := by
  have hjs : s.inJs = false := by
    rw [Sock.inJs, hs, hdepth]
    rfl
  unfold step at h
  split at h
  · contradiction
  · cases a with
    | next =>
      have hnext : s.next = some s' := h
      rw [Sock.next, hs] at hnext
      cases hnext
      exact onClose_ne s
    | ret =>
      have hret : s.ret = some s' := h
      rw [Sock.ret, if_neg (by omega), hs] at hret
      contradiction
    | drain ok =>
      have hdrain : s.drain ok = some s' := h
      rw [Sock.drain, if_pos (by rw [hs]; exact Phase.noConfusion)] at hdrain
      contradiction
    | _ => simp [hjs, hs] at h

/-- `on_close` is called from the loop. -/
theorem step_closeCallback_depth {s s' : Sock} {a : Act}
    (hs : s.phase = .closeCallback → s.depth = 0) (h : step s a = some s') :
    s'.phase = .closeCallback → s'.depth = 0 := by
  intro hphase
  obtain ⟨-, hdepth⟩ | hcallback := step_closeCallback h hphase
  · exact hdepth
  · exact absurd hphase (step_leaves_closeCallback hcallback (hs hcallback) h)

/-- A handle that is being destroyed, or of which that is reported, has no requests. -/
def Sock.Gone (s : Sock) : Prop :=
  s.phase.destroying = true ∨ s.phase = .closeCallback →
    s.handle.closing = true ∧ s.handle.completed = [] ∧ s.handle.writeQueue = []

theorem step_gone {s s' : Sock} {a : Act} (hs : s.Gone) (h : step s a = some s') : s'.Gone := by
  rintro (hd | hphase)
  · exact step_destroying (fun hd => hs (Or.inl hd)) h hd
  · exact step_stays_empty (hs ((step_closeCallback h hphase).imp And.left id)) h

/-- What a run keeps. -/
structure Conn.Ends (c : Conn) : Prop extends Conn.Placed c where
  gone : c.sock.Gone
  depth : c.sock.phase = .closeCallback → c.sock.depth = 0

theorem ends_obtained (way : Way) (out : List UInt8) (callbacks : Callbacks)
    (plugins : List Plugins.Kind) (onConnect : Bool) :
    (Conn.obtained way out callbacks plugins onConnect).Ends where
  toPlaced := placed_obtained way out callbacks plugins onConnect
  gone := by cases way <;> exact fun h => h.elim (absurd · Bool.false_ne_true) Phase.noConfusion
  depth := by cases way <;> exact Phase.noConfusion

/-- A step that leaves control where it is, or takes it to the loop or to JavaScript. -/
theorem Aside.gone {s s' : Sock} (h : Aside s s') (hs : s.Gone) : s'.Gone := by
  have hhandle : (s.handle.closing = true ∧ s.handle.completed = [] ∧ s.handle.writeQueue = []) →
      s'.handle.closing = true ∧ s'.handle.completed = [] ∧ s'.handle.writeQueue = [] := by
    rw [h.handle]
    exact id
  rintro hphase
  obtain hsame | ⟨-, hsame | hsame⟩ := h.phase
  · exact hhandle (hs (hsame ▸ hphase))
  all_goals
    rw [hsame] at hphase
    obtain h | h := hphase <;> contradiction

/-- **Step lemma.** -/
theorem ConnStep.ends {c : Conn} {a : ConnAct} {s' : Sock} (h : ConnStep c a s') (hc : c.Ends) :
    s'.Gone ∧ (s'.phase = .closeCallback → s'.depth = 0) := by
  cases h with
  | sock step => exact ⟨step_gone hc.gone step, step_closeCallback_depth hc.depth step⟩
  | wait _ call =>
    obtain ⟨bytes, -, ⟨-, heq⟩ | ⟨-, -, _, -, heq⟩ | ⟨-, hopen, heq⟩⟩ := writeConnecting_cases call
    all_goals rw [heq]
    · exact ⟨hc.gone, hc.depth⟩
    · exact ⟨hc.gone, hc.depth⟩
    · -- a handle that takes a request is not being destroyed
      exact ⟨fun hphase => absurd (Or.inl (hc.gone hphase).1) hopen, hc.depth⟩
  | aside same | within same =>
    refine ⟨same.gone hc.gone, fun hphase => ?_⟩
    obtain hsame | ⟨-, hsame | hsame⟩ := same.phase
    · have hcallback := hsame.symm.trans hphase
      have hdepth := hc.depth hcallback
      rw [same.depth (by simp [Sock.inJs, Phase.isJs, hcallback, hdepth]), hdepth]
    all_goals
      rw [hsame] at hphase
      contradiction
  | cancel | init =>
    exact ⟨fun h => h.elim (absurd · Bool.false_ne_true) Phase.noConfusion, Phase.noConfusion⟩

theorem conn_step_ends {c c' : Conn} {a : ConnAct} (hc : c.Ends) (h : c.step a = some c') :
    c'.Ends := by
  obtain ⟨hgone, hdepth⟩ := (conn_step_cases hc.toPlaced h).ends hc
  exact ⟨conn_step_placed hc.toPlaced h, hgone, hdepth⟩

/-! ### The run -/

/-- Every request is freed, about to be, or outstanding. -/
structure Conn.Balanced (c : Conn) : Prop extends Conn.Placed c where
  alloc : c.sock.ctx.stats.alloc = c.sock.settled

/-- **Step lemma.** -/
theorem conn_step_balanced {c c' : Conn} {a : ConnAct} (hc : c.Balanced) (hno : ¬ c.Refused a)
    (h : c.step a = some c') : c'.Balanced := by
  have hbalance := (conn_step_cases hc.toPlaced h).balance
  have halloc := hc.alloc
  rw [if_neg hno] at hbalance
  exact ⟨conn_step_placed hc.toPlaced h, by omega⟩

/-- **Every request is released**: along a run the counts are right exactly when no call has a
    request refused, up to the last state between callbacks. -/
theorem released_iff (way : Way) (out : List UInt8) (callbacks : Callbacks)
    (plugins : List Plugins.Kind) (onConnect : Bool) (as : List ConnAct) :
    (∀ bs cs u, as = bs ++ cs →
        run Conn.step (Conn.obtained way out callbacks plugins onConnect) bs = some u →
        Released u.sock) ↔
      ∀ bs cs u, as = bs ++ cs →
        run Conn.step (Conn.obtained way out callbacks plugins onConnect) bs = some u →
        u.sock.Between →
          Along Conn.step (fun c a => ¬ c.Refused a)
            (Conn.obtained way out callbacks plugins onConnect) bs := by
  have hstart : (Conn.obtained way out callbacks plugins onConnect).Balanced := by
    refine ⟨placed_obtained way out callbacks plugins onConnect, ?_⟩
    cases way <;> rfl
  constructor
  · -- a refused request stays on the account, whatever comes behind it
    intro hall bs cs u heq hbs hend
    have hlast := (hall bs cs u heq hbs).between hend
    have hgood : u.Placed → u.sock.ctx.stats.alloc ≤ u.sock.settled := by
      intro _
      rw [hlast, Sock.settled, Sock.freed]
      omega
    refine Along.of_good (G := fun u => u.Placed → u.sock.ctx.stats.alloc ≤ u.sock.settled)
      (fun _ _ _ hc hno hstep => conn_step_balanced hc hno hstep) ?_ ?_ hstart hbs hgood
    · intro c a c' hc hmiss hstep hgood
      have hbalance := (conn_step_cases hc.toPlaced hstep).balance
      have halloc := hc.alloc
      have hle := hgood (conn_step_placed hc.toPlaced hstep)
      rw [if_pos (not_not.mp hmiss)] at hbalance
      omega
    · -- a request that belongs to nobody is never freed
      intro c a c' hmiss hstep hgood
      obtain ⟨hplaced, hlt⟩ := Classical.not_imp.mp hmiss
      have hbalance := (conn_step_cases hplaced hstep).balance
      have hle := hgood (conn_step_placed hplaced hstep)
      omega
  · intro hno bs cs u heq hbs
    have hu : u.Ends := run_invariant (fun _ _ _ hc hstep => conn_step_ends hc hstep)
      (ends_obtained way out callbacks plugins onConnect) hbs
    have hbalance (hend : u.sock.Between) : u.sock.ctx.stats.alloc = u.sock.settled :=
      (run_invariant_along (fun _ _ _ hc hno hstep => conn_step_balanced hc hno hstep) hstart
        (hno bs cs u heq hbs hend) hbs).alloc
    constructor
    · intro hend
      rw [hbalance hend, Sock.settled, Sock.freed, hend.held, Nat.add_zero]
    · -- `on_close` is called from the loop, when everything has been reported
      intro hphase
      have hend : u.sock.Between := ⟨hu.depth hphase, by rw [hphase]; trivial⟩
      obtain ⟨-, hcompleted, hqueue⟩ := hu.gone (Or.inr hphase)
      rw [hbalance hend, Sock.settled, Sock.freed, Sock.outstanding, hphase, hcompleted, hqueue]
      rfl

/-- A call waits for the connection, and the handle is closed when it has been made. -/
def waitedThenClosed : List ConnAct :=
  [.sock (.write 2 0 .again .again), .sock .ret, .connected false, .sock (.ioWrite (.wrote 2)),
    .sock .next, .sock .next, .sock (.drain true), .sock .enter, .sock (.close false), .sock .ret,
    .sock .destroy, .sock .next, .sock .next]

example : ∃ c, run Conn.step (Conn.obtained (.connect true) [1, 2] {} [] false) waitedThenClosed =
      some c ∧
    c.sock.phase = .closeCallback ∧ c.sock.ctx.stats.alloc = 1 ∧ c.sock.ctx.stats.free = 1 :=
  ⟨_, rfl, rfl, rfl, rfl⟩

/-- A read error closes the handle while a byte is queued; the script writes again, the request of
    that call is refused, and it is still allocated when `on_close` runs. -/
def writeAfterError : List ConnAct :=
  [.sock .ret, .sock .enter, .sock (.write 2 0 (.wrote 1) .again), .sock .ret, .sock .readError,
    .sock .enter, .sock (.write 2 0 .again .again), .sock .ret, .sock .destroy, .sock .next,
    .sock .next, .sock .next]

/-- A client closes the handle while the attempt goes on, and writes. -/
def writeBeforeConnected : List ConnAct :=
  [.sock (.close false), .sock (.write 1 0 .again .again), .sock .ret, .sock .destroy, .sock .next,
    .sock .next]

theorem not_released_writeAfterError :
    (∃ c, run Conn.step (Conn.obtained .accept [1, 2] {} [] false) writeAfterError = some c ∧
        c.sock.Between ∧ c.sock.phase = .closeCallback ∧ c.sock.ctx.stats.alloc = 2 ∧
        c.sock.ctx.stats.free = 1 ∧ ¬ Released c.sock) ∧
      ∃ c, run Conn.step (Conn.obtained (.connect true) [1] {} [] false) writeBeforeConnected =
          some c ∧
        c.sock.Between ∧ c.sock.phase = .closeCallback ∧ c.sock.ctx.stats.alloc = 1 ∧
        c.sock.ctx.stats.free = 0 ∧ ¬ Released c.sock := by
  refine ⟨⟨_, rfl, ⟨rfl, trivial⟩, rfl, rfl, rfl, fun h => ?_⟩,
    ⟨_, rfl, ⟨rfl, trivial⟩, rfl, rfl, rfl, fun h => ?_⟩⟩
  · exact absurd (h.onClose rfl) (by decide)
  · exact absurd (h.onClose rfl) (by decide)

end Dv8.Socket
