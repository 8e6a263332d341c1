import Dv8.Socket.Connection

namespace Dv8.Socket

open Dv8.Lib Dv8.Uv

/-!
# The back-pressure flag

`ctx->blocked` is set by `Socket::Write` when it queues and cleared by `after_write` in its success
path, behind `onDrain`.  It should say, in the event loop, that a request is outstanding.  Three
things break that: a failed request that is the last one outstanding, a request queued while
`onDrain` runs, and one that is refused while the connection is being made and nothing waits for
it.  `Settled` excludes them, and `blocked_iff_outstanding` shows that nothing else can go wrong:

* `Flag` is the invariant between the callbacks, where a request may be between its queue and
  the end of its `after_write`;
* `step_flag` is its step lemma, from the list of `step_writeStep`, and `ConnStep.flag` the one for
  a connection;
* `run_drains` counts the drains between two states of a run.
-/

/-! ### The condition -/

/-- The requests libuv holds besides those it is reporting. -/
def Sock.pending (s : Sock) : List WriteReq := s.handle.completed ++ s.handle.writeQueue

theorem outstanding_eq (s : Sock) : s.outstanding = s.phase.pq ++ s.pending := rfl

/-- `after_write` of `r`, with `pq` still to report, leaves the flag right: when it ends with a
    failure something else is outstanding, and when it clears the flag nothing is queued. -/
def Sock.SettledStatus (s : Sock) (r : WriteReq) (pq : List WriteReq) : Prop :=
  (r.error < 0 → s.callbacks.onError = false → s.ctx.blocked = true → pq ++ s.pending ≠ []) ∧
    (0 ≤ r.error → s.handle.writeQueueSize = 0 → s.ctx.blocked = true →
      s.callbacks.onDrain = false → s.pending = [])

/-- In this step no `after_write` ends with a failure while its request is the last one
    outstanding, and none clears the flag while requests are queued. -/
def Settled (s : Sock) : Act → Prop
  | .next =>
    match s.phase with
    | .reporting (r :: pq) _ =>
      s.callbacks.onWrite = false → (s.released r).SettledStatus r pq
    | _ => True
  | .ret =>
    s.depth = 0 →
      match s.phase with
      | .onWrite r pq _ => s.SettledStatus r pq
      | .onWriteError pq _ => s.ctx.blocked = true → pq ++ s.pending ≠ []
      | .onDrain .. => s.pending = []
      | _ => True
  | _ => True

/-- While the attempt goes on no request is refused, unless others wait. -/
def Waits (c : Conn) : Act → Prop
  | .write .. => c.stage = .connecting ∧ c.sock.ctx.closing = false ∧
      (c.sock.handle.closing = true ∨ c.sock.handle.writable = false) → c.sock.pending ≠ []
  | _ => True

/-- The same for a step of a connection. -/
def Conn.Settled (c : Conn) : ConnAct → Prop
  | .sock a => Socket.Settled c.sock a ∧ Waits c a
  | _ => True

instance (s : Sock) (r : WriteReq) (pq : List WriteReq) : Decidable (s.SettledStatus r pq) :=
  inferInstanceAs (Decidable (_ ∧ _))

instance (s : Sock) (a : Act) : Decidable (Settled s a) := by
  unfold Settled
  split
  · split <;> infer_instance
  · split <;> infer_instance
  · infer_instance

instance (c : Conn) (a : Act) : Decidable (Waits c a) := by
  unfold Waits
  split <;> infer_instance

instance (c : Conn) (a : ConnAct) : Decidable (c.Settled a) := by
  unfold Conn.Settled
  split <;> infer_instance

/-! ### `Socket::Write` -/

/-- A queue of some size is not empty. -/
theorem ne_nil_of_size {h : Stream} {pq : List WriteReq} (hacc : h.Accounted pq)
    (hsize : h.writeQueueSize ≠ 0) : pq ++ (h.completed ++ h.writeQueue) ≠ [] := by
  intro hnil
  rw [List.append_eq_nil_iff, List.append_eq_nil_iff] at hnil
  apply hsize
  rw [hacc.size, hnil.1, hnil.2.1, hnil.2.2]
  rfl

/-- `uv_write` keeps what is pending. -/
theorem uvWrite_mono {h h' : Stream} {bytes : List UInt8} {a : Answer} {status : Int}
    (hw : h.uvWrite bytes a = some (h', status)) (hnil : h'.completed ++ h'.writeQueue = []) :
    h.completed ++ h.writeQueue = [] := by
  obtain ⟨rfl, -, -⟩ | ⟨-, -, rfl | hw⟩ := uvWrite_cases hw
  · exact hnil
  · exact absurd hnil (enqueue_ne_nil h bytes)
  · exact absurd ((write1_eq_nil_iff hw).mp hnil) (enqueue_ne_nil h bytes)

/-- A call that queues finds the writer blocked behind it, with something outstanding; any
    other call leaves flag and queue as they were. -/
theorem write_blocked {s s' : Sock} {len off : Nat} {tried queued : Answer}
    (h : s.write len off tried queued = some s') (hacc : s.handle.Accounted s.phase.pq) :
    (s'.ctx.blocked = true ∧ s'.outstanding ≠ []) ∨
      (s'.ctx.blocked = s.ctx.blocked ∧ (s'.pending = [] ↔ s.pending = [])) := by
  obtain ⟨bytes, -, ⟨-, rfl⟩ | ⟨handle, r, -, htry, hcase⟩⟩ := write_cases h
  · exact Or.inr ⟨rfl, Iff.rfl⟩
  · have hmono := tryWrite_eq_nil_iff htry
    obtain ⟨hr, hcall⟩ | ⟨-, -, -, rfl⟩ | ⟨hnonneg, -, hcall⟩ | ⟨-, -, rfl⟩ := hcase
    · rw [Sock.writeQueued, Option.map_eq_some_iff] at hcall
      obtain ⟨⟨handle', status⟩, hw, rfl⟩ := hcall
      refine Or.inl ⟨rfl, ?_⟩
      show s.phase.pq ++ (handle'.completed ++ handle'.writeQueue) ≠ []
      obtain ⟨rfl, hsize, -⟩ | ⟨-, -, hne⟩ | ⟨hopen, hwritable, -⟩ := tryWrite_cases htry
      · -- the size says that something is outstanding already
        intro hnil
        rw [List.append_eq_nil_iff] at hnil
        apply ne_nil_of_size hacc hsize
        rw [hnil.1, uvWrite_mono hw hnil.2]
        rfl
      · exact absurd hr (not_or.mpr hne)
      · have hflags := tryWrite_sameFlags htry
        have hne := uvWrite_ne_nil hw (hflags.closing.trans hopen)
          (hflags.writable.trans hwritable)
        intro hnil
        exact hne (List.append_eq_nil_iff.mp hnil).2
    · exact Or.inr ⟨rfl, hmono⟩
    · rw [Sock.writePartial, Option.map_eq_some_iff] at hcall
      obtain ⟨⟨handle', status⟩, hw, rfl⟩ := hcall
      refine Or.inl ⟨rfl, ?_⟩
      obtain ⟨hopen, hwritable⟩ := tryWrite_open htry hnonneg
      intro hnil
      exact uvWrite_ne_nil hw hopen hwritable (List.append_eq_nil_iff.mp hnil).2
    · exact Or.inr ⟨rfl, hmono⟩

/-! ### The invariant -/

/-- Between the callbacks: a blocked writer waits for something outstanding or for the
    `after_write` in progress, and queued requests block the writer. -/
structure Flag (s : Sock) : Prop where
  waits : s.ctx.blocked = true → s.outstanding ≠ [] ∨ s.phase.inAfterWrite = true
  blocks : s.pending ≠ [] → s.ctx.blocked = true

theorem SameQueue.pending {s s' : Sock} (h : SameQueue s s') : s'.pending = s.pending := by
  rw [Sock.pending, Sock.pending, h.completed, h.writeQueue]

/-- Where nothing happens to the queue the flag stays right. -/
theorem Flag.of_same {s s' : Sock} (hs : Flag s) (same : SameWriting s s')
    (hpq : s'.phase.pq = s.phase.pq) (hafter : s'.phase.inAfterWrite = s.phase.inAfterWrite) :
    Flag s' where
  waits := by
    rw [outstanding_eq, same.toSameQueue.pending, same.blocked, hpq, hafter]
    exact hs.waits
  blocks := by
    rw [same.toSameQueue.pending, same.blocked]
    exact hs.blocks

/-- Flag and queue behind the last stage of a successful `after_write` that cleared the flag. -/
theorem afterWriteDrained_flag {s : Sock} {r : WriteReq} {pq : List WriteReq} {d : Bool}
    (hnil : s.pending = []) : Flag (s.afterWriteDrained r pq d) := by
  have same := afterWriteDrained_sameWriting s r pq d
  constructor
  · intro hb
    rw [same.blocked] at hb
    contradiction
  · intro hne
    rw [same.toSameQueue.pending] at hne
    exact absurd hnil hne

/-- Flag and queue behind the second stage of `after_write`. -/
theorem afterWriteStatus_flag {s : Sock} {r : WriteReq} {pq : List WriteReq} {d : Bool}
    (hacc : s.handle.Accounted pq) (hblocks : s.pending ≠ [] → s.ctx.blocked = true)
    (hok : s.SettledStatus r pq) : Flag (s.afterWriteStatus r pq d) := by
  obtain ⟨stats, herr, -, heq⟩ | ⟨stats, -, hsize, -, heq⟩ | ⟨-, -, hb, heq⟩ |
    ⟨herr, hsize, hb, hd, heq⟩ | ⟨-, -, -, -, heq⟩ := afterWriteStatus_cases s r pq d
  all_goals rw [heq]
  · -- a failure: the flag stays as it is
    refine ⟨fun hb => ?_, hblocks⟩
    cases hcb : s.callbacks.onError with
    | true => exact Or.inr rfl
    | false => exact Or.inl (hok.1 herr hcb hb)
  · exact ⟨fun _ => Or.inl (ne_nil_of_size hacc hsize), hblocks⟩
  · -- nothing is blocked, so nothing is queued
    have same := afterWriteClose_sameWriting s r pq d
    refine ⟨fun hb' => ?_, fun hne => ?_⟩
    · rw [same.blocked, hb] at hb'
      contradiction
    · rw [same.blocked]
      rw [same.toSameQueue.pending] at hne
      exact hblocks hne
  · exact afterWriteDrained_flag (hok.2 (by omega) hsize hb hd)
  · exact ⟨fun _ => Or.inr rfl, hblocks⟩

theorem released_pending (s : Sock) (r : WriteReq) : (s.released r).pending = s.pending := by
  unfold Sock.released Stream.release
  split <;> rfl

/-- **Step lemma.** -/
theorem step_flag {s s' : Sock} {a : Act} (hacc : s.handle.Accounted s.phase.pq) (hs : Flag s)
    (hok : Settled s a) (h : step s a = some s') : Flag s' := by
  have hwaits := hs.waits
  cases step_writeStep h with
  | js same hphase => exact hs.of_same same (by rw [hphase]) (by rw [hphase])
  | quiet same hidle hidle' =>
    exact hs.of_same same (hidle'.1.trans hidle.1.symm) (hidle'.2.trans hidle.2.symm)
  | write call =>
    have hphase := (write_sameLife call).phase
    obtain ⟨hb, hne⟩ | ⟨hb, hiff⟩ := write_blocked call hacc
    · exact ⟨fun _ => Or.inl hne, fun _ => hb⟩
    · refine ⟨fun hb' => ?_, fun hne => ?_⟩
      · rw [hb] at hb'
        rw [hphase]
        refine (hwaits hb').imp_left ?_
        rw [outstanding_eq, outstanding_eq, hphase]
        intro hne hnil
        rw [List.append_eq_nil_iff] at hnil
        exact hne (List.append_eq_nil_iff.mpr ⟨hnil.1, hiff.mp hnil.2⟩)
      · rw [hb]
        exact hs.blocks (fun hnil => hne (hiff.mpr hnil))
  | @attempt _ handle hphase call =>
    -- the completed requests are handed over: all that was pending is reported or queued
    have hiff := write1_eq_nil_iff call
    rw [outstanding_eq, hphase] at hwaits
    refine ⟨fun hb => Or.inl ?_, fun hne => hs.blocks (fun hnil => ?_)⟩
    · obtain hne | hin := hwaits hb
      · exact fun hnil => hne (hiff.mp hnil)
      · contradiction
    · exact hne (List.append_eq_nil_iff.mp (hiff.mpr hnil)).2
  | destroy hphase =>
    rw [outstanding_eq, hphase] at hwaits
    refine ⟨fun hb => Or.inl ?_, fun hne => absurd rfl hne⟩
    obtain hne | hin := hwaits hb
    · intro hnil
      apply hne
      simpa [Sock.outstanding, Sock.pending, Stream.flush, Phase.pq] using hnil
    · contradiction
  | @report r pq d _ hphase =>
    rw [hphase] at hacc
    have hblocks : (s.released r).pending ≠ [] → s.ctx.blocked = true := by
      rw [released_pending]
      exact hs.blocks
    simp only [Settled, hphase] at hok
    rw [afterWrite_eq]
    split
    · exact ⟨fun _ => Or.inr rfl, hblocks⟩
    · rename_i hcb
      exact afterWriteStatus_flag hacc.release hblocks (hok (by simpa using hcb))
  | @status r pq d hdepth hphase =>
    rw [hphase] at hacc
    simp only [Settled, hphase] at hok
    exact afterWriteStatus_flag hacc hs.blocks (hok hdepth)
  | @failed pq d hdepth hphase =>
    simp only [Settled, hphase] at hok
    exact ⟨fun hb => Or.inl (hok hdepth hb), hs.blocks⟩
  | @drained r pq d hdepth hphase =>
    simp only [Settled, hphase] at hok
    exact afterWriteDrained_flag (hok hdepth)

/-- A call while the attempt goes on blocks the writer. -/
theorem writeConnecting_flag {s s' : Sock} {len off : Nat} (hs : Flag s)
    (hwaits : s.ctx.closing = false → s.handle.closing = true ∨ s.handle.writable = false →
      s.pending ≠ []) (h : s.writeConnecting len off = some s') : Flag s' := by
  obtain ⟨bytes, -, ⟨-, heq⟩ | ⟨hopen, hno, _, -, heq⟩ | ⟨-, -, heq⟩⟩ := writeConnecting_cases h
  all_goals rw [heq]
  · exact ⟨hs.waits, hs.blocks⟩
  · refine ⟨fun _ => Or.inl fun hnil => ?_, fun _ => rfl⟩
    exact hwaits hopen hno (List.append_eq_nil_iff.mp hnil).2
  · refine ⟨fun _ => Or.inl fun hnil => ?_, fun _ => rfl⟩
    exact enqueue_ne_nil s.handle bytes (List.append_eq_nil_iff.mp hnil).2

/-- **Step lemma**, for a connection. -/
theorem ConnStep.flag {c : Conn} {a : ConnAct} {s' : Sock} (h : ConnStep c a s')
    (hacc : c.sock.handle.Accounted c.sock.phase.pq) (hs : Flag c.sock) (hok : c.Settled a) :
    Flag s' := by
  cases h with
  | sock step => exact step_flag hacc hs hok.1 step
  | wait hstage call =>
    exact writeConnecting_flag hs (fun hopen hno => hok.2 ⟨hstage, hopen, hno⟩) call
  | aside same | within same => exact hs.of_same same.sameWriting same.pq.1 same.pq.2
  | cancel reading _ calm =>
    -- all that was pending is being reported
    obtain ⟨hpq, hafter⟩ := Phase.idle_of_calm calm
    have hwaits := hs.waits
    rw [outstanding_eq, hpq, hafter] at hwaits
    refine ⟨fun hb => Or.inl fun hnil => ?_, fun hne => absurd rfl hne⟩
    obtain hne | hin := hwaits hb
    · apply hne
      simpa [Sock.outstanding, Sock.pending, Stream.flush, Phase.pq] using hnil
    · contradiction
  | init => exact ⟨fun hb => absurd hb Bool.false_ne_true, fun hne => absurd rfl hne⟩

/-! ### Drains -/

/-- From `s` to `t` drains are only added, and one is if the flag is cleared. -/
def Drains (s t : Sock) : Prop :=
  s.ctx.stats.drain ≤ t.ctx.stats.drain ∧
    (s.ctx.blocked = true → t.ctx.blocked = true ∨ s.ctx.stats.drain < t.ctx.stats.drain)

theorem Drains.of_eq {s t : Sock} (hd : t.ctx.stats.drain = s.ctx.stats.drain)
    (hb : s.ctx.blocked = true → t.ctx.blocked = true) : Drains s t :=
  ⟨hd.ge, fun h => Or.inl (hb h)⟩

theorem Drains.trans {s t u : Sock} (p : Drains s t) (q : Drains t u) : Drains s u := by
  refine ⟨p.1.trans q.1, fun hb => ?_⟩
  obtain hb | hlt := p.2 hb
  · exact (q.2 hb).imp_right (fun h => Nat.lt_of_le_of_lt p.1 h)
  · exact Or.inr (Nat.lt_of_lt_of_le hlt q.1)

theorem afterWriteDrained_drains (s : Sock) (r : WriteReq) (pq : List WriteReq) (d : Bool) :
    Drains s (s.afterWriteDrained r pq d) := by
  have hdrain : (s.afterWriteDrained r pq d).ctx.stats.drain = s.ctx.stats.drain + 1 :=
    (afterWriteDrained_sameWriting s r pq d).drain
  refine ⟨?_, fun _ => Or.inr ?_⟩
  · rw [hdrain]
    exact Nat.le_succ _
  · rw [hdrain]
    exact Nat.lt_succ_self _

theorem afterWriteStatus_drains (s : Sock) (r : WriteReq) (pq : List WriteReq) (d : Bool) :
    Drains s (s.afterWriteStatus r pq d) := by
  obtain ⟨_, -, hd, heq⟩ | ⟨_, -, -, hd, heq⟩ | ⟨-, -, -, heq⟩ | ⟨-, -, -, -, heq⟩ |
    ⟨-, -, -, -, heq⟩ := afterWriteStatus_cases s r pq d
  all_goals rw [heq]
  · exact Drains.of_eq hd id
  · exact Drains.of_eq hd id
  · have same := afterWriteClose_sameWriting s r pq d
    exact Drains.of_eq same.drain (fun hb => same.blocked.trans hb)
  · exact afterWriteDrained_drains s r pq d
  · exact Drains.of_eq rfl id

theorem write_drains {s s' : Sock} {len off : Nat} {tried queued : Answer}
    (h : s.write len off tried queued = some s') : Drains s s' := by
  obtain ⟨bytes, -, ⟨-, rfl⟩ | ⟨handle, r, -, -, hcase⟩⟩ := write_cases h
  · exact Drains.of_eq rfl id
  · obtain ⟨-, hcall⟩ | ⟨-, -, -, rfl⟩ | ⟨-, -, hcall⟩ | ⟨-, -, rfl⟩ := hcase
    · rw [Sock.writeQueued, Option.map_eq_some_iff] at hcall
      obtain ⟨_, -, rfl⟩ := hcall
      exact Drains.of_eq rfl (fun _ => rfl)
    · exact Drains.of_eq rfl id
    · rw [Sock.writePartial, Option.map_eq_some_iff] at hcall
      obtain ⟨_, -, rfl⟩ := hcall
      exact Drains.of_eq rfl (fun _ => rfl)
    · exact Drains.of_eq rfl id

theorem step_drains {s s' : Sock} {a : Act} (h : step s a = some s') : Drains s s' := by
  cases step_writeStep h with
  | js same | quiet same => exact Drains.of_eq same.drain (fun hb => same.blocked.trans hb)
  | write call => exact write_drains call
  | attempt | destroy | failed => exact Drains.of_eq rfl id
  | @report r pq d =>
    have hrel : Drains s (s.released r) := Drains.of_eq rfl id
    rw [afterWrite_eq]
    split
    · exact hrel
    · exact hrel.trans (afterWriteStatus_drains _ r pq d)
  | @status r pq d => exact afterWriteStatus_drains s r pq d
  | @drained r pq d => exact afterWriteDrained_drains s r pq d

theorem ConnStep.drains {c : Conn} {a : ConnAct} {s' : Sock} (h : ConnStep c a s') :
    Drains c.sock s' := by
  cases h with
  | sock step => exact step_drains step
  | wait _ call =>
    obtain ⟨bytes, -, ⟨-, heq⟩ | ⟨-, -, _, -, heq⟩ | ⟨-, -, heq⟩⟩ := writeConnecting_cases call
    all_goals rw [heq]
    · exact Drains.of_eq rfl id
    · exact Drains.of_eq rfl fun _ => rfl
    · exact Drains.of_eq rfl fun _ => rfl
  | aside same | within same =>
    exact Drains.of_eq same.sameWriting.drain (fun hb => same.sameWriting.blocked.trans hb)
  | cancel => exact Drains.of_eq rfl id
  | init fresh =>
    have hdrain := congrArg Stats.drain fresh.stats
    refine ⟨hdrain.le, fun hb => ?_⟩
    rw [fresh.blocked] at hb
    contradiction

/-- A run that finds the flag set and leaves it cleared has emitted a drain. -/
theorem run_drains {c d : Conn} {as : List ConnAct} (hc : c.Placed)
    (h : run Conn.step c as = some d) : Drains c.sock d.sock := by
  have hinv := run_invariant (I := fun d => Conn.Placed d ∧ Drains c.sock d.sock) ?_
    ⟨hc, Nat.le_refl _, Or.inl⟩ h
  · exact hinv.2
  · intro d a d' hd hstep
    exact ⟨conn_step_placed hd.1 hstep, hd.2.trans (conn_step_cases hd.1 hstep).drains⟩

/-! ### The flag in the event loop -/

/-- Control is in the event loop. -/
def Sock.AtLoop (s : Sock) : Prop := s.phase = .loop ∧ s.depth = 0

/-- What a run keeps whose steps are settled. -/
structure Conn.Flagged (c : Conn) : Prop extends Conn.Placed c where
  accounted : c.sock.handle.Accounted c.sock.phase.pq
  flag : Flag c.sock

theorem flagged_obtained (way : Way) (out : List UInt8) (callbacks : Callbacks)
    (plugins : List Plugins.Kind) (onConnect : Bool) :
    (Conn.obtained way out callbacks plugins onConnect).Flagged where
  toPlaced := placed_obtained way out callbacks plugins onConnect
  accounted := by cases way <;> exact ⟨rfl, fun _ hr => absurd hr List.not_mem_nil⟩
  flag := by
    cases way
    all_goals exact ⟨fun hb => absurd hb Bool.false_ne_true, fun hne => absurd rfl hne⟩

theorem run_flagged {c d : Conn} {as : List ConnAct} (hc : c.Flagged)
    (hok : Along Conn.step Conn.Settled c as) (h : run Conn.step c as = some d) : d.Flagged := by
  refine run_invariant_along (fun d a d' hd hset hstep => ?_) hc hok h
  have hcases := conn_step_cases hd.toPlaced hstep
  exact ⟨conn_step_placed hd.toPlaced hstep, hcases.accounted hd.accounted,
    hcases.flag hd.accounted hd.flag hset⟩

/-- In the event loop there is no `after_write` in progress. -/
theorem Flag.atLoop {s : Sock} (hs : Flag s) (hloop : s.AtLoop) :
    s.ctx.blocked = true ↔ s.outstanding ≠ [] := by
  have hwaits := hs.waits
  have hpending : s.outstanding = s.pending := by
    rw [outstanding_eq, hloop.1]
    rfl
  rw [hloop.1] at hwaits
  constructor
  · intro hb
    exact (hwaits hb).resolve_right Bool.false_ne_true
  · rw [hpending]
    exact hs.blocks

/-- **The flag says whether anything is outstanding**, in every event-loop state of a run whose
    steps are all settled; and from such a state to one with nothing outstanding a drain is
    emitted. -/
theorem blocked_iff_outstanding (way : Way) (out : List UInt8) (callbacks : Callbacks)
    (plugins : List Plugins.Kind) (onConnect : Bool) (as : List ConnAct) (c : Conn)
    (hok : Along Conn.step Conn.Settled (Conn.obtained way out callbacks plugins onConnect) as)
    (hrun : run Conn.step (Conn.obtained way out callbacks plugins onConnect) as = some c)
    (hloop : c.sock.AtLoop) :
    (c.sock.ctx.blocked = true ↔ c.sock.outstanding ≠ []) ∧
      ∀ bs d, Along Conn.step Conn.Settled c bs → run Conn.step c bs = some d → d.sock.AtLoop →
        c.sock.outstanding ≠ [] → d.sock.outstanding = [] →
          c.sock.ctx.stats.drain < d.sock.ctx.stats.drain := by
  have hc : c.Flagged := run_flagged (flagged_obtained way out callbacks plugins onConnect) hok hrun
  refine ⟨hc.flag.atLoop hloop, ?_⟩
  intro bs d hok' hrun' hloop' hne hnil
  have hd : d.Flagged := run_flagged hc hok' hrun'
  have hblocked : c.sock.ctx.blocked = true := (hc.flag.atLoop hloop).mpr hne
  have hclear : ¬ d.sock.ctx.blocked = true := by
    rw [hd.flag.atLoop hloop', hnil]
    exact fun h => h rfl
  exact ((run_drains hc.toPlaced hrun').2 hblocked).resolve_left hclear

/-- A server has its socket, and half a range is written. -/
def writeHalf : List ConnAct :=
  [.sock .ret, .sock .enter, .sock (.write 2 0 (.wrote 1) .again), .sock .ret]

/-- The other half is written, and drained. -/
def writeRest : List ConnAct :=
  [.sock (.ioWrite (.wrote 1)), .sock .next, .sock .next, .sock (.drain true)]

theorem blocked_iff_outstanding_writeRest :
    ∃ c d, run Conn.step (Conn.obtained .accept [1, 2] {} [] false) writeHalf = some c ∧
      run Conn.step c writeRest = some d ∧
      (c.sock.ctx.blocked = true ↔ c.sock.outstanding ≠ []) ∧
      c.sock.ctx.stats.drain < d.sock.ctx.stats.drain := by
  refine ⟨_, _, rfl, rfl, ?_, ?_⟩
  · exact (blocked_iff_outstanding .accept [1, 2] {} [] false writeHalf _
      (by decide) rfl ⟨rfl, rfl⟩).1
  · exact (blocked_iff_outstanding .accept [1, 2] {} [] false writeHalf _
      (by decide) rfl ⟨rfl, rfl⟩).2 writeRest _ (by decide) rfl ⟨rfl, rfl⟩ (by decide) (by decide)

/-- `onDrain` writes again, and the rest of that write is queued. -/
def writeOnDrain : List ConnAct :=
  writeHalf ++ [.sock (.ioWrite (.wrote 1)), .sock .next, .sock (.write 2 0 (.wrote 1) .again),
    .sock .ret, .sock .next, .sock (.drain true)]

/-- A client is closed while the attempt goes on, and written to. -/
def writeOnClosed : List ConnAct :=
  [.sock (.close false), .sock (.write 1 0 .again .again), .sock .ret]

/-- A request is outstanding and the writer is not blocked; or he waits for nothing. -/
theorem not_blocked_iff_outstanding :
    (∃ c, run Conn.step (Conn.obtained .accept [1, 2] { onDrain := true } [] false) writeOnDrain =
        some c ∧ c.sock.AtLoop ∧ c.sock.ctx.blocked = false ∧ c.sock.outstanding ≠ []) ∧
      ∃ c, run Conn.step (Conn.obtained (.connect true) [1] {} [] false) writeOnClosed = some c ∧
        c.sock.AtLoop ∧ c.sock.ctx.blocked = true ∧ c.sock.outstanding = [] := by
  refine ⟨⟨_, rfl, ⟨rfl, rfl⟩, by decide, by decide⟩, ⟨_, rfl, ⟨rfl, rfl⟩, by decide, by decide⟩⟩

end Dv8.Socket
