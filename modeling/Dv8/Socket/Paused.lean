import Dv8.Socket.Connection

namespace Dv8.Socket

open Dv8.Lib Dv8.Uv

/-!
# A paused socket

`Pause` sets `ctx->paused` and stops reading, `Resume` undoes both.  Reading is also started when a
connection is made: by `on_client_connection` behind `onConnect`, without a look at the flag, and by
`on_connection` behind a `context_init` that resets it.  `Open` sets the flag and starts nothing.

What is read goes to the first plugin and to `onRead`.  A plugin hands on what it has read to the
next one, behind its own callbacks; a `SecureSocket` calls the `onRead` it has taken over, also when
it writes or is closed.  None of them looks at the flag.

* `step_readsLess` — no step of a connected socket but `Pause` and `Resume` touches the flag or
  starts to read;
* `paused_iff` — a paused socket delivers nothing exactly when no client is paused where
  `on_client_connection` starts to read, and no plugin hands anything on for a paused socket, be it
  to `onRead` or to another plugin.
-/

/-! ### What ought to hold -/

/-- A paused socket does not read. -/
def Sock.Quiet (s : Sock) : Prop := s.ctx.paused = true → s.handle.reading = false

/-- `onConnect` of a client is running. -/
def Stage.isConnected : Stage → Bool
  | .connected _ => true
  | _ => false

/-- A plugin or an `onRead` is called in this step: by `after_read`, or by a plugin. -/
def Delivers (c : Conn) : ConnAct → Prop
  | .sock (.readData _) => c.sock.first = true ∨ c.sock.callbacks.onRead = true
  | .sock .ret =>
    c.sock.depth = 0 ∧ c.sock.phase.isPlugin = true ∧ c.sock.callbacks.onRead = true
  | .handOn => True
  | _ => False

/-- Nothing is delivered by a socket that is paused. -/
def Silent (c : Conn) (a : ConnAct) : Prop := Delivers c a → c.sock.ctx.paused = false

/-- A client that starts to read behind `onConnect`, or without one, is not paused. -/
def StartsUnpaused (c : Conn) : ConnAct → Prop
  | .connected _ =>
    c.onConnect = false ∧ c.sock.handle.readable = true ∧ c.sock.handle.writable = true →
      c.sock.ctx.paused = false
  | .sock .ret =>
    c.stage.isConnected = true ∧ c.sock.depth = 0 ∧ c.sock.handle.closing = false ∧
      c.sock.handle.readable = true → c.sock.ctx.paused = false
  | _ => True

/-- A plugin that returns to a socket with an `onRead`, or hands on what it has read, has not paused
    the socket. -/
def PluginUnpaused (c : Conn) : ConnAct → Prop
  | .sock .ret =>
    c.sock.depth = 0 ∧ c.sock.phase.isPlugin = true ∧ c.sock.callbacks.onRead = true →
      c.sock.ctx.paused = false
  | .handOn => c.sock.ctx.paused = false
  | _ => True

/-! ### Instances -/

instance (s : Sock) : Decidable s.Quiet := inferInstanceAs (Decidable (_ → _))

instance (c : Conn) (a : ConnAct) : Decidable (Delivers c a) := by
  unfold Delivers
  split <;> infer_instance

instance (c : Conn) (a : ConnAct) : Decidable (Silent c a) := inferInstanceAs (Decidable (_ → _))

instance (c : Conn) (a : ConnAct) : Decidable (StartsUnpaused c a) := by
  unfold StartsUnpaused
  split <;> infer_instance

instance (c : Conn) (a : ConnAct) : Decidable (PluginUnpaused c a) := by
  unfold PluginUnpaused
  split <;> infer_instance

/-! ### The steps of a connected socket -/

/-- Paused as before, and reading only if before. -/
structure ReadsLess (s s' : Sock) : Prop where
  paused : s'.ctx.paused = s.ctx.paused
  reading : s'.handle.reading = true → s.handle.reading = true

theorem ReadsLess.trans {s s' s'' : Sock} (p : ReadsLess s s') (q : ReadsLess s' s'') :
    ReadsLess s s'' where
  paused := q.paused.trans p.paused
  reading := p.reading ∘ q.reading

/-- Fields that have nothing to do with reading. -/
theorem ReadsLess.of_eq {s s' : Sock} (hpaused : s'.ctx.paused = s.ctx.paused)
    (hreading : s'.handle.reading = s.handle.reading) : ReadsLess s s' where
  paused := hpaused
  reading := hreading.symm.trans

theorem ReadsLess.quiet {s s' : Sock} (p : ReadsLess s s') (hs : s.Quiet) : s'.Quiet := by
  intro hpaused
  have hstopped := hs (p.paused.symm.trans hpaused)
  by_contra hreading
  have hreading := p.reading (eq_true_of_ne_false hreading)
  exact Bool.false_ne_true (hstopped.symm.trans hreading)

section ReadsLess

variable (s : Sock) (r : WriteReq) (pq : List WriteReq) (d : Bool)

theorem uvClose_readsLess : ReadsLess s s.uvClose := by
  unfold Sock.uvClose
  split
  · exact ReadsLess.of_eq rfl rfl
  · exact ⟨rfl, fun h => absurd h Bool.false_ne_true⟩

theorem afterWriteClose_readsLess : ReadsLess s (s.afterWriteClose r pq d) := by
  unfold Sock.afterWriteClose
  split
  · apply (uvClose_readsLess s).trans
    exact ReadsLess.of_eq rfl rfl
  · exact ReadsLess.of_eq rfl rfl

theorem afterWriteDrained_readsLess : ReadsLess s (s.afterWriteDrained r pq d) := by
  have hunblock : ReadsLess s s.unblock := ReadsLess.of_eq rfl rfl
  exact hunblock.trans (afterWriteClose_readsLess s.unblock r pq d)

theorem afterWriteStatus_readsLess : ReadsLess s (s.afterWriteStatus r pq d) := by
  obtain ⟨_, -, -, heq⟩ | ⟨_, -, -, -, heq⟩ | ⟨-, -, -, heq⟩ | ⟨-, -, -, -, heq⟩ |
    ⟨-, -, -, -, heq⟩ := afterWriteStatus_cases s r pq d
  all_goals rw [heq]
  · exact ReadsLess.of_eq rfl rfl
  · exact ReadsLess.of_eq rfl rfl
  · exact afterWriteClose_readsLess s r pq d
  · exact afterWriteDrained_readsLess s r pq d
  · exact ReadsLess.of_eq rfl rfl

theorem released_readsLess : ReadsLess s (s.released r) := by
  unfold Sock.released Stream.release
  split <;> exact ReadsLess.of_eq rfl rfl

theorem afterWrite_readsLess : ReadsLess s (s.afterWrite r pq d) := by
  rw [afterWrite_eq]
  split
  · apply (released_readsLess s r).trans
    exact ReadsLess.of_eq rfl rfl
  · exact (released_readsLess s r).trans (afterWriteStatus_readsLess _ r pq d)

theorem afterShutdown_readsLess : ReadsLess s s.afterShutdown := by
  unfold Sock.afterShutdown
  split
  · exact ReadsLess.of_eq rfl rfl
  · exact uvClose_readsLess s

theorem closed_readsLess : ReadsLess s s.closed := by
  unfold Sock.closed
  split <;> exact ReadsLess.of_eq rfl rfl

theorem onClose_readsLess : ReadsLess s s.onClose := by
  unfold Sock.onClose
  simp only
  split
  · exact ReadsLess.of_eq rfl rfl
  · refine ReadsLess.trans ?_ (closed_readsLess _)
    exact ReadsLess.of_eq rfl rfl

theorem afterPlugin_readsLess : ReadsLess s s.afterPlugin := by
  unfold Sock.afterPlugin
  split <;> exact ReadsLess.of_eq rfl rfl

theorem afterReadData_readsLess (nread : Nat) : ReadsLess s (s.afterReadData nread) := by
  unfold Sock.afterReadData
  simp only
  split
  · exact ReadsLess.of_eq rfl rfl
  · refine ReadsLess.trans ?_ (afterPlugin_readsLess _)
    exact ReadsLess.of_eq rfl rfl

theorem ended_readsLess : ReadsLess s s.ended := by
  unfold Sock.ended
  simp only
  split <;> exact ⟨rfl, fun h => absurd h Bool.false_ne_true⟩

theorem readFailed_readsLess : ReadsLess s s.readFailed := by
  have hcount : ReadsLess s s.countReadError := ReadsLess.of_eq rfl rfl
  apply (hcount.trans (uvClose_readsLess _)).trans
  exact ⟨rfl, fun h => absurd h Bool.false_ne_true⟩

theorem close_readsLess (doShutdown : Bool) : ReadsLess s (s.close doShutdown) := by
  unfold Sock.close Stream.shutdown
  split
  · split <;> exact ReadsLess.of_eq rfl rfl
  · exact afterShutdown_readsLess s

end ReadsLess

theorem write_readsLess {s s' : Sock} {len off : Nat} {tried queued : Answer}
    (h : s.write len off tried queued = some s') : ReadsLess s s' := by
  have hreading := (write_sameLife h).flags.reading
  obtain ⟨bytes, -, ⟨-, rfl⟩ | ⟨handle, r, -, -, hcase⟩⟩ := write_cases h
  · exact ReadsLess.of_eq rfl rfl
  · obtain ⟨-, hq⟩ | ⟨-, -, -, rfl⟩ | ⟨-, -, hq⟩ | ⟨-, -, rfl⟩ := hcase
    · obtain ⟨_, -, rfl⟩ := Option.map_eq_some_iff.mp hq
      exact ReadsLess.of_eq rfl hreading
    · exact ReadsLess.of_eq rfl hreading
    · obtain ⟨_, -, rfl⟩ := Option.map_eq_some_iff.mp hq
      exact ReadsLess.of_eq rfl hreading
    · exact ReadsLess.of_eq rfl hreading

private theorem ret_readsLess {s s' : Sock} (h : s.ret = some s') : ReadsLess s s' := by
  cases ret_cases h with
  | inner | outside | onRead | pluginClose | onWriteError => exact ReadsLess.of_eq rfl rfl
  | onWrite => exact afterWriteStatus_readsLess s _ _ _
  | onDrain => exact afterWriteDrained_readsLess s _ _ _
  | plugin => exact afterPlugin_readsLess s
  | onEnd => exact ended_readsLess s
  | onReadError => exact readFailed_readsLess s
  | onClose => exact closed_readsLess s

private theorem next_readsLess {s s' : Sock} (h : s.next = some s') : ReadsLess s s' := by
  cases next_cases h with
  | report => exact afterWrite_readsLess s _ _ _
  | reported | flushed | notShutting => exact ReadsLess.of_eq rfl rfl
  | cancelled =>
    refine ReadsLess.trans ?_ (afterShutdown_readsLess _)
    exact ReadsLess.of_eq rfl rfl
  | closeCallback => exact onClose_readsLess s

private theorem drain_readsLess {s s' : Sock} {ok : Bool} (h : s.drain ok = some s') :
    ReadsLess s s' := by
  cases drain_cases h with
  | shutdown =>
    refine ReadsLess.trans ?_ (afterShutdown_readsLess _)
    exact ReadsLess.of_eq rfl rfl
  | nothing => exact ReadsLess.of_eq rfl rfl

/-- **Only `Pause` and `Resume`** touch the flag, and only `Resume` starts to read. -/
theorem step_readsLess {s s' : Sock} {a : Act} (h : step s a = some s') (hpause : a ≠ .pause)
    (hresume : a ≠ .resume) : ReadsLess s s' := by
  unfold step at h
  split at h
  · contradiction
  · cases a with
    | pause => contradiction
    | resume => contradiction
    | ret => exact ret_readsLess h
    | next =>
      obtain ⟨-, h⟩ := Option.ite_none_right_eq_some.mp h
      exact next_readsLess h
    | drain ok =>
      obtain ⟨-, h⟩ := Option.ite_none_right_eq_some.mp h
      exact drain_readsLess h
    | write len off tried queued =>
      obtain ⟨-, h⟩ := Option.ite_none_right_eq_some.mp h
      exact write_readsLess h
    | ioWrite a =>
      obtain ⟨-, h⟩ := Option.ite_none_right_eq_some.mp h
      obtain ⟨handle, hcall, h⟩ := Option.map_eq_some_iff.mp h
      cases h
      exact ReadsLess.of_eq rfl (write1_sameFlags hcall).reading
    | close doShutdown =>
      obtain ⟨-, h⟩ := Option.ite_none_right_eq_some.mp h
      cases h
      exact close_readsLess s doShutdown
    | readData nread =>
      obtain ⟨-, h⟩ := Option.ite_none_right_eq_some.mp h
      cases h
      exact afterReadData_readsLess s nread
    | readEof =>
      obtain ⟨-, h⟩ := Option.ite_none_right_eq_some.mp h
      cases h
      split
      · exact ReadsLess.of_eq rfl rfl
      · exact ended_readsLess s
    | readError =>
      obtain ⟨-, h⟩ := Option.ite_none_right_eq_some.mp h
      cases h
      split
      · exact ReadsLess.of_eq rfl rfl
      · exact readFailed_readsLess s
    | enter | fill | on | destroy =>
      obtain ⟨-, h⟩ := Option.ite_none_right_eq_some.mp h
      cases h
      exact ReadsLess.of_eq rfl rfl

/-- A connected socket that is paused does not read. -/
theorem step_quiet {s s' : Sock} {a : Act} (hs : s.Quiet) (h : step s a = some s') : s'.Quiet := by
  by_cases hpause : a = .pause
  · subst hpause
    obtain ⟨-, h⟩ := Option.ite_none_left_eq_some.mp h
    obtain ⟨-, h⟩ := Option.ite_none_right_eq_some.mp h
    cases h
    exact fun _ => rfl
  · by_cases hresume : a = .resume
    · subst hresume
      obtain ⟨-, h⟩ := Option.ite_none_left_eq_some.mp h
      obtain ⟨-, h⟩ := Option.ite_none_right_eq_some.mp h
      cases h
      unfold Sock.resume
      split
      · exact fun hpaused => absurd hpaused Bool.false_ne_true
      · exact hs
    · exact (step_readsLess h hpause hresume).quiet hs

/-! ### The steps of a connection -/

theorem connectDone_reads (s : Sock) (failed : Bool) :
    (s.connectDone failed).ctx.paused = s.ctx.paused ∧
      (s.connectDone failed).handle.reading = s.handle.reading := by
  unfold Sock.connectDone
  split <;> exact ⟨rfl, rfl⟩

/-- Behind the callback the assertion fails on a handle that cannot be read; any other is read. -/
theorem conn_readStart_cases (c : Conn) (failed : Bool) :
    ((c.sock.handle.closing = true ∨ c.sock.handle.readable = false) ∧
        c.readStart failed = c.lost) ∨
      (c.sock.handle.closing = false ∧ c.sock.handle.readable = true ∧
        (c.readStart failed).sock.ctx.paused = c.sock.ctx.paused ∧
        (c.readStart failed).sock.handle.reading = true) := by
  unfold Conn.readStart
  obtain ⟨hzero, hopen, hreadable, hstart⟩ | ⟨hne, hno, -⟩ := readStart_cases c.sock.handle
  · rw [if_pos hzero, hstart]
    obtain ⟨hpaused, hreading⟩ := connectDone_reads
      { c.sock with handle := { c.sock.handle with reading := true } } failed
    exact Or.inr ⟨hopen, hreadable, hpaused, hreading⟩
  · rw [if_neg hne]
    exact Or.inl ⟨hno, rfl⟩

/-- So it is read, paused or not. -/
theorem readStart_quiet {c : Conn} {failed : Bool} (hs : c.sock.Quiet) :
    (c.readStart failed).sock.Quiet ↔
      (c.sock.handle.closing = false ∧ c.sock.handle.readable = true →
        c.sock.ctx.paused = false) := by
  obtain ⟨hno, heq⟩ | ⟨hopen, hreadable, hpaused, hreading⟩ := conn_readStart_cases c failed
  · rw [heq]
    refine iff_of_true hs fun hyes => ?_
    obtain hc | hr := hno
    · exact absurd (hyes.1.symm.trans hc) Bool.false_ne_true
    · exact absurd (hr.symm.trans hyes.2) Bool.false_ne_true
  · rw [Sock.Quiet, hpaused, hreading]
    constructor
    · exact fun h _ => eq_false_of_ne_true fun hp => Bool.false_ne_true (h hp).symm
    · exact fun h hp => absurd ((h ⟨hopen, hreadable⟩).symm.trans hp) Bool.false_ne_true

theorem writeConnecting_quiet {s s' : Sock} {len off : Nat} (hs : s.Quiet)
    (h : s.writeConnecting len off = some s') : s'.Quiet := by
  obtain ⟨bytes, -, ⟨-, rfl⟩ | ⟨-, -, _, -, rfl⟩ | ⟨-, -, rfl⟩⟩ := writeConnecting_cases h
  all_goals exact hs

/-- Where nothing is started behind a callback. -/
theorem startsUnpaused_of_inner {c : Conn} {a : Act}
    (h : ∀ failed, c.stage = .connected failed → ¬ (a = .ret ∧ c.sock.depth = 0)) :
    StartsUnpaused c (.sock a) := by
  cases a with
  | ret =>
    rintro ⟨hstage, hdepth, -⟩
    cases hc : c.stage with
    | connected failed => exact absurd ⟨rfl, hdepth⟩ (h failed hc)
    | _ =>
      rw [hc] at hstage
      contradiction
  | _ => trivial

/-- **Step lemma.** A socket that does not read while it is paused goes on like that, unless a
    client is paused when reading starts. -/
theorem conn_step_quiet {c c' : Conn} {a : ConnAct} (hc : c.Placed) (hs : c.sock.Quiet)
    (h : c.step a = some c') : c'.sock.Quiet ↔ StartsUnpaused c a := by
  obtain ⟨-, hact⟩ := Option.ite_none_left_eq_some.mp h
  cases a with
  | onConnect | attach | handOn =>
    obtain ⟨-, hact⟩ := Option.ite_none_right_eq_some.mp hact
    cases hact
    exact iff_of_true hs trivial
  | connected failed =>
    obtain ⟨⟨-, -, -, hopen, -⟩, hact⟩ := Option.ite_none_right_eq_some.mp hact
    cases hact
    have hopen := eq_false_of_ne_true hopen
    unfold Conn.onClientConnection
    split
    · -- the handle is none that can be used, and nothing is started
      rename_i hno
      obtain ⟨hpaused, hreading⟩ := connectDone_reads c.sock failed
      have hquiet : (c.connectDone failed).sock.Quiet := by
        rw [Sock.Quiet]
        exact fun hp => hreading.trans (hs (hpaused.symm.trans hp))
      refine iff_of_true hquiet fun ⟨_, hreadable, hwritable⟩ => ?_
      simp [hreadable, hwritable, hopen] at hno
    · rename_i hyes
      simp only [not_or, not_not] at hyes
      split
      · rename_i hset
        exact iff_of_true hs fun ⟨hno, _⟩ => absurd (hno.symm.trans hset) Bool.false_ne_true
      · rename_i hset
        rw [readStart_quiet hs]
        exact ⟨fun hp _ => hp ⟨hopen, hyes.1⟩,
          fun hp _ => hp ⟨eq_false_of_ne_true hset, hyes.1, hyes.2.1⟩⟩
  | sock a =>
    cases sockStep_cases h with
    | sock step _ _ inner => exact iff_of_true (step_quiet hs step) (startsUnpaused_of_inner inner)
    | wait _ call => exact iff_of_true (writeConnecting_quiet hs call) trivial
    | readStart stage depth =>
      rw [readStart_quiet hs, StartsUnpaused, stage]
      exact ⟨fun hp hall => hp hall.2.2, fun hp hopen => hp ⟨rfl, depth, hopen⟩⟩
    | reported => exact iff_of_true hs trivial
    | accepted stage =>
      -- `context_init` resets the flag
      refine iff_of_true (fun hpaused => absurd hpaused Bool.false_ne_true) ?_
      exact startsUnpaused_of_inner fun _ h => Stage.noConfusion (stage.symm.trans h)
    | unopened stage handle =>
      -- the socket of a server has no handle to be read yet
      have hreading := congrArg Stream.reading (handle.trans (hc.accepting stage).handle)
      refine iff_of_true (fun _ => hreading) ?_
      exact startsUnpaused_of_inner fun _ h => Stage.noConfusion (stage.symm.trans h)

/-- Data is read from a handle that reads. -/
theorem reading_of_readData {c c' : Conn} {nread : Nat}
    (h : c.step (.sock (.readData nread)) = some c') : c.sock.handle.reading = true := by
  cases sockStep_cases h with
  | sock step =>
    obtain ⟨-, step⟩ := Option.ite_none_left_eq_some.mp step
    exact (Option.ite_none_right_eq_some.mp step).1.2.2.1
  | unopened _ _ _ _ noData => exact absurd rfl (noData nread)

/-- What is left to go wrong with a delivery is a plugin. -/
theorem silent_iff {c c' : Conn} {a : ConnAct} (hs : c.sock.Quiet) (h : c.step a = some c') :
    Silent c a ↔ PluginUnpaused c a := by
  cases a with
  | onConnect | connected | attach => exact iff_of_true False.elim trivial
  | handOn => exact ⟨fun h => h trivial, fun h _ => h⟩
  | sock a =>
    cases a with
    | ret => exact Iff.rfl
    | readData nread =>
      refine iff_of_true (fun _ => ?_) trivial
      exact eq_false_of_ne_true fun hpaused =>
        Bool.false_ne_true ((hs hpaused).symm.trans (reading_of_readData h))
    | _ => exact iff_of_true False.elim trivial

theorem quiet_obtained (way : Way) (out : List UInt8) (callbacks : Callbacks)
    (plugins : List Plugins.Kind) (onConnect : Bool) :
    (Conn.obtained way out callbacks plugins onConnect).sock.Quiet := by
  cases way <;> exact fun _ => rfl

/-- **A paused socket delivers nothing**, and does not read, exactly when no client is paused where
    reading starts and no plugin hands anything on, to another one or to an `onRead`, for a socket
    that is paused. -/
theorem paused_iff {way : Way} {out : List UInt8} {callbacks : Callbacks}
    {plugins : List Plugins.Kind} {onConnect : Bool} {as : List ConnAct} {c : Conn}
    (hrun : run Conn.step (Conn.obtained way out callbacks plugins onConnect) as = some c) :
    ((∀ bs cs u, as = bs ++ cs →
          run Conn.step (Conn.obtained way out callbacks plugins onConnect) bs = some u →
          u.sock.Quiet) ∧
        Along Conn.step Silent (Conn.obtained way out callbacks plugins onConnect) as) ↔
      Along Conn.step StartsUnpaused (Conn.obtained way out callbacks plugins onConnect) as ∧
        Along Conn.step PluginUnpaused (Conn.obtained way out callbacks plugins onConnect) as := by
  have hplaced := placed_obtained way out callbacks plugins onConnect
  have hquiet := quiet_obtained way out callbacks plugins onConnect
  have hprefixes := forall_prefix_iff_along (I := Conn.Placed) (G := fun c => c.sock.Quiet)
    (fun _ _ _ hc hs hstep => ⟨conn_step_placed hc hstep, conn_step_quiet hc hs hstep⟩) hplaced
    hquiet hrun
  rw [hprefixes]
  refine and_congr_right fun hstarts => ?_
  -- as long as no client is paused there, no paused socket reads
  have hkeep : ∀ c a c', c.Placed ∧ c.sock.Quiet → StartsUnpaused c a → c.step a = some c' →
      c'.Placed ∧ c'.sock.Quiet :=
    fun c a c' hc hunpaused hstep =>
      ⟨conn_step_placed hc.1 hstep, (conn_step_quiet hc.1 hc.2 hstep).mpr hunpaused⟩
  constructor
  · intro hsilent
    refine Along.imp (fun c a c' hc hp => hkeep c a c' hc hp.1) ?_ ⟨hplaced, hquiet⟩ hrun
      (along_and.mpr ⟨hstarts, hsilent⟩)
    exact fun c a c' hc hp hstep => (silent_iff hc.2 hstep).mp hp.2
  · intro hplugin
    refine Along.imp (fun c a c' hc hp => hkeep c a c' hc hp.1) ?_ ⟨hplaced, hquiet⟩ hrun
      (along_and.mpr ⟨hstarts, hplugin⟩)
    exact fun c a c' hc hp hstep => (silent_iff hc.2 hstep).mpr hp.2

/-- A server pauses an accepted socket in `onRead`, behind two plugins of which the first hands on
    what it has read, and resumes it later. -/
def pausedInOnRead : List ConnAct :=
  [.attach .httpParser, .sock .ret, .sock (.readData 5), .handOn, .sock .ret, .sock .ret,
    .sock .pause, .sock .ret, .sock .enter, .sock .resume, .sock .ret, .sock (.readData 3)]

theorem paused_iff_pausedInOnRead : ∃ c,
    run Conn.step (Conn.obtained .accept [] { onRead := true } [.httpParser] true) pausedInOnRead =
        some c ∧
      Along Conn.step Silent (Conn.obtained .accept [] { onRead := true } [.httpParser] true)
        pausedInOnRead :=
  ⟨_, rfl, ((paused_iff rfl).mpr (by decide)).2⟩

/-- A client pauses itself in `onConnect`. -/
def pausedInOnConnect : List ConnAct :=
  [.sock .ret, .connected false, .sock .pause, .sock .ret]

/-- A plugin pauses the socket while it reads. -/
def pausedInPlugin : List ConnAct := [.sock .ret, .sock (.readData 5), .sock .pause]

/-- The client reads all the same, and what it reads is delivered; so is what a plugin has read, to
    `onRead` or to the next plugin. -/
theorem not_paused_onConnect :
    (∃ c, run Conn.step (Conn.obtained (.connect true) [] { onRead := true } [] true)
        pausedInOnConnect = some c ∧ ¬ c.sock.Quiet) ∧
      ¬ Along Conn.step Silent (Conn.obtained (.connect true) [] { onRead := true } [] true)
        (pausedInOnConnect ++ [.sock (.readData 5)]) ∧
      ¬ Along Conn.step Silent (Conn.obtained .accept [] { onRead := true } [.httpParser] true)
        (pausedInPlugin ++ [.sock .ret]) ∧
      ¬ Along Conn.step Silent (Conn.obtained .accept [] {} [.httpParser, .picoHttpParser] true)
        (pausedInPlugin ++ [.handOn]) := by
  refine ⟨⟨_, rfl, by decide⟩, by decide, by decide, by decide⟩

end Dv8.Socket
