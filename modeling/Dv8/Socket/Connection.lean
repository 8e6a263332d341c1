import Dv8.Plugins.Chain
import Dv8.Socket.Steps

namespace Dv8.Socket

open Dv8.Lib Dv8.Uv
open Dv8.Plugins (Kind)

/-!
# How a socket comes to be connected

A `Conn` is a `Socket` together with the way its connection is made, from the return of `Connect`,
the call of `Open`, or the callback in which a server makes the socket for the connection it has
accepted.  From then on it is the machine `step`, with the plugins attached to it.  A `Conn` is one
connection: `on_close` frees the context with the handle.

While the attempt goes on (`Stage.connecting`) `uv_try_write` makes every call wait, and `uv_write`
queues its request, or refuses it on a handle that is closed or was never opened.  Behind the
attempt come `on_client_connection` and, if it has failed, the end of the requests that wait.

* `Conn.obtained` — where a connection starts; `obtained_accept_ret` — a server's becomes
  `Sock.connected`;
* `sockStep_cases` — what an action of the socket does to its connection;
* `conn_step_cases` — what a step of a connection does to its socket: a step of the socket, a
  request that waits, a failed attempt, `context_init`, or nothing to what is written and closed.
-/

/-- Where a socket is before it is connected; the flag says that the attempt has failed. -/
inductive Stage where
  | connecting
  /-- `onConnect` of a client is running -/
  | connected (failed : Bool)
  /-- what waited for a failed attempt is being reported -/
  | failed
  /-- `onConnect` of the server is running, and is going to return the socket -/
  | accepting
  | ready
  deriving DecidableEq, Repr

structure Conn where
  sock : Sock
  /-- `callbacks.onConnect` -/
  onConnect : Bool := false
  /-- from `first` to `last` -/
  plugins : List Kind := []
  stage : Stage
  deriving DecidableEq, Repr

/-- A step of the socket, or a step of its connection. -/
inductive ConnAct where
  | sock (a : Act)
  /-- the setter of `onConnect` -/
  | onConnect
  /-- the attempt is over -/
  | connected (failed : Bool)
  /-- `SecureSocket::Setup`, `HTTPParser::Reset` or `PicoHTTPParser::Reset` with this socket -/
  | attach (kind : Kind)
  /-- a plugin calls `onRead` of the next one, or a `SecureSocket` its own -/
  | handOn
  deriving DecidableEq, Repr

/-- What waited for a failed attempt is cancelled by `uv__stream_connect`. -/
def Sock.connectDone (s : Sock) (failed : Bool) : Sock :=
  if failed then
    { s with handle := { s.handle.flush with closed := s.handle.closed, completed := [] }
             phase := .reporting s.handle.flush.completed false }
  else { s with phase := .loop }

/-- The attempt is over, and reported. -/
def Conn.connectDone (c : Conn) (failed : Bool) : Conn :=
  { c with sock := c.sock.connectDone failed, stage := if failed then .failed else .ready }

/-- An assertion fails, or a null handle is used. -/
def Conn.lost (c : Conn) : Conn := { c with sock := { c.sock with aborted := true } }

/-- `on_client_connection` behind its callback: `uv_read_start`, and the assertion that it
    succeeds. -/
def Conn.readStart (c : Conn) (failed : Bool) : Conn :=
  if c.sock.handle.readStart.2 = 0 then
    { c with sock := { c.sock with handle := c.sock.handle.readStart.1 } }.connectDone failed
  else c.lost

/-- `on_client_connection` and `onNewConnection`. -/
def Conn.onClientConnection (c : Conn) (failed : Bool) : Conn :=
  if ¬ c.sock.handle.readable ∨ ¬ c.sock.handle.writable ∨ c.sock.handle.closing then
    c.connectDone failed
  else if c.onConnect then
    { c with sock := { c.sock with phase := .outside }, stage := .connected failed }
  else c.readStart failed

/-- `uv_write` while `connect_req` is set. -/
def uvWriteConnecting (h : Stream) (bytes : List UInt8) : Stream × Int :=
  if h.closing then (h, EBADF)
  else if ¬ h.writable then (h, EPIPE)
  else (h.enqueue bytes, 0)

/-- `Socket::Write` has made a request and handed it to `uv_write`. -/
def Sock.requested (s : Sock) (handle : Stream) (call : Call) : Sock :=
  { s with handle := handle
           ctx := { s.ctx with blocked := true
                               stats := { s.ctx.stats with
                                 alloc := s.ctx.stats.alloc + 1
                                 eagain := s.ctx.stats.eagain + 1 } }
           calls := s.calls ++ [call] }

/-- `Socket::Write` while the attempt goes on. -/
def Sock.writeConnecting (s : Sock) (len off : Nat) : Option Sock :=
  (readAt s.ctx.out off len).map fun bytes =>
    if s.ctx.closing then { s with calls := s.calls ++ [⟨bytes, -1⟩] }
    else
      let (handle, status) := uvWriteConnecting s.handle bytes
      s.requested handle ⟨bytes, status⟩

/-- While the attempt goes on, nothing else is reported on the handle but its end; a destroyed
    handle fails `on_client_connection`, which returns. -/
def Conn.stepConnecting (c : Conn) (a : Act) : Option Conn :=
  match a with
  -- `uv__stream_io` goes on with the attempt before it looks at anything else
  | .ioWrite _ | .drain _ | .readData _ | .readEof | .readError => none
  | .write len off _ _ =>
    if c.sock.inJs then (c.sock.writeConnecting len off).map fun s => { c with sock := s } else none
  | .destroy => (step c.sock a).map fun s => { c with sock := s, stage := .ready }
  | a => (step c.sock a).map fun s => { c with sock := s }

/-- Behind the requests of a failed attempt control is back in the loop, without `uv__drain`. -/
def Conn.stepFailed (c : Conn) (a : Act) : Option Conn :=
  match a with
  | .drain _ => none
  | .next =>
    if c.sock.phase = .draining then
      some { c with sock := { c.sock with phase := .loop }, stage := .ready }
    else (step c.sock .next).map fun s => { c with sock := s }
  | a => (step c.sock a).map fun s => { c with sock := s }

/-- `on_connection` behind `onConnect`: `context_init` and `uv_read_start`. -/
def Conn.accepted (c : Conn) : Conn :=
  { c with sock := { c.sock with ctx := { out := c.sock.ctx.out }
                                 handle := { c.sock.handle with reading := true }
                                 phase := .loop }
           stage := .ready }

/-- Before `context_init` the socket has no handle. -/
def Conn.stepAccepting (c : Conn) (a : Act) : Option Conn :=
  match a with
  | .ret =>
    if 0 < c.sock.depth then some { c with sock := { c.sock with depth := c.sock.depth - 1 } }
    else some c.accepted
  | .fill _ | .on _ => (step c.sock a).map fun s => { c with sock := s }
  -- `Pause` sets the flag and counts before it uses the null handle
  | .pause =>
    some { c with sock := { c.sock with
                    ctx := { c.sock.ctx with
                      paused := true
                      stats := { c.sock.ctx.stats with pause := c.sock.ctx.stats.pause + 1 } }
                    aborted := true } }
  | .resume => some (if c.sock.ctx.paused then c.lost else c)
  | .write .. | .close _ => some c.lost
  | _ => none

/-- The end that `setup` and both `reset`s share; `SecureSocket::Setup` takes `onRead` over. -/
def Conn.attach (c : Conn) (kind : Kind) : Conn :=
  { c with sock := { c.sock with
                     first := true
                     callbacks := { c.sock.callbacks with
                       onRead := c.sock.callbacks.onRead && decide (kind ≠ .openssl) } }
           plugins := c.plugins ++ [kind] }

/-- A plugin is reading. -/
def Phase.isPlugin : Phase → Bool
  | .plugin _ => true
  | _ => false

/-- The parsers hand on what they have read; a `SecureSocket` also when it writes or is closed. -/
def Conn.HandsOn (c : Conn) : Prop :=
  (c.sock.phase.isPlugin = true ∧ 1 < c.plugins.length) ∨ .openssl ∈ c.plugins

instance (c : Conn) : Decidable c.HandsOn := inferInstanceAs (Decidable (_ ∨ _))

/-- One step. -/
def Conn.step (c : Conn) (a : ConnAct) : Option Conn :=
  if c.sock.aborted then none
  else
    match a with
    | .onConnect => if c.sock.inJs then some { c with onConnect := true } else none
    | .attach kind => if c.sock.inJs then some (c.attach kind) else none
    | .handOn =>
      if c.sock.inJs ∧ c.HandsOn then
        some { c with sock := { c.sock with depth := c.sock.depth + 1 } }
      else none
    | .connected failed =>
      -- a handle that was not opened keeps the error of `connect(2)`
      if c.stage = .connecting ∧ c.sock.phase = .loop ∧ c.sock.depth = 0 ∧
          ¬ c.sock.handle.closing ∧ (c.sock.handle.readable ∨ failed) then
        some (c.onClientConnection failed)
      else none
    | .sock a =>
      match c.stage with
      | .connecting => c.stepConnecting a
      | .connected failed =>
        if a = .ret ∧ c.sock.depth = 0 then some (c.readStart failed)
        else (Socket.step c.sock a).map fun s => { c with sock := s }
      | .failed => c.stepFailed a
      | .accepting => c.stepAccepting a
      | .ready => (Socket.step c.sock a).map fun s => { c with sock := s }

/-- How a connection comes about.  A handle is opened by `connect`, unless `connect(2)` fails at
    once for a pipe; for `Open` the descriptor says which ways it goes, neither if libuv does not
    open it. -/
inductive Way where
  | connect (begun : Bool)
  | accept
  | opened (readable writable : Bool)
  deriving DecidableEq, Repr

/-- `Connect` has returned to JavaScript, `Open` has called it, or on the server `onConnect` has
    made the socket it is going to return. -/
def Conn.obtained (way : Way) (out : List UInt8) (callbacks : Callbacks) (plugins : List Kind)
    (onConnect : Bool) : Conn :=
  let sock := { Sock.connected out callbacks (!plugins.isEmpty) with
                  handle := { reading := false }, phase := .outside }
  match way with
  | .connect begun =>
    { sock := { sock with handle := { sock.handle with readable := begun, writable := begun } }
      onConnect := onConnect, plugins := plugins, stage := .connecting }
  | .accept => { sock := sock, onConnect := onConnect, plugins := plugins, stage := .accepting }
  | .opened readable writable =>
    { sock := { sock with ctx := { sock.ctx with paused := true }
                          handle := { sock.handle with readable := readable, writable := writable }
                          depth := if onConnect then 1 else 0 }
      onConnect := onConnect, plugins := plugins, stage := .ready }

/-- **A server's connection** is a connected socket when `onConnect` has returned. -/
theorem obtained_accept_ret (out : List UInt8) (callbacks : Callbacks) (plugins : List Kind)
    (onConnect : Bool) :
    (Conn.obtained .accept out callbacks plugins onConnect).step (.sock .ret) =
      some { sock := Sock.connected out callbacks (!plugins.isEmpty), onConnect := onConnect
             plugins := plugins, stage := .ready } := rfl

/-! ### Where control is before the connection is made -/

/-- A socket that has no handle yet, in the callback of the server. -/
structure Sock.Fresh (s : Sock) : Prop where
  handle : s.handle = { reading := false }
  phase : s.phase = .outside
  calls : s.calls = []
  closeCalls : s.closeCalls = 0
  closing : s.ctx.closing = false
  blocked : s.ctx.blocked = false
  stats : { s.ctx.stats with pause := 0 } = ({} : Stats)

/-- `onConnect` is running. -/
def Stage.inOnConnect : Stage → Bool
  | .connected _ | .accepting => true
  | _ => false

/-- Where control is then. -/
structure Conn.Placed (c : Conn) : Prop where
  connected : ∀ failed, c.stage = .connected failed → c.sock.phase = .outside
  accepting : c.stage = .accepting → c.sock.Fresh

/-- Where `onConnect` is not running nothing is to be known. -/
theorem Conn.Placed.of_stage {c : Conn} (h : c.stage.inOnConnect = false) : c.Placed where
  connected failed hstage := by
    rw [hstage] at h
    contradiction
  accepting hstage := by
    rw [hstage] at h
    contradiction

theorem placed_obtained (way : Way) (out : List UInt8) (callbacks : Callbacks)
    (plugins : List Kind) (onConnect : Bool) :
    (Conn.obtained way out callbacks plugins onConnect).Placed := by
  cases way with
  | accept => exact ⟨fun _ h => Stage.noConfusion h, fun _ => ⟨rfl, rfl, rfl, rfl, rfl, rfl, rfl⟩⟩
  | connect | opened => exact .of_stage rfl

/-- JavaScript that something else has called goes on until it returns. -/
theorem step_outside {s s' : Sock} {a : Act} (hs : s.phase = .outside)
    (hret : ¬ (a = .ret ∧ s.depth = 0)) (h : step s a = some s') : s'.phase = .outside := by
  obtain ⟨-, h⟩ := Option.ite_none_left_eq_some.mp h
  cases a with
  | ret =>
    cases ret_cases h with
    | inner => exact hs
    | _ hdepth => exact absurd ⟨rfl, hdepth⟩ hret
  | write =>
    obtain ⟨-, h⟩ := Option.ite_none_right_eq_some.mp h
    rw [(write_sameLife h).phase, hs]
  | close doShutdown =>
    obtain ⟨-, h⟩ := Option.ite_none_right_eq_some.mp h
    cases h
    rw [close_phase, hs]
  | resume =>
    obtain ⟨-, h⟩ := Option.ite_none_right_eq_some.mp h
    cases h
    rw [resume_phase, hs]
  | pause | fill | on =>
    obtain ⟨-, h⟩ := Option.ite_none_right_eq_some.mp h
    cases h
    exact hs
  | next =>
    obtain ⟨-, h⟩ := Option.ite_none_right_eq_some.mp h
    simp [Sock.next, hs] at h
  | drain =>
    obtain ⟨-, h⟩ := Option.ite_none_right_eq_some.mp h
    simp [Sock.drain, hs] at h
  | _ => simp [hs] at h

/-! ### What a step does to the socket -/

/-- What most steps of a connection leave alone, besides the handle. -/
def Sock.kept (s : Sock) : Bool × Bool × Stats × List Call × Nat × Bool :=
  (s.ctx.closing, s.ctx.blocked, { s.ctx.stats with pause := 0 }, s.calls, s.closeCalls,
    s.callbacks.onWrite)

/-- Nothing happens to what is written and closed: control may go to JavaScript and back, and
    reading may start. -/
structure Aside (s s' : Sock) : Prop where
  handle : s'.handle = { s.handle with reading := s'.handle.reading }
  kept : s'.kept = s.kept
  phase : s'.phase = s.phase ∨ (s.phase.calm = true ∧ (s'.phase = .loop ∨ s'.phase = .outside))
  depth : s.inJs = false → s'.depth = s.depth

/-- Control stays where it is. -/
theorem Aside.of_kept {s s' : Sock} (hhandle : s'.handle = s.handle) (hkept : s'.kept = s.kept)
    (hphase : s'.phase = s.phase) (hdepth : s.inJs = false → s'.depth = s.depth) : Aside s s' where
  handle := by rw [hhandle]
  kept := hkept
  phase := Or.inl hphase
  depth := hdepth

/-- The action is a call of `Socket::Write`. -/
def Act.isWrite : Act → Bool
  | .write .. => true
  | _ => false

/-- No call of `Socket::Write` reaches the kernel. -/
def Stage.early : Stage → Bool
  | .connecting | .accepting => true
  | _ => false

/-- What an action of the socket does to its connection. -/
inductive SockStep (c : Conn) : Act → Conn → Prop
  /-- what it does to a connected socket; a handle that is destroyed ends the attempt -/
  | sock {a s stage} (step : Socket.step c.sock a = some s)
      (late : a.isWrite = true → c.stage.early = false) (stays : stage = c.stage ∨ stage = .ready)
      (inner : ∀ failed, c.stage = .connected failed → ¬ (a = .ret ∧ c.sock.depth = 0))
      (fresh : c.stage = .accepting → c.sock.Fresh → s.Fresh) :
      SockStep c a { c with sock := s, stage := stage }
  /-- a call of `Socket::Write` while the attempt goes on -/
  | wait {len off tried queued s} (stage : c.stage = .connecting)
      (call : c.sock.writeConnecting len off = some s) :
      SockStep c (.write len off tried queued) { c with sock := s }
  /-- `onConnect` of a client returns -/
  | readStart {failed} (stage : c.stage = .connected failed) (depth : c.sock.depth = 0) :
      SockStep c .ret (c.readStart failed)
  /-- what waited for a failed attempt has been reported -/
  | reported (stage : c.stage = .failed) (phase : c.sock.phase = .draining) :
      SockStep c .next { c with sock := { c.sock with phase := .loop }, stage := .ready }
  /-- `onConnect` of the server returns -/
  | accepted (stage : c.stage = .accepting) : SockStep c .ret c.accepted
  /-- before that there is no handle -/
  | unopened {a s} (stage : c.stage = .accepting) (handle : s.handle = c.sock.handle)
      (kept : s.kept = c.sock.kept) (phase : s.phase = c.sock.phase)
      (noData : ∀ nread, a ≠ .readData nread) : SockStep c a { c with sock := s }

/-- While `onConnect` is not running. -/
private theorem SockStep.of_step {c : Conn} {a : Act} {s : Sock} {stage : Stage}
    (hstage : c.stage.inOnConnect = false) (hstep : Socket.step c.sock a = some s)
    (hlate : a.isWrite = true → c.stage.early = false) (hstays : stage = c.stage ∨ stage = .ready) :
    SockStep c a { c with sock := s, stage := stage } := by
  refine .sock hstep hlate hstays (fun failed h => ?_) fun h => ?_
  all_goals
    rw [h] at hstage
    contradiction

private theorem SockStep.of_stepConnecting {c c' : Conn} {a : Act} (hstage : c.stage = .connecting)
    (h : c.stepConnecting a = some c') : SockStep c a c' := by
  have houtside : c.stage.inOnConnect = false := by rw [hstage]; rfl
  cases a with
  | ioWrite | drain | readData | readEof | readError => contradiction
  | write len off tried queued =>
    obtain ⟨-, h⟩ := Option.ite_none_right_eq_some.mp h
    obtain ⟨s, hcall, rfl⟩ := Option.map_eq_some_iff.mp h
    exact .wait hstage hcall
  | destroy =>
    obtain ⟨s, hstep, rfl⟩ := Option.map_eq_some_iff.mp h
    exact .of_step houtside hstep (fun h => absurd h Bool.false_ne_true) (Or.inr rfl)
  | _ =>
    obtain ⟨s, hstep, rfl⟩ := Option.map_eq_some_iff.mp h
    exact .of_step houtside hstep (fun h => absurd h Bool.false_ne_true) (Or.inl rfl)

private theorem SockStep.of_stepFailed {c c' : Conn} {a : Act} (hstage : c.stage = .failed)
    (h : c.stepFailed a = some c') : SockStep c a c' := by
  have hsock {s} (hstep : Socket.step c.sock a = some s) : SockStep c a { c with sock := s } :=
    .of_step (by rw [hstage]; rfl) hstep (fun _ => by rw [hstage]; rfl) (Or.inl rfl)
  cases a with
  | drain => contradiction
  | next =>
    unfold Conn.stepFailed at h
    simp only at h
    split at h
    · rename_i hphase
      cases h
      exact .reported hstage hphase
    · obtain ⟨s, hstep, rfl⟩ := Option.map_eq_some_iff.mp h
      exact hsock hstep
  | _ =>
    obtain ⟨s, hstep, rfl⟩ := Option.map_eq_some_iff.mp h
    exact hsock hstep

private theorem SockStep.of_stepAccepting {c c' : Conn} {a : Act} (hstage : c.stage = .accepting)
    (h : c.stepAccepting a = some c') : SockStep c a c' := by
  cases a with
  | ret =>
    unfold Conn.stepAccepting at h
    simp only at h
    split at h
    · cases h
      exact .unopened hstage rfl rfl rfl fun _ h => Act.noConfusion h
    · cases h
      exact .accepted hstage
  | fill | on =>
    obtain ⟨s, hstep, rfl⟩ := Option.map_eq_some_iff.mp h
    refine .sock hstep (fun h => absurd h Bool.false_ne_true) (Or.inl rfl)
      (fun _ h => Stage.noConfusion (hstage.symm.trans h)) fun _ hs => ?_
    obtain ⟨-, hstep⟩ := Option.ite_none_left_eq_some.mp hstep
    obtain ⟨-, hstep⟩ := Option.ite_none_right_eq_some.mp hstep
    cases hstep
    exact ⟨hs.handle, hs.phase, hs.calls, hs.closeCalls, hs.closing, hs.blocked, hs.stats⟩
  | pause | write | close =>
    cases h
    exact .unopened hstage rfl rfl rfl fun _ h => Act.noConfusion h
  | resume =>
    cases h
    split <;> exact .unopened hstage rfl rfl rfl fun _ h => Act.noConfusion h
  | _ => contradiction

/-- **An action of the socket** is one of the listed ones. -/
theorem sockStep_cases {c c' : Conn} {a : Act} (h : c.step (.sock a) = some c') :
    SockStep c a c' := by
  obtain ⟨-, hact⟩ := Option.ite_none_left_eq_some.mp h
  clear h
  cases hstage : c.stage with
  | connecting =>
    simp only [hstage] at hact
    exact .of_stepConnecting hstage hact
  | connected failed =>
    simp only [hstage] at hact
    split at hact
    · rename_i hret
      obtain ⟨rfl, hdepth⟩ := hret
      cases hact
      exact .readStart hstage hdepth
    · rename_i hret
      obtain ⟨s, hstep, rfl⟩ := Option.map_eq_some_iff.mp hact
      exact .sock hstep (fun _ => by rw [hstage]; rfl) (Or.inl hstage.symm) (fun _ _ => hret)
        fun h => Stage.noConfusion (hstage.symm.trans h)
  | failed =>
    simp only [hstage] at hact
    exact .of_stepFailed hstage hact
  | accepting =>
    simp only [hstage] at hact
    exact .of_stepAccepting hstage hact
  | ready =>
    simp only [hstage] at hact
    obtain ⟨s, hstep, rfl⟩ := Option.map_eq_some_iff.mp hact
    exact .of_step (by rw [hstage]; rfl) hstep (fun _ => by rw [hstage]; rfl)
      (Or.inl hstage.symm)

/-- What a step of a connection does to its socket. -/
inductive ConnStep (c : Conn) : ConnAct → Sock → Prop
  /-- a step of the socket -/
  | sock {a s} (step : step c.sock a = some s)
      (late : a.isWrite = true → c.stage.early = false) : ConnStep c (.sock a) s
  /-- a call of `Socket::Write` while the attempt goes on -/
  | wait {len off tried queued s} (stage : c.stage = .connecting)
      (call : c.sock.writeConnecting len off = some s) :
      ConnStep c (.sock (.write len off tried queued)) s
  /-- a step of the connection -/
  | aside {a s} (same : Aside c.sock s) (outer : ∀ b, a ≠ .sock b) : ConnStep c a s
  /-- the same in place of a step of the socket: control comes back, or there is no handle yet -/
  | within {a s} (same : Aside c.sock s) (calm : c.sock.phase.calm = true)
      (place : a = .ret ∨ a = .next ∨ (c.stage.early = true ∧ c.sock.Fresh)) :
      ConnStep c (.sock a) s
  /-- a failed attempt cancels what waits for it -/
  | cancel {a} (reading : Bool)
      (action : a = .connected true ∨ (a = .sock .ret ∧ c.stage = .connected true))
      (calm : c.sock.phase.calm = true) :
      ConnStep c a { c.sock with
        handle := { c.sock.handle with writeQueue := [], completed := [], reading := reading }
        phase := .reporting c.sock.handle.flush.completed false }
  /-- `context_init` -/
  | init (fresh : c.sock.Fresh) :
      ConnStep c (.sock .ret) { c.sock with
        ctx := { out := c.sock.ctx.out }, handle := {}, phase := .loop }

/-- `uv_read_start` starts to read, or fails. -/
theorem readStart_cases (h : Stream) :
    (h.readStart.2 = 0 ∧ h.closing = false ∧ h.readable = true ∧
        h.readStart.1 = { h with reading := true }) ∨
      (h.readStart.2 ≠ 0 ∧ (h.closing = true ∨ h.readable = false) ∧ h.readStart.1 = h) := by
  unfold Stream.readStart
  by_cases hc : h.closing = true
  · rw [if_pos hc]
    exact Or.inr ⟨Int.neg_ne_zero.mpr (by decide), Or.inl hc, rfl⟩
  · rw [if_neg hc]
    by_cases hr : h.readable = true
    · rw [if_neg (not_not.mpr hr)]
      exact Or.inl ⟨rfl, eq_false_of_ne_true hc, hr, rfl⟩
    · rw [if_pos hr]
      exact Or.inr ⟨Int.neg_ne_zero.mpr (by decide), Or.inr (eq_false_of_ne_true hr), rfl⟩

/-- The end of an attempt: reading may have started, and control goes to the loop or to what
    waits. -/
private theorem ConnStep.of_connectDone {c : Conn} {s : Sock} {a : ConnAct} {failed : Bool}
    (reading : Bool) (hs : s = { c.sock with handle := { c.sock.handle with reading := reading } })
    (ha : a = .connected failed ∨ (a = .sock .ret ∧ c.stage = .connected failed))
    (hcalm : c.sock.phase.calm = true) :
    ConnStep c a (s.connectDone failed) := by
  subst hs
  cases failed with
  | true => exact .cancel reading ha hcalm
  | false =>
    have hsame : Aside c.sock
        { c.sock with handle := { c.sock.handle with reading := reading }, phase := .loop } :=
      ⟨rfl, rfl, Or.inr ⟨hcalm, Or.inl rfl⟩, fun _ => rfl⟩
    obtain rfl | ⟨rfl, -⟩ := ha
    · exact .aside hsame fun _ h => ConnAct.noConfusion h
    · exact .within hsame hcalm (Or.inl rfl)

private theorem ConnStep.of_readStart {c : Conn} {a : ConnAct} {failed : Bool}
    (ha : a = .connected failed ∨ (a = .sock .ret ∧ c.stage = .connected failed))
    (hcalm : c.sock.phase.calm = true) :
    ConnStep c a (c.readStart failed).sock := by
  unfold Conn.readStart
  obtain ⟨hzero, -, -, hstart⟩ | ⟨hne, -, -⟩ := readStart_cases c.sock.handle
  · rw [if_pos hzero]
    exact .of_connectDone true (by rw [hstart]) ha hcalm
  · rw [if_neg hne]
    have hsame : Aside c.sock c.lost.sock := .of_kept rfl rfl rfl fun _ => rfl
    obtain rfl | ⟨rfl, -⟩ := ha
    · exact .aside hsame fun _ h => ConnAct.noConfusion h
    · exact .within hsame hcalm (Or.inl rfl)

/-- **A step of a connection** is one of the listed ones. -/
theorem conn_step_cases {c c' : Conn} {a : ConnAct} (hc : c.Placed) (h : c.step a = some c') :
    ConnStep c a c'.sock := by
  obtain ⟨-, hact⟩ := Option.ite_none_left_eq_some.mp h
  cases a with
  | onConnect =>
    obtain ⟨-, hact⟩ := Option.ite_none_right_eq_some.mp hact
    cases hact
    exact .aside (.of_kept rfl rfl rfl fun _ => rfl) fun _ h => ConnAct.noConfusion h
  | attach kind =>
    obtain ⟨-, hact⟩ := Option.ite_none_right_eq_some.mp hact
    cases hact
    exact .aside (.of_kept rfl rfl rfl fun _ => rfl) fun _ h => ConnAct.noConfusion h
  | handOn =>
    obtain ⟨⟨hjs, -⟩, hact⟩ := Option.ite_none_right_eq_some.mp hact
    cases hact
    exact .aside (.of_kept rfl rfl rfl fun h => absurd hjs (by rw [h]; decide))
      fun _ h => ConnAct.noConfusion h
  | connected failed =>
    obtain ⟨⟨-, hphase, -⟩, hact⟩ := Option.ite_none_right_eq_some.mp hact
    cases hact
    have hcalm : c.sock.phase.calm = true := by
      rw [hphase]
      rfl
    unfold Conn.onClientConnection
    split
    · exact .of_connectDone c.sock.handle.reading rfl (Or.inl rfl) hcalm
    · split
      · exact .aside ⟨rfl, rfl, Or.inr ⟨hcalm, Or.inr rfl⟩, fun _ => rfl⟩
          fun _ h => ConnAct.noConfusion h
      · exact .of_readStart (Or.inl rfl) hcalm
  | sock a =>
    cases sockStep_cases h with
    | sock step late => exact .sock step late
    | wait stage call => exact .wait stage call
    | readStart stage =>
      refine .of_readStart (Or.inr ⟨rfl, stage⟩) ?_
      rw [hc.connected _ stage]
      rfl
    | reported _ phase =>
      have hcalm : c.sock.phase.calm = true := by
        rw [phase]
        rfl
      exact .within ⟨rfl, rfl, Or.inr ⟨hcalm, Or.inl rfl⟩, fun _ => rfl⟩ hcalm
        (Or.inr (Or.inl rfl))
    | accepted stage =>
      have hfresh := hc.accepting stage
      have hsock : c.accepted.sock = { c.sock with
          ctx := { out := c.sock.ctx.out }, handle := {}, phase := .loop } := by
        rw [Conn.accepted, hfresh.handle]
      rw [hsock]
      exact .init hfresh
    | unopened stage handle kept phase =>
      -- JavaScript runs, so that the depth may change
      have hfresh := hc.accepting stage
      have hjs : c.sock.inJs = true := by
        rw [Sock.inJs, hfresh.phase]
        exact Bool.or_true _
      have hcalm : c.sock.phase.calm = true := by
        rw [hfresh.phase]
        rfl
      exact .within (.of_kept handle kept phase fun h => absurd hjs (by rw [h]; decide)) hcalm
        (Or.inr (Or.inr ⟨by rw [stage]; rfl, hfresh⟩))

theorem Sock.Fresh.of_kept {s s' : Sock} (hs : s.Fresh) (hhandle : s'.handle = s.handle)
    (hkept : s'.kept = s.kept) (hphase : s'.phase = s.phase) : s'.Fresh := by
  simp only [Sock.kept, Prod.mk.injEq] at hkept
  obtain ⟨hclosing, hblocked, hstats, hcalls, hcloseCalls, -⟩ := hkept
  exact ⟨hhandle.trans hs.handle, hphase.trans hs.phase, hcalls.trans hs.calls,
    hcloseCalls.trans hs.closeCalls, hclosing.trans hs.closing, hblocked.trans hs.blocked,
    hstats.trans hs.stats⟩

private theorem Conn.Placed.of_readStart {c : Conn} (hc : c.Placed) (failed : Bool) :
    (c.readStart failed).Placed := by
  unfold Conn.readStart
  split
  · refine .of_stage ?_
    cases failed <;> rfl
  · exact ⟨hc.connected, fun hstage => (hc.accepting hstage).of_kept rfl rfl rfl⟩

/-- A step of the connection in its place. -/
private theorem Conn.Placed.of_kept {c c' : Conn} (hc : c.Placed) (hstage : c'.stage = c.stage)
    (hhandle : c'.sock.handle = c.sock.handle) (hkept : c'.sock.kept = c.sock.kept)
    (hphase : c'.sock.phase = c.sock.phase) : c'.Placed where
  connected failed h := hphase.trans (hc.connected failed (hstage.symm.trans h))
  accepting h := (hc.accepting (hstage.symm.trans h)).of_kept hhandle hkept hphase

theorem conn_step_placed {c c' : Conn} {a : ConnAct} (hc : c.Placed) (h : c.step a = some c') :
    c'.Placed := by
  obtain ⟨-, hact⟩ := Option.ite_none_left_eq_some.mp h
  cases a with
  | onConnect | attach | handOn =>
    obtain ⟨-, hact⟩ := Option.ite_none_right_eq_some.mp hact
    cases hact
    exact hc.of_kept rfl rfl rfl rfl
  | connected failed =>
    obtain ⟨-, hact⟩ := Option.ite_none_right_eq_some.mp hact
    cases hact
    unfold Conn.onClientConnection
    split
    · refine .of_stage ?_
      cases failed <;> rfl
    · split
      · exact ⟨fun _ _ => rfl, fun h => Stage.noConfusion h⟩
      · exact hc.of_readStart failed
  | sock a =>
    cases sockStep_cases h with
    | sock step _ stays inner fresh =>
      obtain rfl | rfl := stays
      · -- where `onConnect` runs, control stays with it until it returns
        exact ⟨fun failed hstage => step_outside (hc.connected failed hstage)
          (inner failed hstage) step, fun hstage => fresh hstage (hc.accepting hstage)⟩
      · exact .of_stage rfl
    | wait stage =>
      refine .of_stage ?_
      rw [stage]
      rfl
    | readStart => exact hc.of_readStart _
    | reported => exact .of_stage rfl
    | accepted => exact .of_stage rfl
    | unopened _ handle kept phase => exact hc.of_kept rfl handle kept phase

/-! ### Whether the attempt has failed -/

/-- The attempt has failed, and what waited for it is or will be reported. -/
def Stage.hasFailed : Stage → Bool
  | .connected b => b
  | .failed => true
  | _ => false

private theorem readStart_hasFailed {c : Conn} (hc : c.stage.hasFailed = false) :
    (c.readStart false).stage.hasFailed = false := by
  unfold Conn.readStart
  split
  · rfl
  · exact hc

/-- Only the end of the attempt says that it has failed. -/
theorem conn_step_hasFailed {c c' : Conn} {a : ConnAct} (hc : c.stage.hasFailed = false)
    (ha : a ≠ .connected true) (h : c.step a = some c') : c'.stage.hasFailed = false := by
  obtain ⟨-, hact⟩ := Option.ite_none_left_eq_some.mp h
  cases a with
  | onConnect | attach | handOn =>
    obtain ⟨-, hact⟩ := Option.ite_none_right_eq_some.mp hact
    cases hact
    exact hc
  | connected failed =>
    obtain ⟨-, hact⟩ := Option.ite_none_right_eq_some.mp hact
    cases hact
    obtain rfl : failed = false := by simpa using ha
    unfold Conn.onClientConnection
    split
    · rfl
    · split
      · rfl
      · exact readStart_hasFailed hc
  | sock a =>
    cases sockStep_cases h with
    | sock _ _ stays =>
      obtain rfl | rfl := stays
      · exact hc
      · rfl
    | @readStart failed stage =>
      -- the callback of a failed attempt is behind a stage that says so
      obtain rfl : failed = false := by simpa [stage, Stage.hasFailed] using hc
      exact readStart_hasFailed hc
    | reported | accepted => rfl
    | wait | unopened => exact hc

/-! ### What the steps leave alone -/

namespace Aside

variable {s s' : Sock}

theorem sameWriting (h : Aside s s') : SameWriting s s' := by
  have hhandle := h.handle
  have hkept := h.kept
  simp only [Sock.kept, Prod.mk.injEq] at hkept
  obtain ⟨-, hblocked, hstats, hcalls, -, -⟩ := hkept
  have hdrain := congrArg Stats.drain hstats
  refine ⟨⟨?_, ?_, ?_, ?_, hcalls⟩, hblocked, hdrain⟩
  all_goals rw [hhandle]

theorem closing (h : Aside s s') :
    s'.ctx.closing = s.ctx.closing ∧ s'.handle.closing = s.handle.closing := by
  refine ⟨congrArg Prod.fst h.kept, ?_⟩
  rw [h.handle]

theorem pq (h : Aside s s') : s'.phase.pq = s.phase.pq ∧
    s'.phase.inAfterWrite = s.phase.inAfterWrite := by
  obtain hsame | ⟨hcalm, hsame | hsame⟩ := h.phase
  · rw [hsame]
    exact ⟨rfl, rfl⟩
  all_goals
    obtain ⟨hpq, hafter⟩ := Phase.idle_of_calm hcalm
    rw [hsame, hpq, hafter]
    exact ⟨rfl, rfl⟩

end Aside

/-- `uv_write` refuses while the attempt goes on, or queues. -/
theorem uvWriteConnecting_cases (h : Stream) (bytes : List UInt8) :
    (∃ status, status < 0 ∧ (h.closing = true ∨ h.writable = false) ∧
        uvWriteConnecting h bytes = (h, status)) ∨
      (¬ (h.closing = true ∨ h.writable = false) ∧
        uvWriteConnecting h bytes = (h.enqueue bytes, 0)) := by
  unfold uvWriteConnecting
  cases hc : h.closing with
  | true => exact Or.inl ⟨EBADF, by decide, Or.inl rfl, rfl⟩
  | false =>
    cases hw : h.writable with
    | false => exact Or.inl ⟨EPIPE, by decide, Or.inr rfl, rfl⟩
    | true => exact Or.inr ⟨by simp, rfl⟩

/-- A call is refused on a closing socket, its request is refused, or it waits. -/
theorem writeConnecting_cases {s s' : Sock} {len off : Nat}
    (h : s.writeConnecting len off = some s') :
    ∃ bytes, readAt s.ctx.out off len = some bytes ∧
      ((s.ctx.closing = true ∧ s' = { s with calls := s.calls ++ [⟨bytes, -1⟩] }) ∨
        (s.ctx.closing = false ∧ (s.handle.closing = true ∨ s.handle.writable = false) ∧
          ∃ status < 0, s' = s.requested s.handle ⟨bytes, status⟩) ∨
        (s.ctx.closing = false ∧ ¬ (s.handle.closing = true ∨ s.handle.writable = false) ∧
          s' = s.requested (s.handle.enqueue bytes) ⟨bytes, 0⟩)) := by
  obtain ⟨bytes, hread, rfl⟩ := Option.map_eq_some_iff.mp h
  refine ⟨bytes, hread, ?_⟩
  split
  · rename_i hc
    exact Or.inl ⟨hc, rfl⟩
  · rename_i hc
    have hc := eq_false_of_ne_true hc
    obtain ⟨status, hneg, hno, heq⟩ | ⟨hopen, heq⟩ := uvWriteConnecting_cases s.handle bytes
    · exact Or.inr (Or.inl ⟨hc, hno, status, hneg, by rw [heq]⟩)
    · exact Or.inr (Or.inr ⟨hc, hopen, by rw [heq]⟩)

/-- **Step lemma of the account**, for a connection. -/
theorem ConnStep.accounted {c : Conn} {a : ConnAct} {s' : Sock} (h : ConnStep c a s')
    (hacc : c.sock.handle.Accounted c.sock.phase.pq) : s'.handle.Accounted s'.phase.pq := by
  cases h with
  | sock step => exact step_accounted hacc step
  | wait _ call =>
    obtain ⟨bytes, -, ⟨-, heq⟩ | ⟨-, -, _, -, heq⟩ | ⟨-, -, heq⟩⟩ := writeConnecting_cases call
    all_goals rw [heq]
    · exact hacc
    · exact hacc
    · exact hacc.enqueue bytes
  | aside same | within same =>
    rw [same.pq.1]
    exact same.sameWriting.accounted hacc
  | cancel reading _ calm =>
    rw [(Phase.idle_of_calm calm).1] at hacc
    have hflush := hacc.flush.handOver
    exact ⟨hflush.size, hflush.reported⟩
  | init => exact ⟨rfl, fun _ hr => absurd hr List.not_mem_nil⟩

end Dv8.Socket
