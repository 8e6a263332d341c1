import Dv8.Lib.Machine
import Dv8.Uv.Stream

namespace Dv8.Connect

open Dv8.Lib Dv8.Uv

/-!
# `on_client_connection` and `on_connection`

Both callbacks get a status from libuv and tell JavaScript through `onConnect`, both start to read
behind it, and neither looks at the status.

* A client is filtered by the flags of its handle.  `uv_tcp_connect` sets them when the attempt
  begins, so a refused attempt passes; `uv_pipe_connect` sets them when `connect(2)` has not failed.
* A server calls `uv_accept` whatever its status says, and `onConnect` whatever that returns.
* JavaScript may close the handle in `onConnect`; on the server it may also throw or return
  something else than a `Socket`.

`sound_iff_along` — JavaScript is told of established connections only, reading starts on them only
and no assertion fails, exactly in the runs whose steps are all `Fine`.
-/

/-- `UV_ECONNREFUSED`. -/
def ECONNREFUSED : Int := -111
/-- `UV__ERR(EINPROGRESS)`. -/
def EINPROGRESS : Int := -115

/-- `socket_type`. -/
inductive SocketType where
  | TCP
  | UNIX
  deriving DecidableEq, Repr

/-! ### libuv -/

/-- The part of `uv_stream_t` that connecting looks at. -/
structure Handle where
  type : SocketType
  /-- `UV_HANDLE_READABLE` -/
  readable : Bool := false
  /-- `UV_HANDLE_WRITABLE` -/
  writable : Bool := false
  /-- `UV_HANDLE_CLOSING` -/
  closing : Bool := false
  /-- `UV_HANDLE_READING` -/
  reading : Bool := false
  /-- a pending `connect_req` -/
  connecting : Bool := false
  delayedError : Int := 0
  deriving DecidableEq, Repr

/-- `uv_tcp_connect` and `uv_pipe_connect`, on a new handle, when the system calls come to `r`;
    `none` when the error is returned and no callback follows. -/
def uvConnect (type : SocketType) (r : Int) : Option Handle :=
  match type with
  | .TCP =>
    -- the flags are set before the attempt is over
    if r = 0 ∨ r = EINPROGRESS then
      some { type := type, readable := true, writable := true, connecting := true }
    -- a refusal is left to the callback
    else if r = ECONNREFUSED then
      some { type := type, readable := true, writable := true, connecting := true
             delayedError := r }
    else none
  | .UNIX =>
    if r = 0 ∨ r = EINPROGRESS then
      some { type := type, readable := true, writable := true, connecting := true }
    else some { type := type, connecting := true, delayedError := r }

/-- `uv_accept`, when a descriptor has been accepted or not. -/
def uvAccept (client : Handle) (acceptedFd : Bool) : Handle × Int :=
  if acceptedFd then ({ client with readable := true, writable := true }, 0) else (client, EAGAIN)

/-- `uv_read_start`. -/
def uvReadStart (h : Handle) : Handle × Int :=
  if h.closing then (h, EINVAL)
  else if ¬ h.readable then (h, ENOTCONN)
  else ({ h with reading := true }, 0)

/-- `uv_close`. -/
def uvClose (h : Handle) : Handle :=
  { h with closing := true, readable := false, writable := false, reading := false }

/-! ### The sockets -/

/-- A `Socket` that connects. -/
structure Client where
  /-- `callbacks.onConnect` -/
  onConnect : Bool
  handle : Handle
  deriving DecidableEq, Repr

/-- libuv has taken the request off the handle. -/
def Client.done (c : Client) : Client :=
  { c with handle := { c.handle with connecting := false } }

/-- A `Socket` that listens. -/
structure Server where
  type : SocketType
  onConnect : Bool
  closing : Bool := false
  deriving DecidableEq, Repr

/-- What the callbacks did, and whether the connection was established. -/
inductive Event where
  | connected (established : Bool)
  | reading (established : Bool)
  deriving DecidableEq, Repr

def Event.established : Event → Bool
  | .connected established | .reading established => established

/-- Where control is. -/
inductive Phase where
  | loop
  | outside
  | onClientConnect (i : Nat) (established : Bool)
  | onServerConnect (k : Nat) (established : Bool)
  deriving DecidableEq, Repr

/-- The sockets of a process, and the streams its servers have accepted. -/
structure Net where
  clients : List Client := []
  servers : List Server := []
  accepted : List Handle := []
  phase : Phase := .loop
  log : List Event := []
  aborted : Bool := false
  deriving DecidableEq, Repr

/-- What the `onConnect` of a server comes to. -/
inductive Returned where
  | socket
  | other
  | threw
  deriving DecidableEq, Repr

inductive Ref where
  | client (i : Nat)
  | server (j : Nat)
  | accepted (k : Nat)
  deriving DecidableEq, Repr

/-- What the environment chooses. -/
inductive Act where
  /-- JavaScript runs because of something else -/
  | enter
  /-- the running JavaScript function returns -/
  | ret (r : Returned)
  /-- `Connect`, when the system calls come to `r` -/
  | connect (type : SocketType) (onConnect : Bool) (r : Int)
  | listen (type : SocketType) (onConnect : Bool)
  /-- the setter of `onConnect` -/
  | onConnect (ref : Ref)
  /-- a handle is closed: by its socket, or by `shutdown` -/
  | close (ref : Ref)
  /-- the attempt of a client is over -/
  | connected (i : Nat) (status : Int)
  /-- a client is destroyed before that -/
  | cancelled (i : Nat)
  /-- a connection, or an error, on a server -/
  | connection (j : Nat) (status : Int)
  deriving DecidableEq, Repr

/-! ### The functions of `socket.cc` -/

/-- Both callbacks end with `uv_read_start` and the assertion that it succeeds. -/
def Net.readStart (n : Net) (h : Handle) (established : Bool) : Net :=
  if (uvReadStart h).2 = 0 then
    { n with log := n.log ++ [.reading established], phase := .loop }
  else { n with aborted := true }

/-- `on_client_connection` behind its callback. -/
def Net.clientRead (n : Net) (i : Nat) (c : Client) (established : Bool) : Net :=
  { n.readStart c.handle established with
    clients := n.clients.set i { c with handle := (uvReadStart c.handle).1 } }

/-- `onNewConnection`, the callback of a client. -/
def Net.onNewConnection (n : Net) (i : Nat) (c : Client) (established : Bool) : Net :=
  if c.onConnect then
    { n with log := n.log ++ [.connected established], phase := .onClientConnect i established }
  else n.clientRead i c established

/-- `on_client_connection` looks at the flags of the handle. -/
def Handle.passes (h : Handle) : Bool := h.readable && h.writable && !h.closing

/-- `on_client_connection`. -/
def Net.onClientConnection (n : Net) (i : Nat) (c : Client) (status : Int) : Net :=
  if c.handle.passes then n.onNewConnection i c (decide (status = 0)) else n

/-- `on_connection` behind `onConnect`. -/
def Net.serverRead (n : Net) (k : Nat) (h : Handle) (established : Bool) : Net :=
  { n.readStart h established with accepted := n.accepted.set k (uvReadStart h).1 }

/-- `on_connection`; libuv has accepted a descriptor when the status is zero. -/
def Net.onConnection (n : Net) (s : Server) (status : Int) : Net :=
  let stream := uvAccept { type := s.type } (decide (status = 0))
  let established := decide (status = 0 ∧ stream.2 = 0)
  let k := n.accepted.length
  let n := { n with accepted := n.accepted ++ [stream.1] }
  if s.onConnect then
    { n with log := n.log ++ [.connected established], phase := .onServerConnect k established }
  else n.serverRead k stream.1 established

/-! ### The machine -/

/-- A JavaScript function returns.  The result of a server's `onConnect` is taken with
    `ToLocalChecked` and unwrapped as a `Socket`, which both abort on anything else. -/
def Net.ret (n : Net) (r : Returned) : Option Net :=
  match n.phase with
  | .loop => none
  | .outside => some { n with phase := .loop }
  | .onClientConnect i established => (n.clients[i]?).map fun c => n.clientRead i c established
  | .onServerConnect k established =>
    match r with
    | .socket => (n.accepted[k]?).map fun h => n.serverRead k h established
    | .other | .threw => some { n with aborted := true }

/-- The setter of `onConnect`. -/
def Net.setOnConnect (n : Net) : Ref → Net
  | .client i => { n with clients := n.clients.modify i ({ · with onConnect := true }) }
  | .server j => { n with servers := n.servers.modify j ({ · with onConnect := true }) }
  | .accepted _ => n

/-- A handle that is not closing is closed. -/
def Net.close (n : Net) : Ref → Option Net
  | .client i =>
    (n.clients[i]?).bind fun c =>
      if c.handle.closing then none
      else some { n with clients := n.clients.set i { c with handle := uvClose c.handle } }
  | .server j =>
    (n.servers[j]?).bind fun s =>
      if s.closing then none
      else some { n with servers := n.servers.set j { s with closing := true } }
  | .accepted k =>
    (n.accepted[k]?).bind fun h =>
      if h.closing then none else some { n with accepted := n.accepted.set k (uvClose h) }

/-- The status `uv__stream_connect` may report. -/
def Handle.Reports (h : Handle) (status : Int) : Prop :=
  if h.delayedError ≠ 0 then status = h.delayedError else status ≤ 0 ∧ status ≠ EINPROGRESS

instance (h : Handle) (status : Int) : Decidable (h.Reports status) := by
  unfold Handle.Reports
  infer_instance

/-- One step. -/
def step (n : Net) (a : Act) : Option Net :=
  if n.aborted then none
  else
    match a with
    | .enter => if n.phase = .loop then some { n with phase := .outside } else none
    | .ret r => n.ret r
    | .connect type onConnect r =>
      if n.phase = .loop then none
      else
        match uvConnect type r with
        | none => some n
        | some h => some { n with clients := n.clients ++ [⟨onConnect, h⟩] }
    | .listen type onConnect =>
      if n.phase = .loop then none
      else some { n with servers := n.servers ++ [{ type := type, onConnect := onConnect }] }
    | .onConnect ref => if n.phase = .loop then none else some (n.setOnConnect ref)
    | .close ref => n.close ref
    | .connected i status =>
      if n.phase ≠ .loop then none
      else
        (n.clients[i]?).bind fun c =>
          if c.handle.connecting ∧ ¬ c.handle.closing ∧ c.handle.Reports status then
            some ({ n with clients := n.clients.set i c.done }.onClientConnection i c.done status)
          else none
    | .cancelled i =>
      if n.phase ≠ .loop then none
      else
        (n.clients[i]?).bind fun c =>
          if c.handle.connecting ∧ c.handle.closing then
            some
              ({ n with clients := n.clients.set i c.done }.onClientConnection i c.done ECANCELED)
          else none
    | .connection j status =>
      if n.phase ≠ .loop then none
      else
        (n.servers[j]?).bind fun s =>
          if ¬ s.closing ∧ status ≤ 0 then some (n.onConnection s status) else none

/-! ### What ought to hold -/

/-- JavaScript was told of established connections only, reading was started on them only, and no
    assertion has failed. -/
structure Sound (n : Net) : Prop where
  established : ∀ e ∈ n.log, e.established = true
  running : n.aborted = false

/-- A failed attempt does not pass, no server is told of an error, and `onConnect` leaves the handle
    open and, on a server, returns a `Socket`. -/
def Fine (n : Net) : Act → Prop
  | .connected i status => ∀ c ∈ n.clients[i]?, c.handle.passes = true → status = 0
  | .connection _ status => status = 0
  | .ret r =>
    match n.phase with
    | .onClientConnect i _ => ∀ c ∈ n.clients[i]?, c.handle.closing = false
    | .onServerConnect k _ => r = .socket ∧ ∀ h ∈ n.accepted[k]?, h.closing = false
    | _ => True
  | _ => True

instance (n : Net) (a : Act) : Decidable (Fine n a) := by
  unfold Fine
  split
  · infer_instance
  · infer_instance
  · split <;> infer_instance
  · infer_instance

/-- While `onConnect` runs: it has been logged, and its handle is readable or has been closed. -/
structure Inv (n : Net) : Prop where
  client : ∀ i established, n.phase = .onClientConnect i established →
    .connected established ∈ n.log ∧
      ∃ c, n.clients[i]? = some c ∧ (c.handle.readable = true ∨ c.handle.closing = true)
  server : ∀ k established, n.phase = .onServerConnect k established →
    .connected established ∈ n.log ∧
      ∃ h, n.accepted[k]? = some h ∧
        (established = true → h.readable = true ∨ h.closing = true)

/-! ### Step by step -/

theorem sound_congr {n n' : Net} (hlog : n'.log = n.log) (haborted : n'.aborted = n.aborted) :
    Sound n' ↔ Sound n := by
  constructor
  · exact fun h => ⟨hlog ▸ h.established, haborted ▸ h.running⟩
  · exact fun h => ⟨hlog ▸ h.established, haborted ▸ h.running⟩

/-- What is logged has to be established. -/
theorem sound_log {n n' : Net} {e : Event} (hn : Sound n) (hlog : n'.log = n.log ++ [e])
    (haborted : n'.aborted = n.aborted) : Sound n' ↔ e.established = true := by
  constructor
  · intro h
    apply h.established
    rw [hlog]
    exact List.mem_append_right _ (List.mem_singleton_self e)
  · intro he
    refine ⟨fun e' he' => ?_, haborted ▸ hn.running⟩
    rw [hlog, List.mem_append, List.mem_singleton] at he'
    obtain he' | rfl := he'
    · exact hn.established e' he'
    · exact he

/-- `uv_read_start` succeeds on a handle that is open and readable. -/
theorem readStart_sound {n : Net} {h : Handle} {established : Bool} (hn : Sound n) :
    Sound (n.readStart h established) ↔
      established = true ∧ h.closing = false ∧ h.readable = true := by
  unfold Net.readStart uvReadStart
  cases hc : h.closing with
  | true =>
    -- the assertion fails
    rw [if_pos rfl, if_neg (show EINVAL ≠ 0 by decide)]
    exact iff_of_false (fun hs => Bool.noConfusion hs.running) (by simp)
  | false =>
    cases hr : h.readable with
    | false => exact iff_of_false (fun hs => Bool.noConfusion hs.running) (by simp)
    | true =>
      have hlog : (n.readStart h established).log = n.log ++ [.reading established] := by
        simp [Net.readStart, uvReadStart, hc, hr]
      have haborted : (n.readStart h established).aborted = n.aborted := by
        simp [Net.readStart, uvReadStart, hc, hr]
      have hsound := sound_log hn hlog haborted
      simpa [Net.readStart, uvReadStart, hc, hr, Event.established] using hsound

theorem clientRead_sound {n : Net} {i : Nat} {c : Client} {established : Bool} (hn : Sound n) :
    Sound (n.clientRead i c established) ↔
      established = true ∧ c.handle.closing = false ∧ c.handle.readable = true := by
  rw [← readStart_sound hn]
  exact sound_congr rfl rfl

theorem serverRead_sound {n : Net} {k : Nat} {h : Handle} {established : Bool} (hn : Sound n) :
    Sound (n.serverRead k h established) ↔
      established = true ∧ h.closing = false ∧ h.readable = true := by
  rw [← readStart_sound hn]
  exact sound_congr rfl rfl

/-- Behind it control is in the loop, unless the assertion failed. -/
theorem readStart_phase {n : Net} {h : Handle} {established : Bool}
    (hrun : (n.readStart h established).aborted = false) :
    (n.readStart h established).phase = .loop := by
  unfold Net.readStart at hrun ⊢
  split
  · rfl
  · rename_i hfail
    rw [if_neg hfail] at hrun
    contradiction

theorem inv_of_phase {n : Net} (h : n.phase = .loop ∨ n.phase = .outside) : Inv n := by
  refine ⟨fun i established hp => ?_, fun k established hp => ?_⟩
  all_goals
    rw [hp] at h
    obtain h | h := h <;> contradiction

theorem clientRead_inv {n : Net} {i : Nat} {c : Client} {established : Bool}
    (hrun : (n.clientRead i c established).aborted = false) :
    Inv (n.clientRead i c established) :=
  inv_of_phase (Or.inl (readStart_phase (n := n) hrun))

theorem serverRead_inv {n : Net} {k : Nat} {h : Handle} {established : Bool}
    (hrun : (n.serverRead k h established).aborted = false) :
    Inv (n.serverRead k h established) :=
  inv_of_phase (Or.inl (readStart_phase (n := n) hrun))

/-- `on_client_connection` of a handle that passes. -/
theorem onNewConnection_sound {n : Net} {i : Nat} {c : Client} {established : Bool} (hn : Sound n)
    (hc : c.handle.passes = true) :
    Sound (n.onNewConnection i c established) ↔ established = true := by
  simp only [Handle.passes, Bool.and_eq_true, Bool.not_eq_true'] at hc
  unfold Net.onNewConnection
  split
  · exact sound_log (e := .connected established) hn rfl rfl
  · rw [clientRead_sound hn]
    simp [hc]

theorem onNewConnection_inv {n : Net} {i : Nat} {c : Client} {established : Bool}
    (hi : n.clients[i]? = some c) (hc : c.handle.passes = true)
    (hrun : (n.onNewConnection i c established).aborted = false) :
    Inv (n.onNewConnection i c established) := by
  simp only [Handle.passes, Bool.and_eq_true, Bool.not_eq_true'] at hc
  unfold Net.onNewConnection at hrun ⊢
  split
  · refine ⟨fun j e hp => ?_, fun k e hp => by contradiction⟩
    cases hp
    -- what passes is readable
    exact ⟨List.mem_append_right _ (List.mem_singleton_self _), c, hi, Or.inl hc.1.1⟩
  · rename_i hset
    rw [if_neg hset] at hrun
    exact clientRead_inv hrun

/-- `on_connection` tells the truth exactly when there is no error. -/
theorem onConnection_sound {n : Net} {s : Server} {status : Int} (hn : Sound n) :
    Sound (n.onConnection s status) ↔ status = 0 := by
  have hn' : ∀ h, Sound { n with accepted := n.accepted ++ [h] } := fun _ =>
    ⟨hn.established, hn.running⟩
  unfold Net.onConnection
  by_cases hstatus : status = 0
  · rw [decide_eq_true hstatus]
    simp only [hstatus, iff_true]
    split
    · refine (sound_log (e := .connected true) hn ?_ ?_).mpr rfl <;> rfl
    · exact (serverRead_sound (hn' _)).mpr ⟨rfl, rfl, rfl⟩
  · -- `uv_accept` has nothing to accept, and the stream stays unconnected
    rw [decide_eq_false hstatus]
    simp only [hstatus, iff_false, false_and, decide_false]
    split
    · intro h
      have hlogged := h.established (.connected false)
        (List.mem_append_right _ (List.mem_singleton_self _))
      contradiction
    · intro h
      exact Bool.noConfusion ((serverRead_sound (hn' _)).mp h).1

theorem onConnection_inv {n : Net} {s : Server} {status : Int}
    (hrun : (n.onConnection s status).aborted = false) : Inv (n.onConnection s status) := by
  unfold Net.onConnection at hrun ⊢
  simp only at hrun ⊢
  split
  · refine ⟨fun i e hp => by contradiction, fun k e hp => ?_⟩
    cases hp
    refine ⟨List.mem_append_right _ (List.mem_singleton_self _), _,
      List.getElem?_concat_length, fun he => ?_⟩
    -- an established connection has been accepted
    rw [decide_eq_true_eq] at he
    rw [decide_eq_true he.1]
    exact Or.inl rfl
  · rename_i hset
    rw [if_neg hset] at hrun
    exact serverRead_inv hrun

/-! ### The step lemma -/

theorem close_spec {n n' : Net} {ref : Ref} (hi : Inv n) (h : n.close ref = some n') :
    Inv n' ∧ n'.log = n.log ∧ n'.aborted = n.aborted := by
  cases ref with
  | client i =>
    obtain ⟨c, hc, h⟩ := Option.bind_eq_some_iff.mp h
    obtain ⟨-, h⟩ := Option.ite_none_left_eq_some.mp h
    cases h
    refine ⟨⟨fun j e hp => ?_, hi.server⟩, rfl, rfl⟩
    obtain ⟨hlog, c', hc', hreadable⟩ := hi.client j e hp
    refine ⟨hlog, ?_⟩
    -- it may be the handle whose `onConnect` runs
    by_cases hij : i = j
    · subst hij
      have hlt := (List.getElem?_eq_some_iff.mp hc).1
      exact ⟨_, List.getElem?_set_self hlt, Or.inr rfl⟩
    · exact ⟨c', (List.getElem?_set_ne hij).trans hc', hreadable⟩
  | server j =>
    obtain ⟨s, -, h⟩ := Option.bind_eq_some_iff.mp h
    obtain ⟨-, h⟩ := Option.ite_none_left_eq_some.mp h
    cases h
    exact ⟨⟨hi.client, hi.server⟩, rfl, rfl⟩
  | accepted k =>
    obtain ⟨c, hc, h⟩ := Option.bind_eq_some_iff.mp h
    obtain ⟨-, h⟩ := Option.ite_none_left_eq_some.mp h
    cases h
    refine ⟨⟨hi.client, fun j e hp => ?_⟩, rfl, rfl⟩
    obtain ⟨hlog, c', hc', hreadable⟩ := hi.server j e hp
    refine ⟨hlog, ?_⟩
    by_cases hkj : k = j
    · subst hkj
      have hlt := (List.getElem?_eq_some_iff.mp hc).1
      exact ⟨_, List.getElem?_set_self hlt, fun _ => Or.inr rfl⟩
    · exact ⟨c', (List.getElem?_set_ne hkj).trans hc', hreadable⟩

theorem setOnConnect_spec {n : Net} (ref : Ref) (hi : Inv n) :
    Inv (n.setOnConnect ref) ∧ (n.setOnConnect ref).log = n.log ∧
      (n.setOnConnect ref).aborted = n.aborted := by
  cases ref with
  | client i =>
    refine ⟨⟨fun j e hp => ?_, hi.server⟩, rfl, rfl⟩
    obtain ⟨hlog, c, hc, hreadable⟩ := hi.client j e hp
    refine ⟨hlog, if i = j then { c with onConnect := true } else c, ?_, ?_⟩
    · show (n.clients.modify i _)[j]? = _
      rw [List.getElem?_modify, hc]
      split <;> rfl
    · split <;> exact hreadable
  | server j => exact ⟨⟨hi.client, hi.server⟩, rfl, rfl⟩
  | accepted k => exact ⟨hi, rfl, rfl⟩

/-- JavaScript returns to the callback that called it. -/
theorem ret_sound {n n' : Net} {r : Returned} (hi : Inv n) (hn : Sound n)
    (h : n.ret r = some n') :
    (n'.aborted = false → Inv n') ∧ (Sound n' ↔ Fine n (.ret r)) := by
  unfold Net.ret at h
  unfold Fine
  cases hphase : n.phase with
  | loop =>
    rw [hphase] at h
    contradiction
  | outside =>
    rw [hphase] at h
    cases h
    refine ⟨fun _ => inv_of_phase (Or.inl rfl), iff_of_true ?_ trivial⟩
    exact ⟨hn.established, hn.running⟩
  | onClientConnect i established =>
    rw [hphase] at h
    obtain ⟨c, hc, h⟩ := Option.map_eq_some_iff.mp h
    cases h
    obtain ⟨hlog, c', hc', hreadable⟩ := hi.client i established hphase
    obtain rfl : c = c' := Option.some.inj (hc.symm.trans hc')
    -- what was logged is established
    have hestablished : established = true := hn.established _ hlog
    refine ⟨clientRead_inv, ?_⟩
    rw [clientRead_sound hn]
    constructor
    · rintro ⟨-, hopen, -⟩ c'' hc''
      obtain rfl : c = c'' := Option.some.inj (hc.symm.trans hc'')
      exact hopen
    · intro hfine
      have hopen := hfine c hc
      exact ⟨hestablished, hopen, hreadable.resolve_right (by simp [hopen])⟩
  | onServerConnect k established =>
    rw [hphase] at h
    obtain ⟨hlog, s, hs, hreadable⟩ := hi.server k established hphase
    have hestablished : established = true := hn.established _ hlog
    cases r with
    | socket =>
      obtain ⟨s', hs', h⟩ := Option.map_eq_some_iff.mp h
      cases h
      obtain rfl : s = s' := Option.some.inj (hs.symm.trans hs')
      refine ⟨serverRead_inv, ?_⟩
      rw [serverRead_sound hn]
      constructor
      · rintro ⟨-, hopen, -⟩
        refine ⟨rfl, fun s'' hs'' => ?_⟩
        obtain rfl : s = s'' := Option.some.inj (hs.symm.trans hs'')
        exact hopen
      · rintro ⟨-, hfine⟩
        have hopen := hfine s hs
        exact ⟨hestablished, hopen, (hreadable hestablished).resolve_right (by simp [hopen])⟩
    | other | threw =>
      cases h
      exact ⟨fun hrun => by contradiction,
        iff_of_false (fun hs' => Bool.noConfusion hs'.running) fun hf => by cases hf.1⟩

/-- libuv reports that the attempt of a client is over, or cancelled. -/
theorem onClientConnection_spec {n : Net} {i : Nat} {c : Client} (status : Int) (hn : Sound n)
    (hphase : n.phase = .loop) (hc : n.clients[i]? = some c) :
    let n' := { n with clients := n.clients.set i c.done }.onClientConnection i c.done status
    (n'.aborted = false → Inv n') ∧ (Sound n' ↔ (c.handle.passes = true → status = 0)) := by
  have hlt := (List.getElem?_eq_some_iff.mp hc).1
  have hi : Inv { n with clients := n.clients.set i c.done } := inv_of_phase (Or.inl hphase)
  have hn : Sound { n with clients := n.clients.set i c.done } := ⟨hn.established, hn.running⟩
  have hc : ({ n with clients := n.clients.set i c.done } : Net).clients[i]? = some c.done :=
    List.getElem?_set_self hlt
  show (_ → Inv _) ∧ (Sound _ ↔ (c.done.handle.passes = true → status = 0))
  unfold Net.onClientConnection
  split
  · rename_i hpasses
    refine ⟨onNewConnection_inv hc hpasses, ?_⟩
    rw [onNewConnection_sound hn hpasses, decide_eq_true_eq]
    exact ⟨fun h _ => h, fun h => h hpasses⟩
  · rename_i hpasses
    exact ⟨fun _ => hi, iff_of_true hn fun h => absurd h hpasses⟩

/-- **Step lemma.** A step is sound exactly when it is fine. -/
theorem step_sound {n n' : Net} {a : Act} (hi : Inv n) (hn : Sound n) (h : step n a = some n') :
    (n'.aborted = false → Inv n') ∧ (Sound n' ↔ Fine n a) := by
  obtain ⟨-, h⟩ := Option.ite_none_left_eq_some.mp h
  cases a with
  | ret r => exact ret_sound hi hn h
  | enter =>
    obtain ⟨-, h⟩ := Option.ite_none_right_eq_some.mp h
    cases h
    exact ⟨fun _ => inv_of_phase (Or.inr rfl),
      iff_of_true ⟨hn.established, hn.running⟩ trivial⟩
  | connect type onConnect r =>
    obtain ⟨-, h⟩ := Option.ite_none_left_eq_some.mp h
    split at h
    · cases h
      exact ⟨fun _ => hi, iff_of_true hn trivial⟩
    · cases h
      refine ⟨fun _ => ⟨fun i e hp => ?_, hi.server⟩,
        iff_of_true ⟨hn.established, hn.running⟩ trivial⟩
      -- the new handle is put behind the others
      obtain ⟨hlog, c, hc, hreadable⟩ := hi.client i e hp
      have hlt := (List.getElem?_eq_some_iff.mp hc).1
      exact ⟨hlog, c, (List.getElem?_append_left hlt).trans hc, hreadable⟩
  | listen type onConnect =>
    obtain ⟨-, h⟩ := Option.ite_none_left_eq_some.mp h
    cases h
    exact ⟨fun _ => ⟨hi.client, hi.server⟩, iff_of_true ⟨hn.established, hn.running⟩ trivial⟩
  | onConnect ref =>
    obtain ⟨-, h⟩ := Option.ite_none_left_eq_some.mp h
    cases h
    obtain ⟨hinv, hlog, haborted⟩ := setOnConnect_spec ref hi
    exact ⟨fun _ => hinv, iff_of_true ((sound_congr hlog haborted).mpr hn) trivial⟩
  | close ref =>
    obtain ⟨hinv, hlog, haborted⟩ := close_spec hi h
    exact ⟨fun _ => hinv, iff_of_true ((sound_congr hlog haborted).mpr hn) trivial⟩
  | connected i status =>
    obtain ⟨hphase, h⟩ := Option.ite_none_left_eq_some.mp h
    obtain ⟨c, hc, h⟩ := Option.bind_eq_some_iff.mp h
    obtain ⟨-, h⟩ := Option.ite_none_right_eq_some.mp h
    cases h
    obtain ⟨hinv, hsound⟩ := onClientConnection_spec status hn (not_not.mp hphase) hc
    refine ⟨hinv, hsound.trans ?_⟩
    constructor
    · intro hfine c' hc' hpasses
      obtain rfl : c = c' := Option.some.inj (hc.symm.trans hc')
      exact hfine hpasses
    · exact fun hfine => hfine c hc
  | cancelled i =>
    obtain ⟨hphase, h⟩ := Option.ite_none_left_eq_some.mp h
    obtain ⟨c, hc, h⟩ := Option.bind_eq_some_iff.mp h
    obtain ⟨hclosing, h⟩ := Option.ite_none_right_eq_some.mp h
    cases h
    obtain ⟨hinv, hsound⟩ := onClientConnection_spec ECANCELED hn (not_not.mp hphase) hc
    -- a handle that is closing does not pass
    refine ⟨hinv, iff_of_true (hsound.mpr fun hpasses => ?_) trivial⟩
    simp [Handle.passes, hclosing.2] at hpasses
  | connection j status =>
    obtain ⟨-, h⟩ := Option.ite_none_left_eq_some.mp h
    obtain ⟨s, -, h⟩ := Option.bind_eq_some_iff.mp h
    obtain ⟨-, h⟩ := Option.ite_none_right_eq_some.mp h
    cases h
    exact ⟨onConnection_inv, onConnection_sound hn⟩

/-! ### Runs -/

/-- **JavaScript is told the truth** about the connections, all along a run, exactly when all its
    steps are fine. -/
theorem sound_iff_along (as : List Act) (n : Net) (hrun : run step {} as = some n) :
    (∀ bs cs u, as = bs ++ cs → run step {} bs = some u → Sound u) ↔ Along step Fine {} as := by
  refine forall_prefix_iff_along (I := fun n => n.aborted = false → Inv n) ?_ ?_ ?_ hrun
  · exact fun s a s' hi hn h => step_sound (hi hn.running) hn h
  · exact fun _ => inv_of_phase (Or.inl rfl)
  · exact ⟨fun e he => absurd he List.not_mem_nil, rfl⟩

/-- A client connects, and a server takes a connection. -/
def connectAndAccept : List Act :=
  [.enter, .connect .TCP true EINPROGRESS, .listen .UNIX true, .ret .other, .connected 0 0,
    .ret .other, .connection 0 0, .ret .socket]

theorem sound_iff_along_connectAndAccept :
    ∃ n, run step {} connectAndAccept = some n ∧ Sound n ∧
      n.log = [.connected true, .reading true, .connected true, .reading true] :=
  ⟨_, rfl, (sound_iff_along connectAndAccept _ rfl).mpr (by decide) connectAndAccept [] _ rfl rfl,
    rfl⟩

/-- **A refused connection** is reported as one. -/
theorem not_sound :
    ¬ ∀ (as : List Act) (n : Net), run step {} as = some n → Sound n := by
  intro h
  have hsound := h [.enter, .connect .TCP true EINPROGRESS, .ret .other,
    .connected 0 ECONNREFUSED] _ rfl
  have htold := hsound.established (.connected false) (by decide)
  contradiction

end Dv8.Connect
