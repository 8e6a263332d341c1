import Dv8.Lib.Machine
import Dv8.Uv.Stream

namespace Dv8.Socket

open Dv8.Lib Dv8.Uv

/-!
# The connection side of `socket.cc`

A connected `Socket` is a machine.  Its state holds the `_context`, the libuv stream, the set
of JavaScript callbacks, and where control is: in the event loop, inside libuv, or in JavaScript
called from one of the C++ functions (`Phase`), on top of which JavaScript may be running in a
callback made by `Socket::Write` (`depth`).  The functions are cut at their callbacks:
`afterWrite`, `afterWriteStatus` and `afterWriteDrained` are the parts of `after_write`
before `onWrite`, after it, and after `onDrain`.

An action is a choice of the environment: what JavaScript does when it runs, what libuv reports
when control is in the loop, and what the kernel answers.  Calls of `Socket::Write` are
recorded with the bytes of the out buffer at that moment and the value they return.
-/

/-- Which JavaScript callbacks are set (`callbacks_t`). -/
structure Callbacks where
  onClose : Bool := false
  onWrite : Bool := false
  onRead : Bool := false
  onError : Bool := false
  onDrain : Bool := false
  onEnd : Bool := false
  deriving DecidableEq, Repr

/-- The names of the setters. -/
inductive Callback where
  | onClose | onWrite | onRead | onError | onDrain | onEnd
  deriving DecidableEq, Repr

/-- A setter sets its flag. -/
def Callbacks.set (cbs : Callbacks) : Callback → Callbacks
  | .onClose => { cbs with onClose := true }
  | .onWrite => { cbs with onWrite := true }
  | .onRead => { cbs with onRead := true }
  | .onError => { cbs with onError := true }
  | .onDrain => { cbs with onDrain := true }
  | .onEnd => { cbs with onEnd := true }

/-- `socket_stats`, without the wrap of its counters. -/
structure Stats where
  close : Nat := 0
  error : Nat := 0
  written : Nat := 0
  incomplete : Nat := 0
  full : Nat := 0
  drain : Nat := 0
  maxQueue : Nat := 0
  alloc : Nat := 0
  free : Nat := 0
  eagain : Nat := 0
  read : Nat := 0
  pause : Nat := 0
  ended : Nat := 0
  data : Nat := 0
  resume : Nat := 0
  deriving DecidableEq, Repr

/-- `_context`. -/
structure Context where
  out : List UInt8 := []
  closing : Bool := false
  blocked : Bool := false
  paused : Bool := false
  stats : Stats := {}
  deriving DecidableEq, Repr

/-- Where control is, below the callbacks of `Socket::Write`.  The lists are the requests
    `uv__write_callbacks` has still to report; the flag says that the stream is being destroyed. -/
inductive Phase where
  | loop
  | outside
  | reporting (pq : List WriteReq) (destroying : Bool)
  | onWrite (r : WriteReq) (pq : List WriteReq) (destroying : Bool)
  | onWriteError (pq : List WriteReq) (destroying : Bool)
  | onDrain (r : WriteReq) (pq : List WriteReq) (destroying : Bool)
  | draining
  | plugin (nread : Nat)
  | onRead
  | onEnd
  | onReadError
  | cancelShutdown
  | closeCallback
  | onClose
  | pluginClose
  deriving DecidableEq, Repr

/-- Phases in which JavaScript runs. -/
def Phase.isJs : Phase → Bool
  | .outside | .onWrite .. | .onWriteError .. | .onDrain .. | .plugin _ | .onRead | .onEnd
  | .onReadError | .onClose | .pluginClose => true
  | _ => false

/-- A call of `Socket::Write`: the bytes it was given and the value it returned. -/
structure Call where
  bytes : List UInt8
  result : Int
  deriving DecidableEq, Repr

/-- A connected socket. -/
structure Sock where
  ctx : Context := {}
  handle : Stream := {}
  callbacks : Callbacks := {}
  /-- a plugin is attached (`s->first`) -/
  first : Bool := false
  phase : Phase := .loop
  depth : Nat := 0
  /-- how often `uv_close` has been called on the handle -/
  closeCalls : Nat := 0
  /-- libuv's assertion failed -/
  aborted : Bool := false
  calls : List Call := []
  deriving DecidableEq, Repr

/-- What the environment chooses. -/
inductive Act where
  /-- JavaScript runs because of something else (a timer, another handle) -/
  | enter
  /-- the running JavaScript function returns or throws -/
  | ret
  | write (len off : Nat) (tried queued : Answer)
  | close (doShutdown : Bool)
  | pause
  | resume
  /-- JavaScript writes into the out buffer -/
  | fill (out : List UInt8)
  | on (cb : Callback)
  /-- the descriptor is writable, or a finished request is waiting to be reported -/
  | ioWrite (a : Answer)
  /-- libuv goes on -/
  | next
  /-- `uv__drain`, with the outcome of `shutdown(2)` -/
  | drain (ok : Bool)
  | readData (nread : Nat)
  | readEof
  | readError
  /-- the closing handle is finished -/
  | destroy
  deriving DecidableEq, Repr

/-! ### The functions of `socket.cc` -/

/-- JavaScript can run. -/
def Sock.inJs (s : Sock) : Bool := decide (0 < s.depth) || s.phase.isJs

/-- `uv_close(handle, on_close)`; libuv asserts that the handle is not closing. -/
def Sock.uvClose (s : Sock) : Sock :=
  if s.handle.closing then { s with closeCalls := s.closeCalls + 1, aborted := true }
  else { s with closeCalls := s.closeCalls + 1, handle := s.handle.close }

/-- The end of `after_write` for a request that succeeded. -/
def Sock.afterWriteFree (s : Sock) (r : WriteReq) (pq : List WriteReq) (destroying : Bool) :
    Sock :=
  { s with ctx := { s.ctx with stats := { s.ctx.stats with
                      written := s.ctx.stats.written + r.buf.length
                      free := s.ctx.stats.free + 1 } }
           phase := .reporting pq destroying }

/-- `after_write`: a deferred close, with an empty queue. -/
def Sock.afterWriteClose (s : Sock) (r : WriteReq) (pq : List WriteReq) (destroying : Bool) :
    Sock :=
  if s.ctx.closing then
    let s := s.uvClose
    { s with ctx := { s.ctx with closing := false } }.afterWriteFree r pq destroying
  else s.afterWriteFree r pq destroying

/-- A drain is counted and the writer is no longer blocked. -/
def Sock.unblock (s : Sock) : Sock :=
  { s with ctx := { s.ctx with stats := { s.ctx.stats with drain := s.ctx.stats.drain + 1 }
                               blocked := false } }

/-- `after_write` behind `onDrain`. -/
def Sock.afterWriteDrained (s : Sock) (r : WriteReq) (pq : List WriteReq) (destroying : Bool) :
    Sock :=
  s.unblock.afterWriteClose r pq destroying

/-- `after_write` behind `onWrite`. -/
def Sock.afterWriteStatus (s : Sock) (r : WriteReq) (pq : List WriteReq) (destroying : Bool) :
    Sock :=
  if r.error < 0 then
    let s := { s with ctx := { s.ctx with stats := { s.ctx.stats with
                                 error := s.ctx.stats.error + 1
                                 free := s.ctx.stats.free + 1 } } }
    if s.callbacks.onError then { s with phase := .onWriteError pq destroying }
    else { s with phase := .reporting pq destroying }
  else
    let queueSize := s.handle.writeQueueSize
    let s := if s.ctx.stats.maxQueue < queueSize then
        { s with
          ctx := { s.ctx with stats := { s.ctx.stats with maxQueue := queueSize % 2 ^ 32 } } }
      else s
    if queueSize = 0 then
      if s.ctx.blocked then
        if s.callbacks.onDrain then { s with phase := .onDrain r pq destroying }
        else s.afterWriteDrained r pq destroying
      else s.afterWriteClose r pq destroying
    else s.afterWriteFree r pq destroying

/-- `uv__write_callbacks` takes the next request off its list, releases the bytes of a failed
    one, and calls `after_write`. -/
def Sock.afterWrite (s : Sock) (r : WriteReq) (pq : List WriteReq) (destroying : Bool) : Sock :=
  let s := { s with handle := s.handle.release r }
  if s.callbacks.onWrite then { s with phase := .onWrite r pq destroying }
  else s.afterWriteStatus r pq destroying

/-- `after_shutdown`; its status is not looked at. -/
def Sock.afterShutdown (s : Sock) : Sock :=
  if 0 < s.handle.writeQueueSize then { s with ctx := { s.ctx with closing := true } }
  else s.uvClose

/-- `on_close` behind `onClose`: the plugins are told. -/
def Sock.closed (s : Sock) : Sock :=
  if s.first then { s with phase := .pluginClose } else { s with phase := .loop }

/-- `on_close`. -/
def Sock.onClose (s : Sock) : Sock :=
  let s := { s with ctx := { s.ctx with stats := { s.ctx.stats with
                               close := s.ctx.stats.close + 1 } } }
  if s.callbacks.onClose then { s with phase := .onClose } else s.closed

/-- `after_read` with data, behind the plugin. -/
def Sock.afterPlugin (s : Sock) : Sock :=
  if s.callbacks.onRead then { s with phase := .onRead } else { s with phase := .loop }

/-- `after_read` with data. -/
def Sock.afterReadData (s : Sock) (nread : Nat) : Sock :=
  let s := { s with ctx := { s.ctx with stats := { s.ctx.stats with
                               read := s.ctx.stats.read + nread
                               data := s.ctx.stats.data + 1 } } }
  if s.first then { s with phase := .plugin nread } else s.afterPlugin

/-- `after_read` at the end of the stream, behind `onEnd`; libuv then stops reading. -/
def Sock.ended (s : Sock) : Sock :=
  let s := { s with ctx := { s.ctx with stats := { s.ctx.stats with
                               ended := s.ctx.stats.ended + 1 } }
                    phase := .loop }
  let s := if s.handle.closing then s else { s with ctx := { s.ctx with closing := true } }
  { s with handle := s.handle.readStop }

/-- `after_read` counts an error. -/
def Sock.countReadError (s : Sock) : Sock :=
  { s with ctx := { s.ctx with stats := { s.ctx.stats with
                      ended := s.ctx.stats.ended + 1
                      error := s.ctx.stats.error + 1 } }
           phase := .loop }

/-- `after_read` with an error, behind `onError`; libuv then stops reading. -/
def Sock.readFailed (s : Sock) : Sock :=
  let s := s.countReadError.uvClose
  { s with handle := s.handle.readStop }

/-- `Socket::Close`. -/
def Sock.close (s : Sock) (doShutdown : Bool) : Sock :=
  if doShutdown then { s with handle := s.handle.shutdown.1 }
  else if 0 < s.handle.writeQueueSize then { s with ctx := { s.ctx with closing := true } }
  else s.uvClose

/-- `Socket::Pause`. -/
def Sock.pause (s : Sock) : Sock :=
  { s with ctx := { s.ctx with paused := true
                               stats := { s.ctx.stats with pause := s.ctx.stats.pause + 1 } }
           handle := s.handle.readStop }

/-- `Socket::Resume`. -/
def Sock.resume (s : Sock) : Sock :=
  if s.ctx.paused then
    { s with ctx := { s.ctx with paused := false
                                 stats := { s.ctx.stats with resume := s.ctx.stats.resume + 1 } }
             handle := s.handle.readStart.1 }
  else s

/-- `Socket::Write` when `uv_try_write` would have to wait. -/
def Sock.writeQueued (s : Sock) (bytes : List UInt8) (a : Answer) : Option Sock :=
  (s.handle.uvWrite bytes a).map fun (handle, status) =>
    { s with handle := handle
             ctx := { s.ctx with blocked := true
                                 stats := { s.ctx.stats with
                                   alloc := s.ctx.stats.alloc + 1
                                   eagain := s.ctx.stats.eagain + 1 } }
             calls := s.calls ++ [⟨bytes, status⟩] }

/-- `Socket::Write` when `uv_try_write` fails. -/
def Sock.writeFailed (s : Sock) (bytes : List UInt8) (r : Int) : Sock :=
  { s with ctx := { s.ctx with stats := { s.ctx.stats with error := s.ctx.stats.error + 1 } }
           depth := if s.callbacks.onError then s.depth + 1 else s.depth
           calls := s.calls ++ [⟨bytes, r⟩] }

/-- `Socket::Write` when `uv_try_write` takes the first `r` bytes: the rest is queued. -/
def Sock.writePartial (s : Sock) (bytes : List UInt8) (r : Nat) (a : Answer) : Option Sock :=
  (s.handle.uvWrite (bytes.drop r) a).map fun (handle, status) =>
    { s with handle := handle
             ctx := { s.ctx with blocked := true
                                 stats := { s.ctx.stats with
                                   incomplete := s.ctx.stats.incomplete + 1
                                   written := s.ctx.stats.written + r
                                   alloc := s.ctx.stats.alloc + 1 } }
             depth := if s.callbacks.onWrite then s.depth + 1 else s.depth
             calls := s.calls ++ [⟨bytes, if status ≠ 0 then status else r⟩] }

/-- `Socket::Write` when `uv_try_write` takes everything. -/
def Sock.writeFull (s : Sock) (bytes : List UInt8) (r : Nat) : Sock :=
  { s with ctx := { s.ctx with stats := { s.ctx.stats with
                                 full := s.ctx.stats.full + 1
                                 written := s.ctx.stats.written + r } }
           depth := if s.callbacks.onWrite then s.depth + 1 else s.depth
           calls := s.calls ++ [⟨bytes, r⟩] }

/-- `Socket::Write` of the bytes at `src`. -/
def Sock.writeBytes (s : Sock) (bytes : List UInt8) (tried queued : Answer) : Option Sock :=
  if s.ctx.closing then some { s with calls := s.calls ++ [⟨bytes, -1⟩] }
  else
    (s.handle.tryWrite bytes tried).bind fun (handle, r) =>
      let s := { s with handle := handle }
      if r = EAGAIN ∨ r = ENOSYS then s.writeQueued bytes queued
      else if r < 0 then some (s.writeFailed bytes r)
      else if r.toNat < bytes.length then s.writePartial bytes r.toNat queued
      else some (s.writeFull bytes r.toNat)

/-- `Socket::Write(len, off)`, inside the out buffer. -/
def Sock.write (s : Sock) (len off : Nat) (tried queued : Answer) : Option Sock :=
  (readAt s.ctx.out off len).bind fun bytes => s.writeBytes bytes tried queued

/-! ### The machine -/

/-- A JavaScript function returns to the C++ code that called it. -/
def Sock.ret (s : Sock) : Option Sock :=
  if 0 < s.depth then some { s with depth := s.depth - 1 }
  else
    match s.phase with
    | .outside | .onRead | .pluginClose => some { s with phase := .loop }
    | .onWrite r pq d => some (s.afterWriteStatus r pq d)
    | .onWriteError pq d => some { s with phase := .reporting pq d }
    | .onDrain r pq d => some (s.afterWriteDrained r pq d)
    | .plugin _ => some s.afterPlugin
    | .onEnd => some s.ended
    | .onReadError => some s.readFailed
    | .onClose => some s.closed
    | _ => none

/-- libuv goes on by itself. -/
def Sock.next (s : Sock) : Option Sock :=
  match s.phase with
  | .reporting (r :: pq) d => some (s.afterWrite r pq d)
  | .reporting [] false => some { s with phase := .draining }
  | .reporting [] true => some { s with phase := .cancelShutdown }
  | .cancelShutdown =>
    if s.handle.shutting then
      some { s with handle := { s.handle with shutting := false }
                    phase := .closeCallback }.afterShutdown
    else some { s with phase := .closeCallback }
  | .closeCallback => some s.onClose
  | _ => none

/-- `uv__drain`, when the write queue is empty. -/
def Sock.drain (s : Sock) (ok : Bool) : Option Sock :=
  if s.phase ≠ .draining then none
  else if s.handle.writeQueue = [] ∧ s.handle.shutting ∧ ¬ s.handle.closing ∧ ¬ s.handle.shut then
    some { s with handle := { s.handle with shutting := false, shut := ok }
                  phase := .loop }.afterShutdown
  else some { s with phase := .loop }

/-- One step. -/
def step (s : Sock) (a : Act) : Option Sock :=
  if s.aborted then none
  else
    match a with
    | .enter => if s.phase = .loop ∧ s.depth = 0 then some { s with phase := .outside } else none
    | .ret => s.ret
    | .write len off tried queued => if s.inJs then s.write len off tried queued else none
    | .close doShutdown => if s.inJs then some (s.close doShutdown) else none
    | .pause => if s.inJs then some s.pause else none
    | .resume => if s.inJs then some s.resume else none
    | .fill out =>
      if s.inJs ∧ out.length = s.ctx.out.length then
        some { s with ctx := { s.ctx with out := out } }
      else none
    | .on cb => if s.inJs then some { s with callbacks := s.callbacks.set cb } else none
    | .ioWrite a =>
      if s.phase = .loop ∧ s.depth = 0 then
        (s.handle.write1 a).map fun handle =>
          { s with handle := { handle with completed := [] }
                   phase := .reporting handle.completed false }
      else none
    | .next => if s.depth = 0 then s.next else none
    | .drain ok => if s.depth = 0 then s.drain ok else none
    | .readData nread =>
      if s.phase = .loop ∧ s.depth = 0 ∧ s.handle.reading ∧ 0 < nread then
        some (s.afterReadData nread)
      else none
    | .readEof =>
      if s.phase = .loop ∧ s.depth = 0 ∧ s.handle.reading then
        some (if s.callbacks.onEnd then { s with phase := .onEnd } else s.ended)
      else none
    | .readError =>
      if s.phase = .loop ∧ s.depth = 0 ∧ s.handle.reading then
        some (if s.callbacks.onError then { s with phase := .onReadError } else s.readFailed)
      else none
    | .destroy =>
      if s.phase = .loop ∧ s.depth = 0 ∧ s.handle.closing ∧ ¬ s.handle.closed then
        some { s with handle := { s.handle.flush with completed := [] }
                      phase := .reporting s.handle.flush.completed true }
      else none

/-- A socket right after its connection was made: nothing written, nothing queued. -/
def Sock.connected (out : List UInt8) (callbacks : Callbacks) (first : Bool) : Sock :=
  { ctx := { out := out }, callbacks := callbacks, first := first }

end Dv8.Socket
