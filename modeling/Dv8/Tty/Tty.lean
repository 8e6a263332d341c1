import Dv8.Socket.Socket

namespace Dv8.Tty

open Dv8.Lib Dv8.Uv
open Dv8.Socket (Callbacks Callback Stats Call)

/-!
# `tty.cc`

A `TTY` is a machine like a connected `Socket`: the fields of the object, the libuv stream, and
where control is.  `tty_stats` and `callbacks_t` have the fields of the socket's.  What differs:

* there is one buffer, and `Write` sends its first bytes;
* `Write` does not look at `closing`, takes a result of zero for impossible, and sets `blocked`
  behind `onWrite`, so the stack of JavaScript functions it has called is part of the state;
* `Close` has no shutdown, and neither the end of the stream nor its error marks the object.
-/

/-- Where control is, below the callbacks of `TTY::Write`.  The lists are the requests
    `uv__write_callbacks` has still to report; the flag says that the stream is being destroyed. -/
inductive Phase where
  | loop
  | outside
  | reporting (pq : List WriteReq) (destroying : Bool)
  | onWrite (r : WriteReq) (pq : List WriteReq) (destroying : Bool)
  | onWriteError (pq : List WriteReq) (destroying : Bool)
  | onDrain (r : WriteReq) (pq : List WriteReq) (destroying : Bool)
  | onRead (nread : Nat)
  | onEnd
  | onReadError
  | closeCallback
  | onClose
  deriving DecidableEq, Repr

/-- Phases in which JavaScript runs. -/
def Phase.isJs : Phase → Bool
  | .outside | .onWrite .. | .onWriteError .. | .onDrain .. | .onRead _ | .onEnd | .onReadError
  | .onClose => true
  | _ => false

/-- The object. -/
structure TTY where
  buf : List UInt8 := []
  closing : Bool := false
  blocked : Bool := false
  paused : Bool := true
  stats : Stats := {}
  callbacks : Callbacks := {}
  handle : Stream := { reading := false }
  phase : Phase := .loop
  /-- the callbacks `Write` is waiting for, and whether it blocks the writer behind them -/
  stack : List Bool := []
  /-- how often `uv_close` has been called on the handle -/
  closeCalls : Nat := 0
  /-- whether `close` has been called -/
  requested : Bool := false
  /-- libuv's assertion failed, or `Write` called `abort` -/
  aborted : Bool := false
  calls : List Call := []
  deriving DecidableEq, Repr

/-- What the environment chooses. -/
inductive Act where
  /-- JavaScript runs because of something else (a timer, another handle) -/
  | enter
  /-- the running JavaScript function returns or throws -/
  | ret
  | write (length : Nat) (tried queued : Answer)
  | close
  | pause
  | resume
  /-- `setup` with a buffer, or JavaScript writes into it -/
  | setup (buf : List UInt8)
  | on (cb : Callback)
  /-- the descriptor is writable, or a finished request is waiting to be reported -/
  | ioWrite (a : Answer)
  /-- libuv goes on -/
  | next
  | readData (nread : Nat)
  | readEof
  | readError
  /-- the closing handle is finished -/
  | destroy
  deriving DecidableEq, Repr

/-! ### The functions of `tty.cc` -/

/-- JavaScript can run. -/
def TTY.inJs (t : TTY) : Bool := decide (t.stack ≠ []) || t.phase.isJs

/-- `uv_close(handle, on_close)`; libuv asserts that the handle is not closing. -/
def TTY.uvClose (t : TTY) : TTY :=
  if t.handle.closing then { t with closeCalls := t.closeCalls + 1, aborted := true }
  else { t with closeCalls := t.closeCalls + 1, handle := t.handle.close }

/-- `on_close`. -/
def TTY.onClose (t : TTY) : TTY :=
  let t := { t with stats := { t.stats with close := t.stats.close + 1 } }
  if t.callbacks.onClose then { t with phase := .onClose } else { t with phase := .loop }

/-- The end of `after_write` for a request that succeeded. -/
def TTY.afterWriteFree (t : TTY) (r : WriteReq) (pq : List WriteReq) (destroying : Bool) : TTY :=
  { t with stats := { t.stats with written := t.stats.written + r.buf.length
                                   free := t.stats.free + 1 }
           phase := .reporting pq destroying }

/-- `after_write`: a deferred close, with an empty queue. -/
def TTY.afterWriteClose (t : TTY) (r : WriteReq) (pq : List WriteReq) (destroying : Bool) : TTY :=
  if t.closing then { t.uvClose with closing := false }.afterWriteFree r pq destroying
  else t.afterWriteFree r pq destroying

/-- `after_write` behind `onDrain`. -/
def TTY.afterWriteDrained (t : TTY) (r : WriteReq) (pq : List WriteReq) (destroying : Bool) :
    TTY :=
  { t with stats := { t.stats with drain := t.stats.drain + 1 }
           blocked := false }.afterWriteClose r pq destroying

/-- `after_write` behind `onWrite`. -/
def TTY.afterWriteStatus (t : TTY) (r : WriteReq) (pq : List WriteReq) (destroying : Bool) : TTY :=
  if r.error < 0 then
    let t := { t with stats := { t.stats with error := t.stats.error + 1
                                              free := t.stats.free + 1 } }
    if t.callbacks.onError then { t with phase := .onWriteError pq destroying }
    else { t with phase := .reporting pq destroying }
  else
    let queueSize := t.handle.writeQueueSize
    let t := if t.stats.maxQueue < queueSize then
        { t with stats := { t.stats with maxQueue := queueSize % 2 ^ 32 } }
      else t
    if queueSize = 0 then
      if t.blocked then
        if t.callbacks.onDrain then { t with phase := .onDrain r pq destroying }
        else t.afterWriteDrained r pq destroying
      else t.afterWriteClose r pq destroying
    else t.afterWriteFree r pq destroying

/-- The first stage of `after_write`: `uv__write_callbacks` has taken the request off its list and
    released the bytes of a failed one. -/
def TTY.released (t : TTY) (r : WriteReq) : TTY := { t with handle := t.handle.release r }

/-- `after_write`. -/
def TTY.afterWrite (t : TTY) (r : WriteReq) (pq : List WriteReq) (destroying : Bool) : TTY :=
  if t.callbacks.onWrite then { t.released r with phase := .onWrite r pq destroying }
  else (t.released r).afterWriteStatus r pq destroying

/-- `after_read` with data, behind `onRead`. -/
def TTY.afterReadData (t : TTY) (nread : Nat) : TTY :=
  { t with stats := { t.stats with read := t.stats.read + nread, data := t.stats.data + 1 }
           phase := .loop }

/-- `after_read` at the end of the stream, behind `onEnd`; libuv then stops reading. -/
def TTY.ended (t : TTY) : TTY :=
  { t with stats := { t.stats with ended := t.stats.ended + 1 }
           phase := .loop
           handle := t.handle.readStop }

/-- `after_read` counts an error. -/
def TTY.countReadError (t : TTY) : TTY :=
  { t with stats := { t.stats with error := t.stats.error + 1 }, phase := .loop }

/-- `after_read` with an error, behind `onError`; libuv then stops reading. -/
def TTY.readFailed (t : TTY) : TTY :=
  let t := t.countReadError.uvClose
  { t with handle := t.handle.readStop }

/-- `TTY::Write` when `uv_try_write` would have to wait. -/
def TTY.writeQueued (t : TTY) (bytes : List UInt8) (a : Answer) : Option TTY :=
  (t.handle.uvWrite bytes a).map fun (handle, status) =>
    { t with handle := handle
             blocked := true
             stats := { t.stats with alloc := t.stats.alloc + 1, eagain := t.stats.eagain + 1 }
             calls := t.calls ++ [⟨bytes, status⟩] }

/-- `TTY::Write` when `uv_try_write` fails. -/
def TTY.writeFailed (t : TTY) (bytes : List UInt8) (r : Int) : TTY :=
  { t with stats := { t.stats with error := t.stats.error + 1 }
           stack := if t.callbacks.onError then false :: t.stack else t.stack
           calls := t.calls ++ [⟨bytes, r⟩] }

/-- `TTY::Write` when `uv_try_write` takes the first `r` bytes: the rest is queued. -/
def TTY.writePartial (t : TTY) (bytes : List UInt8) (r : Nat) (a : Answer) : Option TTY :=
  (t.handle.uvWrite (bytes.drop r) a).map fun (handle, status) =>
    { t with handle := handle
             blocked := if t.callbacks.onWrite then t.blocked else true
             stats := { t.stats with incomplete := t.stats.incomplete + 1
                                     written := t.stats.written + r
                                     alloc := t.stats.alloc + 1 }
             stack := if t.callbacks.onWrite then true :: t.stack else t.stack
             calls := t.calls ++ [⟨bytes, if status ≠ 0 then status else r⟩] }

/-- `TTY::Write` when `uv_try_write` takes everything. -/
def TTY.writeFull (t : TTY) (bytes : List UInt8) (r : Nat) : TTY :=
  { t with stats := { t.stats with full := t.stats.full + 1, written := t.stats.written + r }
           stack := if t.callbacks.onWrite then false :: t.stack else t.stack
           calls := t.calls ++ [⟨bytes, r⟩] }

/-- `TTY::Write(length)`, inside the buffer. -/
def TTY.write (t : TTY) (length : Nat) (tried queued : Answer) : Option TTY :=
  (readAt t.buf 0 length).bind fun bytes =>
    (t.handle.tryWrite bytes tried).bind fun (handle, r) =>
      let t := { t with handle := handle }
      -- the stream is busy, or does not know `uv_try_write`
      if r = EAGAIN ∨ r = ENOSYS then t.writeQueued bytes queued
      else if r < 0 then some (t.writeFailed bytes r)
      -- "this should not happen"
      else if r = 0 then some { t with aborted := true }
      else if r.toNat < bytes.length then t.writePartial bytes r.toNat queued
      else some (t.writeFull bytes r.toNat)

/-- `TTY::Close`. -/
def TTY.close (t : TTY) : TTY :=
  let t := { t with requested := true }
  if 0 < t.handle.writeQueueSize then { t with closing := true }
  else { t.uvClose with closing := false }

/-- `TTY::Pause`. -/
def TTY.pause (t : TTY) : TTY :=
  { t with stats := { t.stats with pause := t.stats.pause + 1 }
           handle := t.handle.readStop
           paused := true }

/-- `TTY::Resume`. -/
def TTY.resume (t : TTY) : TTY :=
  if t.paused then
    { t with stats := { t.stats with resume := t.stats.resume + 1 }
             handle := t.handle.readStart.1
             paused := false }
  else t

/-! ### The machine -/

/-- A JavaScript function returns to the C++ code that called it. -/
def TTY.ret (t : TTY) : Option TTY :=
  match t.stack with
  | blocks :: stack => some { t with stack := stack, blocked := t.blocked || blocks }
  | [] =>
    match t.phase with
    | .outside | .onClose => some { t with phase := .loop }
    | .onWrite r pq d => some (t.afterWriteStatus r pq d)
    | .onWriteError pq d => some { t with phase := .reporting pq d }
    | .onDrain r pq d => some (t.afterWriteDrained r pq d)
    | .onRead nread => some (t.afterReadData nread)
    | .onEnd => some t.ended
    | .onReadError => some t.readFailed
    | _ => none

/-- libuv goes on by itself. -/
def TTY.next (t : TTY) : Option TTY :=
  match t.phase with
  | .reporting (r :: pq) d => some (t.afterWrite r pq d)
  | .reporting [] false => some { t with phase := .loop }
  | .reporting [] true => some { t with phase := .closeCallback }
  | .closeCallback => some t.onClose
  | _ => none

/-- One step. -/
def step (t : TTY) (a : Act) : Option TTY :=
  if t.aborted then none
  else
    match a with
    | .enter => if t.phase = .loop ∧ t.stack = [] then some { t with phase := .outside } else none
    | .ret => t.ret
    | .write length tried queued => if t.inJs then t.write length tried queued else none
    | .close => if t.inJs then some t.close else none
    | .pause => if t.inJs then some t.pause else none
    | .resume => if t.inJs then some t.resume else none
    | .setup buf => if t.inJs then some { t with buf := buf } else none
    | .on cb => if t.inJs then some { t with callbacks := t.callbacks.set cb } else none
    | .ioWrite a =>
      if t.phase = .loop ∧ t.stack = [] then
        (t.handle.write1 a).map fun handle =>
          { t with handle := { handle with completed := [] }
                   phase := .reporting handle.completed false }
      else none
    | .next => if t.stack = [] then t.next else none
    | .readData nread =>
      if t.phase = .loop ∧ t.stack = [] ∧ t.handle.reading ∧ 0 < nread then
        some (if t.callbacks.onRead then { t with phase := .onRead nread }
              else t.afterReadData nread)
      else none
    | .readEof =>
      if t.phase = .loop ∧ t.stack = [] ∧ t.handle.reading then
        some (if t.callbacks.onEnd then { t with phase := .onEnd } else t.ended)
      else none
    | .readError =>
      if t.phase = .loop ∧ t.stack = [] ∧ t.handle.reading then
        some (if t.callbacks.onError then { t with phase := .onReadError } else t.readFailed)
      else none
    | .destroy =>
      if t.phase = .loop ∧ t.stack = [] ∧ t.handle.closing ∧ ¬ t.handle.closed then
        some { t with handle := { t.handle.flush with completed := [] }
                      phase := .reporting t.handle.flush.completed true }
      else none

/-- A new object; standard input may not be writable. -/
def TTY.new (buf : List UInt8) (writable : Bool) : TTY :=
  { buf := buf, handle := { reading := false, writable := writable } }

end Dv8.Tty
