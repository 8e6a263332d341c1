import Dv8.Lib.Machine
import Dv8.Uv.Stream

namespace Dv8.Tls

open Dv8.Lib Dv8.Uv

/-!
# `SecureSocket` of `openssl.cc`

A `SecureSocket` stands between a socket and its user.  libssl is a parameter (`Ssl`): the
functions the code calls, each from the connection state and the content of the input BIO.
The code moves bytes between the two memory BIOs, the socket's `in` and `out` buffers and
`uv_try_write`.

The code runs as a machine, because libssl's results reach JavaScript by callbacks and JavaScript
can call `write` and `start` again from there.  Its control state is a stack of `Point`s: what the
C++ functions that have been entered have still to do, and above it the JavaScript function that
is running, if any.  One action executes the point on top, up to its next callback.

`on_plugin_close` is not part of it: `on_close` has released the context it works on.
-/

/-- What a call of libssl does: the new connection state, what it leaves in the input BIO, what
    it adds to the output BIO, the plaintext it returns, and its return value. -/
structure Io (σ : Type) where
  ssl : σ
  input : List UInt8
  output : List UInt8 := []
  data : List UInt8 := []
  ret : Int

/-- libssl, as far as `openssl.cc` uses it. -/
structure Ssl (σ : Type) where
  /-- `SSL_is_init_finished` -/
  isInitFinished : σ → Bool
  /-- `SSL_do_handshake`, from the content of the input BIO -/
  doHandshake : σ → List UInt8 → Io σ
  /-- `SSL_read` of at most so many bytes -/
  read : σ → List UInt8 → Nat → Io σ
  /-- `SSL_write` -/
  write : σ → List UInt8 → List UInt8 → Io σ
  /-- `SSL_get_error` -/
  getError : σ → Int → Int

/-- `SSL_ERROR_WANT_READ` -/
def SSL_ERROR_WANT_READ : Int := 2

/-- What is still to be done, or running. -/
inductive Point where
  /-- JavaScript, called by something else -/
  | js
  /-- `secure.onRead`, `secure.onSecure`, `secure.onError` -/
  | onRead (n : Int)
  | onSecure
  | onError (n : Int)
  /-- the next plugin's `onRead` -/
  | nextRead (n : Int)
  | cycleOut
  | cycleIn
  /-- `cycleIn` behind `onRead` -/
  | cycleInNext (n : Int)
  /-- the head of the loop of `SecureSocket::Write` -/
  | writeLoop (len off : Nat) (n : Int)
  /-- `SecureSocket::Write` behind `cycleIn` -/
  | writeAgain (len off : Nat)
  deriving DecidableEq, Repr

/-- Points at which JavaScript runs. -/
def Point.isJs : Point → Bool
  | .js | .onRead _ | .onSecure | .onError _ | .nextRead _ => true
  | _ => false

/-- The names of the setters. -/
inductive Callback where
  | onRead | onError | onSecure
  deriving DecidableEq, Repr

/-- A socket with TLS. -/
structure Secure (σ : Type) where
  ssl : σ
  inputBio : List UInt8 := []
  outputBio : List UInt8 := []
  /-- `context->in` -/
  input : List UInt8
  /-- `context->out` -/
  out : List UInt8
  /-- `context->handle` -/
  handle : Stream := {}
  onRead : Bool := false
  onError : Bool := false
  onSecure : Bool := false
  /-- a plugin follows in the chain -/
  next : Bool := false
  stack : List Point := []
  /-- what is printed to `stderr` -/
  stderr : List String := []
  /-- all bytes the socket has read -/
  received : List UInt8 := []
  /-- all that libssl has written to the output BIO -/
  sslOutput : List UInt8 := []
  /-- the plaintext `secure.onRead` and the next plugin have been given -/
  toOnRead : List UInt8 := []
  toNext : List UInt8 := []
  /-- what the calls of `SecureSocket::Write` have returned -/
  results : List Int := []
  deriving DecidableEq, Repr

/-- What the environment chooses. -/
inductive Act where
  /-- JavaScript runs because of something else -/
  | enter
  /-- the running JavaScript function returns or throws -/
  | ret
  | start
  | write (len off : Nat)
  | on (cb : Callback)
  /-- JavaScript writes into the out buffer -/
  | fill (out : List UInt8)
  /-- JavaScript closes the socket -/
  | close
  /-- the socket has read into the in buffer -/
  | networkRead (bytes : List UInt8)
  /-- the C++ code goes on; `a` is what the kernel answers if it writes -/
  | go (a : Answer)
  deriving DecidableEq, Repr

variable {σ : Type}

/-! ### The functions of `openssl.cc` -/

/-- JavaScript can run. -/
def Secure.inJs (s : Secure σ) : Bool :=
  match s.stack with
  | p :: _ => p.isJs
  | [] => false

/-- Something is called, or left to do before what is on the stack. -/
def Secure.push (s : Secure σ) (points : List Point) : Secure σ :=
  { s with stack := points ++ s.stack }

/-- libssl has worked on the two BIOs. -/
def Secure.io (s : Secure σ) (r : Io σ) : Secure σ :=
  { s with ssl := r.ssl
           inputBio := r.input
           outputBio := s.outputBio ++ r.output
           sslOutput := s.sslOutput ++ r.output }

/-- What `cycleOut` prints about the `r` that `uv_try_write` returns for `n` bytes. -/
def complaint (n : Nat) (r : Int) : List String :=
  if r = EAGAIN ∨ r = ENOSYS then ["try_write_again\n"]
  else if r < 0 then ["try_write_fail\n"]
  else if r < n then ["try_write_partial\n"]
  else []

/-- `cycleOut`: one piece of the output BIO goes through the out buffer to the transport. -/
def Secure.cycleOut (s : Secure σ) (a : Answer) : Option (Secure σ) :=
  if s.outputBio = [] then some s
  else
    let bytes := s.outputBio.take s.out.length
    (writeAt s.out 0 bytes).bind fun out =>
      (s.handle.tryWrite bytes a).map fun (handle, r) =>
        { s with outputBio := s.outputBio.drop s.out.length
                 out := out
                 handle := handle
                 stderr := s.stderr ++ complaint bytes.length r }

/-- `cycleIn` up to its first callback: one `SSL_read` into the in buffer. -/
def Secure.cycleIn (S : Ssl σ) (s : Secure σ) : Option (Secure σ) :=
  if s.inputBio = [] then some s
  else
    let r := S.read s.ssl s.inputBio s.input.length
    let s := s.io r
    if r.ret ≤ 0 then some s
    else
      (writeAt s.input 0 r.data).map fun input =>
        let s := { s with input := input }.push [.cycleInNext r.ret]
        if s.onRead then
          { s with toOnRead := s.toOnRead ++ input.take r.ret.toNat }.push [.onRead r.ret]
        else s

/-- `cycleIn` behind `onRead`: the next plugin. -/
def Secure.cycleInNext (s : Secure σ) (n : Int) : Secure σ :=
  if s.next then { s with toNext := s.toNext ++ s.input.take n.toNat }.push [.nextRead n] else s

/-- `start_ssl`; its value is not kept. -/
def Secure.startSsl (S : Ssl σ) (s : Secure σ) : Secure σ :=
  let r := S.doHandshake s.ssl s.inputBio
  let s := s.io r
  if r.ret = 0 then
    if s.onError then s.push [.onError r.ret] else s
  else if r.ret = 1 then
    if s.onSecure then s.push [.onSecure, .cycleOut] else s.push [.cycleOut]
  else
    let n := S.getError s.ssl r.ret
    if n = SSL_ERROR_WANT_READ then s.push [.cycleOut]
    else if s.onError then s.push [.onError n]
    else s

/-- `on_plugin_read_data`. -/
def Secure.onPluginReadData (S : Ssl σ) (s : Secure σ) (nread : Nat) : Secure σ :=
  let s := { s with inputBio := s.inputBio ++ s.input.take nread }
  if S.isInitFinished s.ssl then s.push [.cycleOut, .cycleIn] else s.startSsl S

/-- `SecureSocket::Write(len, off)` up to the head of its loop. -/
def Secure.write (S : Ssl σ) (s : Secure σ) (len off : Nat) : Option (Secure σ) :=
  (readAt s.out off len).map fun bytes =>
    let r := S.write s.ssl s.inputBio bytes
    (s.io r).push [.writeLoop len off r.ret]

/-- The head of the loop of `SecureSocket::Write`.  Its test for `SSL_ERROR_SSL`, which is
    positive, is made on the negative `n`. -/
def Secure.writeLoop (S : Ssl σ) (s : Secure σ) (len off : Nat) (n : Int) : Secure σ :=
  if n < 0 then
    if S.getError s.ssl n = SSL_ERROR_WANT_READ then s.push [.cycleIn, .writeAgain len off]
    else { s with stderr := s.stderr ++ [s!"Unknown SSL Error: {n}\n"]
                  results := s.results ++ [-1] }
  else { s with results := s.results ++ [n] }.push [.cycleOut]

/-- `SecureSocket::Write` behind `cycleIn`: it writes again, flushes, and is back at its loop. -/
def Secure.writeAgain (S : Ssl σ) (s : Secure σ) (len off : Nat) : Option (Secure σ) :=
  (readAt s.out off len).map fun bytes =>
    let r := S.write s.ssl s.inputBio bytes
    (s.io r).push [.cycleOut, .writeLoop len off r.ret]

/-- A setter sets its flag. -/
def Secure.set (s : Secure σ) : Callback → Secure σ
  | .onRead => { s with onRead := true }
  | .onError => { s with onError := true }
  | .onSecure => { s with onSecure := true }

/-! ### The machine -/

/-- The socket's `after_read` with the bytes it has read. -/
def Secure.networkRead (S : Ssl σ) (s : Secure σ) (bytes : List UInt8) : Option (Secure σ) :=
  if bytes = [] ∨ s.handle.closing then none
  else (writeAt s.input 0 bytes).map fun input =>
    { s with input := input, received := s.received ++ bytes }.onPluginReadData S bytes.length

/-- The C++ code goes on with the point on top of the stack. -/
def Secure.go (S : Ssl σ) (s : Secure σ) (a : Answer) : Option (Secure σ) :=
  match s.stack with
  | .cycleOut :: stack => { s with stack := stack }.cycleOut a
  | .cycleIn :: stack => { s with stack := stack }.cycleIn S
  | .cycleInNext n :: stack => some ({ s with stack := stack }.cycleInNext n)
  | .writeLoop len off n :: stack => some ({ s with stack := stack }.writeLoop S len off n)
  | .writeAgain len off :: stack => { s with stack := stack }.writeAgain S len off
  | _ => none

/-- One step. -/
def step (S : Ssl σ) (s : Secure σ) : Act → Option (Secure σ)
  | .enter => if s.stack = [] then some (s.push [.js]) else none
  | .ret => if s.inJs then some { s with stack := s.stack.tail } else none
  | .start => if s.inJs then some (s.startSsl S) else none
  | .write len off => if s.inJs then s.write S len off else none
  | .on cb => if s.inJs then some (s.set cb) else none
  | .fill out => if s.inJs ∧ out.length = s.out.length then some { s with out := out } else none
  | .close => if s.inJs ∧ ¬ s.handle.closing then some { s with handle := s.handle.close } else none
  | .networkRead bytes => if s.stack = [] then s.networkRead S bytes else none
  | .go a => s.go S a

/-- `SecureSocket::Setup` has been called on a connection. -/
def Secure.setup (ssl : σ) (input out : List UInt8) (onRead : Bool) : Secure σ :=
  { ssl := ssl, input := input, out := out, onRead := onRead }

end Dv8.Tls
