import Dv8.Lib.Machine
import Mathlib.Logic.Function.Basic

namespace Dv8.Plugins

open Dv8.Lib

/-!
# Socket plugins

A socket keeps its plugins in a linked list, `first` to `last`.  `SecureSocket.setup`,
`HTTPParser.reset` and `PicoHTTPParser.reset` append a plugin of their module to it, and the
object remembers the last plugin made for it.  The socket calls only the first plugin; each
module's `onRead` and `onClose` call the next one on their own.

The state is the heap and the call stack: JavaScript runs inside the calls and may attach more
plugins, and a `SecureSocket` may hand on decrypted data from inside any of them.
-/

/-- The three modules, for the pair of functions in a plugin. -/
inductive Kind where
  | openssl
  | httpParser
  | picoHttpParser
  deriving DecidableEq, Repr

/-- `socket_plugin`; `kind` stands for `onRead` and `onClose`, `data` for the object. -/
structure SocketPlugin where
  kind : Kind
  data : Nat
  next : Option Nat
  deriving DecidableEq, Repr

/-- Plugins, in the order they were made; the `plugin` of each object; the ends of each
    socket's list. -/
structure Heap where
  plugins : Nat → SocketPlugin
  size : Nat
  plugin : Nat → Option Nat
  first : Nat → Option Nat
  last : Nat → Option Nat

/-- The end that `setup` and both `reset`s share. -/
def Heap.attach (h : Heap) (kind : Kind) (obj sock : Nat) : Option Heap :=
  let h' : Heap :=
    { h with plugins := Function.update h.plugins h.size ⟨kind, obj, none⟩, size := h.size + 1,
             plugin := Function.update h.plugin obj (some h.size),
             last := Function.update h.last sock (some h.size) }
  match h.first sock, h.last sock with
  | none, _ => some { h' with first := Function.update h.first sock (some h.size) }
  | some _, some l =>
    some { h' with plugins :=
             Function.update h'.plugins l { h'.plugins l with next := some h.size } }
  | some _, none => none

/-- `parser->plugin->next`: the plugin behind the one the object was last attached with. -/
def Heap.behind (h : Heap) (p : Nat) : Option (Option Nat) :=
  (h.plugin (h.plugins p).data).map fun q => (h.plugins q).next

/-! ### Calls -/

/-- A call of a plugin. -/
inductive Call where
  | read (p nread : Nat)
  | close (p : Nat)
  deriving DecidableEq, Repr

/-- What is dispatched along a list: a data event, or that the socket is closed. -/
inductive Event where
  | data (nread : Nat)
  | close
  deriving DecidableEq, Repr

def Event.call : Event → Nat → Call
  | .data nread, p => .read p nread
  | .close, p => .close p

/-- One event: the plugin that is to be called first, and the calls made for it so far. -/
structure Service where
  event : Event
  start : Option Nat
  calls : List Call
  deriving DecidableEq, Repr

/-- The call stack: `after_read`, `cycleIn` or `on_close` waiting for the plugins, a plugin's
    `onRead` or `onClose` before it calls the next one, and Pico's `onRead` behind that call. -/
inductive Frame where
  | caller (s : Service)
  | onRead (p nread : Nat)
  | onClose (p : Nat)
  | behindRead (next : Nat)
  deriving DecidableEq, Repr

def Call.frame : Call → Frame
  | .read p nread => .onRead p nread
  | .close p => .onClose p

/-- The call is made for the event whose caller is nearest. -/
def note (c : Call) : List Frame → List Frame
  | [] => []
  | .caller s :: fs => .caller { s with calls := s.calls ++ [c] } :: fs
  | f :: fs => f :: note c fs

/-- The next plugin is called, or the function returns. -/
def forward (e : Event) (fs : List Frame) : Option Nat → List Frame
  | some u => (e.call u).frame :: note (e.call u) fs
  | none => fs

/-- The rest of `on_plugin_read_data`, behind what the module does with the data. -/
def Heap.readOn (h : Heap) (p nread : Nat) (fs : List Frame) : Option (List Frame) :=
  match (h.plugins p).kind with
  | .openssl => some fs
  | .httpParser => (h.behind p).map (forward (.data nread) fs)
  | .picoHttpParser => (h.behind p).map fun
    | some u => .onRead u nread :: .behindRead u :: note (.read u nread) fs
    | none => fs

/-- The rest of `on_plugin_close`.  `SecureSocket` looks at the plugin itself. -/
def Heap.closeOn (h : Heap) (p : Nat) (fs : List Frame) : Option (List Frame) :=
  match (h.plugins p).kind with
  | .openssl => some (forward .close fs (h.plugins p).next)
  | .httpParser => (h.behind p).map (forward .close fs)
  | .picoHttpParser => (h.behind p).map (forward .close fs)

/-! ### The machine -/

/-- `cls` is the class of each object; `stream` says that the socket is a listener. -/
structure State where
  cls : Nat → Kind
  heap : Heap
  stream : Nat → Bool
  stack : List Frame

/-- Nothing is attached. -/
def State.initial (cls : Nat → Kind) : State where
  cls := cls
  heap := { plugins := fun _ => ⟨.openssl, 0, none⟩, size := 0, plugin := fun _ => none,
            first := fun _ => none, last := fun _ => none }
  stream := fun _ => false
  stack := []

/-- JavaScript, or the flushing `SecureSocket`, can run: at the top, or before a plugin calls on. -/
def State.scripting (s : State) : Bool :=
  match s.stack with
  | [] => true
  | .onRead _ _ :: _ => true
  | .onClose p :: _ => (s.heap.plugins p).kind = .openssl
  | _ => false

inductive Action where
  /-- `SecureSocket.setup(context, socket)` -/
  | setup (obj sock : Nat)
  /-- `HTTPParser.reset(mode)` and `HTTPParser.reset(mode, socket)` -/
  | reset (obj : Nat) (sock : Option Nat)
  /-- `PicoHTTPParser.reset()` and `PicoHTTPParser.reset(socket)` -/
  | picoReset (obj : Nat) (sock : Option Nat)
  /-- `listen` succeeds on the socket -/
  | listen (sock : Nat)
  /-- `after_read` with data -/
  | data (sock nread : Nat)
  /-- `cycleIn` with decrypted data -/
  | cycleIn (obj nread : Nat)
  /-- the close callback of the socket's handle -/
  | closed (sock : Nat)
  /-- the function on top of the stack goes on -/
  | goOn
  deriving DecidableEq, Repr

/-- Attach an object of the class `kind`. -/
def State.attach (s : State) (kind : Kind) (obj sock : Nat) : Option State :=
  if s.scripting ∧ s.cls obj = kind then
    (s.heap.attach kind obj sock).map fun heap => { s with heap := heap }
  else none

/-- `SecureSocket::Setup` -/
def SecureSocket.setup (s : State) (obj sock : Nat) : Option State := s.attach .openssl obj sock

/-- `HTTPParser::Reset`, which can be called without a socket -/
def HTTPParser.reset (s : State) (obj : Nat) (sock : Option Nat) : Option State :=
  match sock with
  | some sock => s.attach .httpParser obj sock
  | none => if s.scripting then some s else none

/-- `PicoHTTPParser::Reset`, which can be called without a socket -/
def PicoHTTPParser.reset (s : State) (obj : Nat) (sock : Option Nat) : Option State :=
  match sock with
  | some sock => s.attach .picoHttpParser obj sock
  | none => if s.scripting then some s else none

/-- Dispatch an event to the plugin `start`, if there is one. -/
def State.serve (s : State) (e : Event) (start : Option Nat) : State :=
  match start with
  | some p => { s with stack := (e.call p).frame :: .caller ⟨e, some p, [e.call p]⟩ :: s.stack }
  | none => { s with stack := .caller ⟨e, none, []⟩ :: s.stack }

/-- `goOn`. -/
def State.goOn (s : State) : Option State :=
  match s.stack with
  | [] => none
  | .caller _ :: fs => some { s with stack := fs }
  | .onRead p nread :: fs => (s.heap.readOn p nread fs).map fun fs => { s with stack := fs }
  | .onClose p :: fs => (s.heap.closeOn p fs).map fun fs => { s with stack := fs }
  | .behindRead u :: fs => some { s with stack := .onClose u :: note (.close u) fs }

/-- One step; `none` also where the code would follow a null pointer. -/
def step (s : State) : Action → Option State
  | .setup obj sock => SecureSocket.setup s obj sock
  | .reset obj sock => HTTPParser.reset s obj sock
  | .picoReset obj sock => PicoHTTPParser.reset s obj sock
  | .listen sock =>
    if s.scripting then some { s with stream := Function.update s.stream sock true } else none
  | .data sock nread =>
    if s.stack = [] ∧ 0 < nread then some (s.serve (.data nread) (s.heap.first sock)) else none
  | .cycleIn obj nread =>
    if s.scripting ∧ s.cls obj = .openssl ∧ 0 < nread then
      (s.heap.plugin obj).map fun p => s.serve (.data nread) (s.heap.plugins p).next
    else none
  | .closed sock =>
    if s.stack = [] then
      -- the close callback of a listener is `on_close2`, which calls no plugin
      if s.stream sock then some { s with stack := [.caller ⟨.close, s.heap.first sock, []⟩] }
      else some (s.serve .close (s.heap.first sock))
    else none
  | .goOn => s.goOn

end Dv8.Plugins
