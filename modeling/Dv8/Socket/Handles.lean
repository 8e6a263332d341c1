import Dv8.Lib.Machine
import Mathlib.Logic.Function.Basic

namespace Dv8.Handles

open Dv8.Lib

/-!
# Handles of sockets

`listen`, `bind`, `connect` and `open` register a handle in the event loop and then make one or
two more calls that can fail.  `Socket::Close` finds a handle in `_stream` or in the context; a
handle that is in neither, and was not passed to `uv_close`, can never be closed.

The statuses of libuv are arguments of the calls.  Handles are numbered as the loop registers
them.  `open` runs `onConnect` before it returns, so more calls can be made inside it.

* `listen_keeps_iff`, `bind_keeps_iff`, `connect_keeps_iff`, `openPair_keeps_iff`, `openFd_keeps` —
  at which exits a function has kept its handle;
* `noOrphans_iff_along` — no call of a run orphans its handle exactly when all take those exits.
-/

inductive SocketType where
  | TCP
  | UNIX
  /-- any other number given to the constructor -/
  | other
  deriving DecidableEq, Repr

/-- The fields of a `Socket` that hold handles: `_stream` and `context->handle`. -/
structure Socket where
  socktype : SocketType
  stream : Option Nat := none
  handle : Option Nat := none
  deriving DecidableEq, Repr

/-- How a function returns: the socket, the handle it has registered, the value for JavaScript. -/
structure Exit where
  socket : Socket
  own : Option Nat
  value : Int
  deriving DecidableEq, Repr

/-! ### The functions, with `h` the next handle -/

/-- `context_init(handle, s)`. -/
def Socket.contextInit (s : Socket) (h : Nat) : Socket := { s with handle := some h }

/-- A branch of `listen`: register, then open or bind, then `uv_listen`. -/
def Socket.listenOn (s : Socket) (h : Nat) (store : Bool) (init prepare listen : Int) : Exit :=
  if init ≠ 0 then ⟨s, none, init⟩
  else if prepare ≠ 0 then ⟨s, some h, prepare⟩
  else if listen ≠ 0 then ⟨s, some h, listen⟩
  else ⟨if store then { s with stream := some h } else s, some h, 0⟩

/-- `Socket::Listen`; `bound` says that the first argument is a number, a bound descriptor. -/
def Socket.listen (s : Socket) (h : Nat) (bound : Bool) (init prepare listen : Int) : Exit :=
  if bound then
    match s.socktype with
    | .TCP => s.listenOn h false init prepare listen   -- uv_tcp_init, uv_tcp_open
    | .UNIX => s.listenOn h false init prepare listen  -- uv_pipe_init, uv_pipe_open
    | .other => ⟨s, none, -1⟩
  else
    match s.socktype with
    | .TCP => s.listenOn h true init prepare listen    -- uv_tcp_init_ex, uv_tcp_bind
    | .UNIX => s.listenOn h true init prepare listen   -- uv_pipe_init, uv_pipe_bind
    | .other => ⟨s, none, -1⟩

/-- A branch of `bind`. -/
def Socket.bindOn (s : Socket) (h : Nat) (init bind : Int) : Exit :=
  if init ≠ 0 then ⟨s, none, init⟩
  else if bind ≠ 0 then ⟨s, some h, bind⟩
  else ⟨s, some h, 0⟩

/-- `Socket::Bind`. -/
def Socket.bind (s : Socket) (h : Nat) (init bind : Int) : Exit :=
  match s.socktype with
  | .TCP => s.bindOn h init bind
  | .UNIX => s.bindOn h init bind
  | .other => ⟨s, none, -1⟩

/-- `Socket::Connect`.  `uv_pipe_connect` has no status. -/
def Socket.connect (s : Socket) (h : Nat) (init connect : Int) : Exit :=
  match s.socktype with
  | .TCP =>
    if init ≠ 0 then ⟨s, none, init⟩
    else if connect ≠ 0 then ⟨s, some h, connect⟩
    else ⟨s.contextInit h, some h, 0⟩
  | _ =>
    if init ≠ 0 then ⟨s, none, init⟩
    else ⟨s.contextInit h, some h, 0⟩

/-- `Socket::Open` up to `onNewConnection`, without an argument: `fd` is the other end of the
    socket pair. -/
def Socket.openPair (s : Socket) (h : Nat) (init opened fd : Int) : Exit :=
  if init ≠ 0 then ⟨s, none, init⟩
  else if opened ≠ 0 then ⟨s, some h, opened⟩
  else ⟨s.contextInit h, some h, fd⟩

/-- `Socket::Open` up to `onNewConnection`, with a descriptor.  The status of `uv_pipe_open` is
    only returned. -/
def Socket.openFd (s : Socket) (h : Nat) (init opened : Int) : Exit :=
  if init ≠ 0 then ⟨s, none, init⟩
  else ⟨s.contextInit h, some h, opened⟩

/-! ### The machine -/

/-- The sockets, the number of handles registered, those passed to `uv_close`, the calls of `open`
    whose `onConnect` is running, and the handles orphaned so far. -/
structure State where
  sockets : Nat → Socket
  size : Nat
  closed : List Nat
  opening : List (Nat × Nat)
  orphans : List Nat

/-- Sockets as constructed. -/
def State.initial (types : Nat → SocketType) : State :=
  ⟨fun k => { socktype := types k }, 0, [], [], []⟩

inductive Action where
  | listen (k : Nat) (bound : Bool) (init prepare listen : Int)
  | bind (k : Nat) (init bind : Int)
  | connect (k : Nat) (init connect : Int)
  | openPair (k : Nat) (init opened fd : Int)
  | openFd (k : Nat) (init opened : Int)
  /-- `onConnect` is done and `open` returns -/
  | opened
  /-- `Socket::Close`; `later` when the handle of the context is closed in a callback -/
  | close (k : Nat) (later : Bool)
  deriving DecidableEq, Repr

/-- `Socket::Close` will find the handle, or it has been passed to `uv_close`. -/
def State.Kept (t : State) (k h : Nat) : Prop :=
  (t.sockets k).stream = some h ∨ (t.sockets k).handle = some h ∨ h ∈ t.closed

instance (t : State) (k h : Nat) : Decidable (t.Kept k h) :=
  inferInstanceAs (Decidable (_ ∨ _ ∨ _))

/-- A call on socket `k` with the handle `h` returns. -/
def State.ret (t : State) (k h : Nat) : State :=
  if t.Kept k h then t else { t with orphans := t.orphans ++ [h] }

/-- The state a function leaves. -/
def State.exit (t : State) (k : Nat) (e : Exit) : State :=
  { t with sockets := Function.update t.sockets k e.socket,
           size := if e.own.isSome then t.size + 1 else t.size }

/-- A function that returns at once. -/
def State.call (t : State) (k : Nat) (e : Exit) : State :=
  match e.own with
  | none => t.exit k e
  | some h => (t.exit k e).ret k h

/-- A function that calls `onConnect` once the handle is in the context. -/
def State.callOpen (t : State) (k : Nat) (e : Exit) : State :=
  match e.own with
  | none => t.exit k e
  | some h =>
    if e.socket.handle = some h then { t.exit k e with opening := (k, h) :: t.opening }
    else (t.exit k e).ret k h

def step (t : State) : Action → Option State
  | .listen k bound init prepare listen =>
    some (t.call k ((t.sockets k).listen t.size bound init prepare listen))
  | .bind k init bind => some (t.call k ((t.sockets k).bind t.size init bind))
  | .connect k init connect => some (t.call k ((t.sockets k).connect t.size init connect))
  | .openPair k init opened fd =>
    some (t.callOpen k ((t.sockets k).openPair t.size init opened fd))
  | .openFd k init opened => some (t.callOpen k ((t.sockets k).openFd t.size init opened))
  | .opened =>
    match t.opening with
    | [] => none
    | (k, h) :: rest => some (({ t with opening := rest } : State).ret k h)
  | .close k later =>
    match (t.sockets k).stream, (t.sockets k).handle with
    | some h, _ => some { t with closed := h :: t.closed }
    | none, some h => some (if later then t else { t with closed := h :: t.closed })
    | none, none => none

/-! ### The condition -/

/-- The exits that keep the handle: it was never registered, or the call succeeds and is not a
    `bind` or a `listen` on a bound descriptor.  When `open` returns, the context still has its
    handle, or the handle was closed. -/
def Keeps (t : State) : Action → Prop
  | .listen k bound init prepare listen =>
    (t.sockets k).socktype = .other ∨ init ≠ 0 ∨ (bound = false ∧ prepare = 0 ∧ listen = 0)
  | .bind k init _ => (t.sockets k).socktype = .other ∨ init ≠ 0
  | .connect k init connect => init ≠ 0 ∨ (t.sockets k).socktype ≠ .TCP ∨ connect = 0
  | .openPair _ init opened _ => init ≠ 0 ∨ opened = 0
  | .openFd _ _ _ => True
  | .opened =>
    match t.opening with
    | [] => True
    | (k, h) :: _ => (t.sockets k).handle = some h ∨ h ∈ t.closed
  | .close _ _ => True

instance (t : State) : (a : Action) → Decidable (Keeps t a)
  | .listen _ _ _ _ _ => inferInstanceAs (Decidable (_ ∨ _ ∨ _))
  | .bind _ _ _ => inferInstanceAs (Decidable (_ ∨ _))
  | .connect _ _ _ => inferInstanceAs (Decidable (_ ∨ _ ∨ _))
  | .openPair _ _ _ _ => inferInstanceAs (Decidable (_ ∨ _))
  | .openFd _ _ _ => isTrue trivial
  | .opened =>
    match h : t.opening with
    | [] => isTrue (by simp [Keeps, h])
    | (k, n) :: _ =>
      decidable_of_iff ((t.sockets k).handle = some n ∨ n ∈ t.closed) (by simp [Keeps, h])
  | .close _ _ => isTrue trivial

/-! ### Exits -/

/-- What every exit is like: only the handle just registered is new. -/
structure Exit.Of (s : Socket) (h : Nat) (e : Exit) : Prop where
  own : e.own = none ∨ e.own = some h
  stream : e.socket.stream = s.stream ∨ (e.socket.stream = some h ∧ e.own = some h)
  handle : e.socket.handle = s.handle ∨ (e.socket.handle = some h ∧ e.own = some h)

/-- The handle of the call is where `Socket::Close` finds it. -/
def Exit.Stored (e : Exit) : Prop :=
  ∀ h, e.own = some h → e.socket.stream = some h ∨ e.socket.handle = some h

/-- The next handle is not stored yet. -/
structure Socket.Before (s : Socket) (h : Nat) : Prop where
  stream : s.stream ≠ some h
  handle : s.handle ≠ some h

/-- An exit before the handle is registered. -/
private theorem exit_none (s : Socket) (h : Nat) (value : Int) :
    Exit.Of s h ⟨s, none, value⟩ ∧ Exit.Stored ⟨s, none, value⟩ :=
  ⟨⟨Or.inl rfl, Or.inl rfl, Or.inl rfl⟩, nofun⟩

/-- An exit that forgets the handle. -/
private theorem exit_lost {s : Socket} {h : Nat} (hs : s.Before h) (value : Int) :
    Exit.Of s h ⟨s, some h, value⟩ ∧ ¬ Exit.Stored ⟨s, some h, value⟩ :=
  ⟨⟨Or.inr rfl, Or.inl rfl, Or.inl rfl⟩, fun hst => (hst h rfl).elim hs.stream hs.handle⟩

/-- An exit with the handle in the context. -/
private theorem exit_context (s : Socket) (h : Nat) (value : Int) :
    Exit.Of s h ⟨s.contextInit h, some h, value⟩ ∧
      Exit.Stored ⟨s.contextInit h, some h, value⟩ := by
  refine ⟨⟨Or.inr rfl, Or.inl rfl, Or.inr ⟨rfl, rfl⟩⟩, fun n hn => Or.inr ?_⟩
  exact hn

theorem listenOn_keeps_iff {s : Socket} {h : Nat} (hs : s.Before h) (store : Bool)
    (init prepare listen : Int) :
    (s.listenOn h store init prepare listen).Of s h ∧
      ((s.listenOn h store init prepare listen).Stored ↔
        init ≠ 0 ∨ (store = true ∧ prepare = 0 ∧ listen = 0)) := by
  unfold Socket.listenOn
  by_cases hinit : init ≠ 0
  · rw [if_pos hinit]
    have hexit := exit_none s h init
    exact ⟨hexit.1, iff_of_true hexit.2 (Or.inl hinit)⟩
  rw [if_neg hinit]
  by_cases hprepare : prepare ≠ 0
  · rw [if_pos hprepare]
    have hexit := exit_lost hs prepare
    exact ⟨hexit.1, iff_of_false hexit.2 (by tauto)⟩
  rw [if_neg hprepare]
  by_cases hlisten : listen ≠ 0
  · rw [if_pos hlisten]
    have hexit := exit_lost hs listen
    exact ⟨hexit.1, iff_of_false hexit.2 (by tauto)⟩
  rw [if_neg hlisten]
  cases store with
  | true =>
    refine ⟨⟨Or.inr rfl, Or.inr ⟨rfl, rfl⟩, Or.inl rfl⟩, iff_of_true (fun n hn => Or.inl hn) ?_⟩
    exact Or.inr ⟨rfl, not_not.mp hprepare, not_not.mp hlisten⟩
  | false =>
    -- a bound descriptor: the call succeeds and the handle is stored nowhere
    have hexit := exit_lost hs 0
    exact ⟨hexit.1, iff_of_false hexit.2 (by simp [hinit])⟩

/-- **The exits of `listen`.** -/
theorem listen_keeps_iff {s : Socket} {h : Nat} (hs : s.Before h) (bound : Bool)
    (init prepare listen : Int) :
    (s.listen h bound init prepare listen).Of s h ∧
      ((s.listen h bound init prepare listen).Stored ↔
        s.socktype = .other ∨ init ≠ 0 ∨ (bound = false ∧ prepare = 0 ∧ listen = 0)) := by
  unfold Socket.listen
  cases bound with
  | true =>
    have hfd := listenOn_keeps_iff hs false init prepare listen
    cases htype : s.socktype with
    | TCP => simpa using hfd
    | UNIX => simpa using hfd
    | other => simpa using exit_none s h (-1)
  | false =>
    have hname := listenOn_keeps_iff hs true init prepare listen
    cases htype : s.socktype with
    | TCP => simpa using hname
    | UNIX => simpa using hname
    | other => simpa using exit_none s h (-1)

/-- **The exits of `bind`.** -/
theorem bind_keeps_iff {s : Socket} {h : Nat} (hs : s.Before h) (init bind : Int) :
    (s.bind h init bind).Of s h ∧
      ((s.bind h init bind).Stored ↔ s.socktype = .other ∨ init ≠ 0) := by
  have hon : (s.bindOn h init bind).Of s h ∧ ((s.bindOn h init bind).Stored ↔ init ≠ 0) := by
    unfold Socket.bindOn
    by_cases hinit : init ≠ 0
    · rw [if_pos hinit]
      have hexit := exit_none s h init
      exact ⟨hexit.1, iff_of_true hexit.2 hinit⟩
    rw [if_neg hinit]
    by_cases hbind : bind ≠ 0
    · rw [if_pos hbind]
      have hexit := exit_lost hs bind
      exact ⟨hexit.1, iff_of_false hexit.2 hinit⟩
    · rw [if_neg hbind]
      have hexit := exit_lost hs 0
      exact ⟨hexit.1, iff_of_false hexit.2 hinit⟩
  unfold Socket.bind
  cases htype : s.socktype with
  | TCP => simpa using hon
  | UNIX => simpa using hon
  | other => simpa using exit_none s h (-1)

/-- **The exits of `connect`.** -/
theorem connect_keeps_iff {s : Socket} {h : Nat} (hs : s.Before h) (init connect : Int) :
    (s.connect h init connect).Of s h ∧
      ((s.connect h init connect).Stored ↔
        init ≠ 0 ∨ s.socktype ≠ .TCP ∨ connect = 0) := by
  unfold Socket.connect
  by_cases hinit : init ≠ 0
  · have hexit := exit_none s h init
    cases htype : s.socktype <;> simpa [hinit] using hexit
  · have hexit := exit_context s h 0
    cases htype : s.socktype with
    | TCP =>
      by_cases hconnect : connect ≠ 0
      · have hlost := exit_lost hs connect
        simpa [hinit, hconnect] using hlost
      · simpa [hinit, not_not.mp hconnect] using hexit
    | UNIX => simpa [hinit] using hexit
    | other => simpa [hinit] using hexit

/-- **The exits of `open`** without an argument. -/
theorem openPair_keeps_iff {s : Socket} {h : Nat} (hs : s.Before h) (init opened fd : Int) :
    (s.openPair h init opened fd).Of s h ∧
      ((s.openPair h init opened fd).Stored ↔ init ≠ 0 ∨ opened = 0) := by
  unfold Socket.openPair
  by_cases hinit : init ≠ 0
  · simpa [hinit] using exit_none s h init
  by_cases hopened : opened ≠ 0
  · simpa [hinit, hopened] using exit_lost hs opened
  · simpa [hinit, not_not.mp hopened] using exit_context s h fd

/-- **The exits of `open`** with a descriptor all keep the handle. -/
theorem openFd_keeps (s : Socket) (h : Nat) (init opened : Int) :
    (s.openFd h init opened).Of s h ∧ (s.openFd h init opened).Stored := by
  unfold Socket.openFd
  by_cases hinit : init ≠ 0
  · simpa [hinit] using exit_none s h init
  · simpa [hinit] using exit_context s h opened

/-! ### States -/

/-- Handles are numbered: those stored, closed or being opened are older than the next, and no
    handle being opened is a listener's. -/
structure State.WF (t : State) : Prop where
  stream : ∀ k h, (t.sockets k).stream = some h → h < t.size
  handle : ∀ k h, (t.sockets k).handle = some h → h < t.size
  closed : ∀ h ∈ t.closed, h < t.size
  opening : ∀ k h, (k, h) ∈ t.opening → h < t.size ∧ ∀ k', (t.sockets k').stream ≠ some h

theorem State.WF.before {t : State} (hwf : t.WF) (k : Nat) : (t.sockets k).Before t.size :=
  ⟨fun h => Nat.lt_irrefl _ (hwf.stream k _ h), fun h => Nat.lt_irrefl _ (hwf.handle k _ h)⟩

@[simp] theorem State.exit_sockets_self (t : State) (k : Nat) (e : Exit) :
    (t.exit k e).sockets k = e.socket := Function.update_self ..

theorem State.exit_sockets_of_ne (t : State) {k k' : Nat} (e : Exit) (h : k' ≠ k) :
    (t.exit k e).sockets k' = t.sockets k' := Function.update_of_ne h ..

/-- A handle found in the field `f` of some socket is an old one or the one just registered. -/
private theorem exit_stored {t : State} {k k' h : Nat} {e : Exit} {f : Socket → Option Nat}
    (hf : f e.socket = f (t.sockets k) ∨ (f e.socket = some t.size ∧ e.own = some t.size))
    (hs : f ((t.exit k e).sockets k') = some h) :
    (∃ k'', f (t.sockets k'') = some h) ∨ (h = t.size ∧ e.own = some t.size) := by
  by_cases hk : k' = k
  · rw [hk, State.exit_sockets_self] at hs
    rcases hf with hold | ⟨hnew, hown⟩
    · exact Or.inl ⟨k, hold ▸ hs⟩
    · exact Or.inr ⟨(Option.some.inj (hnew.symm.trans hs)).symm, hown⟩
  · exact Or.inl ⟨k', by rwa [State.exit_sockets_of_ne t e hk] at hs⟩

/-- What a function stores keeps the numbering. -/
theorem State.WF.exit {t : State} (hwf : t.WF) {k : Nat} {e : Exit}
    (he : e.Of (t.sockets k) t.size) : (t.exit k e).WF := by
  have hle : t.size ≤ (t.exit k e).size := by
    unfold State.exit
    split_ifs <;> simp
  have hnew (hown : e.own = some t.size) : t.size < (t.exit k e).size := by
    simp [State.exit, hown]
  refine ⟨fun k' h hs => ?_, fun k' h hs => ?_, fun h hh => ?_,
    fun k' h hh => ⟨?_, fun k'' hs => ?_⟩⟩
  · rcases exit_stored he.stream hs with ⟨k'', hold⟩ | ⟨rfl, hown⟩
    · exact Nat.lt_of_lt_of_le (hwf.stream k'' h hold) hle
    · exact hnew hown
  · rcases exit_stored he.handle hs with ⟨k'', hold⟩ | ⟨rfl, hown⟩
    · exact Nat.lt_of_lt_of_le (hwf.handle k'' h hold) hle
    · exact hnew hown
  · exact Nat.lt_of_lt_of_le (hwf.closed h hh) hle
  · exact Nat.lt_of_lt_of_le (hwf.opening k' h hh).1 hle
  · -- a handle that is being opened is older than the one just registered
    have hold := hwf.opening k' h hh
    rcases exit_stored he.stream hs with ⟨k₀, hk₀⟩ | ⟨rfl, -⟩
    · exact hold.2 k₀ hk₀
    · exact Nat.lt_irrefl _ hold.1

/-- Only the list of orphans can change when a call returns. -/
theorem State.WF.ret {t : State} (hwf : t.WF) (k h : Nat) : (t.ret k h).WF := by
  unfold State.ret
  split_ifs
  · exact hwf
  · exact ⟨hwf.stream, hwf.handle, hwf.closed, hwf.opening⟩

theorem State.ret_orphans_iff {t : State} (ho : t.orphans = []) (k h : Nat) :
    (t.ret k h).orphans = [] ↔ t.Kept k h := by
  unfold State.ret
  by_cases hk : t.Kept k h
  · rw [if_pos hk]
    exact iff_of_true ho hk
  · rw [if_neg hk]
    exact iff_of_false (by simp) hk

/-- The handle a function has registered was not closed by it. -/
private theorem kept_exit_iff {t : State} (hwf : t.WF) {k : Nat} {e : Exit}
    (hown : e.own = some t.size) : (t.exit k e).Kept k t.size ↔ e.Stored := by
  have hopen : t.size ∉ t.closed := fun h => Nat.lt_irrefl _ (hwf.closed _ h)
  unfold State.Kept Exit.Stored
  rw [State.exit_sockets_self, hown]
  constructor
  · rintro h n hn
    obtain rfl := Option.some.inj hn
    exact h.imp_right fun h' => h'.resolve_right hopen
  · intro h
    exact (h _ rfl).imp_right Or.inl

/-- A function that has registered no handle has none to store. -/
theorem Exit.stored_of_own {e : Exit} (h : e.own = none) : e.Stored := fun n hn => by
  rw [h] at hn
  contradiction

/-- The call of a function that has registered a handle returns. -/
private theorem ret_exit_orphans_iff {t : State} (hwf : t.WF) (ho : t.orphans = []) {k : Nat}
    {e : Exit} (he : e.Of (t.sockets k) t.size) (hown : e.own = some t.size) :
    ((t.exit k e).ret k t.size).WF ∧
      (((t.exit k e).ret k t.size).orphans = [] ↔ e.Stored) := by
  have hexit : (t.exit k e).orphans = [] := ho
  exact ⟨(hwf.exit he).ret k t.size,
    (State.ret_orphans_iff hexit k t.size).trans (kept_exit_iff hwf hown)⟩

/-- **A function that returns at once** leaves no orphan exactly when it has stored its handle. -/
theorem call_orphans_iff {t : State} (hwf : t.WF) (ho : t.orphans = []) {k : Nat} {e : Exit}
    {P : Prop} (he : e.Of (t.sockets k) t.size ∧ (e.Stored ↔ P)) :
    (t.call k e).WF ∧ ((t.call k e).orphans = [] ↔ P) := by
  rw [← he.2]
  unfold State.call
  rcases he.1.own with hown | hown
  · rw [hown]
    exact ⟨hwf.exit he.1, iff_of_true ho (Exit.stored_of_own hown)⟩
  · rw [hown]
    exact ret_exit_orphans_iff hwf ho he.1 hown

/-- **`open` up to `onConnect`.** -/
theorem callOpen_orphans_iff {t : State} (hwf : t.WF) (ho : t.orphans = []) {k : Nat} {e : Exit}
    {P : Prop} (he : e.Of (t.sockets k) t.size ∧ (e.Stored ↔ P))
    (hstream : e.socket.stream = (t.sockets k).stream) :
    (t.callOpen k e).WF ∧ ((t.callOpen k e).orphans = [] ↔ P) := by
  have hexit := hwf.exit he.1
  rw [← he.2]
  unfold State.callOpen
  rcases he.1.own with hown | hown
  · rw [hown]
    exact ⟨hexit, iff_of_true ho (Exit.stored_of_own hown)⟩
  · rw [hown]
    by_cases hcontext : e.socket.handle = some t.size
    · simp only [if_pos hcontext]
      have hstored : e.Stored := fun n hn => by
        rw [hown] at hn
        obtain rfl := Option.some.inj hn
        exact Or.inr hcontext
      refine ⟨⟨hexit.stream, hexit.handle, hexit.closed, fun k' h hh => ?_⟩, iff_of_true ho hstored⟩
      rcases List.mem_cons.mp hh with heq | hh
      · cases heq
        refine ⟨by simp [State.exit, hown], fun k' hs => ?_⟩
        -- no stream is the new handle
        by_cases hk : k' = k
        · have hs : ((t.exit k e).sockets k').stream = some t.size := hs
          rw [hk, State.exit_sockets_self, hstream] at hs
          exact (hwf.before k).stream hs
        · have hs : ((t.exit k e).sockets k').stream = some t.size := hs
          rw [State.exit_sockets_of_ne t e hk] at hs
          exact (hwf.before k').stream hs
      · exact hexit.opening k' h hh
    · simp only [if_neg hcontext]
      exact ret_exit_orphans_iff hwf ho he.1 hown

/-! ### Steps and runs -/

/-- `open` stores nothing in `_stream`. -/
private theorem openPair_stream (s : Socket) (h : Nat) (init opened fd : Int) :
    (s.openPair h init opened fd).socket.stream = s.stream := by
  unfold Socket.openPair
  split_ifs <;> rfl

private theorem openFd_stream (s : Socket) (h : Nat) (init opened : Int) :
    (s.openFd h init opened).socket.stream = s.stream := by
  unfold Socket.openFd
  split_ifs <;> rfl

theorem State.WF.close {t : State} (hwf : t.WF) {h : Nat} (hlt : h < t.size) :
    ({ t with closed := h :: t.closed } : State).WF := by
  refine ⟨hwf.stream, hwf.handle, fun h' hh => ?_, hwf.opening⟩
  rcases List.mem_cons.mp hh with rfl | hh
  · exact hlt
  · exact hwf.closed h' hh

theorem State.WF.opened {t : State} (hwf : t.WF) {p : Nat × Nat} {rest : List (Nat × Nat)}
    (hopening : t.opening = p :: rest) : ({ t with opening := rest } : State).WF := by
  refine ⟨hwf.stream, hwf.handle, hwf.closed, fun k h hh => hwf.opening k h ?_⟩
  rw [hopening]
  exact List.mem_cons_of_mem p hh

/-- **One step** orphans no handle exactly when it takes an exit that keeps its handle. -/
theorem step_orphans_iff {t t' : State} {a : Action} (hwf : t.WF) (ho : t.orphans = [])
    (hs : step t a = some t') : t'.WF ∧ (t'.orphans = [] ↔ Keeps t a) := by
  cases a with
  | listen k bound init prepare listen =>
    obtain rfl := Option.some.inj hs
    exact call_orphans_iff hwf ho (listen_keeps_iff (hwf.before k) bound init prepare listen)
  | bind k init bind =>
    obtain rfl := Option.some.inj hs
    exact call_orphans_iff hwf ho (bind_keeps_iff (hwf.before k) init bind)
  | connect k init connect =>
    obtain rfl := Option.some.inj hs
    exact call_orphans_iff hwf ho (connect_keeps_iff (hwf.before k) init connect)
  | openPair k init opened fd =>
    obtain rfl := Option.some.inj hs
    exact callOpen_orphans_iff hwf ho (openPair_keeps_iff (hwf.before k) init opened fd)
      (openPair_stream ..)
  | openFd k init opened =>
    obtain rfl := Option.some.inj hs
    have hkeeps := openFd_keeps (t.sockets k) t.size init opened
    exact callOpen_orphans_iff hwf ho ⟨hkeeps.1, iff_of_true hkeeps.2 trivial⟩ (openFd_stream ..)
  | opened =>
    unfold Keeps
    cases hopening : t.opening with
    | nil =>
      simp only [step, hopening] at hs
      cases hs
    | cons kh rest =>
      obtain ⟨k, h⟩ := kh
      simp only [step, hopening, Option.some.injEq] at hs
      obtain rfl := hs
      have hhead : (k, h) ∈ t.opening := by
        rw [hopening]
        exact List.mem_cons_self
      have ho' : ({ t with opening := rest } : State).orphans = [] := ho
      refine ⟨(hwf.opened hopening).ret k h, (State.ret_orphans_iff ho' k h).trans ?_⟩
      -- the handle of an `onopen` is stored nowhere yet, so it must be stored now
      exact or_iff_right ((hwf.opening k h hhead).2 k)
  | close k later =>
    simp only [step] at hs
    cases hstream : (t.sockets k).stream with
    | some h =>
      rw [hstream, Option.some.injEq] at hs
      obtain rfl := hs
      exact ⟨hwf.close (hwf.stream k h hstream), iff_of_true ho trivial⟩
    | none =>
      cases hhandle : (t.sockets k).handle with
      | none =>
        rw [hstream, hhandle] at hs
        cases hs
      | some h =>
        rw [hstream, hhandle, Option.some.injEq] at hs
        obtain rfl := hs
        cases later with
        | true => exact ⟨hwf, iff_of_true ho trivial⟩
        | false => exact ⟨hwf.close (hwf.handle k h hhandle), iff_of_true ho trivial⟩

theorem wf_initial (types : Nat → SocketType) : (State.initial types).WF :=
  ⟨nofun, nofun, nofun, nofun⟩

/-- When the calls of the run that have returned did so, their handles could be found by
    `Socket::Close` or had been closed. -/
def NoOrphans (types : Nat → SocketType) (as : List Action) : Prop :=
  ∀ bs cs t, as = bs ++ cs → run step (State.initial types) bs = some t → t.orphans = []

/-- **No orphaned handles** exactly when every call takes an exit that keeps its handle. -/
theorem noOrphans_iff_along {types : Nat → SocketType} {t : State} {as : List Action}
    (h : run step (State.initial types) as = some t) :
    NoOrphans types as ↔ Along step Keeps (State.initial types) as :=
  forall_prefix_iff_along (I := State.WF) (G := fun t => t.orphans = [])
    (fun _ _ _ hwf ho hs => step_orphans_iff hwf ho hs) (wf_initial types) rfl h

/-- A listener and a client, closed in the end. -/
def listenAndConnect : List Action :=
  [.listen 0 false 0 0 0, .connect 1 0 0, .close 1 false, .close 0 false]

theorem noOrphans_iff_along_listenAndConnect :
    NoOrphans (fun _ => .TCP) listenAndConnect ↔
      Along step Keeps (State.initial fun _ => .TCP) listenAndConnect := by
  obtain ⟨t, ht⟩ := Option.isSome_iff_exists.mp (show
    (run step (State.initial fun _ => .TCP) listenAndConnect).isSome = true by decide)
  exact noOrphans_iff_along ht

/-- **A port in use**: `listen` returns `EADDRINUSE` and its handle stays in the loop. -/
theorem not_noOrphans_listen : ¬ NoOrphans (fun _ => .TCP) [.listen 0 false 0 (-98) 0] := by
  intro hno
  have horphan : (run step (State.initial fun _ => .TCP) [.listen 0 false 0 (-98) 0]).map
      State.orphans = some [0] := by decide
  obtain ⟨t, ht, heq⟩ := Option.map_eq_some_iff.mp horphan
  rw [hno [.listen 0 false 0 (-98) 0] [] t rfl ht] at heq
  cases heq

end Dv8.Handles
