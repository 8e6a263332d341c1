import Dv8.Builtins.Buffer
import Dv8.Lib.Machine
import Mathlib.Data.List.Range
import Mathlib.Logic.Function.Basic

namespace Dv8.Os

open Dv8.Lib Dv8.Builtins

/-!
# `OS.onSignal`

Every call of `onSignal` makes a new watcher, but an `OS` object has one `_onSignal`, which the call
overwrites: all watchers call the function that was registered last.  libuv writes a message for
each watcher of a signal that is caught and calls the watchers of the messages later on, those that
have not been stopped since.  A handler that returns 1 stops the watcher it was called by; what it
returns is read as a `uint32_t`, so 4294967297 is a 1 too.  A handler that throws is not modelled:
`on_signal` has no `TryCatch`, and the `ToLocalChecked` of the empty result ends the process.

Beside the object a run keeps what has been registered: for each signal the function registered
last, until its handler returns 1.

* `step_apart_iff` — a step keeps the signals apart exactly when it registers for a signal that has
  no handler, and no function but the one there is;
* `signals_iff_along` — a run keeps them apart exactly when all its steps are of that kind.
-/

/-- One `OS` object, its watchers and the pipe of its loop.  Functions and watchers are numbers;
    `signum` is 0 for a watcher that is not started, and `running` is the watcher whose callback
    runs. -/
structure OS where
  onSignal : Option Nat := none
  signum : Nat → Int := fun _ => 0
  made : Nat := 0
  pipe : List (Nat × Int) := []
  running : Option Nat := none

/-- The watchers of a signal. -/
def OS.active (os : OS) (sig : Int) : List Nat :=
  (List.range os.made).filter fun w => os.signum w = sig

/-- The second argument of `onSignal`, a number. -/
def sigmask : Option Int → Int
  | none => 15
  | some arg => int32Value arg

/-- `uv_signal_start` of a new watcher returns 0; `catchable` says what `sigaction` accepts. -/
def OS.starts (catchable : Int → Bool) (os : OS) (sig : Int) : Bool :=
  sig ≠ 0 && (os.active sig ≠ [] || catchable sig)

/-- `OS::OnSignal`, with a first argument that is a function or is not. -/
def OS.register (catchable : Int → Bool) (os : OS) (arg : Option Int) : Option Nat → OS
  | none => os
  | some fn =>
    { os with
      onSignal := some fn, made := os.made + 1,
      signum := Function.update os.signum os.made
        (if os.starts catchable (sigmask arg) then sigmask arg else 0) }

/-- `uv_signal_stop` -/
def OS.stop (os : OS) (w : Nat) : OS := { os with signum := Function.update os.signum w 0 }

inductive Action where
  /-- `os.onSignal(fn, arg)`, also from a handler -/
  | onSignal (fn : Option Nat) (arg : Option Int)
  /-- `uv__signal_handler`: the watchers are visited in the order of their addresses -/
  | caught (sig : Int) (order : List Nat)
  /-- `uv__signal_event` takes the next message -/
  | dispatch
  /-- the handler returns a number -/
  | ret (value : Int)
  deriving DecidableEq, Repr

/-- One step. -/
def OS.step (catchable : Int → Bool) (os : OS) : Action → Option OS
  | .onSignal fn arg => some (os.register catchable arg fn)
  | .caught sig order =>
    if sig ≠ 0 ∧ order.Perm (os.active sig) then
      some { os with pipe := os.pipe ++ order.map fun w => (w, sig) }
    else none
  | .dispatch =>
    match os.running, os.pipe with
    | none, (w, sig) :: pipe =>
      if os.signum w = sig then some { os with pipe := pipe, running := some w }
      else some { os with pipe := pipe }
    | _, _ => none
  | .ret value =>
    os.running.map fun w =>
      if value % 2 ^ 32 = 1 then { os.stop w with running := none } else { os with running := none }

/-! ### What is registered -/

/-- A function that is registered for a signal, and the watcher of the registration. -/
structure Handler where
  signum : Int
  watcher : Nat
  fn : Nat
  deriving DecidableEq, Repr

/-- The object, and the handlers of the signals. -/
structure Session where
  os : OS := {}
  handlers : List Handler := []

/-- The handler of a signal; the list has at most one. -/
def Session.handlersOf (s : Session) (sig : Int) : List Handler :=
  s.handlers.filter fun h => h.signum = sig

/-- A registration that succeeds takes the place of the one before it, and a handler that returns 1
    is gone. -/
def Session.registered (catchable : Int → Bool) (s : Session) : Action → List Handler
  | .onSignal (some fn) arg =>
    if s.os.starts catchable (sigmask arg) then
      s.handlers.filter (fun h => h.signum ≠ sigmask arg) ++ [⟨sigmask arg, s.os.made, fn⟩]
    else s.handlers
  | .ret value =>
    match s.os.running with
    | some w => if value % 2 ^ 32 = 1 then s.handlers.filter fun h => h.watcher ≠ w else s.handlers
    | none => s.handlers
  | _ => s.handlers

/-- One step of both. -/
def Session.step (catchable : Int → Bool) (s : Session) (a : Action) : Option Session :=
  (s.os.step catchable a).map fun os => ⟨os, s.registered catchable a⟩

/-- A signal caught now would reach the watcher of its handler, once and no other, and invoke the
    function of that handler. -/
def Session.Apart (s : Session) : Prop :=
  ∀ sig ≠ 0, (s.os.active sig).map (fun w => (w, s.os.onSignal))
    = (s.handlersOf sig).map fun h => (h.watcher, some h.fn)

/-- A signal is caught for the watcher of its handler, once and no other; and the function that is
    invoked for it is that of the handler. -/
def Session.Right (s : Session) : Action → Prop
  | .caught sig order => order = (s.handlersOf sig).map Handler.watcher
  | .dispatch =>
    ∀ m ∈ s.os.pipe.head?, s.os.signum m.1 = m.2 →
      ∃ h ∈ s.handlersOf m.2, h.watcher = m.1 ∧ s.os.onSignal = some h.fn
  | _ => True

instance Session.Right.decide : ∀ (s : Session) (a : Action), Decidable (s.Right a)
  | _, .onSignal _ _ => isTrue trivial
  | _, .caught _ _ => inferInstanceAs (Decidable (_ = _))
  | s, .dispatch => inferInstanceAs (Decidable (∀ m ∈ s.os.pipe.head?, _ → _))
  | _, .ret _ => isTrue trivial

/-- All along the run, signals are kept apart. -/
def KeptApart (catchable : Int → Bool) (as : List Action) : Prop :=
  (∀ bs cs u, as = bs ++ cs → run (Session.step catchable) {} bs = some u → u.Apart) ∧
    Along (Session.step catchable) Session.Right {} as

/-- A function is registered for a signal that has no handler, and the handlers there are have the
    same function. -/
def Session.Careful (catchable : Int → Bool) (s : Session) : Action → Prop
  | .onSignal (some fn) arg =>
    (s.os.starts catchable (sigmask arg) = true → ∀ h ∈ s.handlers, h.signum ≠ sigmask arg) ∧
      ∀ h ∈ s.handlers, h.fn = fn
  | _ => True

instance Session.Careful.decide (catchable : Int → Bool) :
    ∀ (s : Session) (a : Action), Decidable (s.Careful catchable a)
  | _, .onSignal (some _) _ => inferInstanceAs (Decidable ((_ → _) ∧ _))
  | _, .onSignal none _ => isTrue trivial
  | _, .caught _ _ => isTrue trivial
  | _, .dispatch => isTrue trivial
  | _, .ret _ => isTrue trivial

/-! ### Reading the condition -/

/-- Two lists of watchers with what they call. -/
theorem map_eq_map_iff (o : Option Nat) (ws : List Nat) (hs : List Handler) :
    (ws.map fun w => (w, o)) = (hs.map fun h => (h.watcher, some h.fn)) ↔
      ws = hs.map Handler.watcher ∧ ∀ h ∈ hs, o = some h.fn := by
  induction hs generalizing ws with
  | nil => simp
  | cons h hs ih =>
    cases ws with
    | nil => simp
    | cons w ws =>
      simp only [List.map_cons, List.cons.injEq, Prod.mk.injEq, ih, List.forall_mem_cons]
      constructor
      · rintro ⟨⟨hw, ho⟩, hws, hall⟩
        exact ⟨⟨hw, hws⟩, ho, hall⟩
      · rintro ⟨⟨hw, hws⟩, ho, hall⟩
        exact ⟨⟨hw, ho⟩, hws, hall⟩

/-- The watchers of a signal are those of its handlers, and call the functions of these. -/
theorem apart_iff (s : Session) :
    s.Apart ↔ ∀ sig ≠ 0, s.os.active sig = (s.handlersOf sig).map Handler.watcher ∧
      ∀ h ∈ s.handlersOf sig, s.os.onSignal = some h.fn :=
  forall₂_congr fun _ _ => map_eq_map_iff ..

theorem mem_handlersOf {s : Session} {sig : Int} {h : Handler} :
    h ∈ s.handlersOf sig ↔ h ∈ s.handlers ∧ h.signum = sig := by
  rw [Session.handlersOf, List.mem_filter, decide_eq_true_iff]

theorem OS.mem_active {os : OS} {sig : Int} {w : Nat} :
    w ∈ os.active sig ↔ w < os.made ∧ os.signum w = sig := by
  rw [active, List.mem_filter, List.mem_range, decide_eq_true_iff]

/-- What holds in every state: messages are for watchers that have been made, signals are not 0,
    and no signal has two handlers. -/
structure Session.Inv (s : Session) : Prop where
  pipe : ∀ m ∈ s.os.pipe, m.1 < s.os.made ∧ m.2 ≠ 0
  signum : ∀ h ∈ s.handlers, h.signum ≠ 0
  one : s.handlers.Pairwise fun h h' => h.signum ≠ h'.signum

theorem Session.inv_init : ({} : Session).Inv := ⟨nofun, nofun, .nil⟩

/-- The handlers of a signal are at most one. -/
theorem Session.Inv.handlersOf_cases {s : Session} (hi : s.Inv) (sig : Int) :
    s.handlersOf sig = [] ∨ ∃ h, s.handlersOf sig = [h] := by
  have hone : (s.handlersOf sig).Pairwise fun h h' => h.signum ≠ h'.signum := hi.one.filter _
  cases hs : s.handlersOf sig with
  | nil => exact .inl rfl
  | cons h hs' =>
    cases hs' with
    | nil => exact .inr ⟨h, rfl⟩
    | cons h' hs'' =>
      rw [hs] at hone
      have hne := (List.pairwise_cons.mp hone).1 h' List.mem_cons_self
      have hh : h ∈ s.handlersOf sig := hs ▸ List.mem_cons_self
      have hh' : h' ∈ s.handlersOf sig := hs ▸ List.mem_cons_of_mem _ List.mem_cons_self
      exact absurd ((mem_handlersOf.mp hh).2.trans (mem_handlersOf.mp hh').2.symm) hne

/-! ### Registrations -/

variable {catchable : Int → Bool}

theorem OS.starts_ne_zero {os : OS} {sig : Int} (h : os.starts catchable sig = true) : sig ≠ 0 :=
  of_decide_eq_true (Bool.and_eq_true_iff.mp h).1

/-- **The new watcher** is one of its signal's, if it is started. -/
theorem OS.active_register (os : OS) (arg : Option Int) (fn : Nat) {sig : Int} (hsig : sig ≠ 0) :
    (os.register catchable arg (some fn)).active sig = os.active sig ++
      if os.starts catchable (sigmask arg) ∧ sigmask arg = sig then [os.made] else [] := by
  have hold : ∀ w ∈ List.range os.made,
      decide ((os.register catchable arg (some fn)).signum w = sig)
        = decide (os.signum w = sig) := by
    intro w hw
    have hne : w ≠ os.made := Nat.ne_of_lt (List.mem_range.mp hw)
    show decide (Function.update os.signum os.made _ w = sig) = _
    rw [Function.update_of_ne hne]
  have hnew : (os.register catchable arg (some fn)).signum os.made
      = if os.starts catchable (sigmask arg) then sigmask arg else 0 := Function.update_self ..
  show (List.range (os.made + 1)).filter _ = _
  rw [List.range_succ, List.filter_append, List.filter_congr hold, List.filter_cons,
    List.filter_nil, hnew]
  congr 1
  by_cases hstarts : os.starts catchable (sigmask arg) = true
  · simp only [hstarts, if_true, true_and, decide_eq_true_eq]
  · simp only [hstarts, if_false, false_and, decide_eq_true_eq, Ne.symm hsig, Bool.false_eq_true]

/-- The handlers of the signals behind a registration. -/
theorem handlersOf_register (s : Session) (os : OS) (arg : Option Int) (fn : Nat) (sig : Int) :
    (⟨os, s.registered catchable (.onSignal (some fn) arg)⟩ : Session).handlersOf sig =
      if s.os.starts catchable (sigmask arg) ∧ sigmask arg = sig then
        [⟨sigmask arg, s.os.made, fn⟩] else s.handlersOf sig := by
  unfold Session.handlersOf Session.registered
  dsimp only
  by_cases hstarts : s.os.starts catchable (sigmask arg) = true
  · rw [if_pos hstarts, List.filter_append, List.filter_filter, List.filter_cons, List.filter_nil]
    by_cases hsig : sigmask arg = sig
    · subst hsig
      simp [hstarts]
    · have hother : s.handlers.filter (fun h => decide (h.signum = sig) &&
          decide (h.signum ≠ sigmask arg)) = s.handlers.filter fun h => h.signum = sig := by
        refine List.filter_congr fun h _ => ?_
        by_cases hh : h.signum = sig
        · simp [hh, Ne.symm hsig]
        · simp [hh]
      simp only [hother, hsig, decide_false, and_false, Bool.false_eq_true, if_false,
        List.append_nil]
  · rw [if_neg hstarts, if_neg (fun h => hstarts h.1)]

/-- **A registration** keeps the signals apart exactly when it is careful. -/
theorem register_apart_iff {s : Session} (hi : s.Inv) (ha : s.Apart) (arg : Option Int) (fn : Nat) :
    (⟨s.os.register catchable arg (some fn),
        s.registered catchable (.onSignal (some fn) arg)⟩ : Session).Apart ↔
      s.Careful catchable (.onSignal (some fn) arg) := by
  rw [apart_iff] at ha
  rw [apart_iff]
  constructor
  · intro hnext
    have hfree : s.os.starts catchable (sigmask arg) = true →
        ∀ h ∈ s.handlers, h.signum ≠ sigmask arg := by
      -- a second watcher of a signal would be one too many
      intro hstarts h hh heq
      have hne := OS.starts_ne_zero hstarts
      obtain ⟨hactive, -⟩ := hnext _ hne
      rw [OS.active_register _ _ _ hne, handlersOf_register, if_pos ⟨hstarts, rfl⟩,
        if_pos ⟨hstarts, rfl⟩, (ha _ hne).1] at hactive
      have hpos := List.length_pos_of_mem (mem_handlersOf.mpr ⟨hh, heq⟩)
      have hlength := congrArg List.length hactive
      simp only [List.length_append, List.length_map, List.length_singleton] at hlength
      omega
    refine ⟨hfree, fun h hh => ?_⟩
    obtain ⟨-, hcalls⟩ := hnext h.signum (hi.signum h hh)
    rw [handlersOf_register, if_neg fun hs => hfree hs.1 h hh hs.2.symm] at hcalls
    exact (Option.some.inj (hcalls h (mem_handlersOf.mpr ⟨hh, rfl⟩))).symm
  · rintro ⟨hfree, hfn⟩ sig hsig
    obtain ⟨hactive, -⟩ := ha sig hsig
    rw [OS.active_register _ _ _ hsig, handlersOf_register]
    by_cases hnew : s.os.starts catchable (sigmask arg) ∧ sigmask arg = sig
    · have hnone : s.handlersOf sig = [] := List.eq_nil_iff_forall_not_mem.mpr fun h hh =>
        hfree hnew.1 h (mem_handlersOf.mp hh).1 ((mem_handlersOf.mp hh).2.trans hnew.2.symm)
      rw [hactive, hnone, if_pos hnew, if_pos hnew]
      refine ⟨rfl, fun h hh => ?_⟩
      rw [List.mem_singleton.mp hh]
      rfl
    · rw [if_neg hnew, if_neg hnew, List.append_nil]
      refine ⟨hactive, fun h hh => ?_⟩
      rw [hfn h (mem_handlersOf.mp hh).1]
      rfl

/-! ### Handlers that return 1 -/

/-- A watcher that is stopped is no signal's. -/
theorem OS.active_stop (os : OS) (w : Nat) {sig : Int} (hsig : sig ≠ 0) :
    (os.stop w).active sig = (os.active sig).filter fun v => v ≠ w := by
  show (List.range os.made).filter _ = ((List.range os.made).filter _).filter _
  rw [List.filter_filter]
  refine List.filter_congr fun v _ => ?_
  by_cases hv : v = w
  · subst hv
    simp [stop, Ne.symm hsig]
  · simp [stop, hv]

/-- **A handler that is gone** leaves the other signals to theirs. -/
theorem stop_apart {s : Session} (ha : s.Apart) {os : OS} {w : Nat}
    (hactive : ∀ sig ≠ 0, os.active sig = (s.os.active sig).filter fun v => v ≠ w)
    (hcall : os.onSignal = s.os.onSignal) :
    (⟨os, s.handlers.filter fun h => h.watcher ≠ w⟩ : Session).Apart := by
  rw [apart_iff] at ha ⊢
  intro sig hsig
  obtain ⟨hwatchers, hcalls⟩ := ha sig hsig
  have hof : (⟨os, s.handlers.filter fun h => h.watcher ≠ w⟩ : Session).handlersOf sig
      = (s.handlersOf sig).filter fun h => h.watcher ≠ w := by
    show (s.handlers.filter _).filter _ = (s.handlers.filter _).filter _
    rw [List.filter_filter, List.filter_filter]
    exact List.filter_congr fun h _ => Bool.and_comm ..
  rw [hof]
  refine ⟨?_, fun h hh => ?_⟩
  · rw [hactive sig hsig, hwatchers, List.filter_map]
    rfl
  · rw [hcall]
    exact hcalls h (List.mem_filter.mp hh).1

/-! ### Steps and runs -/

theorem Session.Inv.register {s : Session} (hi : s.Inv) (arg : Option Int) (fn : Nat) :
    (⟨s.os.register catchable arg (some fn),
      s.registered catchable (.onSignal (some fn) arg)⟩ : Session).Inv := by
  refine ⟨fun m hm => ?_, ?_, ?_⟩
  · obtain ⟨hw, hsig⟩ := hi.pipe m hm
    exact ⟨Nat.lt_succ_of_lt hw, hsig⟩
  · show ∀ h ∈ s.registered catchable (.onSignal (some fn) arg), h.signum ≠ 0
    unfold registered
    dsimp only
    split_ifs with hstarts
    · intro h hh
      rcases List.mem_append.mp hh with hh | hh
      · exact hi.signum h (List.mem_filter.mp hh).1
      · rw [List.mem_singleton.mp hh]
        exact OS.starts_ne_zero hstarts
    · exact hi.signum
  · show (s.registered catchable (.onSignal (some fn) arg)).Pairwise
      fun h h' => h.signum ≠ h'.signum
    unfold registered
    dsimp only
    split_ifs with hstarts
    · refine List.pairwise_append.mpr ⟨hi.one.filter _, List.pairwise_singleton .., ?_⟩
      intro h hh h' hh'
      rw [List.mem_singleton.mp hh']
      exact of_decide_eq_true (List.mem_filter.mp hh).2
    · exact hi.one

/-- **One step** keeps the signals apart exactly when it is careful. -/
theorem step_apart_iff {s s' : Session} {a : Action} (hi : s.Inv) (ha : s.Apart)
    (h : s.step catchable a = some s') : s'.Inv ∧ (s'.Apart ↔ s.Careful catchable a) := by
  obtain ⟨os, hos, rfl⟩ := Option.map_eq_some_iff.mp h
  cases a with
  | onSignal fn arg =>
    cases hos
    cases fn with
    | none => exact ⟨hi, iff_of_true ha trivial⟩
    | some fn => exact ⟨hi.register arg fn, register_apart_iff hi ha arg fn⟩
  | caught sig order =>
    obtain ⟨⟨hsig, hperm⟩, heq⟩ := Option.ite_none_right_eq_some.mp hos
    cases heq
    refine ⟨⟨fun m hm => ?_, hi.signum, hi.one⟩, iff_of_true ha trivial⟩
    rcases List.mem_append.mp hm with hm | hm
    · exact hi.pipe m hm
    · obtain ⟨w, hw, rfl⟩ := List.mem_map.mp hm
      exact ⟨(OS.mem_active.mp (hperm.mem_iff.mp hw)).1, hsig⟩
  | dispatch =>
    unfold OS.step at hos
    dsimp only at hos
    split at hos
    · rename_i w sig pipe _ hpipe
      have hrest : ∀ m ∈ pipe, m.1 < s.os.made ∧ m.2 ≠ 0 := fun m hm =>
        hi.pipe m (hpipe ▸ List.mem_cons_of_mem _ hm)
      split_ifs at hos
      · cases hos
        exact ⟨⟨hrest, hi.signum, hi.one⟩, iff_of_true ha trivial⟩
      · cases hos
        exact ⟨⟨hrest, hi.signum, hi.one⟩, iff_of_true ha trivial⟩
    · cases hos
  | ret value =>
    obtain ⟨w, hw, rfl⟩ := Option.map_eq_some_iff.mp hos
    unfold Session.registered
    simp only [hw]
    by_cases hvalue : value % 2 ^ 32 = 1
    · simp only [if_pos hvalue]
      exact ⟨⟨hi.pipe, fun h hh => hi.signum h (List.mem_filter.mp hh).1, hi.one.filter _⟩,
        iff_of_true (stop_apart ha (fun _ hsig => s.os.active_stop w hsig) rfl) trivial⟩
    · simp only [if_neg hvalue]
      exact ⟨⟨hi.pipe, hi.signum, hi.one⟩, iff_of_true ha trivial⟩

/-- Where the signals are apart, what is caught and what is invoked is right. -/
theorem Session.Apart.right {s s' : Session} {a : Action} (ha : s.Apart) (hi : s.Inv)
    (h : s.step catchable a = some s') : s.Right a := by
  rw [apart_iff] at ha
  obtain ⟨os, hos, rfl⟩ := Option.map_eq_some_iff.mp h
  cases a with
  | onSignal fn arg => trivial
  | caught sig order =>
    obtain ⟨⟨hsig, hperm⟩, -⟩ := Option.ite_none_right_eq_some.mp hos
    rw [(ha sig hsig).1] at hperm
    show order = (s.handlersOf sig).map Handler.watcher
    rcases hi.handlersOf_cases sig with hnone | ⟨h, hone⟩
    · rw [hnone] at hperm ⊢
      exact List.perm_nil.mp hperm
    · rw [hone] at hperm ⊢
      exact List.perm_singleton.mp hperm
  | dispatch =>
    intro m hm hactive
    obtain ⟨hw, hsig⟩ := hi.pipe m (List.mem_of_head? hm)
    obtain ⟨hwatchers, hcalls⟩ := ha m.2 hsig
    have hmem : m.1 ∈ s.os.active m.2 := OS.mem_active.mpr ⟨hw, hactive⟩
    rw [hwatchers] at hmem
    obtain ⟨h, hh, heq⟩ := List.mem_map.mp hmem
    exact ⟨h, hh, heq, hcalls h hh⟩
  | ret value => trivial

theorem Session.apart_init : ({} : Session).Apart := fun _ _ => rfl

/-- **Signal handlers are kept apart** in a run exactly when all its registrations are careful. -/
theorem signals_iff_along {as : List Action} {t : Session}
    (h : run (Session.step catchable) {} as = some t) :
    KeptApart catchable as ↔
      Along (Session.step catchable) (Session.Careful catchable) {} as := by
  have hiff := forall_prefix_iff_along (I := Session.Inv)
    (P := Session.Careful catchable) (fun _ _ _ hi ha hstep => step_apart_iff hi ha hstep)
    Session.inv_init Session.apart_init h
  refine ⟨fun hkept => hiff.mp hkept.1, fun hcareful => ⟨hiff.mpr hcareful, ?_⟩⟩
  refine Along.imp (I := fun s => s.Inv ∧ s.Apart) (fun s a s' hs hc hstep => ?_)
    (fun s a s' hs _ hstep => hs.2.right hs.1 hstep) ⟨Session.inv_init, Session.apart_init⟩ h
    hcareful
  obtain ⟨hi, hstep⟩ := step_apart_iff hs.1 hs.2 hstep
  exact ⟨hi, hstep.mpr hc⟩

/-- Function 7 for the signals 2 and 15; 2 is caught and its handler stays, 15 is caught and its
    handler goes, and comes back. -/
def oneFunction : List Action :=
  [.onSignal (some 7) (some 2), .onSignal (some 7) none, .caught 2 [0], .caught 15 [1], .dispatch,
    .ret 0, .dispatch, .ret 1, .caught 15 [], .caught 2 [0], .dispatch, .ret 0,
    .onSignal (some 7) (some 15), .caught 15 [2], .dispatch, .ret 1]

theorem signals_iff_along_oneFunction :
    KeptApart (fun _ => true) oneFunction ↔
      Along (Session.step fun _ => true) (Session.Careful fun _ => true) {} oneFunction := by
  obtain ⟨t, ht⟩ := Option.isSome_iff_exists.mp (show
    (run (Session.step fun _ => true) {} oneFunction).isSome = true by decide)
  exact signals_iff_along ht

example : Along (Session.step fun _ => true) (Session.Careful fun _ => true) {} oneFunction := by
  decide

/-- **Two functions**: 8 is registered for the signal 15, and invoked for the signal 2 that 7 has
    been registered for. -/
theorem not_keptApart :
    ¬ ∀ as, (run (Session.step fun _ => true) {} as).isSome → KeptApart (fun _ => true) as := by
  intro hall
  have hright := (hall [.onSignal (some 7) (some 2), .onSignal (some 8) (some 15), .caught 2 [0],
    .dispatch] (by decide)).2
  exact absurd hright (by decide)

end Dv8.Os
