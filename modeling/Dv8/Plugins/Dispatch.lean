import Dv8.Plugins.Chain
import Mathlib.Data.List.Chain

namespace Dv8.Plugins

open Dv8.Lib

/-!
# Every plugin once, in order

An event goes along a socket's list: a data event up to the first `SecureSocket`, which keeps
the data and hands on its own, and the close of the socket to the end.  `Walk` is that order;
`State.InOrder` says that every call made so far is the next one of its event's walk, and that a
caller only goes on when the walk is over.

* `dispatch_iff_along` — all calls are in order exactly when, wherever a parser calls on, its
  object's last plugin has the plugin's own successor, and no Pico parser has one.
-/

/-! ### The specification -/

/-- A plugin that is followed by the next one for this event. -/
def Heap.Passes (h : Heap) (e : Event) (p : Nat) : Prop :=
  match e with
  | .data _ => (h.plugins p).kind ≠ .openssl
  | .close => True

/-- The plugins from `p` on that an event reaches one after the other, each once. -/
inductive Walk (h : Heap) (e : Event) (p : Nat) : List Nat → Nat → Prop where
  | one : Walk h e p [p] p
  | snoc {ps : List Nat} {q u : Nat} (hw : Walk h e p ps q) (hnext : (h.plugins q).next = some u)
      (hpass : h.Passes e q) (hnew : u ∉ ps) : Walk h e p (ps ++ [u]) u

/-- The calls made are a walk that has come to the plugin of the call `c`. -/
def Service.Reached (s : Service) (h : Heap) (c : Call) : Prop :=
  ∃ p ps q, s.start = some p ∧ Walk h s.event p ps q ∧ s.calls = ps.map s.event.call ∧
    c = s.event.call q

/-- The calls made are the whole walk. -/
def Service.Complete (s : Service) (h : Heap) : Prop :=
  (s.start = none ∧ s.calls = []) ∨
    ∃ p ps q, s.start = some p ∧ Walk h s.event p ps q ∧ s.calls = ps.map s.event.call ∧
      ((h.plugins q).next = none ∨ ¬ h.Passes s.event q)

/-- Where control is: in the call `c`, behind the last call, or in what a caller interrupted. -/
inductive Phase where
  | running (c : Call)
  | returned
  | waiting

/-- The events on a call stack are served in order. -/
def InOrder (h : Heap) : Phase → List Frame → Prop
  | .waiting, [] => True
  | .waiting, .onRead p nread :: fs => InOrder h (.running (.read p nread)) fs
  | .waiting, .onClose p :: fs => InOrder h (.running (.close p)) fs
  | .waiting, _ => False
  | .running c, .behindRead _ :: fs => InOrder h (.running c) fs
  | .running c, .caller s :: fs => s.Reached h c ∧ InOrder h .waiting fs
  | .running _, _ => False
  | .returned, .behindRead _ :: fs => InOrder h .returned fs
  | .returned, .caller s :: fs => s.Complete h ∧ InOrder h .waiting fs
  | .returned, _ => False

/-- Control is back when a caller or Pico is on top. -/
def phase : List Frame → Phase
  | .caller _ :: _ => .returned
  | .behindRead _ :: _ => .returned
  | _ => .waiting

/-- **Every event is served in order**: each call made is the next of its event's walk, and
    behind the last one the walk is over. -/
def State.InOrder (s : State) : Prop := Plugins.InOrder s.heap (phase s.stack) s.stack

/-! ### The condition -/

/-- Where a parser calls on, its object's last plugin has the plugin's own successor; no Pico
    parser comes to call `onClose` behind `onRead`; a listener that is closed has no plugins. -/
def Forwards (s : State) : Action → Prop
  | .goOn =>
    match s.stack with
    | .onRead p _ :: _ => (s.heap.plugins p).kind ≠ .openssl →
        s.heap.behind p = some (s.heap.plugins p).next
    | .onClose p :: _ => (s.heap.plugins p).kind ≠ .openssl →
        s.heap.behind p = some (s.heap.plugins p).next
    | .behindRead _ :: _ => False
    | _ => True
  | .closed sock => s.stream sock → s.heap.first sock = none
  | _ => True

instance : (s : State) → (a : Action) → Decidable (Forwards s a)
  | ⟨_, h, _, .onRead p _ :: _⟩, .goOn =>
    inferInstanceAs (Decidable ((h.plugins p).kind ≠ .openssl → h.behind p = _))
  | ⟨_, h, _, .onClose p :: _⟩, .goOn =>
    inferInstanceAs (Decidable ((h.plugins p).kind ≠ .openssl → h.behind p = _))
  | ⟨_, _, _, .behindRead _ :: _⟩, .goOn => isFalse id
  | ⟨_, _, _, .caller _ :: _⟩, .goOn => isTrue trivial
  | ⟨_, _, _, []⟩, .goOn => isTrue trivial
  | s, .closed sock => inferInstanceAs (Decidable (s.stream sock → s.heap.first sock = none))
  | _, .setup _ _ => isTrue trivial
  | _, .reset _ _ => isTrue trivial
  | _, .picoReset _ _ => isTrue trivial
  | _, .listen _ => isTrue trivial
  | _, .data _ _ => isTrue trivial
  | _, .cycleIn _ _ => isTrue trivial

/-! ### Walks -/

/-- A list of plugins grows at its end, where later plugins are. -/
structure Heap.WF (h : Heap) : Prop where
  next : ∀ p q, (h.plugins p).next = some q → p < q ∧ q < h.size
  last : ∀ s l, h.last s = some l → l < h.size ∧ (h.plugins l).next = none
  apart : ∀ s s' l, h.last s = some l → h.last s' = some l → s = s'

theorem Walk.getLast? {h : Heap} {e : Event} {p q : Nat} {ps : List Nat} (hw : Walk h e p ps q) :
    ps.getLast? = some q := by
  cases hw with
  | one => rfl
  | snoc => exact List.getLast?_concat

theorem Walk.ne_nil {h : Heap} {e : Event} {p q : Nat} {ps : List Nat} (hw : Walk h e p ps q) :
    ps ≠ [] := by
  rintro rfl
  cases hw.getLast?

/-- The last plugin of a walk is the newest. -/
theorem Walk.le {h : Heap} (hwf : h.WF) {e : Event} {p q : Nat} {ps : List Nat}
    (hw : Walk h e p ps q) : ∀ x ∈ ps, x ≤ q := by
  induction hw with
  | one =>
    intro x hx
    exact Nat.le_of_eq (List.mem_singleton.mp hx)
  | snoc _ hnext _ _ ih =>
    intro x hx
    have hlt := (hwf.next _ _ hnext).1
    rcases List.mem_append.mp hx with hx | hx
    · exact Nat.le_trans (ih x hx) (Nat.le_of_lt hlt)
    · exact Nat.le_of_eq (List.mem_singleton.mp hx)

theorem Event.call_injective (e : Event) : Function.Injective e.call := by
  intro p q heq
  cases e <;> simpa [Event.call] using heq

/-- A walk goes on with one more plugin exactly when that is the next. -/
theorem Walk.snoc_iff {h : Heap} (hwf : h.WF) {e : Event} {p q u : Nat} {ps : List Nat}
    (hw : Walk h e p ps q) :
    (∃ q', Walk h e p (ps ++ [u]) q') ↔ (h.plugins q).next = some u ∧ h.Passes e q := by
  constructor
  · rintro ⟨q', hw'⟩
    generalize hps : ps ++ [u] = ps' at hw'
    cases hw' with
    | one =>
      -- the walk so far is not empty
      exact absurd (List.append_eq_singleton_iff.mp hps) (by simp [hw.ne_nil])
    | snoc hprev hnext hpass _ =>
      obtain ⟨rfl, hu⟩ := List.append_inj' hps rfl
      obtain rfl := List.singleton_inj.mp hu
      have hlast : some q = some _ := hw.getLast?.symm.trans hprev.getLast?
      obtain rfl := Option.some.inj hlast
      exact ⟨hnext, hpass⟩
  · rintro ⟨hnext, hpass⟩
    refine ⟨u, hw.snoc hnext hpass fun hmem => ?_⟩
    have hle := hw.le hwf u hmem
    have hlt := (hwf.next _ _ hnext).1
    omega

/-- Walks survive a heap whose lists have only grown. -/
theorem Walk.mono {h h' : Heap} {e : Event} {p q : Nat} {ps : List Nat}
    (hgrow : ∀ v u, (h.plugins v).next = some u →
      (h'.plugins v).next = some u ∧ (h'.plugins v).kind = (h.plugins v).kind)
    (hw : Walk h e p ps q) : Walk h' e p ps q := by
  induction hw with
  | one => exact .one
  | @snoc ps v u _ hnext hpass hnew ih =>
    obtain ⟨hnext', hkind⟩ := hgrow v u hnext
    refine ih.snoc hnext' ?_ hnew
    cases e with
    | data nread => exact fun hk => hpass (hkind ▸ hk)
    | close => trivial

/-! ### Services -/

/-- **The next call is in order** exactly when it is of the plugin behind. -/
theorem Service.reached_snoc_iff {s : Service} {h : Heap} (hwf : h.WF) {q : Nat}
    (hs : s.Reached h (s.event.call q)) (u : Nat) :
    ({ s with calls := s.calls ++ [s.event.call u] } : Service).Reached h (s.event.call u) ↔
      (h.plugins q).next = some u ∧ h.Passes s.event q := by
  obtain ⟨p, ps, q', hstart, hw, hcalls, hq⟩ := hs
  obtain rfl := s.event.call_injective hq
  rw [← hw.snoc_iff hwf]
  constructor
  · rintro ⟨p', ps', u', hstart', hw', hcalls', hu⟩
    obtain rfl := Option.some.inj (hstart.symm.trans hstart')
    have hmap : (ps ++ [u]).map s.event.call = ps'.map s.event.call := by
      rw [List.map_append, ← hcalls]
      exact hcalls'
    rw [List.map_injective_iff.mpr s.event.call_injective hmap]
    exact ⟨u', hw'⟩
  · rintro ⟨u', hw'⟩
    have hlast : some u = some u' := List.getLast?_concat.symm.trans hw'.getLast?
    obtain rfl := Option.some.inj hlast
    exact ⟨p, ps ++ [u], u, hstart, hw', by rw [List.map_append, ← hcalls]; rfl, rfl⟩

/-- **The calls are over** exactly when there is no plugin behind for this event. -/
theorem Service.complete_iff {s : Service} {h : Heap} {q : Nat}
    (hs : s.Reached h (s.event.call q)) :
    s.Complete h ↔ (h.plugins q).next = none ∨ ¬ h.Passes s.event q := by
  obtain ⟨p, ps, q', hstart, hw, hcalls, hq⟩ := hs
  obtain rfl := s.event.call_injective hq
  constructor
  · rintro (⟨hnone, -⟩ | ⟨p', ps', q', -, hw', hcalls', hend⟩)
    · rw [hstart] at hnone
      cases hnone
    · have hps := List.map_injective_iff.mpr s.event.call_injective (hcalls.symm.trans hcalls')
      subst hps
      have hlast : some q = some q' := hw.getLast?.symm.trans hw'.getLast?
      obtain rfl := Option.some.inj hlast
      exact hend
  · intro hend
    exact Or.inr ⟨p, ps, q, hstart, hw, hcalls, hend⟩

/-- A service that is over takes no further close. -/
theorem Service.Complete.not_reached_close {s : Service} {h : Heap} (hwf : h.WF)
    (hs : s.Complete h) (u : Nat) :
    ¬ ({ s with calls := s.calls ++ [.close u] } : Service).Reached h (.close u) := by
  intro hr
  have hevent : s.event = .close := by
    obtain ⟨-, -, q, -, -, -, hu⟩ := hr
    change Call.close u = s.event.call q at hu
    cases hcase : s.event with
    | data nread =>
      rw [hcase] at hu
      cases hu
    | close => rfl
  have hcall : Call.close u = s.event.call u := by rw [hevent]; rfl
  rcases hs with ⟨hnone, -⟩ | ⟨p, ps, q, hstart, hw, hcalls, hend⟩
  · obtain ⟨p, -, -, hstart, -⟩ := hr
    rw [show ({ s with calls := s.calls ++ [.close u] } : Service).start = s.start from rfl,
      hnone] at hstart
    cases hstart
  · rw [hcall] at hr
    have hnext := (Service.reached_snoc_iff hwf ⟨p, ps, q, hstart, hw, hcalls, rfl⟩ u).mp hr
    rcases hend with hend | hend
    · rw [hnext.1] at hend
      cases hend
    · exact hend hnext.2

/-! ### Call stacks -/

theorem Event.call_inj {e e' : Event} {p q : Nat} (h : e.call p = e'.call q) : e = e' ∧ p = q := by
  cases e <;> cases e' <;> simp_all [Event.call]

/-- What a call returns to is a caller or Pico. -/
theorem InOrder.phase_returned {h : Heap} {c : Call} {fs : List Frame}
    (ho : InOrder h (.running c) fs) : phase fs = .returned := by
  match fs, ho with
  | .caller _ :: _, _ => rfl
  | .behindRead _ :: _, _ => rfl

/-- What a caller returns to is not. -/
theorem InOrder.phase_waiting {h : Heap} {fs : List Frame} (ho : InOrder h .waiting fs) :
    phase fs = .waiting := by
  match fs, ho with
  | [], _ => rfl
  | .onRead _ _ :: _, _ => rfl
  | .onClose _ :: _, _ => rfl

/-- In the stack below a call, the next call is in order exactly when it is of the plugin
    behind. -/
theorem inOrder_note_iff {h : Heap} (hwf : h.WF) {e : Event} {q : Nat} {fs : List Frame}
    (ho : InOrder h (.running (e.call q)) fs) (u : Nat) :
    InOrder h (.running (e.call u)) (note (e.call u) fs) ↔
      (h.plugins q).next = some u ∧ h.Passes e q := by
  induction fs with
  | nil => exact ho.elim
  | cons f fs ih =>
    cases f with
    | caller s =>
      obtain ⟨hs, hw⟩ := ho
      obtain ⟨p, ps, q', hstart, hwalk, hcalls, hq⟩ := hs
      obtain ⟨rfl, rfl⟩ := Event.call_inj hq
      rw [← Service.reached_snoc_iff hwf ⟨p, ps, q, hstart, hwalk, hcalls, rfl⟩ u]
      exact and_iff_left hw
    | onRead p nread => exact ho.elim
    | onClose p => exact ho.elim
    | behindRead v => exact ih ho

/-- Below a call, the callers can go on exactly when there is no plugin behind. -/
theorem inOrder_returned_iff {h : Heap} {e : Event} {q : Nat} {fs : List Frame}
    (ho : InOrder h (.running (e.call q)) fs) :
    InOrder h .returned fs ↔ (h.plugins q).next = none ∨ ¬ h.Passes e q := by
  induction fs with
  | nil => exact ho.elim
  | cons f fs ih =>
    cases f with
    | caller s =>
      obtain ⟨hs, hw⟩ := ho
      obtain ⟨p, ps, q', hstart, hwalk, hcalls, hq⟩ := hs
      obtain ⟨rfl, rfl⟩ := Event.call_inj hq
      rw [← Service.complete_iff ⟨p, ps, q, hstart, hwalk, hcalls, rfl⟩]
      exact and_iff_left hw
    | onRead p nread => exact ho.elim
    | onClose p => exact ho.elim
    | behindRead v => exact ih ho

/-- A close behind a service that is over is out of order. -/
theorem not_inOrder_note_close {h : Heap} (hwf : h.WF) {fs : List Frame}
    (ho : InOrder h .returned fs) (u : Nat) :
    ¬ InOrder h (.running (.close u)) (note (.close u) fs) := by
  induction fs with
  | nil => exact ho.elim
  | cons f fs ih =>
    cases f with
    | caller s => exact fun hr => ho.1.not_reached_close hwf u hr.1
    | onRead p nread => exact ho.elim
    | onClose p => exact ho.elim
    | behindRead v => exact ih ho

/-- What is being served stays in order while lists grow. -/
theorem InOrder.mono {h h' : Heap} (hgrow : ∀ v u, (h.plugins v).next = some u →
      (h'.plugins v).next = some u ∧ (h'.plugins v).kind = (h.plugins v).kind)
    {ph : Phase} (hph : ph ≠ .returned) {fs : List Frame} (ho : InOrder h ph fs) :
    InOrder h' ph fs := by
  -- a frame is taken off either by the phase waiting on it or by the call running above it
  induction fs generalizing ph with
  | nil =>
    cases ph with
    | waiting => trivial
    | running c => exact ho.elim
    | returned => exact absurd rfl hph
  | cons f fs ih =>
    cases ph with
    | returned => exact absurd rfl hph
    | waiting =>
      cases f with
      | onRead p nread => exact @ih (.running (.read p nread)) nofun ho
      | onClose p => exact @ih (.running (.close p)) nofun ho
      | caller s => exact ho.elim
      | behindRead v => exact ho.elim
    | running c =>
      cases f with
      | caller s =>
        obtain ⟨⟨p, ps, q, hstart, hw, hcalls, hc⟩, hrest⟩ := ho
        exact ⟨⟨p, ps, q, hstart, hw.mono hgrow, hcalls, hc⟩, @ih .waiting nofun hrest⟩
      | behindRead v => exact @ih (.running c) nofun ho
      | onRead p nread => exact ho.elim
      | onClose p => exact ho.elim

/-- A call on top of its event's frames. -/
theorem inOrder_frame (h : Heap) (e : Event) (p : Nat) (fs : List Frame) :
    InOrder h .waiting ((e.call p).frame :: fs) ↔ InOrder h (.running (e.call p)) fs := by
  cases e <;> exact Iff.rfl

/-- **Calling on is in order** exactly when what is called is the plugin behind. -/
theorem inOrder_forward_iff {h : Heap} (hwf : h.WF) {e : Event} {q : Nat} {fs : List Frame}
    (ho : InOrder h (.running (e.call q)) fs) (hpass : h.Passes e q) (next : Option Nat) :
    InOrder h (phase (forward e fs next)) (forward e fs next) ↔ next = (h.plugins q).next := by
  cases next with
  | none =>
    rw [forward, ho.phase_returned, inOrder_returned_iff ho, or_iff_left (not_not.mpr hpass),
      eq_comm]
  | some u =>
    have hphase : phase (forward e fs (some u)) = .waiting := by
      cases e <;> rfl
    rw [hphase, forward, inOrder_frame, inOrder_note_iff hwf ho, and_iff_left hpass, eq_comm]

/-! ### Steps -/

/-- The rest of a plugin's `onRead`. -/
private theorem readOn_inOrder_iff {h : Heap} (hwf : h.WF) {p nread : Nat} {fs fs' : List Frame}
    (ho : InOrder h (.running (.read p nread)) fs) (hs : h.readOn p nread fs = some fs') :
    InOrder h (phase fs') fs' ↔
      ((h.plugins p).kind ≠ .openssl → h.behind p = some (h.plugins p).next) := by
  unfold Heap.readOn at hs
  cases hkind : (h.plugins p).kind with
  | openssl =>
    -- a `SecureSocket` ends the event
    simp only [hkind, Option.some.injEq] at hs
    obtain rfl := hs
    have hstop : ¬ h.Passes (.data nread) p := fun hpass => hpass hkind
    rw [ho.phase_returned, inOrder_returned_iff (e := .data nread) ho]
    exact iff_of_true (Or.inr hstop) fun hne => absurd rfl hne
  | httpParser =>
    simp only [hkind] at hs
    obtain ⟨next, hnext, rfl⟩ := Option.map_eq_some_iff.mp hs
    have hpass : h.Passes (.data nread) p := by
      show (h.plugins p).kind ≠ .openssl
      rw [hkind]
      decide
    rw [inOrder_forward_iff (e := .data nread) hwf ho hpass, hnext, Option.some.injEq]
    exact ⟨fun heq _ => heq, fun himp => himp nofun⟩
  | picoHttpParser =>
    simp only [hkind] at hs
    obtain ⟨next, hnext, rfl⟩ := Option.map_eq_some_iff.mp hs
    have hpass : h.Passes (.data nread) p := by
      show (h.plugins p).kind ≠ .openssl
      rw [hkind]
      decide
    have hforward := inOrder_forward_iff (e := .data nread) hwf ho hpass next
    rw [hnext, Option.some.injEq]
    refine Iff.trans ?_ (hforward.trans ⟨fun heq _ => heq, fun himp => himp nofun⟩)
    -- the frame that will call `onClose` changes nothing yet
    cases next <;> exact Iff.rfl

/-- The rest of a plugin's `onClose`. -/
private theorem closeOn_inOrder_iff {h : Heap} (hwf : h.WF) {p : Nat} {fs fs' : List Frame}
    (ho : InOrder h (.running (.close p)) fs) (hs : h.closeOn p fs = some fs') :
    InOrder h (phase fs') fs' ↔
      ((h.plugins p).kind ≠ .openssl → h.behind p = some (h.plugins p).next) := by
  have hforward := inOrder_forward_iff (e := .close) hwf ho trivial
  have hparser (hparse : (h.behind p).map (forward .close fs) = some fs') :
      InOrder h (phase fs') fs' ↔ h.behind p = some (h.plugins p).next := by
    obtain ⟨next, hnext, rfl⟩ := Option.map_eq_some_iff.mp hparse
    rw [hforward, hnext, Option.some.injEq]
  unfold Heap.closeOn at hs
  cases hkind : (h.plugins p).kind with
  | openssl =>
    simp only [hkind, Option.some.injEq] at hs
    obtain rfl := hs
    rw [hforward]
    exact iff_of_true rfl fun hne => absurd rfl hne
  | httpParser =>
    simp only [hkind] at hs
    rw [hparser hs]
    exact ⟨fun heq _ => heq, fun himp => himp nofun⟩
  | picoHttpParser =>
    simp only [hkind] at hs
    rw [hparser hs]
    exact ⟨fun heq _ => heq, fun himp => himp nofun⟩

/-- **A function that goes on** keeps the order exactly when it meets the condition. -/
theorem goOn_inOrder_iff {s s' : State} (hwf : s.heap.WF) (ho : s.InOrder)
    (hs : s.goOn = some s') : s'.heap = s.heap ∧ (s'.InOrder ↔ Forwards s .goOn) := by
  obtain ⟨cls, h, stream, stack⟩ := s
  unfold State.goOn at hs
  match stack with
  | [] => cases hs
  | .caller sv :: fs =>
    cases hs
    obtain ⟨-, hwait⟩ : sv.Complete h ∧ InOrder h .waiting fs := ho
    refine ⟨rfl, iff_of_true ?_ trivial⟩
    show InOrder h (phase fs) fs
    rw [hwait.phase_waiting]
    exact hwait
  | .onRead p nread :: fs =>
    obtain ⟨fs', hread, rfl⟩ := Option.map_eq_some_iff.mp hs
    exact ⟨rfl, readOn_inOrder_iff hwf ho hread⟩
  | .onClose p :: fs =>
    obtain ⟨fs', hclose, rfl⟩ := Option.map_eq_some_iff.mp hs
    exact ⟨rfl, closeOn_inOrder_iff hwf ho hclose⟩
  | .behindRead u :: fs =>
    cases hs
    have hback : InOrder h .returned fs := ho
    exact ⟨rfl, iff_of_false (not_inOrder_note_close hwf hback u) id⟩

/-- What attaching does: a new plugin at the end of the socket's list. -/
structure Heap.Attached (h h' : Heap) (sock : Nat) : Prop where
  size : h'.size = h.size + 1
  first : ∀ s, h'.first s = if s = sock then (h.first sock).or (some h.size) else h.first s
  last : ∀ s, h'.last s = if s = sock then some h.size else h.last s
  new : (h'.plugins h.size).next = none
  link : ∀ l, h.first sock ≠ none → h.last sock = some l → (h'.plugins l).next = some h.size
  keep : ∀ v, v ≠ h.size → h.first sock = none ∨ h.last sock ≠ some v →
    h'.plugins v = h.plugins v

theorem Heap.attach_spec {h h' : Heap} (hwf : h.WF) {kind : Kind} {obj sock : Nat}
    (ha : h.attach kind obj sock = some h') : h.Attached h' sock := by
  unfold Heap.attach at ha
  cases hfirst : h.first sock with
  | none =>
    simp only [hfirst, Option.some.injEq] at ha
    subst ha
    refine ⟨rfl, fun s => ?_, fun s => Function.update_apply _ _ _ s, ?_,
      fun l hne => absurd hfirst hne, fun v hv _ => Function.update_of_ne hv _ _⟩
    · rw [hfirst]
      exact Function.update_apply _ _ _ s
    · simp
  | some f =>
    cases hlast : h.last sock with
    | none =>
      simp only [hfirst, hlast] at ha
      cases ha
    | some l =>
      simp only [hfirst, hlast, Option.some.injEq] at ha
      subst ha
      obtain ⟨hl, -⟩ := hwf.last sock l hlast
      refine ⟨rfl, fun s => ?_, fun s => Function.update_apply _ _ _ s, ?_, fun l' _ hl' => ?_,
        fun v hv hend => ?_⟩
      · by_cases hs : s = sock
        · rw [if_pos hs, hfirst, hs]
          exact hfirst
        · rw [if_neg hs]
      · simp only [Function.update_of_ne (Nat.ne_of_gt hl), Function.update_self]
      · rw [hlast, Option.some.injEq] at hl'
        simp only [hl', Function.update_self]
      · -- a plugin that is not the last one keeps its `next`
        have hvl : v ≠ l := by
          rintro rfl
          exact hend.elim (fun hnone => by rw [hfirst] at hnone; cases hnone) fun hne => hne hlast
        simp only [Function.update_of_ne hvl, Function.update_of_ne hv]

/-- Attaching keeps what follows what. -/
theorem Heap.Attached.grow {h h' : Heap} {sock : Nat} (ha : h.Attached h' sock) (hwf : h.WF)
    {v u : Nat} (hnext : (h.plugins v).next = some u) :
    (h'.plugins v).next = some u ∧ (h'.plugins v).kind = (h.plugins v).kind := by
  have hlt := hwf.next v u hnext
  have hkeep : h'.plugins v = h.plugins v := by
    refine ha.keep v (by omega) (Or.inr fun hlast => ?_)
    -- the old end had no successor
    rw [(hwf.last sock v hlast).2] at hnext
    cases hnext
  rw [hkeep]
  exact ⟨hnext, rfl⟩

theorem Heap.Attached.wf {h h' : Heap} {sock : Nat} (ha : h.Attached h' sock) (hwf : h.WF) :
    h'.WF := by
  have hlast {s l : Nat} (hl : h'.last s = some l) :
      (s = sock ∧ l = h.size) ∨ (s ≠ sock ∧ h.last s = some l) := by
    rw [ha.last] at hl
    split_ifs at hl with hs
    · exact Or.inl ⟨hs, (Option.some.inj hl).symm⟩
    · exact Or.inr ⟨hs, hl⟩
  refine ⟨fun p q hq => ?_, fun s l hl => ?_, fun s s' l hl hl' => ?_⟩
  · rw [ha.size]
    by_cases hp : p = h.size
    · rw [hp, ha.new] at hq
      cases hq
    -- only the last plugin of this socket gets a new `next`
    by_cases hend : h.first sock = none ∨ h.last sock ≠ some p
    · rw [ha.keep p hp hend] at hq
      have hold := hwf.next p q hq
      omega
    · rw [not_or, not_not] at hend
      have hlt := (hwf.last sock p hend.2).1
      rw [ha.link p hend.1 hend.2, Option.some.injEq] at hq
      omega
  · rw [ha.size]
    rcases hlast hl with ⟨-, rfl⟩ | ⟨hs, hl⟩
    · exact ⟨Nat.lt_succ_self _, ha.new⟩
    · obtain ⟨hlt, hnone⟩ := hwf.last s l hl
      refine ⟨Nat.lt_succ_of_lt hlt, ?_⟩
      have hkeep := ha.keep l (Nat.ne_of_lt hlt)
        (Or.inr fun hsock => hs (hwf.apart s sock l hl hsock))
      rw [hkeep, hnone]
  · rcases hlast hl with ⟨rfl, rfl⟩ | ⟨hs, hl⟩
    · rcases hlast hl' with ⟨rfl, -⟩ | ⟨-, hl'⟩
      · rfl
      · exact absurd (hwf.last s' _ hl').1 (Nat.lt_irrefl _)
    · rcases hlast hl' with ⟨-, rfl⟩ | ⟨-, hl'⟩
      · exact absurd (hwf.last s _ hl).1 (Nat.lt_irrefl _)
      · exact hwf.apart s s' l hl hl'

/-! ### Attachment order -/

/-- The plugins attached to the socket, in order. -/
structure Heap.Holds (h : Heap) (sock : Nat) (ps : List Nat) : Prop where
  first : h.first sock = ps.head?
  last : h.last sock = ps.getLast?
  chain : ps.IsChain fun p q => (h.plugins p).next = some q

/-- **Attachments are kept in order**, each on its own socket. -/
theorem Heap.Attached.holds {h h' : Heap} {sock : Nat} (ha : h.Attached h' sock) (hwf : h.WF)
    {s : Nat} {ps : List Nat} (hps : h.Holds s ps) :
    h'.Holds s (if s = sock then ps ++ [h.size] else ps) := by
  have hchain : ps.IsChain fun p q => (h'.plugins p).next = some q :=
    hps.chain.imp fun p q hnext => (ha.grow hwf hnext).1
  by_cases hs : s = sock
  · subst hs
    rw [if_pos rfl]
    refine ⟨?_, ?_, hchain.append (List.isChain_singleton _) fun l hl u hu => ?_⟩
    · rw [ha.first, if_pos rfl, hps.first]
      cases ps <;> rfl
    · rw [ha.last, if_pos rfl, List.getLast?_concat]
    · obtain rfl := Option.some.inj hu
      have hne : h.first s ≠ none := by
        rw [hps.first]
        rintro hnil
        rw [List.head?_eq_none_iff.mp hnil] at hl
        cases hl
      exact ha.link l hne (hps.last.trans hl)
  · rw [if_neg hs]
    exact ⟨by rw [ha.first, if_neg hs, hps.first], by rw [ha.last, if_neg hs, hps.last], hchain⟩

/-- A walk from the first plugin follows the list. -/
theorem Walk.follows {h : Heap} {e : Event} {p q : Nat} {qs ps : List Nat}
    (hw : Walk h e p qs q) (hp : ps.head? = some p)
    (hchain : ps.IsChain fun p q => (h.plugins p).next = some q)
    (hstop : ∀ l, ps.getLast? = some l → (h.plugins l).next = none) : qs <+: ps := by
  induction hw with
  | one =>
    obtain ⟨rest, rfl⟩ := List.head?_eq_some_iff.mp hp
    exact List.prefix_append [p] rest
  | @snoc qs v u hw hnext _ _ ih =>
    obtain ⟨rest, rfl⟩ := ih
    have hlast := hw.getLast?
    cases rest with
    | nil =>
      rw [List.append_nil] at hstop
      rw [hstop v hlast] at hnext
      cases hnext
    | cons r rest =>
      have hr := (List.isChain_append.mp hchain).2.2 v hlast r rfl
      rw [hnext, Option.some.injEq] at hr
      subst hr
      exact ⟨rest, by rw [List.append_assoc]; rfl⟩

/-- **A close that is over has closed every plugin of the socket**, in attachment order. -/
theorem Service.Complete.calls_close {s : Service} {h : Heap} (hwf : h.WF) {sock : Nat}
    {ps : List Nat} (hps : h.Holds sock ps) (hevent : s.event = .close)
    (hstart : s.start = h.first sock) (hs : s.Complete h) : s.calls = ps.map .close := by
  have hstop (l : Nat) (hl : ps.getLast? = some l) : (h.plugins l).next = none :=
    (hwf.last sock l (hps.last.trans hl)).2
  rcases hs with ⟨hnone, hcalls⟩ | ⟨p, qs, q, hp, hw, hcalls, hend⟩
  · rw [hstart, hps.first] at hnone
    rw [hcalls, List.head?_eq_none_iff.mp hnone]
    rfl
  · rw [hevent] at hw hend hcalls
    have hq : (h.plugins q).next = none := hend.resolve_right (not_not.mpr trivial)
    obtain ⟨rest, rfl⟩ := hw.follows (by rw [← hps.first, ← hstart, hp]) hps.chain hstop
    cases rest with
    | nil =>
      rw [hcalls, List.append_nil]
      rfl
    | cons r rest =>
      have hr := (List.isChain_append.mp hps.chain).2.2 q hw.getLast? r rfl
      rw [hq] at hr
      cases hr

/-- JavaScript does not run where a caller or Pico goes on. -/
private theorem phase_of_scripting {s : State} (h : s.scripting = true) :
    phase s.stack = .waiting := by
  unfold State.scripting at h
  match hs : s.stack with
  | [] => rfl
  | .onRead _ _ :: _ => rfl
  | .onClose _ :: _ => rfl
  | .caller _ :: _ =>
    rw [hs] at h
    cases h
  | .behindRead _ :: _ =>
    rw [hs] at h
    cases h

/-- Attaching keeps the order. -/
private theorem attach_inOrder {s s' : State} (hwf : s.heap.WF) (ho : s.InOrder) {kind : Kind}
    {obj sock : Nat} (hs : s.attach kind obj sock = some s') : s'.heap.WF ∧ s'.InOrder := by
  unfold State.attach at hs
  split_ifs at hs with hguard
  obtain ⟨heap, ha, rfl⟩ := Option.map_eq_some_iff.mp hs
  have hspec := Heap.attach_spec hwf ha
  refine ⟨hspec.wf hwf, ?_⟩
  have hphase := phase_of_scripting hguard.1
  unfold State.InOrder at ho ⊢
  rw [hphase] at ho
  show InOrder heap (phase s.stack) s.stack
  rw [hphase]
  have hwaiting : Phase.waiting ≠ .returned := nofun
  exact InOrder.mono (fun v u => hspec.grow hwf) hwaiting ho

/-- A new event starts in order. -/
private theorem serve_inOrder {s : State} (hph : phase s.stack = .waiting) (ho : s.InOrder)
    (e : Event) (start : Option Nat) : (s.serve e start).InOrder := by
  unfold State.InOrder at ho
  rw [hph] at ho
  cases start with
  | none => exact ⟨Or.inl ⟨rfl, rfl⟩, ho⟩
  | some p =>
    have hreached : Service.Reached ⟨e, some p, [e.call p]⟩ s.heap (e.call p) :=
      ⟨p, [p], p, rfl, .one, rfl, rfl⟩
    have hphase : phase (s.serve e (some p)).stack = .waiting := by
      cases e <;> rfl
    unfold State.InOrder
    rw [hphase]
    exact (inOrder_frame s.heap e p _).mpr ⟨hreached, ho⟩

/-- **One step** keeps the order exactly when it meets the condition. -/
theorem step_inOrder_iff {s s' : State} {a : Action} (hwf : s.heap.WF) (ho : s.InOrder)
    (hs : step s a = some s') : s'.heap.WF ∧ (s'.InOrder ↔ Forwards s a) := by
  have hsame {t : State} (hg : s.scripting = true) (hheap : t.heap = s.heap)
      (hstack : t.stack = s.stack) (hF : Forwards s a) :
      t.heap.WF ∧ (t.InOrder ↔ Forwards s a) := by
    refine ⟨hheap ▸ hwf, iff_of_true ?_ hF⟩
    unfold State.InOrder at ho ⊢
    rwa [hheap, hstack]
  cases a with
  | setup obj sock =>
    obtain ⟨hwf', ho'⟩ := attach_inOrder hwf ho hs
    exact ⟨hwf', iff_of_true ho' trivial⟩
  | reset obj sock =>
    cases sock with
    | some sock =>
      obtain ⟨hwf', ho'⟩ := attach_inOrder hwf ho hs
      exact ⟨hwf', iff_of_true ho' trivial⟩
    | none =>
      obtain ⟨hg, heq⟩ := Option.ite_none_right_eq_some.mp hs
      obtain rfl := Option.some.inj heq
      exact hsame hg rfl rfl trivial
  | picoReset obj sock =>
    cases sock with
    | some sock =>
      obtain ⟨hwf', ho'⟩ := attach_inOrder hwf ho hs
      exact ⟨hwf', iff_of_true ho' trivial⟩
    | none =>
      obtain ⟨hg, heq⟩ := Option.ite_none_right_eq_some.mp hs
      obtain rfl := Option.some.inj heq
      exact hsame hg rfl rfl trivial
  | listen sock =>
    obtain ⟨hg, heq⟩ := Option.ite_none_right_eq_some.mp hs
    obtain rfl := Option.some.inj heq
    exact hsame hg rfl rfl trivial
  | data sock nread =>
    obtain ⟨hg, heq⟩ := Option.ite_none_right_eq_some.mp hs
    obtain rfl := Option.some.inj heq
    have hph : phase s.stack = .waiting := by rw [hg.1]; rfl
    refine ⟨?_, iff_of_true (serve_inOrder hph ho _ _) trivial⟩
    cases hstart : s.heap.first sock <;> exact hwf
  | cycleIn obj nread =>
    obtain ⟨hg, heq⟩ := Option.ite_none_right_eq_some.mp hs
    obtain ⟨p, -, rfl⟩ := Option.map_eq_some_iff.mp heq
    refine ⟨?_, iff_of_true (serve_inOrder (phase_of_scripting hg.1) ho _ _) trivial⟩
    cases hstart : (s.heap.plugins p).next <;> exact hwf
  | closed sock =>
    obtain ⟨hg, heq⟩ := Option.ite_none_right_eq_some.mp hs
    have hph : phase s.stack = .waiting := by rw [hg]; rfl
    by_cases hstream : s.stream sock = true
    · rw [if_pos hstream, Option.some.injEq] at heq
      obtain rfl := heq
      refine ⟨hwf, ?_⟩
      -- no plugin is called: in order only when there is none
      show (Service.Complete ⟨.close, s.heap.first sock, []⟩ s.heap ∧ True) ↔ _
      rw [and_true]
      constructor
      · rintro (⟨hnone, -⟩ | ⟨p, ps, q, -, hw, hcalls, -⟩) _
        · exact hnone
        · exact absurd (List.map_eq_nil_iff.mp hcalls.symm) hw.ne_nil
      · intro hnone
        exact Or.inl ⟨hnone hstream, rfl⟩
    · rw [if_neg hstream, Option.some.injEq] at heq
      obtain rfl := heq
      refine ⟨?_, iff_of_true (serve_inOrder hph ho _ _) fun h => absurd h hstream⟩
      cases hstart : s.heap.first sock <;> exact hwf
  | goOn =>
    obtain ⟨hheap, hiff⟩ := goOn_inOrder_iff hwf ho hs
    exact ⟨hheap ▸ hwf, hiff⟩

/-! ### Runs -/

theorem wf_initial (cls : Nat → Kind) : (State.initial cls).heap.WF :=
  ⟨nofun, nofun, nofun⟩

/-- All along the run, every event is served in order. -/
def AlwaysInOrder (cls : Nat → Kind) (as : List Action) : Prop :=
  ∀ bs cs u, as = bs ++ cs → run step (State.initial cls) bs = some u → u.InOrder

/-- **Plugin chain dispatch.** Every event of a run is served in order, each plugin once, exactly
    when all its steps meet the condition. -/
theorem dispatch_iff_along {cls : Nat → Kind} {t : State} {as : List Action}
    (h : run step (State.initial cls) as = some t) :
    AlwaysInOrder cls as ↔ Along step Forwards (State.initial cls) as :=
  forall_prefix_iff_along (I := fun s => s.heap.WF)
    (fun _ _ _ hwf ho hs => step_inOrder_iff hwf ho hs) (wf_initial cls) trivial h

/-- A data event, then the close, on a socket with a HTTP parser and a Pico parser behind it. -/
def httpThenPico : List Action :=
  [.reset 0 (some 0), .picoReset 1 (some 0), .data 0 5, .goOn, .goOn, .goOn,
    .closed 0, .goOn, .goOn, .goOn]

theorem dispatch_iff_along_httpThenPico :
    AlwaysInOrder (fun o => if o = 0 then .httpParser else .picoHttpParser) httpThenPico ↔
      Along step Forwards (State.initial fun o => if o = 0 then .httpParser else .picoHttpParser)
        httpThenPico := by
  obtain ⟨t, ht⟩ := Option.isSome_iff_exists.mp (show
    (run step (State.initial fun o => if o = 0 then .httpParser else .picoHttpParser)
      httpThenPico).isSome = true by decide)
  exact dispatch_iff_along ht

/-- **A parser attached again loses the rest of its first list**: parser 0 is behind no plugin on
    socket 1, so parser 1 is not called for the data on socket 0.  **A Pico parser closes what is
    behind it** on data. -/
theorem not_alwaysInOrder :
    ¬ AlwaysInOrder (fun _ => .httpParser)
        [.reset 0 (some 0), .reset 1 (some 0), .reset 0 (some 1), .data 0 5, .goOn] ∧
      ¬ AlwaysInOrder (fun o => if o = 0 then .picoHttpParser else .httpParser)
        [.picoReset 0 (some 0), .reset 1 (some 0), .data 0 5, .goOn, .goOn, .goOn] := by
  have hnot {cls : Nat → Kind} {as : List Action}
      (hrun : (run step (State.initial cls) as).isSome = true)
      (hmiss : ¬ Along step Forwards (State.initial cls) as) : ¬ AlwaysInOrder cls as := by
    obtain ⟨t, ht⟩ := Option.isSome_iff_exists.mp hrun
    exact fun hall => hmiss ((forall_prefix_iff_along (I := fun s : State => s.heap.WF)
      (G := State.InOrder) (fun _ _ _ hwf ho hs => step_inOrder_iff hwf ho hs) (wf_initial cls)
      trivial ht).mp hall)
  exact ⟨hnot (by decide) (by decide), hnot (by decide) (by decide)⟩

end Dv8.Plugins
