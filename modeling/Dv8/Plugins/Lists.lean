import Dv8.Lib.LinkedList
import Dv8.Plugins.Dispatch

namespace Dv8.Plugins

open Dv8.Lib

/-!
# The lists of plugins

`SecureSocket::Setup`, `HTTPParser::Reset` and `PicoHTTPParser::Reset` append a plugin with the
same few lines: the first one of a socket becomes both ends of its list, any other is linked behind
the last.  They run at any time JavaScript does, also while a list is being walked.

* `run_holds` — a run lengthens the list of every socket by the plugins attached to it;
* `lists_wellFormed` — whatever has been attached, the list of every socket is made of the plugins
  attached to it, once each and in order, and ends at `last`.
-/

/-- The plugin behind a plugin. -/
def Heap.next (h : Heap) (p : Nat) : Option Nat := (h.plugins p).next

/-- What an action attaches: the kind and the object of the plugin, and its socket. -/
def Action.attaches : Action → Option (Kind × Nat × Nat)
  | .setup obj sock => some (.openssl, obj, sock)
  | .reset obj sock => sock.map fun sock => (.httpParser, obj, sock)
  | .picoReset obj sock => sock.map fun sock => (.picoHttpParser, obj, sock)
  | _ => none

/-- The plugins attached to `sock`, in order, with the kind and the object of each; plugins are
    numbered as they are made, from `n` on. -/
def attached (sock : Nat) : Nat → List Action → List (Nat × Kind × Nat)
  | _, [] => []
  | n, a :: as =>
    match a.attaches with
    | none => attached sock n as
    | some (kind, obj, s) =>
      if s = sock then (n, kind, obj) :: attached sock (n + 1) as else attached sock (n + 1) as

/-- The numbers of the plugins attached to `sock`. -/
def nodes (sock n : Nat) (as : List Action) : List Nat := (attached sock n as).map Prod.fst

/-- The lists of all sockets are well formed, and made of these plugins. -/
structure Heap.WellFormed (h : Heap) (lists : Nat → List Nat) : Prop where
  visits : ∀ sock, Follows h.next (h.first sock) (lists sock)
  once : ∀ sock, (lists sock).Nodup
  ends : ∀ sock, h.last sock = (lists sock).getLast?
  last : ∀ sock l, h.last sock = some l → h.next l = none
  apart : ∀ sock sock', sock ≠ sock' → (lists sock).Disjoint (lists sock')

/-! ### One attachment -/

/-- What is held by sockets of a heap whose lists grow at their ends is well formed. -/
theorem Heap.WF.wellFormed {h : Heap} {lists : Nat → List Nat} (hwf : h.WF)
    (hlists : ∀ sock, h.Holds sock (lists sock)) : h.WellFormed lists := by
  have hvisits (sock : Nat) : Follows h.next (h.first sock) (lists sock) := by
    rw [(hlists sock).first]
    refine .of_isChain (hlists sock).chain fun l hl => ?_
    exact (hwf.last sock l ((hlists sock).last.trans hl)).2
  refine ⟨hvisits, fun sock => (hvisits sock).nodup, fun sock => (hlists sock).last,
    fun sock l hl => (hwf.last sock l hl).2, fun sock sock' hne => ?_⟩
  refine (hvisits sock).apart (hvisits sock') fun hsome heq => ?_
  -- one last plugin for both would be the last of one socket
  obtain ⟨l, hl⟩ := Option.ne_none_iff_exists'.mp (mt List.getLast?_eq_none_iff.mp hsome)
  exact hne (hwf.apart sock sock' l ((hlists sock).last.trans hl)
    ((hlists sock').last.trans (heq ▸ hl)))

/-- **No attachment is stuck**: a socket that has a first plugin has a last one. -/
theorem Heap.Holds.attach_isSome {h : Heap} {sock : Nat} {ps : List Nat} (hps : h.Holds sock ps)
    (kind : Kind) (obj : Nat) : (h.attach kind obj sock).isSome := by
  unfold Heap.attach
  cases hfirst : h.first sock with
  | none => rfl
  | some f =>
    cases hlast : h.last sock with
    | some l => rfl
    | none =>
      rw [hps.last, List.getLast?_eq_none_iff] at hlast
      rw [hps.first, hlast] at hfirst
      cases hfirst

/-- The plugins that were there keep their kind and their object. -/
def Heap.Grows (h h' : Heap) : Prop :=
  h.size ≤ h'.size ∧ ∀ p < h.size,
    (h'.plugins p).kind = (h.plugins p).kind ∧ (h'.plugins p).data = (h.plugins p).data

theorem Heap.Grows.refl (h : Heap) : h.Grows h := ⟨le_refl _, fun _ _ => ⟨rfl, rfl⟩⟩

theorem Heap.Grows.trans {h₁ h₂ h₃ : Heap} (h : h₁.Grows h₂) (h' : h₂.Grows h₃) :
    h₁.Grows h₃ := by
  refine ⟨h.1.trans h'.1, fun p hp => ?_⟩
  obtain ⟨hkind, hdata⟩ := h.2 p hp
  obtain ⟨hkind', hdata'⟩ := h'.2 p (Nat.lt_of_lt_of_le hp h.1)
  exact ⟨hkind'.trans hkind, hdata'.trans hdata⟩

/-- An attachment makes one plugin, for the object it is given. -/
theorem Heap.attach_grows {h h' : Heap} {kind : Kind} {obj sock : Nat} (hwf : h.WF)
    (ha : h.attach kind obj sock = some h') :
    h.Grows h' ∧ (h'.plugins h.size).kind = kind ∧ (h'.plugins h.size).data = obj := by
  unfold Heap.attach at ha
  cases hfirst : h.first sock with
  | none =>
    simp only [hfirst, Option.some.injEq] at ha
    subst ha
    refine ⟨⟨Nat.le_succ _, fun p hp => ?_⟩, ?_⟩
    · simp only [Function.update_of_ne (Nat.ne_of_lt hp), and_self]
    · simp only [Function.update_self, and_self]
  | some f =>
    cases hlast : h.last sock with
    | none =>
      simp only [hfirst, hlast] at ha
      cases ha
    | some l =>
      simp only [hfirst, hlast, Option.some.injEq] at ha
      subst ha
      have hl := Nat.ne_of_lt (hwf.last sock l hlast).1
      refine ⟨⟨Nat.le_succ _, fun p hp => ?_⟩, ?_⟩
      · by_cases hpl : p = l
        · -- only the `next` of the plugin that was last changes
          subst hpl
          simp only [Function.update_self, Function.update_of_ne hl, and_self]
        · simp only [Function.update_of_ne hpl, Function.update_of_ne (Nat.ne_of_lt hp), and_self]
      · simp only [Function.update_of_ne hl.symm, Function.update_self, and_self]

/-! ### Runs -/

theorem State.attach_heap {s s' : State} {kind : Kind} {obj sock : Nat}
    (h : s.attach kind obj sock = some s') : s.heap.attach kind obj sock = some s'.heap := by
  obtain ⟨-, h⟩ := Option.ite_none_right_eq_some.mp h
  obtain ⟨heap, hheap, rfl⟩ := Option.map_eq_some_iff.mp h
  exact hheap

theorem State.goOn_heap {s s' : State} (h : s.goOn = some s') : s'.heap = s.heap := by
  unfold State.goOn at h
  split at h
  · cases h
  · cases h
    rfl
  · obtain ⟨fs, -, rfl⟩ := Option.map_eq_some_iff.mp h
    rfl
  · obtain ⟨fs, -, rfl⟩ := Option.map_eq_some_iff.mp h
    rfl
  · cases h
    rfl

theorem State.serve_heap (s : State) (e : Event) (start : Option Nat) :
    (s.serve e start).heap = s.heap := by
  cases start <;> rfl

/-- **One step** attaches what its action says, or leaves the heap alone. -/
theorem step_heap {s s' : State} {a : Action} (h : step s a = some s') :
    (a.attaches = none ∧ s'.heap = s.heap) ∨
      ∃ kind obj sock, a.attaches = some (kind, obj, sock) ∧
        s.heap.attach kind obj sock = some s'.heap := by
  cases a with
  | setup obj sock => exact .inr ⟨_, _, _, rfl, State.attach_heap h⟩
  | reset obj sock =>
    cases sock with
    | some sock => exact .inr ⟨_, _, _, rfl, State.attach_heap h⟩
    | none =>
      obtain ⟨-, heq⟩ := Option.ite_none_right_eq_some.mp h
      cases heq
      exact .inl ⟨rfl, rfl⟩
  | picoReset obj sock =>
    cases sock with
    | some sock => exact .inr ⟨_, _, _, rfl, State.attach_heap h⟩
    | none =>
      obtain ⟨-, heq⟩ := Option.ite_none_right_eq_some.mp h
      cases heq
      exact .inl ⟨rfl, rfl⟩
  | listen sock =>
    obtain ⟨-, heq⟩ := Option.ite_none_right_eq_some.mp h
    cases heq
    exact .inl ⟨rfl, rfl⟩
  | data sock nread =>
    obtain ⟨-, heq⟩ := Option.ite_none_right_eq_some.mp h
    cases heq
    exact .inl ⟨rfl, s.serve_heap _ _⟩
  | cycleIn obj nread =>
    obtain ⟨-, heq⟩ := Option.ite_none_right_eq_some.mp h
    obtain ⟨p, -, rfl⟩ := Option.map_eq_some_iff.mp heq
    exact .inl ⟨rfl, s.serve_heap _ _⟩
  | closed sock =>
    obtain ⟨-, heq⟩ := Option.ite_none_right_eq_some.mp h
    split at heq
    · cases heq
      exact .inl ⟨rfl, rfl⟩
    · cases heq
      exact .inl ⟨rfl, s.serve_heap _ _⟩
  | goOn => exact .inl ⟨rfl, State.goOn_heap h⟩

/-- **A run** lengthens the list of every socket by the plugins attached to it. -/
theorem run_holds {s t : State} {as : List Action} (lists : Nat → List Nat) (hwf : s.heap.WF)
    (hlists : ∀ sock, s.heap.Holds sock (lists sock)) (h : run step s as = some t) :
    t.heap.WF ∧ ∀ sock, t.heap.Holds sock (lists sock ++ nodes sock s.heap.size as) := by
  induction as generalizing s lists with
  | nil =>
    cases h
    exact ⟨hwf, fun sock => (List.append_nil (lists sock)).symm ▸ hlists sock⟩
  | cons a as ih =>
    obtain ⟨s', h₁, h₂⟩ := run_cons_eq_some.mp h
    rcases step_heap h₁ with ⟨ha, hheap⟩ | ⟨kind, obj, sock, ha, hattach⟩
    · have hnodes (sock : Nat) : nodes sock s.heap.size (a :: as) = nodes sock s.heap.size as := by
        simp only [nodes, attached, ha]
      simp only [hnodes]
      rw [← hheap] at hwf hlists ⊢
      exact ih lists hwf hlists h₂
    · have hat := Heap.attach_spec hwf hattach
      obtain ⟨hwf', hlists'⟩ := ih _ (hat.wf hwf) (fun sock' => hat.holds hwf (hlists sock')) h₂
      refine ⟨hwf', fun sock' => ?_⟩
      have hnodes : lists sock' ++ nodes sock' s.heap.size (a :: as) =
          (if sock' = sock then lists sock' ++ [s.heap.size] else lists sock')
            ++ nodes sock' s'.heap.size as := by
        rw [hat.size]
        by_cases hs : sock' = sock
        · simp only [nodes, attached, ha, hs, if_true, List.map_cons, List.append_assoc,
            List.singleton_append]
        · simp only [nodes, attached, ha, if_neg hs, if_neg (Ne.symm hs)]
      rw [hnodes]
      exact hlists' sock'

/-- The plugins attached in a run are made for the objects they are attached with. -/
theorem run_attached {s t : State} {as : List Action} (hwf : s.heap.WF)
    (h : run step s as = some t) :
    s.heap.Grows t.heap ∧ ∀ sock, ∀ x ∈ attached sock s.heap.size as,
      (t.heap.plugins x.1).kind = x.2.1 ∧ (t.heap.plugins x.1).data = x.2.2 := by
  induction as generalizing s with
  | nil =>
    cases h
    exact ⟨.refl _, fun _ _ hx => absurd hx List.not_mem_nil⟩
  | cons a as ih =>
    obtain ⟨s', h₁, h₂⟩ := run_cons_eq_some.mp h
    rcases step_heap h₁ with ⟨ha, hheap⟩ | ⟨kind, obj, sock, ha, hattach⟩
    · simp only [attached, ha]
      rw [← hheap] at hwf ⊢
      exact ih hwf h₂
    · have hat := Heap.attach_spec hwf hattach
      obtain ⟨hgrows, hkind, hdata⟩ := Heap.attach_grows hwf hattach
      obtain ⟨hgrows', hattached⟩ := ih (hat.wf hwf) h₂
      refine ⟨hgrows.trans hgrows', fun sock' x hx => ?_⟩
      simp only [attached, ha, ← hat.size] at hx
      split_ifs at hx
      · rcases List.mem_cons.mp hx with rfl | hx
        · obtain ⟨hkind', hdata'⟩ := hgrows'.2 s.heap.size (hat.size ▸ Nat.lt_succ_self _)
          exact ⟨hkind'.trans hkind, hdata'.trans hdata⟩
        · exact hattached sock' x hx
      · exact hattached sock' x hx

/-- **The plugin lists are well formed** after any attachments, in any order and by any of the
    three: the list of a socket is what was attached to it, and another attachment finds its end. -/
theorem lists_wellFormed {cls : Nat → Kind} {as : List Action} {s : State}
    (h : run step (State.initial cls) as = some s) :
    s.heap.WellFormed (fun sock => nodes sock 0 as) ∧
      (∀ sock, ∀ x ∈ attached sock 0 as,
        (s.heap.plugins x.1).kind = x.2.1 ∧ (s.heap.plugins x.1).data = x.2.2) ∧
      ∀ kind obj sock, (s.heap.attach kind obj sock).isSome := by
  obtain ⟨hwf, hlists⟩ := run_holds (fun _ => []) (wf_initial cls)
    (fun _ => ⟨rfl, rfl, .nil⟩) h
  exact ⟨hwf.wellFormed hlists, (run_attached (wf_initial cls) h).2,
    fun kind obj sock => (hlists sock).attach_isSome kind obj⟩

/-- Three plugins on one socket and one on another; the second is attached while data is served. -/
def fourAttached : List Action :=
  [.setup 0 0, .data 0 5, .reset 1 (some 0), .picoReset 2 (some 7), .goOn, .goOn, .reset 3 none,
    .reset 3 (some 0)]

example : nodes 0 0 fourAttached = [0, 1, 3] ∧ nodes 7 0 fourAttached = [2] := by decide

theorem lists_wellFormed_fourAttached :
    ∃ s, run step (State.initial fun o => if o = 0 then .openssl else
        if o = 2 then .picoHttpParser else .httpParser) fourAttached = some s ∧
      s.heap.WellFormed fun sock => nodes sock 0 fourAttached := by
  obtain ⟨s, hs⟩ := Option.isSome_iff_exists.mp (show
    (run step (State.initial fun o => if o = 0 then .openssl else
      if o = 2 then .picoHttpParser else .httpParser) fourAttached).isSome = true by decide)
  exact ⟨s, hs, (lists_wellFormed hs).1⟩

end Dv8.Plugins
