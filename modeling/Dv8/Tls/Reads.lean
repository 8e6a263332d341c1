import Dv8.Tls.SecureSocket

namespace Dv8.Tls

open Dv8.Lib Dv8.Uv

/-!
# One read of a `SecureSocket`

`feed` is one read of the socket, from `on_plugin_read_data` to its return, with callbacks that
return at once.

* `feed_run` — a read is a run of the machine, back to the event loop;
* `feed_took` — it hands on what one `SSL_read` returns, or nothing while the handshake is
  unfinished;
* `run_feed_again` — however the bytes are cut into reads that fit the in buffer, there is a run.
-/

variable {σ : Type}

/-! ### One read of the socket -/

/-- The C++ code goes on until it returns to the event loop; JavaScript returns at once. -/
def Secure.finish (S : Ssl σ) (a : Answer) : Nat → Secure σ → Option (Secure σ)
  | fuel, s =>
    if s.stack = [] then some s
    else
      match fuel with
      | 0 => none
      | fuel + 1 => (step S s (if s.inJs then .ret else .go a)).bind (finish S a fuel)

/-- One read of the socket.  The longest way back to the event loop is `cycleOut`, `cycleIn`,
    `onRead`, the rest of `cycleIn` and the next plugin. -/
def feed (S : Ssl σ) (s : Secure σ) (read : List UInt8 × Answer) : Option (Secure σ) :=
  (step S s (.networkRead read.1)).bind fun s => s.finish S read.2 5

/-- `feed` is a run of the machine. -/
theorem finish_run {S : Ssl σ} {a : Answer} {fuel : Nat} {s s' : Secure σ}
    (h : s.finish S a fuel = some s') :
    ∃ as, (∀ b ∈ as, b = .ret ∨ b = .go a) ∧ run (step S) s as = some s' ∧ s'.stack = [] := by
  induction fuel generalizing s with
  | zero =>
    unfold Secure.finish at h
    split at h
    · rename_i hnil
      cases h
      exact ⟨[], by simp, rfl, hnil⟩
    · contradiction
  | succ fuel ih =>
    unfold Secure.finish at h
    split at h
    · rename_i hnil
      cases h
      exact ⟨[], by simp, rfl, hnil⟩
    · rw [Option.bind_eq_some_iff] at h
      obtain ⟨s₁, hstep, h⟩ := h
      obtain ⟨as, hacts, hrun, hnil⟩ := ih h
      refine ⟨_ :: as, ?_, run_cons_eq_some.mpr ⟨s₁, hstep, hrun⟩, hnil⟩
      intro b hb
      obtain rfl | hb := List.mem_cons.mp hb
      · split
        · exact Or.inl rfl
        · exact Or.inr rfl
      · exact hacts b hb

theorem feed_run {S : Ssl σ} {read : List UInt8 × Answer} {s s' : Secure σ}
    (h : feed S s read = some s') :
    ∃ as, (∀ b ∈ as, b = .ret ∨ b = .go read.2) ∧
      run (step S) s (.networkRead read.1 :: as) = some s' ∧ s'.stack = [] := by
  rw [feed, Option.bind_eq_some_iff] at h
  obtain ⟨s₁, hstep, h⟩ := h
  obtain ⟨as, hacts, hrun, hnil⟩ := finish_run h
  exact ⟨as, hacts, run_cons_eq_some.mpr ⟨s₁, hstep, hrun⟩, hnil⟩

/-! ### What a read does to the input side -/

/-- `s'` has the input side of `s`. -/
structure SameInput (s s' : Secure σ) : Prop where
  ssl : s'.ssl = s.ssl
  inputBio : s'.inputBio = s.inputBio
  input : s'.input = s.input
  received : s'.received = s.received
  onRead : s'.onRead = s.onRead
  next : s'.next = s.next
  toOnRead : s'.toOnRead = s.toOnRead
  toNext : s'.toNext = s.toNext

theorem cycleOut_sameInput {s s' : Secure σ} {a : Answer} (h : s.cycleOut a = some s') :
    SameInput s s' ∧ s'.stack = s.stack := by
  unfold Secure.cycleOut at h
  split at h
  · cases h
    exact ⟨⟨rfl, rfl, rfl, rfl, rfl, rfl, rfl, rfl⟩, rfl⟩
  · rw [Option.bind_eq_some_iff] at h
    obtain ⟨out, -, h⟩ := h
    rw [Option.map_eq_some_iff] at h
    obtain ⟨⟨handle, r⟩, -, h⟩ := h
    cases h
    exact ⟨⟨rfl, rfl, rfl, rfl, rfl, rfl, rfl, rfl⟩, rfl⟩

/-- The plaintext `data` has been handed on, and libssl is in the state of `r`. -/
structure Took (s s' : Secure σ) (r : Io σ) (data : List UInt8) : Prop where
  ssl : s'.ssl = r.ssl
  inputBio : s'.inputBio = r.input
  input : s'.input.length = s.input.length
  received : s'.received = s.received
  onRead : s'.onRead = s.onRead
  next : s'.next = s.next
  toOnRead : s'.toOnRead = s.toOnRead ++ if s.onRead then data else []
  toNext : s'.toNext = s.toNext ++ if s.next then data else []
  stack : s'.stack = []

/-- `SSL_read` returns the number of bytes it puts into the buffer, or puts none there. -/
structure Ssl.ReadLaw (S : Ssl σ) : Prop where
  positive : ∀ s input len, 0 < (S.read s input len).ret →
    (S.read s input len).ret = (S.read s input len).data.length
  empty : ∀ s input len, (S.read s input len).ret ≤ 0 → (S.read s input len).data = []

theorem finish_nil {S : Ssl σ} {a : Answer} {s : Secure σ} (fuel : Nat) (h : s.stack = []) :
    s.finish S a fuel = some s := by
  unfold Secure.finish
  rw [if_pos h]

/-- JavaScript returns. -/
theorem finish_ret {S : Ssl σ} {a : Answer} {s : Secure σ} {p : Point} {stack : List Point}
    (fuel : Nat) (hstack : s.stack = p :: stack) (hjs : p.isJs = true) :
    s.finish S a (fuel + 1) = Secure.finish S a fuel { s with stack := stack } := by
  have hin : s.inJs = true := by rw [Secure.inJs, hstack]; exact hjs
  rw [Secure.finish, if_neg (by simp [hstack])]
  simp only [hin, if_true, step, hstack, List.tail_cons, Option.bind_some]

/-- C++ goes on. -/
theorem finish_go {S : Ssl σ} {a : Answer} {s : Secure σ} {p : Point} {stack : List Point}
    (fuel : Nat) (hstack : s.stack = p :: stack) (hjs : p.isJs = false) :
    s.finish S a (fuel + 1) = (s.go S a).bind (Secure.finish S a fuel) := by
  have hin : s.inJs = false := by rw [Secure.inJs, hstack]; exact hjs
  rw [Secure.finish, if_neg (by simp [hstack])]
  simp only [hin, step]
  rfl

/-- `cycleIn` behind `onRead`, to its end. -/
theorem finish_cycleInNext {S : Ssl σ} {a : Answer} {s : Secure σ} {n : Int} (fuel : Nat)
    (hstack : s.stack = [.cycleInNext n]) :
    s.finish S a (fuel + 2) =
      some { s with toNext := s.toNext ++ if s.next then s.input.take n.toNat else []
                    stack := [] } := by
  rw [finish_go _ hstack rfl, Secure.go, hstack]
  simp only [Option.bind_some, Secure.cycleInNext]
  split
  · rw [finish_ret _ rfl rfl]
    exact finish_nil _ rfl
  · rw [List.append_nil]
    exact finish_nil _ rfl

/-- One `cycleIn` with callbacks that return at once hands on what one `SSL_read` returns. -/
theorem finish_cycleIn {S : Ssl σ} {a : Answer} {s s' : Secure σ} (hlaw : S.ReadLaw)
    (hstack : s.stack = [.cycleIn]) (hbio : s.inputBio ≠ [])
    (h : s.finish S a 4 = some s') :
    Took s s' (S.read s.ssl s.inputBio s.input.length)
      (S.read s.ssl s.inputBio s.input.length).data := by
  rw [finish_go 3 hstack rfl, Secure.go, hstack] at h
  simp only [Secure.cycleIn, if_neg hbio] at h
  generalize hr : S.read s.ssl s.inputBio s.input.length = r at h ⊢
  have hret := hlaw.positive s.ssl s.inputBio s.input.length
  have hdata := hlaw.empty s.ssl s.inputBio s.input.length
  rw [hr] at hret hdata
  split at h
  · -- nothing to read yet
    rename_i hle
    rw [Option.bind_some, finish_nil 3 rfl] at h
    cases h
    rw [hdata hle]
    exact ⟨rfl, rfl, rfl, rfl, rfl, rfl, by simp [Secure.io], by simp [Secure.io], rfl⟩
  · rename_i hpos
    rw [Option.bind_eq_some_iff] at h
    obtain ⟨s₁, h₁, h⟩ := h
    rw [Option.map_eq_some_iff] at h₁
    obtain ⟨input, hwrite, h₁⟩ := h₁
    have hlen := writeAt_length hwrite
    have hn : r.ret.toNat = r.data.length := by
      rw [hret (by omega), Int.toNat_natCast]
    have htake : input.take r.ret.toNat = r.data := by
      obtain ⟨-, rfl⟩ := writeAt_eq_some_iff.mp hwrite
      rw [hn, List.take_zero, List.nil_append, List.take_left]
    subst h₁
    split at h
    · rename_i hcb
      rw [finish_ret 2 rfl rfl, finish_cycleInNext 0 rfl] at h
      cases h
      refine ⟨rfl, rfl, hlen, rfl, rfl, rfl, ?_, ?_, rfl⟩
      · have hcb : s.onRead = true := hcb
        show s.toOnRead ++ input.take r.ret.toNat = _
        rw [htake, if_pos hcb]
      · show s.toNext ++ (if s.next then input.take r.ret.toNat else []) = _
        rw [htake]
    · rename_i hcb
      rw [finish_cycleInNext 1 rfl] at h
      cases h
      refine ⟨rfl, rfl, hlen, rfl, rfl, rfl, ?_, ?_, rfl⟩
      · have hcb : ¬ s.onRead = true := hcb
        rw [if_neg hcb, List.append_nil]
        rfl
      · show s.toNext ++ (if s.next then input.take r.ret.toNat else []) = _
        rw [htake]

/-- `start_ssl` with callbacks that return at once hands nothing on. -/
theorem finish_startSsl {S : Ssl σ} {a : Answer} {s s' : Secure σ} (hstack : s.stack = [])
    (h : (s.startSsl S).finish S a 5 = some s') :
    Took s s' (S.doHandshake s.ssl s.inputBio) [] := by
  -- whatever follows the handshake leaves the input side alone
  have htook : ∀ t : Secure σ, SameInput (s.io (S.doHandshake s.ssl s.inputBio)) t →
      t.stack = [] → Took s t (S.doHandshake s.ssl s.inputBio) [] := by
    intro t same hnil
    exact ⟨same.ssl, same.inputBio, by rw [same.input]; rfl, same.received, same.onRead,
      same.next, by rw [same.toOnRead, ite_self, List.append_nil]; rfl,
      by rw [same.toNext, ite_self, List.append_nil]; rfl, hnil⟩
  have hsame : SameInput (s.io (S.doHandshake s.ssl s.inputBio))
      (s.io (S.doHandshake s.ssl s.inputBio)) := ⟨rfl, rfl, rfl, rfl, rfl, rfl, rfl, rfl⟩
  have hflush : ∀ fuel (t : Secure σ), SameInput (s.io (S.doHandshake s.ssl s.inputBio)) t →
      t.stack = [.cycleOut] → t.finish S a (fuel + 1) = some s' →
      Took s s' (S.doHandshake s.ssl s.inputBio) [] := by
    intro fuel t same hcycle h
    rw [finish_go _ hcycle rfl, Secure.go, hcycle, Option.bind_eq_some_iff] at h
    obtain ⟨u, hout, h⟩ := h
    obtain ⟨same', hnil⟩ := cycleOut_sameInput hout
    rw [finish_nil _ hnil] at h
    cases h
    refine htook _ ?_ hnil
    exact ⟨same'.ssl.trans same.ssl, same'.inputBio.trans same.inputBio,
      same'.input.trans same.input, same'.received.trans same.received,
      same'.onRead.trans same.onRead, same'.next.trans same.next,
      same'.toOnRead.trans same.toOnRead, same'.toNext.trans same.toNext⟩
  have herror : ∀ n : Int, (if s.onError then
        (s.io (S.doHandshake s.ssl s.inputBio)).push [.onError n]
      else s.io (S.doHandshake s.ssl s.inputBio)).finish S a 5 = some s' →
      Took s s' (S.doHandshake s.ssl s.inputBio) [] := by
    intro n h
    split at h
    · have hpush : ((s.io (S.doHandshake s.ssl s.inputBio)).push [.onError n]).stack =
          .onError n :: [] := by simp [Secure.push, Secure.io, hstack]
      rw [finish_ret 4 hpush rfl, finish_nil 4 rfl] at h
      cases h
      exact htook _ ⟨rfl, rfl, rfl, rfl, rfl, rfl, rfl, rfl⟩ rfl
    · have hnil : (s.io (S.doHandshake s.ssl s.inputBio)).stack = [] := hstack
      rw [finish_nil 5 hnil] at h
      cases h
      exact htook _ hsame hnil
  unfold Secure.startSsl at h
  simp only at h
  split at h
  · exact herror _ h
  · split at h
    · split at h
      · have hpush : ((s.io (S.doHandshake s.ssl s.inputBio)).push [.onSecure, .cycleOut]).stack =
            .onSecure :: [.cycleOut] := by simp [Secure.push, Secure.io, hstack]
        rw [finish_ret 4 hpush rfl] at h
        refine hflush 3 _ ?_ ?_ h
        · exact ⟨rfl, rfl, rfl, rfl, rfl, rfl, rfl, rfl⟩
        · rfl
      · refine hflush 4 _ ?_ ?_ h
        · exact ⟨rfl, rfl, rfl, rfl, rfl, rfl, rfl, rfl⟩
        · simp [Secure.push, Secure.io, hstack]
    · split at h
      · refine hflush 4 _ ?_ ?_ h
        · exact ⟨rfl, rfl, rfl, rfl, rfl, rfl, rfl, rfl⟩
        · simp [Secure.push, Secure.io, hstack]
      · exact herror _ h

/-- The socket after `on_plugin_read_data` has put what was read into the input BIO. -/
def Secure.fed (s : Secure σ) (bytes : List UInt8) : Secure σ :=
  { s with input := bytes ++ s.input.drop bytes.length
           received := s.received ++ bytes
           inputBio := s.inputBio ++ bytes }

/-- One read of the socket is one `SSL_read`, or one `SSL_do_handshake` while the handshake
    is unfinished. -/
theorem feed_took {S : Ssl σ} {s s' : Secure σ} {read : List UInt8 × Answer} (hlaw : S.ReadLaw)
    (hstack : s.stack = []) (h : feed S s read = some s') :
    (S.isInitFinished s.ssl = true ∧
        Took (s.fed read.1) s' (S.read s.ssl (s.inputBio ++ read.1) (s.fed read.1).input.length)
          (S.read s.ssl (s.inputBio ++ read.1) (s.fed read.1).input.length).data) ∨
      (S.isInitFinished s.ssl = false ∧
        Took (s.fed read.1) s' (S.doHandshake s.ssl (s.inputBio ++ read.1)) []) := by
  rw [feed, Option.bind_eq_some_iff] at h
  obtain ⟨s₁, hread, h⟩ := h
  rw [step, if_pos hstack, Secure.networkRead] at hread
  split at hread
  · contradiction
  · rename_i hguard
    rw [not_or] at hguard
    rw [Option.map_eq_some_iff] at hread
    obtain ⟨input, hwrite, rfl⟩ := hread
    obtain ⟨-, rfl⟩ := writeAt_eq_some_iff.mp hwrite
    rw [List.take_zero, List.nil_append, Nat.zero_add] at h
    have hfed : Secure.onPluginReadData S { s with input := read.1 ++ s.input.drop read.1.length
                                                   received := s.received ++ read.1 }
          read.1.length =
        if S.isInitFinished s.ssl then (s.fed read.1).push [.cycleOut, .cycleIn]
        else (s.fed read.1).startSsl S := by
      simp only [Secure.onPluginReadData, List.take_left, Secure.fed]
    rw [hfed] at h
    split at h
    · rename_i hinit
      refine Or.inl ⟨hinit, ?_⟩
      have hpush : ((s.fed read.1).push [.cycleOut, .cycleIn]).stack = [.cycleOut, .cycleIn] := by
        simp [Secure.push, Secure.fed, hstack]
      -- `cycleOut` comes first and leaves the input side alone, then `cycleIn` reads
      rw [finish_go 4 hpush rfl, Secure.go, hpush, Option.bind_eq_some_iff] at h
      obtain ⟨s₂, hout, h⟩ := h
      obtain ⟨same, hcycle⟩ := cycleOut_sameInput hout
      have hbio : s₂.inputBio = s.inputBio ++ read.1 := same.inputBio
      have hne : s₂.inputBio ≠ [] := by
        rw [hbio]
        intro hnil
        exact hguard.1 (List.append_eq_nil_iff.mp hnil).2
      have htook := finish_cycleIn hlaw hcycle hne h
      rw [hbio, same.ssl, same.input] at htook
      exact ⟨htook.ssl, htook.inputBio, htook.input.trans (congrArg List.length same.input),
        htook.received.trans same.received, htook.onRead.trans same.onRead,
        htook.next.trans same.next, by rw [htook.toOnRead, same.toOnRead, same.onRead]; rfl,
        by rw [htook.toNext, same.toNext, same.next]; rfl, htook.stack⟩
    · rename_i hinit
      rw [Bool.not_eq_true] at hinit
      refine Or.inr ⟨hinit, ?_⟩
      have hnil : (s.fed read.1).stack = [] := hstack
      -- before the handshake is done nothing is read
      exact finish_startSsl hnil h

/-- What is read fits the in buffer, so that is no longer than before. -/
theorem feed_fits {S : Ssl σ} {s s' : Secure σ} {read : List UInt8 × Answer}
    (h : feed S s read = some s') : (s.fed read.1).input.length = s.input.length := by
  rw [feed, Option.bind_eq_some_iff] at h
  obtain ⟨s₁, hread, -⟩ := h
  rw [step] at hread
  split at hread
  · rw [Secure.networkRead] at hread
    split at hread
    · contradiction
    · rw [Option.map_eq_some_iff] at hread
      obtain ⟨input, hwrite, -⟩ := hread
      have hlen := writeAt_length hwrite
      obtain ⟨-, rfl⟩ := writeAt_eq_some_iff.mp hwrite
      rw [List.take_zero, List.nil_append, Nat.zero_add] at hlen
      exact hlen
  · contradiction

/-! ### A read always ends -/

/-- The longest way of a point back to its caller, in steps. -/
def Point.cost : Point → Nat
  | .cycleIn => 4
  | .cycleInNext _ => 2
  | _ => 1

/-- The same for all that is on the stack. -/
def Secure.cost (s : Secure σ) : Nat := (s.stack.map Point.cost).sum

/-- Fuel is enough when every step brings the stack closer to its end. -/
theorem finish_isSome {S : Ssl σ} {a : Answer} {I : Secure σ → Prop}
    (hstep : ∀ s p stack, I s → s.stack = p :: stack →
      ∃ s', step S s (if s.inJs then .ret else .go a) = some s' ∧ I s' ∧ s'.cost < s.cost)
    {s : Secure σ} {fuel : Nat} (hs : I s) (hfuel : s.cost ≤ fuel) :
    ∃ s', s.finish S a fuel = some s' ∧ I s' := by
  induction fuel generalizing s with
  | zero =>
    cases hstack : s.stack with
    | nil => exact ⟨s, finish_nil 0 hstack, hs⟩
    | cons p stack =>
      obtain ⟨s', -, -, hlt⟩ := hstep s p stack hs hstack
      omega
  | succ fuel ih =>
    cases hstack : s.stack with
    | nil => exact ⟨s, finish_nil _ hstack, hs⟩
    | cons p stack =>
      obtain ⟨s', hstep, hs', hlt⟩ := hstep s p stack hs hstack
      obtain ⟨t, hfinish, ht⟩ := ih hs' (by omega)
      refine ⟨t, ?_, ht⟩
      rw [Secure.finish, if_neg (by simp [hstack]), hstep]
      exact hfinish

/-- The points a read of the socket passes. -/
def Point.ofRead : Point → Bool
  | .writeLoop .. | .writeAgain .. => false
  | _ => true

/-- A read is going on; `n` is the length of the in buffer. -/
structure Reading (n : Nat) (s : Secure σ) : Prop where
  points : ∀ p ∈ s.stack, p.ofRead = true
  input : s.input.length = n
  closing : s.handle.closing = false

theorem tryWrite_again (h : Stream) (bytes : List UInt8) :
    ∃ r, h.tryWrite bytes .again = some (h, r) := by
  unfold Stream.tryWrite
  split
  · exact ⟨_, rfl⟩
  · split
    · exact ⟨_, rfl⟩
    · rename_i hopen
      split
      · exact ⟨_, rfl⟩
      · split
        · exact ⟨_, rfl⟩
        · rename_i hq
          rw [Stream.write1, if_neg hopen, hq]
          exact ⟨_, rfl⟩

theorem cycleOut_again (s : Secure σ) : ∃ outputBio out stderr,
    s.cycleOut .again =
      some { s with outputBio := outputBio, out := out, stderr := stderr } := by
  unfold Secure.cycleOut
  split
  · exact ⟨s.outputBio, s.out, s.stderr, rfl⟩
  · have hfit : 0 + (s.outputBio.take s.out.length).length ≤ s.out.length := by
      rw [Nat.zero_add]
      exact List.length_take_le _ _
    obtain ⟨r, htry⟩ := tryWrite_again s.handle (s.outputBio.take s.out.length)
    simp only [writeAt_eq_some hfit, Option.bind_some, htry]
    exact ⟨_, _, _, rfl⟩

/-- A step of a read can happen when the kernel takes nothing. -/
theorem Reading.step {S : Ssl σ} {n : Nat} {s : Secure σ} {p : Point} {stack : List Point}
    (hroom : ∀ ssl bio, (S.read ssl bio n).data.length ≤ n) (h : Reading n s)
    (hstack : s.stack = p :: stack) :
    ∃ s', Tls.step S s (if s.inJs then .ret else .go .again) = some s' ∧ Reading n s' ∧
      s'.cost < s.cost := by
  have hp : p.ofRead = true := h.points p (by rw [hstack]; exact List.mem_cons_self)
  have hrest : ∀ q ∈ stack, q.ofRead = true := by
    intro q hq
    exact h.points q (by rw [hstack]; exact List.mem_cons_of_mem p hq)
  have hcost : s.cost = p.cost + (stack.map Point.cost).sum := by rw [Secure.cost, hstack]; rfl
  have hjs : s.inJs = p.isJs := by rw [Secure.inJs, hstack]
  by_cases hin : p.isJs = true
  · -- the callback returns
    have hone : p.cost = 1 := by cases p <;> first | rfl | contradiction
    refine ⟨{ s with stack := stack }, ?_, ⟨hrest, h.input, h.closing⟩, ?_⟩
    · rw [if_pos (hjs.trans hin), Tls.step, if_pos (hjs.trans hin), hstack]
      rfl
    · show (stack.map Point.cost).sum < _
      omega
  · rw [if_neg (by rw [hjs]; exact hin), Tls.step, Secure.go, hstack]
    cases p with
    | js => exact absurd rfl hin
    | onRead n => exact absurd rfl hin
    | onSecure => exact absurd rfl hin
    | onError n => exact absurd rfl hin
    | nextRead n => exact absurd rfl hin
    | writeLoop len off n => contradiction
    | writeAgain len off => contradiction
    | cycleOut =>
      obtain ⟨outputBio, out, stderr, hout⟩ := cycleOut_again { s with stack := stack }
      refine ⟨_, hout, ⟨hrest, h.input, h.closing⟩, ?_⟩
      show (stack.map Point.cost).sum < _
      simp only [hcost, Point.cost]
      omega
    | cycleInNext m =>
      refine ⟨_, rfl, ?_⟩
      unfold Secure.cycleInNext
      split
      · refine ⟨⟨?_, h.input, h.closing⟩, ?_⟩
        · exact List.forall_mem_cons.mpr ⟨rfl, hrest⟩
        · show 1 + (stack.map Point.cost).sum < _
          simp only [hcost, Point.cost]
          omega
      · refine ⟨⟨hrest, h.input, h.closing⟩, ?_⟩
        show (stack.map Point.cost).sum < _
        simp only [hcost, Point.cost]
        omega
    | cycleIn =>
      simp only [Secure.cycleIn]
      split
      · refine ⟨_, rfl, ⟨hrest, h.input, h.closing⟩, ?_⟩
        show (stack.map Point.cost).sum < _
        simp only [hcost, Point.cost]
        omega
      · split
        · refine ⟨_, rfl, ⟨hrest, h.input, h.closing⟩, ?_⟩
          show (stack.map Point.cost).sum < _
          simp only [hcost, Point.cost]
          omega
        · -- what `SSL_read` returns fits the in buffer
          have hfit : 0 + (S.read s.ssl s.inputBio s.input.length).data.length ≤
              s.input.length := by
            rw [Nat.zero_add, h.input]
            exact hroom s.ssl s.inputBio
          obtain ⟨input, hwrite⟩ : ∃ input,
            writeAt s.input 0 (S.read s.ssl s.inputBio s.input.length).data = some input :=
            ⟨_, writeAt_eq_some hfit⟩
          have hlen : input.length = n := (writeAt_length hwrite).trans h.input
          refine ⟨_, Option.map_eq_some_iff.mpr ⟨input, hwrite, rfl⟩, ?_⟩
          have hnext : ∀ q ∈ Point.cycleInNext (S.read s.ssl s.inputBio s.input.length).ret :: stack,
              q.ofRead = true := List.forall_mem_cons.mpr ⟨rfl, hrest⟩
          split
          · refine ⟨⟨List.forall_mem_cons.mpr ⟨rfl, hnext⟩, hlen, h.closing⟩, ?_⟩
            show 1 + (2 + (stack.map Point.cost).sum) < _
            simp only [hcost, Point.cost]
            omega
          · refine ⟨⟨hnext, hlen, h.closing⟩, ?_⟩
            show 2 + (stack.map Point.cost).sum < _
            simp only [hcost, Point.cost]
            omega

theorem Reading.push {n : Nat} {s : Secure σ} {points : List Point} (h : Reading n s)
    (hpoints : ∀ p ∈ points, p.ofRead = true) : Reading n (s.push points) where
  points := by
    intro p hp
    obtain hp | hp := List.mem_append.mp hp
    · exact hpoints p hp
    · exact h.points p hp
  input := h.input
  closing := h.closing

theorem cost_push (s : Secure σ) (points : List Point) :
    (s.push points).cost = (points.map Point.cost).sum + s.cost := by
  simp [Secure.cost, Secure.push]

theorem Reading.startSsl {S : Ssl σ} {n : Nat} {s : Secure σ} (h : Reading n s) :
    Reading n (s.startSsl S) ∧ (s.startSsl S).cost ≤ 2 + s.cost := by
  have hio : Reading n (s.io (S.doHandshake s.ssl s.inputBio)) :=
    ⟨h.points, h.input, h.closing⟩
  have hsame : (s.io (S.doHandshake s.ssl s.inputBio)).cost ≤ 2 + s.cost := Nat.le_add_left _ _
  have hpush : ∀ points, (∀ p ∈ points, p.ofRead = true) → (points.map Point.cost).sum ≤ 2 →
      Reading n ((s.io (S.doHandshake s.ssl s.inputBio)).push points) ∧
        ((s.io (S.doHandshake s.ssl s.inputBio)).push points).cost ≤ 2 + s.cost := by
    intro points hpoints hsum
    rw [cost_push]
    exact ⟨hio.push hpoints, Nat.add_le_add_right hsum _⟩
  unfold Secure.startSsl
  simp only
  split
  · split
    · exact hpush _ (by simp [Point.ofRead]) (by simp [Point.cost])
    · exact ⟨hio, hsame⟩
  · split
    · split
      · exact hpush _ (by simp [Point.ofRead]) (by simp [Point.cost])
      · exact hpush _ (by simp [Point.ofRead]) (by simp [Point.cost])
    · split
      · exact hpush _ (by simp [Point.ofRead]) (by simp [Point.cost])
      · split
        · exact hpush _ (by simp [Point.ofRead]) (by simp [Point.cost])
        · exact ⟨hio, hsame⟩

/-- A read that fits the in buffer comes to its end. -/
theorem feed_again {S : Ssl σ} {n : Nat} {s : Secure σ} {bytes : List UInt8}
    (hroom : ∀ ssl bio, (S.read ssl bio n).data.length ≤ n) (h : Reading n s)
    (hstack : s.stack = []) (hne : bytes ≠ []) (hfit : bytes.length ≤ n) :
    ∃ s', feed S s (bytes, .again) = some s' ∧ Reading n s' ∧ s'.stack = [] := by
  have hwrite : 0 + bytes.length ≤ s.input.length := by rw [Nat.zero_add, h.input]; exact hfit
  obtain ⟨input, hinput⟩ : ∃ input, writeAt s.input 0 bytes = some input :=
    ⟨_, writeAt_eq_some hwrite⟩
  have hguard : ¬ (bytes = [] ∨ s.handle.closing = true) := by
    rw [h.closing]
    simp [hne]
  have hread : step S s (.networkRead bytes) = some
      (Secure.onPluginReadData S { s with input := input, received := s.received ++ bytes }
        bytes.length) := by
    rw [step, if_pos hstack, Secure.networkRead, if_neg hguard, hinput]
    rfl
  have hzero : s.cost = 0 := by rw [Secure.cost, hstack]; rfl
  have hfed : Reading n { s with input := input, received := s.received ++ bytes
                                 inputBio := s.inputBio ++ input.take bytes.length } :=
    ⟨h.points, (writeAt_length hinput).trans h.input, h.closing⟩
  have hstart : Reading n (Secure.onPluginReadData S
        { s with input := input, received := s.received ++ bytes } bytes.length) ∧
      (Secure.onPluginReadData S
        { s with input := input, received := s.received ++ bytes } bytes.length).cost ≤ 5 := by
    simp only [Secure.onPluginReadData]
    split
    · refine ⟨hfed.push (by simp [Point.ofRead]), ?_⟩
      rw [cost_push]
      show 1 + (4 + 0) + s.cost ≤ 5
      omega
    · obtain ⟨hreading, hcost⟩ := hfed.startSsl (S := S)
      refine ⟨hreading, hcost.trans ?_⟩
      show 2 + s.cost ≤ 5
      omega
  -- every call lowers the cost of the stack, so the fuel lasts until it is empty
  obtain ⟨s', hfinish, hs'⟩ := finish_isSome (S := S) (a := .again) (I := Reading n)
    (fun s p stack => Reading.step hroom) hstart.1 hstart.2
  obtain ⟨-, -, -, hnil⟩ := finish_run hfinish
  refine ⟨s', ?_, hs', hnil⟩
  rw [feed, hread]
  exact hfinish

/-- However the bytes are cut into reads that fit the in buffer, there is a run. -/
theorem run_feed_again {S : Ssl σ} {n : Nat} {s : Secure σ} {pieces : List (List UInt8)}
    (hroom : ∀ ssl bio, (S.read ssl bio n).data.length ≤ n) (h : Reading n s)
    (hstack : s.stack = []) (hpieces : ∀ piece ∈ pieces, piece ≠ [] ∧ piece.length ≤ n) :
    ∃ t, run (feed S) s (pieces.map fun piece => (piece, .again)) = some t := by
  induction pieces generalizing s with
  | nil => exact ⟨s, rfl⟩
  | cons piece pieces ih =>
    obtain ⟨hne, hfit⟩ := hpieces piece List.mem_cons_self
    obtain ⟨s', hfeed, hs', hnil⟩ := feed_again hroom h hstack hne hfit
    obtain ⟨t, hrun⟩ := ih hs' hnil fun p hp => hpieces p (List.mem_cons_of_mem piece hp)
    exact ⟨t, run_cons_eq_some.mpr ⟨s', hfeed, hrun⟩⟩

end Dv8.Tls
