import Dv8.Tls.Reads
import Dv8.Tls.Records

namespace Dv8.Tls

open Dv8.Lib Dv8.Uv

/-!
# The retry loop of `SecureSocket::Write`

`Write` calls `SSL_write` again as long as it answers `SSL_ERROR_WANT_READ`.  libssl gives that
answer when it has read all there is in the input BIO and needs more; more comes with the
next read of the socket, which is a turn of the event loop away.  Inside the loop nothing can
change: `cycleIn` finds the BIO empty, and `SSL_write` answers as before.

* `Ssl.WriteLaw` — what libssl promises about that answer;
* `write_returns_iff` — a call of `Write` comes back exactly when its first `SSL_write` does not
  ask for more input.
-/

variable {σ : Type}

/-! ### Coming back -/

/-- How control moves on: the C++ code goes on, whatever the kernel answers, or the JavaScript
    function on top runs to its end, whatever it does. -/
inductive Goes (S : Ssl σ) : Secure σ → Secure σ → Prop
  | go {s s' : Secure σ} {a : Answer} (h : step S s (.go a) = some s') : Goes S s s'
  | js {s t : Secure σ} {p : Point} {stack : List Point} {as : List Act} (hp : p.isJs = true)
      (hstack : s.stack = p :: stack) (hrun : run (step S) s as = some t)
      (hinside : Along (step S) (fun u _ => (p :: stack) <:+ u.stack) s as)
      (hend : t.stack = p :: stack) : Goes S s { t with stack := stack }

/-- Control comes back to where the stack is `base`. -/
def Returns (S : Ssl σ) (base : List Point) : Secure σ → Prop :=
  Inevitable (Goes S) fun s => s.stack = base

/-- Above a point of the C++ code there is nothing but that code. -/
theorem Goes.go_of_cpp {S : Ssl σ} {s t : Secure σ} {p : Point} {stack : List Point}
    (h : Goes S s t) (hstack : s.stack = p :: stack) (hp : p.isJs = false) :
    ∃ a, step S s (.go a) = some t := by
  cases h with
  | go h => exact ⟨_, h⟩
  | js hjs hs =>
    rw [hs] at hstack
    obtain ⟨rfl, -⟩ := List.cons.inj hstack
    rw [hp] at hjs
    contradiction

/-! ### What libssl answers -/

/-- `SSL_write` has failed for want of input. -/
def Ssl.WantsRead (S : Ssl σ) (r : Io σ) : Prop :=
  r.ret < 0 ∧ S.getError r.ssl r.ret = SSL_ERROR_WANT_READ

instance (S : Ssl σ) (r : Io σ) : Decidable (S.WantsRead r) :=
  inferInstanceAs (Decidable (_ ∧ _))

/-- `SSL_ERROR_WANT_READ` says that the BIO had no more to give, and a call with the same
    arguments fails so again until it has. -/
structure Ssl.WriteLaw (S : Ssl σ) : Prop where
  drained : ∀ ssl input data, S.WantsRead (S.write ssl input data) →
    (S.write ssl input data).input = []
  again : ∀ ssl input data data', data'.length = data.length →
    S.WantsRead (S.write ssl input data) →
    S.WantsRead (S.write (S.write ssl input data).ssl [] data')

/-- Without input, `SSL_write` of `len` bytes asks for some. -/
def Ssl.Starved (S : Ssl σ) (len : Nat) (ssl : σ) : Prop :=
  ∀ data, data.length = len → S.WantsRead (S.write ssl [] data)

/-- A `SSL_write` that asked for input leaves libssl without. -/
theorem Ssl.WriteLaw.starved {S : Ssl σ} (hlaw : S.WriteLaw) {ssl : σ} {input data : List UInt8}
    (h : S.WantsRead (S.write ssl input data)) :
    S.Starved data.length (S.write ssl input data).ssl :=
  fun data' hlen => hlaw.again ssl input data data' hlen h

/-! ### The loop -/

/-- Where the loop is while it goes round. -/
inductive Round (S : Ssl σ) (len off : Nat) : Secure σ → List Point → Prop
  | head {s : Secure σ} {n : Int} (hn : n < 0) (hwants : S.getError s.ssl n = SSL_ERROR_WANT_READ) :
      Round S len off s [.writeLoop len off n]
  | cycleIn {s : Secure σ} : Round S len off s [.cycleIn, .writeAgain len off]
  | again {s : Secure σ} : Round S len off s [.writeAgain len off]
  | cycleOut {s : Secure σ} {n : Int} (hn : n < 0)
      (hwants : S.getError s.ssl n = SSL_ERROR_WANT_READ) :
      Round S len off s [.cycleOut, .writeLoop len off n]

/-- The loop goes round for ever. -/
structure Hangs (S : Ssl σ) (base : List Point) (len off : Nat) (s : Secure σ) : Prop where
  empty : s.inputBio = []
  starved : S.Starved len s.ssl
  round : ∃ points, s.stack = points ++ base ∧ Round S len off s points

/-- `cycleOut` does not touch libssl. -/
theorem cycleOut_ssl {s s' : Secure σ} {a : Answer} (h : s.cycleOut a = some s') :
    s'.ssl = s.ssl ∧ s'.inputBio = s.inputBio ∧ s'.stack = s.stack := by
  unfold Secure.cycleOut at h
  split at h
  · cases h
    exact ⟨rfl, rfl, rfl⟩
  · obtain ⟨out, -, h⟩ := Option.bind_eq_some_iff.mp h
    obtain ⟨r, -, rfl⟩ := Option.map_eq_some_iff.mp h
    exact ⟨rfl, rfl, rfl⟩

/-- **A step of the loop** leads on in the loop. -/
theorem Hangs.step {S : Ssl σ} (hlaw : S.WriteLaw) {base : List Point} {len off : Nat}
    {s t : Secure σ} {a : Answer} (h : Hangs S base len off s)
    (hstep : Tls.step S s (.go a) = some t) : Hangs S base len off t := by
  obtain ⟨hempty, hstarved, points, hstack, hround⟩ := h
  cases hround with
  | head hn hwants =>
    simp only [Tls.step, Secure.go, hstack, List.cons_append, List.nil_append] at hstep
    rw [Secure.writeLoop, if_pos hn, if_pos hwants] at hstep
    cases hstep
    exact ⟨hempty, hstarved, _, rfl, .cycleIn⟩
  | cycleIn =>
    -- nothing to read
    simp only [Tls.step, Secure.go, hstack, List.cons_append, List.nil_append] at hstep
    rw [Secure.cycleIn, if_pos hempty] at hstep
    cases hstep
    exact ⟨hempty, hstarved, _, rfl, .again⟩
  | again =>
    simp only [Tls.step, Secure.go, hstack, List.cons_append, List.nil_append] at hstep
    obtain ⟨bytes, hread, rfl⟩ := Option.map_eq_some_iff.mp hstep
    obtain ⟨hfit, rfl⟩ := readAt_eq_some_iff.mp hread
    have hlen := length_slice hfit
    -- the bytes may have changed, but there are as many
    have hwants := hstarved _ hlen
    rw [← hempty] at hwants
    have hnext := hlaw.starved hwants
    rw [hlen] at hnext
    exact ⟨hlaw.drained _ _ _ hwants, hnext, _, rfl, .cycleOut hwants.1 hwants.2⟩
  | cycleOut hn hwants =>
    simp only [Tls.step, Secure.go, hstack, List.cons_append, List.nil_append] at hstep
    obtain ⟨hssl, hbio, hst⟩ := cycleOut_ssl hstep
    refine ⟨hbio.trans hempty, by rw [hssl]; exact hstarved, _, hst, .head hn ?_⟩
    rw [hssl]
    exact hwants

/-- The loop does not come back. -/
theorem Hangs.not_returns {S : Ssl σ} (hlaw : S.WriteLaw) {base : List Point} {len off : Nat}
    {s : Secure σ} (h : Hangs S base len off s) : ¬ Returns S base s := by
  refine not_inevitable (I := Hangs S base len off) ?_ ?_ h
  · rintro s ⟨-, -, points, hstack, hround⟩ hbase
    rw [hstack] at hbase
    have hnil := List.append_left_eq_self.mp hbase
    cases hround <;> cases hnil
  · intro s t hs hnext
    obtain ⟨points, hstack, hround⟩ := hs.round
    have hgo : ∃ a, Tls.step S s (.go a) = some t := by
      cases hround <;> exact hnext.go_of_cpp hstack rfl
    obtain ⟨a, ha⟩ := hgo
    exact ⟨t, hnext, hs.step hlaw ha⟩

/-! ### A call that comes back -/

/-- The last `cycleOut` of a call. -/
theorem returns_cycleOut (S : Ssl σ) {base : List Point} {s : Secure σ}
    (hstack : s.stack = .cycleOut :: base) : Returns S base s := by
  have hstep : ∀ a, step S s (.go a) = ({ s with stack := base } : Secure σ).cycleOut a := by
    intro a
    simp only [step, Secure.go, hstack]
  refine .later ?_ fun t ht => .now ?_
  · obtain ⟨outputBio, out, stderr, hout⟩ := cycleOut_again { s with stack := base }
    exact ⟨_, .go ((hstep .again).trans hout)⟩
  · obtain ⟨a, ha⟩ := ht.go_of_cpp hstack rfl
    rw [hstep] at ha
    exact (cycleOut_ssl ha).2.2

/-- The head of the loop, when `SSL_write` does not ask for input. -/
theorem returns_writeLoop (S : Ssl σ) {base : List Point} {len off : Nat} {n : Int}
    {s : Secure σ} (hstack : s.stack = .writeLoop len off n :: base)
    (h : ¬ (n < 0 ∧ S.getError s.ssl n = SSL_ERROR_WANT_READ)) : Returns S base s := by
  have hstep : ∀ a, step S s (.go a) =
      some (({ s with stack := base } : Secure σ).writeLoop S len off n) := by
    intro a
    simp only [step, Secure.go, hstack]
  refine .later ⟨_, .go (hstep .again)⟩ fun t ht => ?_
  obtain ⟨a, ha⟩ := ht.go_of_cpp hstack rfl
  rw [hstep] at ha
  cases ha
  by_cases hn : n < 0
  · -- any other error ends the call
    have hwants : S.getError s.ssl n ≠ SSL_ERROR_WANT_READ := fun he => h ⟨hn, he⟩
    rw [Secure.writeLoop, if_pos hn, if_neg hwants]
    exact .now rfl
  · rw [Secure.writeLoop, if_neg hn]
    exact returns_cycleOut S rfl

/-- **`SecureSocket::Write` comes back** exactly when its first `SSL_write` does not fail with
    `SSL_ERROR_WANT_READ`. -/
theorem write_returns_iff {S : Ssl σ} (hlaw : S.WriteLaw) {s s' : Secure σ} {len off : Nat}
    (h : step S s (.write len off) = some s') :
    Returns S s.stack s' ↔ ¬ S.WantsRead (S.write s.ssl s.inputBio (slice s.out off len)) := by
  obtain ⟨-, h⟩ := Option.ite_none_right_eq_some.mp h
  obtain ⟨bytes, hread, rfl⟩ := Option.map_eq_some_iff.mp h
  obtain ⟨hfit, rfl⟩ := readAt_eq_some_iff.mp hread
  constructor
  · intro hreturns hwants
    -- the loop is entered with libssl starved
    have hstarved := hlaw.starved hwants
    rw [length_slice hfit] at hstarved
    refine absurd hreturns (Hangs.not_returns hlaw (show Hangs S s.stack len off _ from ?_))
    exact ⟨hlaw.drained _ _ _ hwants, hstarved, _, rfl, .head hwants.1 hwants.2⟩
  · exact fun hwants => returns_writeLoop S rfl hwants

/-! ### Over the record layer -/

/-- The record layer keeps the law when it takes what it cannot process off the BIO: bytes of
    an incomplete handshake record. -/
theorem Peer.recordSsl_writeLaw {P : Peer} (hahead : ∀ bytes, P.ahead bytes = bytes.length) :
    P.recordSsl.WriteLaw where
  drained ssl input data h := by
    simp only [Peer.recordSsl, Ssl.WantsRead] at h ⊢
    generalize ssl.handshake (ssl.buffered ++ input) = t at h ⊢
    split at h
    · rename_i hopen
      rw [if_pos hopen, Peer.hold, hahead]
      exact List.drop_length
    · exact absurd h.1 (by simp [Peer.hold])
  again ssl input data data' _ h := by
    obtain ⟨done, -, -, hstop⟩ := ssl.handshake_spec (ssl.buffered ++ input)
    simp only [Peer.recordSsl, Ssl.WantsRead] at h ⊢
    generalize ssl.handshake (ssl.buffered ++ input) = t at h hstop ⊢
    split at h
    · rename_i hopen
      have hheld : (P.hold t.1 t.2 (P.reply ssl input) [] (-1)).ssl.buffered = t.2 := by
        rw [Peer.hold, hahead]
        exact List.take_length
      -- no further record is complete
      have hsame : ((P.hold t.1 t.2 (P.reply ssl input) [] (-1)).ssl.handshake t.2).1.handshakes
          = t.1.handshakes := by
        show (t.1.handshakes.drop (complete Wire.length t.1.handshakes t.2.length).length) = _
        rw [hstop]
        rfl
      rw [if_pos hopen, hheld, List.append_nil, hsame, if_pos hopen]
      exact ⟨show (-1 : Int) < 0 by decide, rfl⟩
    · exact absurd h.1 (by simp [Peer.hold])

/-- The record below is not empty. -/
theorem short_ne_nil : ([22] : List UInt8) ≠ [] := List.cons_ne_nil _ _

/-- A peer whose handshake is one record. -/
def shortPeer : Peer where
  handshakes := [⟨[22], short_ne_nil⟩]
  apps := []
  reply _ _ := []
  encrypt plain := plain
  ahead bytes := bytes.length

/-- JavaScript runs on a connection to it that has been set up, with `bio` in the input BIO. -/
def shortSecure (bio : List UInt8) : Secure Layer :=
  { Secure.setup shortPeer.start [0, 0] [7, 8] true with inputBio := bio, stack := [.js] }

/-- With the handshake record there, two bytes are written and the call comes back. -/
theorem write_returns_iff_short :
    ∃ s', step shortPeer.recordSsl (shortSecure [22]) (.write 2 0) = some s' ∧
      Returns shortPeer.recordSsl [.js] s' := by
  have hstep : (step shortPeer.recordSsl (shortSecure [22]) (.write 2 0)).isSome := by decide
  obtain ⟨s', hs'⟩ := Option.isSome_iff_exists.mp hstep
  refine ⟨s', hs', (write_returns_iff (Peer.recordSsl_writeLaw fun _ => rfl) hs').mpr ?_⟩
  decide

/-- **Before the peer has answered, a call hangs**: `Write` right behind `Setup`. -/
theorem not_write_returns :
    ¬ ∀ (S : Ssl Layer) (s s' : Secure Layer) (len off : Nat), S.WriteLaw →
      step S s (.write len off) = some s' → Returns S s.stack s' := by
  intro h
  have hlaw : shortPeer.recordSsl.WriteLaw := Peer.recordSsl_writeLaw fun _ => rfl
  have hwants : shortPeer.recordSsl.WantsRead
      (shortPeer.recordSsl.write (shortSecure []).ssl [] [7, 8]) := by decide
  obtain ⟨s', hstep, hhangs⟩ : ∃ s', step shortPeer.recordSsl (shortSecure []) (.write 2 0) =
      some s' ∧ Hangs shortPeer.recordSsl [.js] 2 0 s' :=
    ⟨_, rfl, hlaw.drained _ _ _ hwants, hlaw.starved hwants, _, rfl, .head hwants.1 hwants.2⟩
  exact hhangs.not_returns hlaw (h _ _ _ 2 0 hlaw hstep)

end Dv8.Tls
