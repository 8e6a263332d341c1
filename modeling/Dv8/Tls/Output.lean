import Mathlib.Data.List.TakeDrop
import Dv8.Tls.Records

namespace Dv8.Tls

open Dv8.Lib Dv8.Uv

/-!
# The ciphertext a `SecureSocket` sends

libssl appends to the output BIO; only `cycleOut` takes from it, and what it takes it offers to
`uv_try_write` once.  When the transport does not take the whole piece, `cycleOut` prints so
and the rest is gone.

`intact_iff_takesAll` makes this exact for whole runs: the bytes the transport accepted and
behind them those in the output BIO are what libssl wrote if and only if every piece was taken
as a whole (`TakesAll`).  Once a byte is missing, no later step brings it back: `Lossy` is kept
by every step.
-/

variable {σ : Type}

/-- Nothing is missing, doubled or out of order. -/
def Intact (s : Secure σ) : Prop := s.handle.sent ++ s.outputBio = s.sslOutput

/-- The piece `cycleOut` takes from the output BIO. -/
def Secure.piece (s : Secure σ) : List UInt8 := s.outputBio.take s.out.length

/-- The C++ code goes on with a `cycleOut` that has something to write. -/
def Flushes (s : Secure σ) : Prop := s.stack.head? = some .cycleOut ∧ s.piece ≠ []

instance (s : Secure σ) : Decidable (Flushes s) := by
  unfold Flushes
  infer_instance

/-- The transport takes the whole piece, if there is one. -/
def TakesAll (s : Secure σ) : Act → Prop
  | .go a => Flushes s → s.handle.closing = false ∧ a = .wrote s.piece.length
  | _ => True

instance (s : Secure σ) (a : Act) : Decidable (TakesAll s a) := by
  cases a <;> unfold TakesAll <;> infer_instance

/-- A fatal error of the transport: it is closed, or the system call fails. -/
def Fatal (s : Secure σ) : Act → Prop
  | .go a => Flushes s ∧ (s.handle.closing = true ∨ a.isError = true)
  | _ => False

instance (s : Secure σ) (a : Act) : Decidable (Fatal s a) := by
  cases a <;> unfold Fatal <;> infer_instance

/-! ### What a step does to the output side -/

/-- No request is queued, and an open stream can be written to. -/
structure Idle (h : Stream) : Prop where
  queue : h.writeQueue = []
  size : h.writeQueueSize = 0
  writable : h.closing = false → h.writable = true

/-- libssl has written `x`, and nothing has been sent. -/
structure Emits (s s' : Secure σ) (x : List UInt8) : Prop where
  outputBio : s'.outputBio = s.outputBio ++ x
  sslOutput : s'.sslOutput = s.sslOutput ++ x
  sent : s'.handle.sent = s.handle.sent
  idle : Idle s.handle → Idle s'.handle

theorem Emits.refl (s : Secure σ) : Emits s s [] :=
  ⟨(List.append_nil _).symm, (List.append_nil _).symm, rfl, id⟩

/-- libssl has written. -/
theorem emits_io (s : Secure σ) (r : Io σ) : Emits s (s.io r) r.output :=
  ⟨rfl, rfl, rfl, id⟩

/-- What else changes does not matter. -/
theorem Emits.congr {s s' t : Secure σ} {x : List UInt8} (h : Emits s s' x)
    (hbio : t.outputBio = s'.outputBio) (hssl : t.sslOutput = s'.sslOutput)
    (hhandle : t.handle = s'.handle) : Emits s t x :=
  ⟨hbio.trans h.outputBio, hssl.trans h.sslOutput, (congrArg Stream.sent hhandle).trans h.sent,
    fun hidle => hhandle ▸ h.idle hidle⟩

/-- JavaScript closes the transport. -/
theorem emits_close (s : Secure σ) : Emits s { s with handle := s.handle.close } [] where
  outputBio := (List.append_nil _).symm
  sslOutput := (List.append_nil _).symm
  sent := rfl
  idle hidle := ⟨hidle.queue, hidle.size, fun hopen => absurd hopen (by simp [Stream.close])⟩

theorem startSsl_emits (S : Ssl σ) (s : Secure σ) :
    Emits s (s.startSsl S) (S.doHandshake s.ssl s.inputBio).output := by
  have hio := emits_io s (S.doHandshake s.ssl s.inputBio)
  unfold Secure.startSsl
  simp only
  split
  · split
    · exact hio.congr rfl rfl rfl
    · exact hio
  · split
    · split
      · exact hio.congr rfl rfl rfl
      · exact hio.congr rfl rfl rfl
    · split
      · exact hio.congr rfl rfl rfl
      · split
        · exact hio.congr rfl rfl rfl
        · exact hio

theorem onPluginReadData_emits (S : Ssl σ) (s : Secure σ) (nread : Nat) :
    ∃ x, Emits s (s.onPluginReadData S nread) x := by
  unfold Secure.onPluginReadData
  simp only
  split
  · exact ⟨[], (Emits.refl s).congr rfl rfl rfl⟩
  · have h := startSsl_emits S { s with inputBio := s.inputBio ++ s.input.take nread }
    exact ⟨_, h.outputBio, h.sslOutput, h.sent, h.idle⟩

theorem cycleIn_emits {S : Ssl σ} {s s' : Secure σ} (h : s.cycleIn S = some s') :
    ∃ x, Emits s s' x := by
  unfold Secure.cycleIn at h
  split at h
  · cases h
    exact ⟨[], Emits.refl s⟩
  · simp only at h
    split at h
    · cases h
      exact ⟨_, emits_io s _⟩
    · rw [Option.map_eq_some_iff] at h
      obtain ⟨input, -, rfl⟩ := h
      refine ⟨_, (emits_io s (S.read s.ssl s.inputBio s.input.length)).congr ?_ ?_ ?_⟩ <;>
      split <;>
      rfl

theorem cycleInNext_emits (s : Secure σ) (n : Int) : Emits s (s.cycleInNext n) [] := by
  unfold Secure.cycleInNext
  split
  · exact (Emits.refl s).congr rfl rfl rfl
  · exact Emits.refl s

theorem writeLoop_emits (S : Ssl σ) (s : Secure σ) (len off : Nat) (n : Int) :
    Emits s (s.writeLoop S len off n) [] := by
  unfold Secure.writeLoop
  split
  · split
    · exact (Emits.refl s).congr rfl rfl rfl
    · exact (Emits.refl s).congr rfl rfl rfl
  · exact (Emits.refl s).congr rfl rfl rfl

/-- A step that is not a `cycleOut` takes nothing from the output BIO. -/
theorem step_emits {S : Ssl σ} {s s' : Secure σ} {a : Act} (h : step S s a = some s')
    (hcycle : ∀ ans stack, a = .go ans → s.stack ≠ .cycleOut :: stack) :
    ∃ x, Emits s s' x := by
  cases a with
  | enter | ret | fill =>
    obtain ⟨-, h⟩ := Option.ite_none_right_eq_some.mp h
    cases h
    exact ⟨[], (Emits.refl s).congr rfl rfl rfl⟩
  | start =>
    obtain ⟨-, h⟩ := Option.ite_none_right_eq_some.mp h
    cases h
    exact ⟨_, startSsl_emits S s⟩
  | write len off =>
    obtain ⟨-, h⟩ := Option.ite_none_right_eq_some.mp h
    rw [Secure.write, Option.map_eq_some_iff] at h
    obtain ⟨bytes, -, rfl⟩ := h
    exact ⟨_, (emits_io s (S.write s.ssl s.inputBio bytes)).congr rfl rfl rfl⟩
  | on cb =>
    obtain ⟨-, h⟩ := Option.ite_none_right_eq_some.mp h
    cases h
    refine ⟨[], ?_⟩
    -- setting a callback leaves both BIOs alone
    cases cb <;> exact (Emits.refl s).congr rfl rfl rfl
  | close =>
    obtain ⟨-, h⟩ := Option.ite_none_right_eq_some.mp h
    cases h
    exact ⟨[], emits_close s⟩
  | networkRead bytes =>
    obtain ⟨-, h⟩ := Option.ite_none_right_eq_some.mp h
    obtain ⟨-, h⟩ := Option.ite_none_left_eq_some.mp h
    obtain ⟨input, -, rfl⟩ := Option.map_eq_some_iff.mp h
    obtain ⟨x, hx⟩ := onPluginReadData_emits S
      { s with input := input, received := s.received ++ bytes } bytes.length
    exact ⟨x, hx.outputBio, hx.sslOutput, hx.sent, hx.idle⟩
  | go ans =>
    simp only [step, Secure.go] at h
    split at h
    · rename_i stack hstack
      -- `cycleOut` is the one call that moves bytes to the socket
      exact absurd hstack (hcycle ans stack rfl)
    · rename_i stack _
      obtain ⟨x, hx⟩ := cycleIn_emits h
      exact ⟨x, hx.outputBio, hx.sslOutput, hx.sent, hx.idle⟩
    · rename_i n stack _
      cases h
      have hx := cycleInNext_emits { s with stack := stack } n
      exact ⟨[], hx.outputBio, hx.sslOutput, hx.sent, hx.idle⟩
    · rename_i len off n stack _
      cases h
      have hx := writeLoop_emits S { s with stack := stack } len off n
      exact ⟨[], hx.outputBio, hx.sslOutput, hx.sent, hx.idle⟩
    · rename_i len off stack _
      obtain ⟨bytes, -, rfl⟩ := Option.map_eq_some_iff.mp h
      exact ⟨_, (emits_io s (S.write s.ssl s.inputBio bytes)).congr rfl rfl rfl⟩
    · contradiction

/-- `uv_try_write` on an idle stream takes the first bytes, all of them only if the kernel
    says so. -/
theorem tryWrite_idle {h h' : Stream} {bytes : List UInt8} {a : Answer} {r : Int}
    (hidle : Idle h) (hw : h.tryWrite bytes a = some (h', r)) :
    Idle h' ∧ ∃ n, h'.sent = h.sent ++ bytes.take n ∧
      (bytes.take n = bytes ↔ (bytes ≠ [] → h.closing = false ∧ a = .wrote bytes.length)) := by
  -- nothing is taken, so there must be nothing to take
  have hnone : ¬ (h.closing = false ∧ a = .wrote bytes.length) →
      Idle h ∧ ∃ n, h.sent = h.sent ++ bytes.take n ∧
        (bytes.take n = bytes ↔ (bytes ≠ [] → h.closing = false ∧ a = .wrote bytes.length)) := by
    intro hnot
    refine ⟨hidle, 0, ?_, ?_, ?_⟩
    · rw [List.take_zero, List.append_nil]
    · intro hnil hne
      exact absurd (hnil.symm.trans List.take_zero) hne
    · intro hall
      rw [List.take_zero]
      by_contra hne
      exact hnot (hall fun hnil => hne hnil.symm)
  unfold Stream.tryWrite at hw
  rw [if_neg (not_not.mpr hidle.size)] at hw
  split at hw
  · rename_i hclosing
    cases hw
    exact hnone fun hall => by simp [hclosing] at hall
  · rename_i hopen
    rw [Bool.not_eq_true] at hopen
    rw [if_neg (by rw [hidle.writable hopen]; decide), hidle.queue] at hw
    simp only at hw
    split at hw
    · rename_i hvalid
      cases a with
      | wrote n =>
        cases hw
        refine ⟨⟨rfl, hidle.size, hidle.writable⟩, n, rfl, ?_⟩
        have hn : n ≤ bytes.length := hvalid.1
        rw [List.take_eq_self_iff]
        constructor
        · intro hle _
          exact ⟨hopen, congrArg Answer.wrote (Nat.le_antisymm hn hle)⟩
        · intro hall
          by_cases hnil : bytes = []
          · rw [hnil]
            exact Nat.zero_le n
          · exact (Answer.wrote.inj (hall hnil).2).ge
      | again =>
        cases hw
        exact hnone fun hall => by simp at hall
      | failed errno =>
        cases hw
        exact hnone fun hall => by simp at hall
    · contradiction

/-- The transport takes `n` bytes of the piece that leaves the output BIO. -/
structure Moves (s s' : Secure σ) (a : Answer) (n : Nat) : Prop where
  idle : Idle s'.handle
  sslOutput : s'.sslOutput = s.sslOutput
  sent : s'.handle.sent = s.handle.sent ++ s.piece.take n
  outputBio : s.piece ++ s'.outputBio = s.outputBio
  all : s.piece.take n = s.piece ↔
    (s.piece ≠ [] → s.handle.closing = false ∧ a = .wrote s.piece.length)

theorem cycleOut_moves {s s' : Secure σ} {a : Answer} (hidle : Idle s.handle)
    (h : s.cycleOut a = some s') : ∃ n, Moves s s' a n := by
  unfold Secure.cycleOut at h
  split at h
  · rename_i hempty
    cases h
    have hpiece : s.piece = [] := by rw [Secure.piece, hempty, List.take_nil]
    refine ⟨0, hidle, rfl, ?_, ?_, ?_⟩
    · rw [List.take_zero, List.append_nil]
    · rw [hpiece, List.nil_append]
    · rw [hpiece]
      simp
  · rw [Option.bind_eq_some_iff] at h
    obtain ⟨out, -, h⟩ := h
    rw [Option.map_eq_some_iff] at h
    obtain ⟨⟨handle, r⟩, hwrite, rfl⟩ := h
    obtain ⟨hidle', n, hsent, hall⟩ := tryWrite_idle hidle hwrite
    exact ⟨n, hidle', rfl, hsent, List.take_append_drop _ _, hall⟩

theorem step_moves {S : Ssl σ} {s s' : Secure σ} {a : Answer} {stack : List Point}
    (hidle : Idle s.handle) (hstack : s.stack = .cycleOut :: stack)
    (h : step S s (.go a) = some s') : ∃ n, Moves s s' a n := by
  simp only [step, Secure.go, hstack] at h
  obtain ⟨n, hm⟩ := cycleOut_moves (s := { s with stack := stack }) hidle h
  exact ⟨n, hm.idle, hm.sslOutput, hm.sent, hm.outputBio, hm.all⟩

/-! ### Whole runs -/

/-- Some byte is missing. -/
def Lossy (s : Secure σ) : Prop :=
  Idle s.handle ∧ s.handle.sent.length + s.outputBio.length < s.sslOutput.length

/-- Everything is in its place. -/
structure Sound (s : Secure σ) : Prop where
  idle : Idle s.handle
  intact : Intact s

theorem Lossy.not_intact {s : Secure σ} (h : Lossy s) : ¬ Intact s := by
  intro hintact
  have hlen := congrArg List.length hintact
  rw [List.length_append] at hlen
  have hlt := h.2
  omega

/-- A step keeps everything in its place when it takes all, and loses bytes otherwise. -/
theorem Sound.step {S : Ssl σ} {s s' : Secure σ} {a : Act} (hs : Sound s)
    (h : step S s a = some s') : (TakesAll s a → Sound s') ∧ (¬ TakesAll s a → Lossy s') := by
  by_cases hcycle : ∃ ans stack, a = .go ans ∧ s.stack = .cycleOut :: stack
  · obtain ⟨ans, stack, rfl, hstack⟩ := hcycle
    obtain ⟨n, hm⟩ := step_moves hs.idle hstack h
    -- the socket takes the first `n` bytes of the piece and `cycleOut` drops the others
    have htakes : TakesAll s (.go ans) ↔ s.piece.take n = s.piece := by
      refine Iff.trans ?_ hm.all.symm
      have hhead : s.stack.head? = some .cycleOut := by rw [hstack]; rfl
      exact ⟨fun ht hne => ht ⟨hhead, hne⟩, fun ht hflush => ht hflush.2⟩
    have hintact : s.handle.sent ++ s.outputBio = s.sslOutput := hs.intact
    rw [htakes]
    constructor
    · intro htake
      refine ⟨hm.idle, ?_⟩
      rw [Intact, hm.sent, htake, hm.sslOutput, List.append_assoc, hm.outputBio, hintact]
    · intro hpart
      refine ⟨hm.idle, ?_⟩
      have hlen : (s.piece.take n).length < s.piece.length := by
        rw [List.take_eq_self_iff] at hpart
        rw [List.length_take]
        omega
      rw [hm.sent, hm.sslOutput, List.length_append, ← hintact, List.length_append,
        ← hm.outputBio, List.length_append]
      omega
  · obtain ⟨x, hx⟩ := step_emits h fun ans stack ha hstack => hcycle ⟨ans, stack, ha, hstack⟩
    have htakes : TakesAll s a := by
      cases a with
      | go ans =>
        rintro ⟨hhead, -⟩
        obtain ⟨stack, hstack⟩ := List.head?_eq_some_iff.mp hhead
        exact absurd ⟨ans, stack, rfl, hstack⟩ hcycle
      | _ => trivial
    refine ⟨fun _ => ⟨hx.idle hs.idle, ?_⟩, fun hnot => absurd htakes hnot⟩
    have hintact : s.handle.sent ++ s.outputBio = s.sslOutput := hs.intact
    rw [Intact, hx.sent, hx.outputBio, hx.sslOutput, ← List.append_assoc, hintact]

/-- What is missing stays missing. -/
theorem Lossy.step {S : Ssl σ} {s s' : Secure σ} {a : Act} (hs : Lossy s)
    (h : step S s a = some s') : Lossy s' := by
  have hlt := hs.2
  by_cases hcycle : ∃ ans stack, a = .go ans ∧ s.stack = .cycleOut :: stack
  · obtain ⟨ans, stack, rfl, hstack⟩ := hcycle
    obtain ⟨n, hm⟩ := step_moves hs.1 hstack h
    refine ⟨hm.idle, ?_⟩
    have htake := List.length_take_le' n s.piece
    rw [← hm.outputBio, List.length_append] at hlt
    rw [hm.sent, hm.sslOutput, List.length_append]
    omega
  · obtain ⟨x, hx⟩ := step_emits h fun ans stack ha hstack => hcycle ⟨ans, stack, ha, hstack⟩
    refine ⟨hx.idle hs.1, ?_⟩
    rw [hx.sent, hx.outputBio, hx.sslOutput, List.length_append, List.length_append]
    omega

/-- TLS has been set up on a connection that nothing has been written to. -/
structure Untouched (s : Secure σ) : Prop where
  idle : Idle s.handle
  sent : s.handle.sent = []
  outputBio : s.outputBio = []
  sslOutput : s.sslOutput = []

theorem Untouched.sound {s : Secure σ} (h : Untouched s) : Sound s := by
  refine ⟨h.idle, ?_⟩
  rw [Intact, h.sent, h.outputBio, h.sslOutput]
  rfl

/-- The ciphertext is intact at the end of a run exactly when every piece was taken as a
    whole. -/
theorem intact_iff_takesAll {S : Ssl σ} {s t : Secure σ} {as : List Act} (hs : Untouched s)
    (h : run (step S) s as = some t) : Intact t ↔ Along (step S) TakesAll s as := by
  constructor
  · intro hintact
    refine Along.of_good (G := fun s => ¬ Lossy s) ?_ ?_ ?_ hs.sound h
      fun hl => hl.not_intact hintact
    · exact fun s a s' hsound htakes hstep => (hsound.step hstep).1 htakes
    · exact fun s a s' hsound hmiss hstep => not_not.mpr ((hsound.step hstep).2 hmiss)
    · exact fun s a s' hlossy hstep => not_not.mpr ((not_not.mp hlossy).step hstep)
  · intro htakes
    exact (run_invariant_along (fun s a s' hsound ht hstep => (hsound.step hstep).1 ht)
      hs.sound htakes h).intact

/-- The record below is not empty. -/
theorem hello_ne_nil : ([22] : List UInt8) ≠ [] := List.cons_ne_nil _ _

/-- A peer that is sent three bytes for a start. -/
def helloPeer : Peer where
  handshakes := [⟨[22], hello_ne_nil⟩]
  apps := []
  reply _ _ := [1, 2, 3]
  encrypt plain := plain
  ahead _ := 0

/-- A connection to it. -/
def hello : Secure Layer := Secure.setup helloPeer.start [0, 0, 0, 0] [0, 0, 0, 0] true

theorem hello_untouched : Untouched hello := ⟨⟨rfl, rfl, fun _ => rfl⟩, rfl, rfl, rfl⟩

/-- The transport takes all three bytes. -/
theorem intact_iff_takesAll_hello :
    ∃ t, run (step helloPeer.recordSsl) hello [.enter, .start, .go (.wrote 3), .ret] = some t ∧
      Intact t := by
  have hrun : run (step helloPeer.recordSsl) hello [.enter, .start, .go (.wrote 3), .ret] =
      some { hello with out := [1, 2, 3, 0]
                        handle := { hello.handle with sent := [1, 2, 3] }
                        sslOutput := [1, 2, 3] } := by decide +kernel
  exact ⟨_, hrun, (intact_iff_takesAll hello_untouched hrun).mpr (by decide +kernel)⟩

/-- The transport takes two of the three bytes, and the third is gone. -/
theorem not_intact_hello :
    ¬ ∀ (S : Ssl Layer) (s t : Secure Layer) (as : List Act), Untouched s →
      run (step S) s as = some t → Along (step S) (fun s a => ¬ Fatal s a) s as → Intact t := by
  intro h
  have hrun : run (step helloPeer.recordSsl) hello [.enter, .start, .go (.wrote 2), .ret] =
      some { hello with out := [1, 2, 3, 0]
                        handle := { hello.handle with sent := [1, 2] }
                        stderr := ["try_write_partial\n"]
                        sslOutput := [1, 2, 3] } := by decide +kernel
  have hintact := h helloPeer.recordSsl hello _ _ hello_untouched hrun (by decide +kernel)
  have hgone : [1, 2] ++ [] = ([1, 2, 3] : List UInt8) := hintact
  exact absurd hgone (by decide)

end Dv8.Tls
