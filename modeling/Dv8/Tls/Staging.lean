import Dv8.Tls.Output

namespace Dv8.Tls

open Dv8.Lib Dv8.Uv

/-!
# What `SecureSocket::Write` encrypts

JavaScript leaves its plaintext in the out buffer, and `Write` hands `out[off..off+len)` to
`SSL_write`.  But `cycleOut` takes the same buffer, from its first byte on, to carry ciphertext
from the output BIO to the transport: on the way out of `Write`, between the retries in it, behind
a handshake and at the start of every read.  A script can set its socket up with one buffer for
both ways; then what is read lands on the plaintext too (`shared`).

* `step_written` — what `SSL_write` is given by a call of `Write`, or by a retry in it;
* `stepShared_out` — without JavaScript, a step lays at most one text over the start of the buffer;
* `encryptsWhatWas_iff` — every `SSL_write` is given what the buffer held at first, and nothing
  alters what is still to be encrypted, exactly where all these texts spare the ranges behind them.
-/

variable {σ : Type}

/-! ### One buffer or two -/

/-- One step of a socket whose `in` and `out` are one buffer, if `shared`.  No step writes into
    both. -/
def stepShared (S : Ssl σ) (shared : Bool) (s : Secure σ) (a : Act) : Option (Secure σ) :=
  if shared then
    (step S { s with input := s.out } a).map fun s' =>
      if s'.out = s.out then { s' with out := s'.input } else s'
  else step S s a

/-- JavaScript does not change the out buffer. -/
def Act.LeavesOut : Act → Prop
  | .fill _ => False
  | _ => True

instance : DecidablePred Act.LeavesOut
  | .fill _ => inferInstanceAs (Decidable False)
  | .enter | .ret | .start | .write .. | .on _ | .close | .networkRead _ | .go _ =>
    inferInstanceAs (Decidable True)

/-- The piece of ciphertext a step stages at the start of the out buffer. -/
def staged (s : Secure σ) : Act → List UInt8
  | .go _ => if s.stack.head? = some .cycleOut then s.piece else []
  | _ => []

/-- What `cycleIn` gets from libssl. -/
def Secure.plaintext (S : Ssl σ) (s : Secure σ) : List UInt8 :=
  if s.inputBio = [] then []
  else
    let r := S.read s.ssl s.inputBio s.input.length
    if r.ret ≤ 0 then [] else r.data

/-- What a step reads into the in buffer, from the network or from libssl. -/
def readIn (S : Ssl σ) (s : Secure σ) : Act → List UInt8
  | .networkRead bytes => bytes
  | .go _ => if s.stack.head? = some .cycleIn then s.plaintext S else []
  | _ => []

/-- What a step lays over the start of the out buffer. -/
def laid (S : Ssl σ) (shared : Bool) (s : Secure σ) (a : Act) : List UInt8 :=
  if shared then staged s a ++ readIn S { s with input := s.out } a else staged s a

/-! ### What ought to hold -/

/-- The range of the out buffer for which a step calls `SSL_write`: that of a call of `Write`, or of
    a retry in it. -/
def sslRange (s : Secure σ) : Act → Option (Nat × Nat)
  | .write len off => if s.inJs then some (off, len) else none
  | .go _ =>
    match s.stack with
    | .writeAgain len off :: _ => some (off, len)
    | _ => none
  | _ => none

/-- The ranges for which it is called in a run. -/
def ranges (S : Ssl σ) (shared : Bool) : Secure σ → List Act → List (Nat × Nat)
  | _, [] => []
  | s, a :: as =>
    (sslRange s a).toList ++ (stepShared S shared s a).elim [] fun s' => ranges S shared s' as

/-- The ranges for which it is called behind a step. -/
def later (S : Ssl σ) (shared : Bool) (s : Secure σ) (a : Act) (rest : List Act) :
    List (Nat × Nat) :=
  (stepShared S shared s a).elim [] fun s' => ranges S shared s' rest

/-- From `s` to `s'`, `SSL_write` has been called with these bytes. -/
structure Written (S : Ssl σ) (s s' : Secure σ) (bytes : List UInt8) : Prop where
  ssl : s'.ssl = (S.write s.ssl s.inputBio bytes).ssl
  inputBio : s'.inputBio = (S.write s.ssl s.inputBio bytes).input
  outputBio : s'.outputBio = s.outputBio ++ (S.write s.ssl s.inputBio bytes).output

/-- A step that calls `SSL_write` gives it what its range holds in `out`. -/
def Encrypts (S : Ssl σ) (shared : Bool) (out : List UInt8) (s : Secure σ) (a : Act) : Prop :=
  ∀ s' off len, stepShared S shared s a = some s' → sslRange s a = some (off, len) →
    Written S s s' (slice out off len)

/-- A step leaves the ranges alone for which `SSL_write` is called behind it. -/
def Keeps (S : Ssl σ) (shared : Bool) (s : Secure σ) (a : Act) (rest : List Act) : Prop :=
  ∀ s', stepShared S shared s a = some s' →
    ∀ r ∈ ranges S shared s' rest, slice s'.out r.1 r.2 = slice s.out r.1 r.2

/-- In a run from `s`, every `SSL_write` is given what its range of the out buffer held in `s`, and
    nothing alters bytes that are still to be encrypted. -/
structure EncryptsWhatWas (S : Ssl σ) (shared : Bool) (s : Secure σ) (as : List Act) : Prop where
  encrypts : Along (stepShared S shared) (Encrypts S shared s.out) s as
  keeps : AlongRest (stepShared S shared) (Keeps S shared) s as

/-- What a step lays over the buffer ends in front of a range, or has in it the bytes of `out`. -/
def Spares (S : Ssl σ) (shared : Bool) (out : List UInt8) (s : Secure σ) (a : Act)
    (rest : List Act) : Prop :=
  ∀ r ∈ later S shared s a rest, ∀ i, r.1 ≤ i → i < r.1 + r.2 →
    i < (laid S shared s a).length → (laid S shared s a)[i]? = out[i]?

instance (S : Ssl σ) (shared : Bool) (out : List UInt8) (s : Secure σ) (a : Act)
    (rest : List Act) : Decidable (Spares S shared out s a rest) := by
  unfold Spares
  infer_instance

/-- In a run from `s`, what is laid over the buffer spares the ranges behind it. -/
def StagingSpares (S : Ssl σ) (shared : Bool) (s : Secure σ) (as : List Act) : Prop :=
  AlongRest (stepShared S shared) (Spares S shared s.out) s as

instance (S : Ssl σ) (shared : Bool) (s : Secure σ) (as : List Act) :
    Decidable (StagingSpares S shared s as) :=
  inferInstanceAs (Decidable (AlongRest _ _ _ _))

/-! ### What `SSL_write` is given -/

/-- `SSL_write` has worked on the two BIOs, and more is to be done. -/
theorem written_push {S : Ssl σ} {s : Secure σ} {bytes : List UInt8} {stack points : List Point} :
    Written S s (({ s with stack := stack }.io (S.write s.ssl s.inputBio bytes)).push points)
      bytes :=
  ⟨rfl, rfl, rfl⟩

theorem step_written {S : Ssl σ} {s s' : Secure σ} {a : Act} {off len : Nat}
    (hr : sslRange s a = some (off, len)) (h : step S s a = some s') :
    Written S s s' (slice s.out off len) := by
  cases a with
  | write len' off' =>
    -- a call of `Write`, which starts with an `SSL_write`
    obtain ⟨-, hr⟩ := Option.ite_none_right_eq_some.mp hr
    cases hr
    obtain ⟨-, h⟩ := Option.ite_none_right_eq_some.mp h
    obtain ⟨bytes, hread, rfl⟩ := Option.map_eq_some_iff.mp h
    obtain ⟨-, rfl⟩ := readAt_eq_some_iff.mp hread
    exact written_push
  | go answer =>
    simp only [sslRange] at hr
    split at hr
    · -- a retry inside a call, with the same range
      rename_i hstack
      cases hr
      simp only [step, Secure.go, hstack] at h
      obtain ⟨bytes, hread, rfl⟩ := Option.map_eq_some_iff.mp h
      obtain ⟨-, rfl⟩ := readAt_eq_some_iff.mp hread
      exact written_push
    · contradiction
  | _ => contradiction

/-- It does not matter for that what the in buffer holds. -/
theorem stepShared_written {S : Ssl σ} {shared : Bool} {s s' : Secure σ} {a : Act} {off len : Nat}
    (hr : sslRange s a = some (off, len)) (h : stepShared S shared s a = some s') :
    Written S s s' (slice s.out off len) := by
  cases shared with
  | false => exact step_written hr h
  | true =>
    obtain ⟨t, hstep, rfl⟩ := Option.map_eq_some_iff.mp h
    have hw : Written S { s with input := s.out } t (slice s.out off len) := by
      refine step_written ?_ hstep
      rw [← hr]
      cases a <;> rfl
    split <;> exact ⟨hw.ssl, hw.inputBio, hw.outputBio⟩

/-! ### The two buffers -/

/-- The out buffer and the in buffer. -/
def Secure.buffers (s : Secure σ) : List UInt8 × List UInt8 := (s.out, s.input)

theorem startSsl_buffers (S : Ssl σ) (s : Secure σ) : (s.startSsl S).buffers = s.buffers := by
  unfold Secure.startSsl
  simp only
  split_ifs <;> rfl

theorem onPluginReadData_buffers (S : Ssl σ) (s : Secure σ) (nread : Nat) :
    (s.onPluginReadData S nread).buffers = s.buffers := by
  unfold Secure.onPluginReadData
  simp only
  split
  · rfl
  · exact startSsl_buffers S _

theorem writeLoop_buffers (S : Ssl σ) (s : Secure σ) (len off : Nat) (n : Int) :
    (s.writeLoop S len off n).buffers = s.buffers := by
  unfold Secure.writeLoop
  split_ifs <;> rfl

theorem cycleInNext_buffers (s : Secure σ) (n : Int) : (s.cycleInNext n).buffers = s.buffers := by
  unfold Secure.cycleInNext
  split <;> rfl

/-- `cycleIn` lays the plaintext over the start of the in buffer. -/
theorem cycleIn_buffers {S : Ssl σ} {s s' : Secure σ} (h : s.cycleIn S = some s') :
    s'.buffers = (s.out, overlay s.input (s.plaintext S)) := by
  unfold Secure.cycleIn at h
  unfold Secure.plaintext
  split at h
  · rename_i hempty
    cases h
    rw [if_pos hempty]
    rfl
  · rename_i hne
    rw [if_neg hne]
    simp only at h ⊢
    split at h
    · rename_i hret
      cases h
      rw [if_pos hret]
      rfl
    · rename_i hret
      rw [if_neg hret]
      obtain ⟨input, hwrite, rfl⟩ := Option.map_eq_some_iff.mp h
      have hinput : input = overlay s.input (S.read s.ssl s.inputBio s.input.length).data :=
        eq_overlay_of_writeAt hwrite
      subst hinput
      split <;> rfl

/-- `cycleOut` lays its piece over the start of the out buffer. -/
theorem cycleOut_buffers {s s' : Secure σ} {a : Answer} (h : s.cycleOut a = some s') :
    s'.buffers = (overlay s.out s.piece, s.input) := by
  unfold Secure.cycleOut at h
  split at h
  · rename_i hempty
    cases h
    rw [Secure.piece, hempty, List.take_nil]
    rfl
  · obtain ⟨out, hwrite, h⟩ := Option.bind_eq_some_iff.mp h
    obtain ⟨r, -, rfl⟩ := Option.map_eq_some_iff.mp h
    have hout : out = overlay s.out s.piece := eq_overlay_of_writeAt hwrite
    subst hout
    rfl

/-- Only `cycleOut` and JavaScript write into the out buffer, and what is read into the other. -/
theorem step_buffers {S : Ssl σ} {s s' : Secure σ} {a : Act} (ha : a.LeavesOut)
    (h : step S s a = some s') :
    s'.buffers = (overlay s.out (staged s a), overlay s.input (readIn S s a)) := by
  cases a with
  | enter | ret | close =>
    obtain ⟨-, h⟩ := Option.ite_none_right_eq_some.mp h
    cases h
    rfl
  | start =>
    obtain ⟨-, h⟩ := Option.ite_none_right_eq_some.mp h
    cases h
    exact startSsl_buffers S s
  | write len off =>
    obtain ⟨-, h⟩ := Option.ite_none_right_eq_some.mp h
    obtain ⟨bytes, -, rfl⟩ := Option.map_eq_some_iff.mp h
    rfl
  | on cb =>
    obtain ⟨-, h⟩ := Option.ite_none_right_eq_some.mp h
    cases h
    cases cb <;> rfl
  | fill => exact absurd ha id
  | networkRead bytes =>
    obtain ⟨-, h⟩ := Option.ite_none_right_eq_some.mp h
    obtain ⟨-, h⟩ := Option.ite_none_left_eq_some.mp h
    obtain ⟨input, hwrite, rfl⟩ := Option.map_eq_some_iff.mp h
    rw [onPluginReadData_buffers, eq_overlay_of_writeAt hwrite]
    rfl
  | go answer =>
    have hnone : ∀ p stack, s.stack = p :: stack → p ≠ .cycleOut → p ≠ .cycleIn →
        staged s (.go answer) = [] ∧ readIn S s (.go answer) = [] := by
      intro p stack hstack hout hin
      simp [staged, readIn, hstack, hout, hin]
    simp only [step, Secure.go] at h
    split at h <;> rename_i hstack
    · -- `cycleOut` stages its piece, which is empty when there is nothing to send
      rw [cycleOut_buffers h, staged, readIn, hstack]
      rfl
    · rw [cycleIn_buffers h, staged, readIn, hstack]
      rfl
    · obtain ⟨hout, hin⟩ := hnone _ _ hstack (by simp) (by simp)
      cases h
      rw [cycleInNext_buffers, hout, hin]
      rfl
    · obtain ⟨hout, hin⟩ := hnone _ _ hstack (by simp) (by simp)
      cases h
      rw [writeLoop_buffers, hout, hin]
      rfl
    · obtain ⟨hout, hin⟩ := hnone _ _ hstack (by simp) (by simp)
      obtain ⟨bytes, -, rfl⟩ := Option.map_eq_some_iff.mp h
      rw [hout, hin]
      rfl
    · cases h

/-- No step both stages and reads. -/
theorem staged_or_readIn (S : Ssl σ) (s : Secure σ) (a : Act) :
    staged s a = [] ∨ readIn S s a = [] := by
  cases a with
  | go =>
    by_cases hhead : s.stack.head? = some .cycleOut
    · exact Or.inr (by simp [readIn, hhead])
    · exact Or.inl (by simp [staged, hhead])
  | _ => exact Or.inl rfl

/-- **The out buffer after a step** in which JavaScript does not change it. -/
theorem stepShared_out {S : Ssl σ} {shared : Bool} {s s' : Secure σ} {a : Act} (ha : a.LeavesOut)
    (h : stepShared S shared s a = some s') : s'.out = overlay s.out (laid S shared s a) := by
  cases shared with
  | false => exact congrArg Prod.fst (step_buffers ha h)
  | true =>
    obtain ⟨t, hstep, rfl⟩ := Option.map_eq_some_iff.mp h
    have hboth := step_buffers ha hstep
    have hout : t.out = overlay s.out (staged s a) := congrArg Prod.fst hboth
    have hinput : t.input = overlay s.out (readIn S { s with input := s.out } a) :=
      congrArg Prod.snd hboth
    rw [laid, if_pos rfl]
    obtain hnone | hnone := staged_or_readIn S { s with input := s.out } a
    · -- nothing is staged, so the buffer is what has been read into
      have hnone : staged s a = [] := hnone
      rw [hnone, overlay_nil] at hout
      rw [if_pos hout, hnone, List.nil_append]
      exact hinput
    · rw [hnone, overlay_nil] at hinput
      rw [hnone, List.append_nil]
      split
      · rename_i hsame
        rw [← hout, hsame]
        exact hinput
      · exact hout

/-! ### What is encrypted -/

theorem later_eq {S : Ssl σ} {shared : Bool} {s s' : Secure σ} {a : Act} {rest : List Act}
    (h : stepShared S shared s a = some s') :
    later S shared s a rest = ranges S shared s' rest := by
  rw [later, h]
  rfl

/-- A step that does not change a range lays nothing over it but what is there. -/
theorem keeps_iff {S : Ssl σ} {shared : Bool} {s : Secure σ} {a : Act} {rest : List Act}
    (ha : a.LeavesOut) : Keeps S shared s a rest ↔ Spares S shared s.out s a rest := by
  unfold Keeps Spares
  cases h : stepShared S shared s a with
  | none => simp [later, h]
  | some s' =>
    rw [later_eq h]
    simp only [Option.some.injEq, forall_eq']
    refine forall_congr' fun r => imp_congr_right fun _ => ?_
    rw [stepShared_out ha h]
    exact slice_overlay_iff

/-- The ranges of a run hold what they hold in `out`. -/
def Holds (S : Ssl σ) (shared : Bool) (out : List UInt8) (s : Secure σ) (as : List Act) : Prop :=
  (∀ a ∈ as, a.LeavesOut) ∧ ∀ r ∈ ranges S shared s as, slice s.out r.1 r.2 = slice out r.1 r.2

/-- Then a step keeps them if what it lays over the buffer agrees with `out`. -/
theorem Holds.keeps_iff {S : Ssl σ} {shared : Bool} {out : List UInt8} {s : Secure σ} {a : Act}
    {rest : List Act} (h : Holds S shared out s (a :: rest)) :
    Keeps S shared s a rest ↔ Spares S shared out s a rest := by
  rw [Tls.keeps_iff (h.1 a List.mem_cons_self)]
  refine forall_congr' fun r => forall_congr' fun hr => forall_congr' fun i =>
    forall_congr' fun hle => forall_congr' fun hlt => imp_congr_right fun _ => ?_
  have hsame := slice_eq_slice_iff.mp (h.2 r (List.mem_append_right _ hr)) i hle hlt
  rw [hsame]

/-- **Step lemma.** They go on holding it. -/
theorem Holds.step {S : Ssl σ} {shared : Bool} {out : List UInt8} {s s' : Secure σ} {a : Act}
    {rest : List Act} (h : Holds S shared out s (a :: rest))
    (hspares : Spares S shared out s a rest) (hstep : stepShared S shared s a = some s') :
    Holds S shared out s' rest := by
  refine ⟨fun b hb => h.1 b (List.mem_cons_of_mem a hb), fun r hr => ?_⟩
  have hlater : r ∈ later S shared s a rest := by
    rw [later_eq hstep]
    exact hr
  exact (h.keeps_iff.mpr hspares s' hstep r hr).trans (h.2 r (List.mem_append_right _ hlater))

theorem Holds.encrypts {S : Ssl σ} {shared : Bool} {out : List UInt8} {s : Secure σ} {a : Act}
    {rest : List Act} (h : Holds S shared out s (a :: rest)) : Encrypts S shared out s a := by
  intro s' off len hstep hr
  have hmem : (off, len) ∈ ranges S shared s (a :: rest) :=
    List.mem_append_left _ (by rw [hr]; exact List.mem_singleton_self _)
  have hwritten := stepShared_written hr hstep
  rwa [h.2 (off, len) hmem] at hwritten

/-- **Every `SSL_write` is given what the buffer held at first**, and nothing alters what is still
    to be encrypted, exactly where what is laid over the buffer spares the ranges behind it. -/
theorem encryptsWhatWas_iff {S : Ssl σ} {shared : Bool} {s : Secure σ} {as : List Act}
    (has : ∀ a ∈ as, a.LeavesOut) :
    EncryptsWhatWas S shared s as ↔ StagingSpares S shared s as := by
  have hstart : Holds S shared s.out s as := ⟨has, fun _ _ => rfl⟩
  have hkeeps : AlongRest (stepShared S shared) (Keeps S shared) s as ↔
      StagingSpares S shared s as :=
    alongRest_congr (fun _ _ _ h => h.keeps_iff) (fun _ _ _ _ h hs hstep => h.step hs hstep) hstart
  constructor
  · exact fun h => hkeeps.mp h.keeps
  · -- a range that holds what it held at first is given to `SSL_write` with that
    intro h
    refine ⟨?_, hkeeps.mpr h⟩
    exact Along.of_rest (fun _ _ _ h => h.encrypts) (fun _ _ _ _ h hs hstep => h.step hs hstep)
      hstart h

/-- A peer with whom the handshake is over: its record of a plaintext starts with 23. -/
def donePeer : Peer where
  handshakes := []
  apps := []
  reply _ _ := []
  encrypt plain := 23 :: plain
  ahead _ := 0

/-- JavaScript runs on a connection to it, with four bytes in the out buffer. -/
def doneSecure : Secure Layer :=
  { Secure.setup donePeer.start [0, 0] [5, 6, 7, 8] true with stack := [.js] }

/-- Two bytes from the start, and then the last one: the record of the first call ends in front
    of it. -/
theorem encryptsWhatWas_iff_apart :
    EncryptsWhatWas donePeer.recordSsl false doneSecure
      [.write 2 0, .go .again, .go (.wrote 3), .write 1 3] :=
  (encryptsWhatWas_iff (by decide)).mpr (by decide)

/-- With one buffer for both ways, what the socket has read is what a later call encrypts. -/
example :
    ¬ StagingSpares donePeer.recordSsl true { doneSecure with stack := [] }
      [.networkRead [9, 9], .go .again, .go .again, .enter, .write 2 0] := by decide

/-- **The second of two equal calls encrypts ciphertext**: the first one has staged its record,
    23, 5, 6, over the bytes 5, 6. -/
theorem not_encryptsWhatWas :
    ¬ ∀ (S : Ssl Layer) (shared : Bool) (s : Secure Layer) (as : List Act),
      (∀ a ∈ as, a.LeavesOut) → EncryptsWhatWas S shared s as := by
  intro h
  have htwice := (h donePeer.recordSsl false doneSecure
    [.write 2 0, .go .again, .go (.wrote 3), .write 2 0] (by decide)).encrypts
  have hsecond := (((htwice.2 _ rfl).2 _ rfl).2 _ rfl).1 _ 0 2 rfl rfl
  -- its record carries 23, 5
  exact absurd hsecond.outputBio (by decide)

end Dv8.Tls
