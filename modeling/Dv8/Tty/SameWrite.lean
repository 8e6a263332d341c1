import Dv8.Tty.Tty

/-!
# `TTY::Write` and `Socket::Write`

The two functions are copies of each other that have drifted.  `WriteView` is the part of the
state both work on, and `WriteView.write` the step that both make of it; each of them is compared
with that step (`wrote_socket`, `wrote_tty`), with callbacks that return at once.  The one
difference left is the branch of the terminal for a result of zero (`TTY.Aborts`).
-/

namespace Dv8.Socket

open Dv8.Lib Dv8.Uv

/-- What a write step looks at and changes. -/
structure WriteView where
  handle : Stream
  blocked : Bool
  error : Nat
  written : Nat
  incomplete : Nat
  full : Nat
  alloc : Nat
  eagain : Nat
  deriving DecidableEq, Repr

def Stats.view (stats : Stats) (handle : Stream) (blocked : Bool) : WriteView :=
  { handle := handle, blocked := blocked, error := stats.error, written := stats.written,
    incomplete := stats.incomplete, full := stats.full, alloc := stats.alloc,
    eagain := stats.eagain }

def Sock.writeView (s : Sock) : WriteView := s.ctx.stats.view s.handle s.ctx.blocked

/-- The write step: the state after it and the value it returns. -/
def WriteView.write (v : WriteView) (bytes : List UInt8) (tried queued : Answer) :
    Option (WriteView × Int) :=
  (v.handle.tryWrite bytes tried).bind fun (handle, r) =>
    if r = EAGAIN ∨ r = ENOSYS then
      (handle.uvWrite bytes queued).map fun (handle, status) =>
        ({ v with handle := handle, blocked := true, alloc := v.alloc + 1, eagain := v.eagain + 1 },
          status)
    else if r < 0 then some ({ v with handle := handle, error := v.error + 1 }, r)
    else if r.toNat < bytes.length then
      (handle.uvWrite (bytes.drop r.toNat) queued).map fun (handle, status) =>
        ({ v with handle := handle, blocked := true, incomplete := v.incomplete + 1,
                  written := v.written + r.toNat, alloc := v.alloc + 1 },
          if status ≠ 0 then status else r.toNat)
    else some ({ v with handle := handle, full := v.full + 1, written := v.written + r.toNat },
      r.toNat)

/-- The callback that `Write` has made, if it made one, returns at once. -/
def Sock.calledBack (s s' : Sock) : Option Sock := if s.depth < s'.depth then s'.ret else some s'

/-- `Socket::Write` with callbacks that return at once. -/
def Sock.wrote (s : Sock) (len off : Nat) (tried queued : Answer) : Option Sock :=
  (s.write len off tried queued).bind s.calledBack

/-- The callback leaves everything but the depth as it was. -/
theorem Sock.calledBack_eq {s s' : Sock} (made : Bool)
    (hdepth : s'.depth = if made then s.depth + 1 else s.depth) :
    s.calledBack s' = some { s' with depth := s.depth } := by
  rw [Sock.calledBack]
  cases made with
  | false =>
    rw [if_neg Bool.false_ne_true] at hdepth
    rw [if_neg (by omega), ← hdepth]
  | true =>
    rw [if_pos rfl] at hdepth
    rw [if_pos (by omega), Sock.ret, if_pos (by omega), hdepth, Nat.add_sub_cancel]

/-- **`Socket::Write` is the write step** on a socket that is not closing. -/
theorem wrote_socket {s : Sock} {len off : Nat} (tried queued : Answer) {bytes : List UInt8}
    (hclosing : s.ctx.closing = false) (hbytes : readAt s.ctx.out off len = some bytes) :
    (s.wrote len off tried queued).map (fun s' => (s'.writeView, s'.calls)) =
      (s.writeView.write bytes tried queued).map fun p => (p.1, s.calls ++ [⟨bytes, p.2⟩]) := by
  rw [Sock.wrote, Sock.write, hbytes, Option.bind_some, Sock.writeBytes, hclosing,
    if_neg Bool.false_ne_true, WriteView.write]
  show _ = Option.map _ ((s.handle.tryWrite bytes tried).bind _)
  cases s.handle.tryWrite bytes tried with
  | none => rfl
  | some p =>
    obtain ⟨handle, r⟩ := p
    simp only [Option.bind_some]
    split_ifs with hwait hneg hpart
    · rw [Sock.writeQueued]
      cases handle.uvWrite bytes queued with
      | none => rfl
      | some q =>
        simp only [Option.map_some, Option.bind_some]
        rw [Sock.calledBack_eq false]
        · rfl
        · rfl
    · rw [Option.bind_some, Sock.calledBack_eq s.callbacks.onError rfl]
      rfl
    · rw [Sock.writePartial]
      cases handle.uvWrite (bytes.drop r.toNat) queued with
      | none => rfl
      | some q =>
        simp only [Option.map_some, Option.bind_some]
        rw [Sock.calledBack_eq s.callbacks.onWrite rfl]
        rfl
    · rw [Option.bind_some, Sock.calledBack_eq s.callbacks.onWrite rfl]
      rfl

end Dv8.Socket

namespace Dv8.Tty

open Dv8.Lib Dv8.Uv Dv8.Socket

def TTY.writeView (t : TTY) : WriteView := t.stats.view t.handle t.blocked

/-- The callback that `Write` has made, if it made one, returns at once; behind `abort` nothing
    runs. -/
def TTY.calledBack (t t' : TTY) : Option TTY :=
  if t'.aborted then some t'
  else if t.stack.length < t'.stack.length then t'.ret else some t'

/-- `TTY::Write` with callbacks that return at once. -/
def TTY.wrote (t : TTY) (length : Nat) (tried queued : Answer) : Option TTY :=
  (t.write length tried queued).bind t.calledBack

/-- `uv_try_write` reports that it has written nothing, which is all there was. -/
def TTY.Aborts (t : TTY) (length : Nat) : Prop :=
  length = 0 ∧ t.handle.writeQueueSize = 0 ∧ t.handle.closing = false ∧ t.handle.writable = true

instance (t : TTY) (length : Nat) : Decidable (t.Aborts length) :=
  inferInstanceAs (Decidable (_ ∧ _ ∧ _ ∧ _))

/-- Zero is returned for bytes that are none, and only where an attempt is made. -/
theorem tryWrite_eq_zero {h h' : Stream} {bytes : List UInt8} {a : Answer}
    (hw : h.tryWrite bytes a = some (h', 0)) :
    bytes = [] ∧ h.writeQueueSize = 0 ∧ h.closing = false ∧ h.writable = true := by
  have hsize : h.writeQueueSize = 0 := by
    by_contra hsize
    rw [Stream.tryWrite.eq_def, if_pos hsize] at hw
    have hr : EAGAIN = 0 := congrArg Prod.snd (Option.some.inj hw)
    exact absurd hr (by decide)
  have hnil {k : Int} (hk : (0 : Int) = if bytes ≠ [] then EAGAIN else k) : bytes = [] := by
    by_contra hbytes
    rw [if_pos hbytes] at hk
    exact absurd hk (by decide)
  obtain ⟨-, -, hr⟩ | ⟨-, hr, -⟩ | ⟨hclosing, hwritable, hcase⟩ := tryWrite_cases hw
  · exact absurd hr (by decide)
  · exact absurd hr (lt_irrefl _)
  · refine ⟨?_, hsize, hclosing, hwritable⟩
    obtain ⟨n, -, -, hn, -, hr⟩ | ⟨-, hr⟩ | ⟨_, -, -, herrno, hr⟩ | ⟨-, -, hr⟩ := hcase
    · by_contra hbytes
      by_cases h0 : n = 0
      · rw [if_pos ⟨h0, hbytes⟩] at hr
        exact absurd hr (by decide)
      · rw [if_neg fun h => h0 h.1] at hr
        omega
    · exact hnil hr
    · by_contra hbytes
      rw [if_pos hbytes] at hr
      omega
    · exact hnil hr

/-- Where an attempt is made with no bytes, nothing is what is written. -/
theorem tryWrite_nil {h h' : Stream} {a : Answer} {r : Int} (hsize : h.writeQueueSize = 0)
    (hclosing : h.closing = false) (hwritable : h.writable = true)
    (hw : h.tryWrite [] a = some (h', r)) : r = 0 := by
  rw [Stream.tryWrite.eq_def, if_neg (not_not.mpr hsize), hclosing, if_neg Bool.false_ne_true,
    hwritable, if_neg (not_not.mpr rfl)] at hw
  split at hw
  · split at hw
    · rename_i hvalid
      cases a with
      | wrote n =>
        have hn : n = 0 := Nat.le_zero.mp hvalid.1
        cases hw
        rw [hn, if_neg fun h => h.2 rfl]
        rfl
      | again =>
        cases hw
        rfl
      | failed errno =>
        cases hw
        rfl
    · cases hw
  · obtain ⟨w, -, heq⟩ := Option.map_eq_some_iff.mp hw
    cases heq
    rfl

/-- The callback leaves everything as it was, but a writer that is blocked behind it. -/
theorem TTY.calledBack_eq {t t' : TTY} (made blocks : Bool)
    (hstack : t'.stack = if made then blocks :: t.stack else t.stack)
    (haborted : t'.aborted = false) :
    t.calledBack t' =
      some { t' with stack := t.stack, blocked := t'.blocked || (made && blocks) } := by
  rw [TTY.calledBack, if_neg (by rw [haborted]; exact Bool.false_ne_true)]
  cases made with
  | false =>
    rw [if_neg Bool.false_ne_true] at hstack
    rw [if_neg (by rw [hstack]; exact lt_irrefl _), ← hstack, Bool.false_and, Bool.or_false]
  | true =>
    rw [if_pos rfl] at hstack
    rw [if_pos (by rw [hstack, List.length_cons]; omega)]
    simp only [TTY.ret, hstack, Bool.true_and]

/-- **`TTY::Write` is the write step**, where it does not abort. -/
theorem wrote_tty {t : TTY} {length : Nat} (tried queued : Answer) {bytes : List UInt8}
    (haborted : t.aborted = false) (hbytes : readAt t.buf 0 length = some bytes)
    (hno : ¬ t.Aborts length) :
    (t.wrote length tried queued).map (fun t' => (t'.writeView, t'.calls, t'.aborted)) =
      (t.writeView.write bytes tried queued).map fun p =>
        (p.1, t.calls ++ [⟨bytes, p.2⟩], false) := by
  rw [TTY.wrote, TTY.write, hbytes, Option.bind_some, WriteView.write]
  show _ = Option.map _ ((t.handle.tryWrite bytes tried).bind _)
  cases htry : t.handle.tryWrite bytes tried with
  | none => rfl
  | some p =>
    obtain ⟨handle, r⟩ := p
    have hzero : r ≠ 0 := by
      rintro rfl
      obtain ⟨rfl, hopen⟩ := tryWrite_eq_zero htry
      obtain ⟨hfits, hslice⟩ := readAt_eq_some_iff.mp hbytes
      have hlength := length_slice hfits
      rw [← hslice, List.length_nil] at hlength
      exact hno ⟨hlength.symm, hopen⟩
    simp only [Option.bind_some, if_neg hzero]
    split_ifs with hwait hneg hpart
    · rw [TTY.writeQueued]
      cases handle.uvWrite bytes queued with
      | none => rfl
      | some q =>
        simp only [Option.map_some, Option.bind_some]
        rw [TTY.calledBack_eq false false]
        · simp only [Option.map_some, TTY.writeView, Stats.view, haborted, Bool.or_false,
            Bool.and_false]
        · rfl
        · exact haborted
    · rw [Option.bind_some, TTY.calledBack_eq t.callbacks.onError false]
      · simp only [Option.map_some, TTY.writeFailed, TTY.writeView, Stats.view, haborted,
          Bool.and_false, Bool.or_false]
      · rfl
      · exact haborted
    · rw [TTY.writePartial]
      cases handle.uvWrite (bytes.drop r.toNat) queued with
      | none => rfl
      | some q =>
        simp only [Option.map_some, Option.bind_some]
        rw [TTY.calledBack_eq t.callbacks.onWrite true]
        · -- the writer is blocked by the callback's return, or without one
          simp only [Option.map_some, TTY.writeView, Stats.view, haborted, Bool.and_true]
          cases t.callbacks.onWrite <;> simp
        · rfl
        · exact haborted
    · rw [Option.bind_some, TTY.calledBack_eq t.callbacks.onWrite false]
      · simp only [Option.map_some, TTY.writeFull, TTY.writeView, Stats.view, haborted,
          Bool.and_false, Bool.or_false, Int.toNat_of_nonneg (Int.not_lt.mp hneg)]
      · rfl
      · exact haborted

/-- Where it aborts it does not come back. -/
theorem wrote_aborts {t t' : TTY} {length : Nat} {tried queued : Answer}
    (hno : t.Aborts length) (h : t.wrote length tried queued = some t') : t'.aborted = true := by
  obtain ⟨rfl, hsize, hclosing, hwritable⟩ := hno
  obtain ⟨w, hwrite, hback⟩ := Option.bind_eq_some_iff.mp h
  obtain ⟨bytes, hbytes, hwrite⟩ := Option.bind_eq_some_iff.mp hwrite
  obtain ⟨⟨handle, r⟩, htry, hwrite⟩ := Option.bind_eq_some_iff.mp hwrite
  have hnil : bytes = [] := (readAt_eq_some_iff.mp hbytes).2.trans (slice_zero _ _)
  rw [hnil] at htry
  have hr := tryWrite_nil hsize hclosing hwritable htry
  subst hr
  cases hwrite
  cases hback
  rfl

/-! ### The comparison -/

/-- The states correspond: the same queue, blocked flag and counters, not closing. -/
structure Corresponds (s : Sock) (t : TTY) : Prop where
  view : t.writeView = s.writeView
  closing : s.ctx.closing = false
  aborted : t.aborted = false

/-- The step of the terminal comes back, with the value and in the state of the socket's. -/
def SameWrite (s s' : Sock) (t : TTY) (t' : Option TTY) : Prop :=
  ∃ w, t' = some w ∧ w.aborted = false ∧ w.writeView = s'.writeView ∧
    ∃ c, s'.calls = s.calls ++ [c] ∧ w.calls = t.calls ++ [c]

/-- **The two functions are the same write step** exactly when the terminal does not take a
    write of no bytes for impossible. -/
theorem sameWrite_iff {s s' : Sock} {t : TTY} {len off : Nat} {tried queued : Answer}
    (hst : Corresponds s t) (hbytes : readAt t.buf 0 len = readAt s.ctx.out off len)
    (h : s.wrote len off tried queued = some s') :
    SameWrite s s' t (t.wrote len tried queued) ↔ ¬ t.Aborts len := by
  obtain ⟨bytes, hread⟩ : ∃ bytes, readAt s.ctx.out off len = some bytes := by
    obtain ⟨w, hwrite, -⟩ := Option.bind_eq_some_iff.mp h
    obtain ⟨bytes, hread, -⟩ := Option.bind_eq_some_iff.mp hwrite
    exact ⟨bytes, hread⟩
  constructor
  · rintro ⟨w, hw, haborted, -⟩ hno
    exact absurd (haborted.symm.trans (wrote_aborts hno hw)) Bool.false_ne_true
  · intro hno
    have hsocket := wrote_socket tried queued hst.closing hread
    have htty := wrote_tty tried queued hst.aborted (hbytes.trans hread) hno
    rw [h, Option.map_some] at hsocket
    obtain ⟨⟨v, r⟩, hstep, hs⟩ := Option.map_eq_some_iff.mp hsocket.symm
    rw [hst.view, hstep, Option.map_some] at htty
    obtain ⟨w, hw, ht⟩ := Option.map_eq_some_iff.mp htty
    obtain ⟨hview, hcalls⟩ := Prod.mk.inj hs
    obtain ⟨hview', ht⟩ := Prod.mk.inj ht
    obtain ⟨hcalls', haborted⟩ := Prod.mk.inj ht
    exact ⟨w, hw, haborted, hview'.trans hview, _, hcalls.symm, hcalls'⟩

/-- Two bytes, of which the kernel takes one. -/
theorem sameWrite_two : ∃ s',
    (Sock.connected [1, 2] { onWrite := true } false).wrote 2 0 (.wrote 1) .again = some s' ∧
      SameWrite (Sock.connected [1, 2] { onWrite := true } false) s' { buf := [1, 2], handle := {} }
        (TTY.wrote { buf := [1, 2], handle := {} } 2 (.wrote 1) .again) :=
  ⟨_, rfl, (sameWrite_iff ⟨rfl, rfl, rfl⟩ rfl rfl).mpr (by decide)⟩

/-- A write of no bytes to an idle stream: `0` from the socket, `abort` in the terminal. -/
theorem not_sameWrite_nothing : ∃ s',
    (Sock.connected [1, 2] {} false).wrote 0 0 (.wrote 0) .again = some s' ∧
      Corresponds (Sock.connected [1, 2] {} false) { buf := [1, 2], handle := {} } ∧
      ¬ SameWrite (Sock.connected [1, 2] {} false) s' { buf := [1, 2], handle := {} }
        (TTY.wrote { buf := [1, 2], handle := {} } 0 (.wrote 0) .again) := by
  refine ⟨_, rfl, ⟨rfl, rfl, rfl⟩, ?_⟩
  rintro ⟨w, hw, haborted, -⟩
  have hno : TTY.Aborts { buf := [1, 2], handle := {} } 0 := by decide
  exact Bool.false_ne_true (haborted.symm.trans (wrote_aborts hno hw))

end Dv8.Tty
