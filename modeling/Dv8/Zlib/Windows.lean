import Dv8.Lib.Machine
import Mathlib.Algebra.Group.Nat.Defs

namespace Dv8.Zlib

open Dv8.Lib

/-!
# `ZLib` — the windows given to zlib

`Setup` points `next_in` and `next_out` at the two buffers.  `deflate` and `inflate` move them;
`Write` sets only the counts behind them.  The pointers are offsets into the buffers here, and
what a call of zlib consumes and produces is an answer of the library.  The arguments of `Write`
are what `Uint32Value` makes of the numbers of the script.

* `Ledger` — what zlib has consumed and produced since the last `Setup`;
* `windowsInside_iff` — the windows stay inside exactly when every call asks for no more than
  the ledger leaves.
-/

/-- `dv8_zlib_mode`; the mode is any number. -/
inductive Mode where
  | none
  | deflate
  | inflate
  | gzip
  | gunzip
  | deflateRaw
  | inflateRaw
  | unzip
  | other (n : Nat)
  deriving DecidableEq, Repr

/-- The modes `Write` and `Setup` have a case for. -/
def Mode.runs : Mode → Bool
  | .gzip | .gunzip => true
  | _ => false

/-- The windows of a `z_stream`. -/
structure ZStream where
  nextIn : Nat
  availIn : Nat
  nextOut : Nat
  availOut : Nat
  deriving DecidableEq, Repr

/-- A `ZLib` object and the lengths of the buffers it was set up with. -/
structure ZLib where
  mode : Mode
  strm : ZStream
  inLength : Nat
  outLength : Nat
  deriving DecidableEq, Repr

/-- What a call of `deflate` or `inflate` did. -/
structure Reply where
  consumed : Nat
  produced : Nat
  err : Int
  deriving DecidableEq, Repr

def Z_FINISH : Nat := 4
def Z_OK : Int := 0
def Z_STREAM_END : Int := 1
def Z_NEED_DICT : Int := 2
def Z_BUF_ERROR : Int := -5

/-- `ZLib::Setup` of buffers of these lengths; `err` is what the initialisation returns. -/
def ZLib.setup (z : ZLib) (inLength outLength : Nat) (err : Int) : ZLib × Int :=
  ({ z with strm := ⟨0, inLength, 0, outLength⟩, inLength := inLength, outLength := outLength },
    if z.mode.runs then err else 0)

/-- The stream as `Write` passes it on: `avail_out` is set by a third argument only. -/
def ZLib.offer (z : ZLib) (args : List Nat) : ZStream :=
  { z.strm with availIn := args.getD 0 0, availOut := args[2]?.getD z.strm.availOut }

/-- zlib consumes a prefix of one window and produces a prefix of the other. -/
def ZStream.advance (s : ZStream) (reply : Reply) : Option ZStream :=
  if reply.consumed ≤ s.availIn ∧ reply.produced ≤ s.availOut then
    some { nextIn := s.nextIn + reply.consumed, availIn := s.availIn - reply.consumed,
           nextOut := s.nextOut + reply.produced, availOut := s.availOut - reply.produced }
  else none

/-- What `Write` makes of the result of zlib. -/
def verdict (err : Int) (availOut flush : Nat) : Int :=
  if err = Z_OK ∨ err = Z_BUF_ERROR then
    if availOut ≠ 0 ∧ flush = Z_FINISH then -2 else err
  else if err = Z_STREAM_END then err
  else if err = Z_NEED_DICT then -3
  else -4

/-- `ZLib::Write(len, flush, availOut)`; arguments that are left out are `0`.  The room that is
    left goes through an `int32_t`. -/
def ZLib.write (z : ZLib) (args : List Nat) (reply : Reply) : Option (ZLib × Int) :=
  if z.mode.runs then
    ((z.offer args).advance reply).map fun strm =>
      let err := verdict reply.err strm.availOut (args.getD 1 0)
      ({ z with strm := strm }, if err < 0 then err else Int.bmod strm.availOut (2 ^ 32))
  else some ({ z with strm := z.offer args }, -1)

/-- The calls of a script. -/
inductive Act where
  | setup (inLength outLength : Nat) (err : Int)
  | write (args : List Nat) (reply : Reply)
  deriving DecidableEq, Repr

def ZLib.step (z : ZLib) : Act → Option ZLib
  | .setup inLength outLength err => some (z.setup inLength outLength err).1
  | .write args reply => (z.write args reply).map Prod.fst

/-- A new object of a mode, set up with two buffers. -/
def ZLib.start (mode : Mode) (inLength outLength : Nat) : ZLib :=
  ⟨mode, ⟨0, inLength, 0, outLength⟩, inLength, outLength⟩

/-- Both windows lie inside buffers of these lengths. -/
def ZStream.Inside (s : ZStream) (inLength outLength : Nat) : Prop :=
  s.nextIn + s.availIn ≤ inLength ∧ s.nextOut + s.availOut ≤ outLength

/-- The windows passed to zlib by this call, if it makes one, are inside. -/
def WindowsInside (z : ZLib) : Act → Prop
  | .setup .. => True
  | .write args _ => z.mode.runs = true → (z.offer args).Inside z.inLength z.outLength

/-! ### What zlib has used -/

/-- The buffers of the last `Setup`, and what zlib has used of them. -/
structure Ledger where
  inLength : Nat
  outLength : Nat
  consumed : Nat
  produced : Nat
  deriving DecidableEq, Repr

def Ledger.note (l : Ledger) : Act → Ledger
  | .setup inLength outLength _ => ⟨inLength, outLength, 0, 0⟩
  | .write _ reply =>
    { l with consumed := l.consumed + reply.consumed, produced := l.produced + reply.produced }

/-- The call asks for no more input than is left, nor, if it says, for more room. -/
def Ledger.Leaves (l : Ledger) : Act → Prop
  | .setup .. => True
  | .write args _ =>
    l.consumed + args.getD 0 0 ≤ l.inLength ∧
      l.produced + args[2]?.getD 0 ≤ l.outLength

/-- Every call of the script asks for no more than is left. -/
def WithinBuffers (inLength outLength : Nat) (as : List Act) : Prop :=
  Along (fun l a => some (Ledger.note l a)) Ledger.Leaves ⟨inLength, outLength, 0, 0⟩ as

/-! ### Instances -/

instance (s : ZStream) (inLength outLength : Nat) : Decidable (s.Inside inLength outLength) :=
  inferInstanceAs (Decidable (_ ∧ _))

instance : ∀ (z : ZLib) (a : Act), Decidable (WindowsInside z a)
  | _, .setup .. => isTrue trivial
  | z, .write args _ =>
    inferInstanceAs
      (Decidable (z.mode.runs = true → (z.offer args).Inside z.inLength z.outLength))

instance : ∀ (l : Ledger) (a : Act), Decidable (l.Leaves a)
  | _, .setup .. => isTrue trivial
  | l, .write args _ =>
    inferInstanceAs (Decidable (l.consumed + args.getD 0 0 ≤ l.inLength ∧
      l.produced + args[2]?.getD 0 ≤ l.outLength))

instance (inLength outLength : Nat) (as : List Act) :
    Decidable (WithinBuffers inLength outLength as) :=
  inferInstanceAs (Decidable (Along _ _ _ _))

/-! ### The run -/

/-- The object and the ledger agree; the room zlib was left with lies inside the buffer. -/
structure Tracks (z : ZLib) (l : Ledger) : Prop where
  runs : z.mode.runs = true
  inLength : z.inLength = l.inLength
  outLength : z.outLength = l.outLength
  nextIn : z.strm.nextIn = l.consumed
  nextOut : z.strm.nextOut = l.produced
  room : l.produced + z.strm.availOut ≤ l.outLength

/-- What zlib was offered and has not produced stays offered. -/
theorem ZStream.advance_spec {s s' : ZStream} {reply : Reply} (h : s.advance reply = some s') :
    s'.nextIn = s.nextIn + reply.consumed ∧ s'.nextOut = s.nextOut + reply.produced ∧
      s'.nextOut + s'.availOut = s.nextOut + s.availOut := by
  rw [ZStream.advance] at h
  obtain ⟨⟨-, hroom⟩, h⟩ := Option.ite_none_right_eq_some.mp h
  cases h
  refine ⟨rfl, rfl, ?_⟩
  show s.nextOut + reply.produced + (s.availOut - reply.produced) = _
  omega

/-- Without a third argument the window is what the last call left of it. -/
theorem offer_inside_iff {z : ZLib} {l : Ledger} (hz : Tracks z l) (args : List Nat) :
    (z.offer args).Inside z.inLength z.outLength ↔
      l.consumed + args.getD 0 0 ≤ l.inLength ∧ l.produced + args[2]?.getD 0 ≤ l.outLength := by
  have hroom := hz.room
  rw [ZStream.Inside, ZLib.offer, hz.inLength, hz.outLength]
  show z.strm.nextIn + args.getD 0 0 ≤ _ ∧ z.strm.nextOut + args[2]?.getD z.strm.availOut ≤ _ ↔ _
  rw [hz.nextIn, hz.nextOut]
  refine and_congr_right fun _ => ?_
  cases args[2]? with
  | none =>
    rw [Option.getD_none, Option.getD_none]
    omega
  | some n => rfl

/-- **One call**: its windows are inside as the ledger says, and then the two agree again. -/
theorem step_tracks {z z' : ZLib} {l : Ledger} {a : Act} (hz : Tracks z l)
    (h : z.step a = some z') :
    (WindowsInside z a ↔ l.Leaves a) ∧ (WindowsInside z a → Tracks z' (l.note a)) := by
  cases a with
  | setup inLength outLength err =>
    cases h
    exact ⟨Iff.rfl, fun _ => ⟨hz.runs, rfl, rfl, rfl, rfl, Nat.le_of_eq (Nat.zero_add _)⟩⟩
  | write args reply =>
    obtain ⟨⟨w, r⟩, hwrite, rfl⟩ := Option.map_eq_some_iff.mp h
    rw [ZLib.write, if_pos hz.runs] at hwrite
    obtain ⟨strm, hadvance, heq⟩ := Option.map_eq_some_iff.mp hwrite
    obtain ⟨rfl, -⟩ := Prod.mk.inj heq
    obtain ⟨hin, hout, hroom⟩ := ZStream.advance_spec hadvance
    have hiff : WindowsInside z (.write args reply) ↔ l.Leaves (.write args reply) :=
      (forall_prop_of_true hz.runs).trans (offer_inside_iff hz args)
    refine ⟨hiff, fun hinside => ?_⟩
    have hend := (hinside hz.runs).2
    rw [← hroom, hz.outLength] at hend
    have hnextIn : strm.nextIn = l.consumed + reply.consumed :=
      hin.trans (congrArg (· + reply.consumed) hz.nextIn)
    have hnextOut : strm.nextOut = l.produced + reply.produced :=
      hout.trans (congrArg (· + reply.produced) hz.nextOut)
    rw [hnextOut] at hend
    exact ⟨hz.runs, hz.inLength, hz.outLength, hnextIn, hnextOut, hend⟩

/-- In a mode without a case no window is passed on. -/
theorem along_of_not_runs {z : ZLib} {as : List Act} (hz : z.mode.runs = false) :
    Along ZLib.step WindowsInside z as := by
  induction as generalizing z with
  | nil => trivial
  | cons a as ih =>
    constructor
    · cases a with
      | setup inLength outLength err => trivial
      | write args reply => exact fun hruns => absurd (hz.symm.trans hruns) Bool.false_ne_true
    · intro z' h
      refine ih ?_
      cases a with
      | setup inLength outLength err =>
        cases h
        exact hz
      | write args reply =>
        rw [ZLib.step, ZLib.write, hz] at h
        cases h
        exact hz

/-- **The windows stay inside the buffers** exactly when every call asks for no more than zlib
    has left of them since the last `Setup`. -/
theorem windowsInside_iff {mode : Mode} {inLength outLength : Nat} {as : List Act} {z : ZLib}
    (h : run ZLib.step (ZLib.start mode inLength outLength) as = some z) :
    Along ZLib.step WindowsInside (ZLib.start mode inLength outLength) as ↔
      mode.runs = false ∨ WithinBuffers inLength outLength as := by
  by_cases hmode : mode.runs = true
  · have htracks : Tracks (ZLib.start mode inLength outLength) ⟨inLength, outLength, 0, 0⟩ :=
      ⟨hmode, rfl, rfl, rfl, rfl, Nat.le_of_eq (Nat.zero_add _)⟩
    have hstep : ∀ z l a z', Tracks z l → ZLib.step z a = some z' →
        (WindowsInside z a ↔ l.Leaves a) ∧ (WindowsInside z a → Tracks z' (l.note a)) :=
      fun _ _ _ _ hz hs => step_tracks hz hs
    rw [along_iff_of_tracks hstep htracks h]
    constructor
    · exact Or.inr
    · rintro (hno | hwithin)
      · exact absurd (hno.symm.trans hmode) Bool.false_ne_true
      · exact hwithin
  · have hno := eq_false_of_ne_true hmode
    exact ⟨fun _ => Or.inl hno, fun _ => along_of_not_runs hno⟩

/-- Ten bytes in, of which zlib takes six, and then the other four. -/
theorem windowsInside_ten :
    Along ZLib.step WindowsInside (ZLib.start .gzip 10 64)
      [.write [6, 0, 64] ⟨6, 2, 0⟩, .write [4, 4] ⟨4, 20, 1⟩] :=
  (windowsInside_iff (z := ⟨.gzip, ⟨10, 0, 22, 42⟩, 10, 64⟩) (by decide)).mpr (Or.inr (by decide))

/-- A second piece written into the front of the buffer is looked for behind the first. -/
theorem not_windowsInside_twice :
    ¬ Along ZLib.step WindowsInside (ZLib.start .gzip 16 64)
      [.write [10, 0, 64] ⟨10, 2, 0⟩, .write [10, 4, 64] ⟨10, 20, 1⟩] := by
  decide

end Dv8.Zlib
