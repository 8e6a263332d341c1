import Dv8.Lib.Machine
import Mathlib.Tactic.Ring

namespace Dv8.Uv

open Dv8.Lib

/-!
# `alloc_chunk` — the range offered for a read

Before it reads, libuv asks for memory and suggests a size; it delivers no more than the range it
is given holds.  `Socket` offers the input buffer with a length that `Setup` assigns twice, the
second time from the output buffer; `TTY` offers its input buffer with the size suggested.

* `Driver` — what the two have in common: a setup and an `alloc_chunk` over a context;
* `offers_iff` — a driver's reads stay inside the buffer exactly when the last setup is good for
  every one of them;
* `readsInside_iff` — the two conditions.
-/

/-- `uv_buf_t`: a range of memory. -/
structure UvBuf where
  base : Nat
  len : Nat
  deriving DecidableEq, Repr

/-- `uv_buf_init`; its length is an `unsigned int`. -/
def uvBufInit (base len : Nat) : UvBuf := ⟨base, len % 2 ^ 32⟩

/-- The memory of a `Buffer`. -/
structure Memory where
  data : Nat
  length : Nat
  deriving DecidableEq, Repr

/-- The range lies inside the memory. -/
def UvBuf.Inside (b : UvBuf) (m : Memory) : Prop :=
  m.data ≤ b.base ∧ b.base + b.len ≤ m.data + m.length

instance (b : UvBuf) (m : Memory) : Decidable (b.Inside m) :=
  inferInstanceAs (Decidable (_ ∧ _))

/-- A context `γ`, its setup from the arguments `β`, and the range it offers for a read of the
    size suggested. -/
structure Driver (γ β : Type*) where
  setup : γ → β → γ
  allocChunk : γ → Nat → UvBuf
  input : β → Memory

variable {γ β : Type*} (d : Driver γ β)

/-- A context with the arguments of its latest setup. -/
structure Reader (γ β : Type*) where
  ctx : γ
  latest : β
  deriving DecidableEq, Repr

/-- A script sets up again, or libuv suggests a size and delivers some bytes. -/
inductive Event (β : Type*) where
  | setup (args : β)
  | read (size nread : Nat)
  deriving DecidableEq, Repr

/-- The context after its first setup. -/
def Driver.start (ctx : γ) (args : β) : Reader γ β := ⟨d.setup ctx args, args⟩

/-- No read delivers more than the range it was given. -/
def Driver.step (r : Reader γ β) : Event β → Option (Reader γ β)
  | .setup args => some ⟨d.setup r.ctx args, args⟩
  | .read size nread => if nread ≤ (d.allocChunk r.ctx size).len then some r else none

/-- The range offered for a read lies inside the latest input buffer, which holds all that is
    delivered. -/
def Driver.OfferInside (r : Reader γ β) : Event β → Prop
  | .setup _ => True
  | .read size nread =>
    (d.allocChunk r.ctx size).Inside (d.input r.latest) ∧ nread ≤ (d.input r.latest).length

/-- The latest setup of a script. -/
def latest (args : β) : Event β → β
  | .setup args' => args'
  | .read .. => args

/-- If it is a read, the setup is good for the size suggested. -/
def GoodFor (good : β → Nat → Prop) (args : β) : Event β → Prop
  | .setup _ => True
  | .read size _ => good args size

/-- At every read the latest setup is good for the size suggested. -/
def EachRead (good : β → Nat → Prop) (args : β) (es : List (Event β)) : Prop :=
  Along (fun args e => some (latest args e)) (GoodFor good) args es

instance (r : Reader γ β) : ∀ e, Decidable (d.OfferInside r e)
  | .setup _ => isTrue trivial
  | .read size nread =>
    inferInstanceAs (Decidable ((d.allocChunk r.ctx size).Inside (d.input r.latest) ∧
      nread ≤ (d.input r.latest).length))

/-- The context is the one that this setup, the latest, has left. -/
def Driver.Installed (r : Reader γ β) (args : β) : Prop :=
  r.latest = args ∧ ∃ c, r.ctx = d.setup c args

variable {d} {good : β → Nat → Prop}

/-- **One step**: a read stays inside when the latest setup is good for it, and the record of that
    setup is kept. -/
theorem step_offers
    (hgood : ∀ c args size,
      (d.allocChunk (d.setup c args) size).Inside (d.input args) ↔ good args size)
    {r r' : Reader γ β} {args : β} {e : Event β} (hr : d.Installed r args)
    (h : d.step r e = some r') :
    (d.OfferInside r e ↔ GoodFor good args e) ∧ d.Installed r' (latest args e) := by
  obtain ⟨rfl, c, hc⟩ := hr
  cases e with
  | setup args' =>
    cases h
    exact ⟨Iff.rfl, rfl, r.ctx, rfl⟩
  | read size nread =>
    obtain ⟨hnread, h⟩ := Option.ite_none_right_eq_some.mp h
    cases h
    refine ⟨?_, rfl, c, hc⟩
    rw [GoodFor, ← hgood c r.latest size, ← hc]
    constructor
    · exact And.left
    · intro hinside
      refine ⟨hinside, ?_⟩
      -- a range inside another is no longer than it
      obtain ⟨hbase, hend⟩ := hinside
      omega

/-- **The reads of a driver stay inside its latest input buffer** exactly when its latest setup is
    good for each of them. -/
theorem offers_iff
    (hgood : ∀ c args size,
      (d.allocChunk (d.setup c args) size).Inside (d.input args) ↔ good args size)
    {c : γ} {args : β} {es : List (Event β)} {r : Reader γ β}
    (h : run d.step (d.start c args) es = some r) :
    Along d.step d.OfferInside (d.start c args) es ↔ EachRead good args es := by
  have hstart : d.Installed (d.start c args) args := ⟨rfl, c, rfl⟩
  refine along_iff_of_tracks ?_ hstart h
  intro r args e r' hr hstep
  obtain ⟨hiff, hkeep⟩ := step_offers hgood hr hstep
  exact ⟨hiff, fun _ => hkeep⟩

/-! ### The socket -/

/-- The fields of `_context` that a read goes through; `readBufferLength` is a `uint32_t`. -/
structure SocketContext where
  input : UvBuf
  output : UvBuf
  readBufferLength : Nat
  deriving DecidableEq, Repr

/-- `Socket::Setup` with an input and an output buffer. -/
def SocketContext.setup (ctx : SocketContext) (args : Memory × Memory) : SocketContext :=
  let len := args.1.length
  let ctx := { ctx with input := uvBufInit args.1.data len, readBufferLength := len % 2 ^ 32 }
  let len := args.2.length
  { ctx with output := uvBufInit args.2.data len, readBufferLength := len % 2 ^ 32 }

/-- `alloc_chunk` of a socket. -/
def SocketContext.allocChunk (ctx : SocketContext) (_size : Nat) : UvBuf :=
  ⟨ctx.input.base, ctx.readBufferLength⟩

def socketDriver : Driver SocketContext (Memory × Memory) :=
  ⟨SocketContext.setup, SocketContext.allocChunk, Prod.fst⟩

/-- What is offered starts where the input buffer does and is as long as the output buffer. -/
theorem socketDriver_inside (ctx : SocketContext) (args : Memory × Memory) (size : Nat) :
    (socketDriver.allocChunk (socketDriver.setup ctx args) size).Inside (socketDriver.input args) ↔
      args.2.length % 2 ^ 32 ≤ args.1.length := by
  show args.1.data ≤ args.1.data ∧
    args.1.data + args.2.length % 2 ^ 32 ≤ args.1.data + args.1.length ↔ _
  rw [Nat.add_le_add_iff_left]
  exact and_iff_right (Nat.le_refl _)

/-! ### The terminal -/

/-- `TTY::Setup` keeps the address of the buffer only. -/
def ttyDriver : Driver Nat Memory :=
  ⟨fun _ buffer => buffer.data, fun base size => ⟨base, size⟩, id⟩

/-- What is offered starts where the input buffer does and is as long as libuv suggests. -/
theorem ttyDriver_inside (base : Nat) (buffer : Memory) (size : Nat) :
    (ttyDriver.allocChunk (ttyDriver.setup base buffer) size).Inside (ttyDriver.input buffer) ↔
      size ≤ buffer.length := by
  show buffer.data ≤ buffer.data ∧ buffer.data + size ≤ buffer.data + buffer.length ↔ _
  rw [Nat.add_le_add_iff_left]
  exact and_iff_right (Nat.le_refl _)

/-! ### The two conditions -/

/-- The output buffer is not the longer one. -/
def FitsSocket (args : Memory × Memory) (_size : Nat) : Prop :=
  args.2.length % 2 ^ 32 ≤ args.1.length

/-- The buffer has room for all that libuv suggests. -/
def FitsTty (buffer : Memory) (size : Nat) : Prop := size ≤ buffer.length

/-- **No read passes the end of the input buffer** exactly when at every read of a socket its
    latest output buffer is no longer than its input buffer, and at every read of a terminal the
    size suggested is no longer than its latest buffer. -/
theorem readsInside_iff {ctx : SocketContext} {args : Memory × Memory}
    {es : List (Event (Memory × Memory))} {r : Reader SocketContext (Memory × Memory)}
    (hsocket : run socketDriver.step (socketDriver.start ctx args) es = some r)
    {base : Nat} {buffer : Memory} {fs : List (Event Memory)} {t : Reader Nat Memory}
    (htty : run ttyDriver.step (ttyDriver.start base buffer) fs = some t) :
    (Along socketDriver.step socketDriver.OfferInside (socketDriver.start ctx args) es ↔
        EachRead FitsSocket args es) ∧
      (Along ttyDriver.step ttyDriver.OfferInside (ttyDriver.start base buffer) fs ↔
        EachRead FitsTty buffer fs) :=
  ⟨offers_iff socketDriver_inside hsocket, offers_iff ttyDriver_inside htty⟩

/-- A socket with 64 bytes each way, and a terminal with as much as libuv asks for. -/
theorem readsInside_iff_equal :
    (Along socketDriver.step socketDriver.OfferInside
          (socketDriver.start ⟨⟨0, 0⟩, ⟨0, 0⟩, 0⟩ (⟨100, 64⟩, ⟨200, 64⟩)) [.read 65536 64] ↔
        EachRead FitsSocket (⟨100, 64⟩, ⟨200, 64⟩) [.read 65536 64]) ∧
      (Along ttyDriver.step ttyDriver.OfferInside (ttyDriver.start 0 ⟨100, 65536⟩)
          [.read 65536 10] ↔
        EachRead FitsTty ⟨100, 65536⟩ [.read 65536 10]) :=
  readsInside_iff (r := ⟨⟨⟨100, 64⟩, ⟨200, 64⟩, 64⟩, ⟨100, 64⟩, ⟨200, 64⟩⟩)
    (t := ⟨100, ⟨100, 65536⟩⟩) (by decide) (by decide)

/-- Ten bytes in and twenty out: the read is offered twenty.  A terminal with a page: it is offered
    all that libuv suggests. -/
theorem not_readsInside_longer :
    (∃ r, run socketDriver.step (socketDriver.start ⟨⟨0, 0⟩, ⟨0, 0⟩, 0⟩ (⟨100, 10⟩, ⟨200, 20⟩))
        [.read 65536 20] = some r) ∧
      ¬ Along socketDriver.step socketDriver.OfferInside
        (socketDriver.start ⟨⟨0, 0⟩, ⟨0, 0⟩, 0⟩ (⟨100, 10⟩, ⟨200, 20⟩)) [.read 65536 20] ∧
      (∃ t, run ttyDriver.step (ttyDriver.start 0 ⟨100, 4096⟩) [.read 65536 5000] = some t) ∧
      ¬ Along ttyDriver.step ttyDriver.OfferInside (ttyDriver.start 0 ⟨100, 4096⟩)
        [.read 65536 5000] := by
  refine ⟨⟨_, rfl⟩, by decide, ⟨_, rfl⟩, by decide⟩

end Dv8.Uv
