import Dv8.Ipc.RoundTrip
import Dv8.Lib.Prefix
import Dv8.Socket.WritePath

namespace Dv8.Ipc

open Dv8.Lib Dv8.V8 Dv8.Builtins Dv8.Uv

/-!
# The channel between a process and a worker

`process.spawn` with `ipc` puts a `Parser` over a `Socket` at both ends of a pair of sockets.
`send` and `sendString` write a frame to the out buffer and hand it to `Socket::Write`; what the
socket reads goes to `Parser.read`, which calls `onMessage`.

The two ends are a machine: JavaScript at either end sends or does something else to its socket,
libuv goes on with what is queued, and an end reads some of the bytes that the kernel has taken
from the other end, in any order.

* `Carries` — the invariant for one direction: the frames of the messages that were accepted are
  the bytes that have been taken or are queued, and `onMessage` has been called as the bytes that
  have been read say;
* `messages_arrive` — the messages seen are the accepted ones whose last byte has been read, each
  once and in order.
-/

variable {ω : Type}

/-- The two ends. -/
inductive Side where
  | process | worker
  deriving DecidableEq, Repr

def Side.other : Side → Side
  | .process => .worker
  | .worker => .process

/-- One end: its socket, whose out buffer is `wb`, and its parser. -/
structure Endpoint (ω : Type) where
  process : Process
  sock : Socket.Sock
  rb : List UInt8
  parser : Parser := {}
  /-- the calls of `onMessage` -/
  seen : List Message := []
  /-- the calls of `send`, and what `sock.write` returned -/
  sends : List (Outgoing ω × Int) := []
  /-- how many bytes have been read -/
  consumed : Nat := 0

abbrev Link (ω : Type) := Side → Endpoint ω

/-- What can happen at one end. -/
inductive Act (ω : Type) where
  /-- JavaScript calls `send` or `sendString` -/
  | send (o : Outgoing ω) (tried queued : Answer)
  /-- the socket reads -/
  | read (n : Nat)
  /-- anything else that happens to the socket -/
  | sock (a : Socket.Act)

/-- `sock.write(parser.write(o))`.  When `write` throws nothing is sent; all it may have done is to
    fill the out buffer. -/
def Endpoint.send (stringify : ω → Option JsString) (e : Endpoint ω) (o : Outgoing ω)
    (tried queued : Answer) : Option (Endpoint ω) :=
  (Parser.write stringify e.process e.sock.ctx.out o 0).bind fun (wb, n) =>
    let sock := { e.sock with ctx := { e.sock.ctx with out := wb } }
    (Socket.step sock (.write n 0 tried queued)).bind fun sock =>
      sock.calls.getLast?.map fun call =>
        { e with sock := sock, sends := e.sends ++ [(o, call.result)] }

/-- `after_read` with the next `n` bytes of the other end, and `parser.read(n)`. -/
def Endpoint.read (e : Endpoint ω) (wire : List UInt8) (n : Nat) : Option (Endpoint ω) :=
  if e.consumed + n ≤ wire.length then
    (Socket.step e.sock (.readData n)).bind fun sock =>
      (writeAt e.rb 0 ((wire.drop e.consumed).take n)).bind fun rb =>
        (e.parser.read returns rb e.seen n).map fun r =>
          { e with sock := sock, rb := rb, parser := r.parser, seen := r.seen
                   consumed := e.consumed + n }
  else none

/-- The actions that neither read data nor call `Socket::Write`. -/
def isOther : Socket.Act → Bool
  | .write .. | .readData _ => false
  | _ => true

/-- What an end does; `wire` are the bytes that the kernel has taken from the other end. -/
def Endpoint.step (stringify : ω → Option JsString) (e : Endpoint ω) (wire : List UInt8) :
    Act ω → Option (Endpoint ω)
  | .send o tried queued => e.send stringify o tried queued
  | .read n => e.read wire n
  | .sock a =>
    if isOther a then (Socket.step e.sock a).map fun sock => { e with sock := sock } else none

/-- One step, at one end. -/
def Link.step (stringify : ω → Option JsString) (l : Link ω) (m : Side × Act ω) :
    Option (Link ω) :=
  ((l m.1).step stringify (l m.1.other).sock.handle.sent m.2).map (Function.update l m.1)

/-- The channel when both sockets are open and `onRead` and `onEnd` are set. -/
def Link.opened (process : Side → Process) (rb wb : Side → List UInt8) : Link ω := fun s =>
  { process := process s
    sock := Socket.Sock.connected (wb s) { onRead := true, onEnd := true } false
    rb := rb s }

/-- The messages that were sent and not refused. -/
def Endpoint.accepted (e : Endpoint ω) : List (Outgoing ω) :=
  (e.sends.filter fun m => 0 ≤ m.2).map Prod.fst

/-- The size of the frame of a message. -/
def Outgoing.size (stringify : ω → Option JsString) (o : Outgoing ω) : Nat :=
  (o.text stringify).elim 0 List.length + 4

/-- The message the other end is to see. -/
def Outgoing.received (stringify : ω → Option JsString) (proc : Process) (o : Outgoing ω) :
    Option Message :=
  (o.text stringify).map (o.message proc none)

/-- A message with a text that can be sent, and no system call fails; and no queued byte is
    cancelled. -/
def Act.Fine (stringify : ω → Option JsString) (e : Endpoint ω) : Act ω → Prop
  | .send o tried queued => tried.isError = false ∧ queued.isError = false ∧
      ∃ text, Sendable stringify e.sock.ctx.out.length o text
  | .read _ => True
  | .sock a => ¬ Socket.Fails e.sock a

instance (stringify : ω → Option JsString) (n : Nat) (o : Outgoing ω) :
    Decidable (∃ text, Sendable stringify n o text) :=
  match h : o.text stringify with
  | none => isFalse fun ⟨_, hs⟩ => by
      rw [hs.text_eq] at h
      contradiction
  | some text =>
    decidable_of_iff
      (IsAscii text ∧ 1 ≤ text.length ∧ text.length ≤ 0xFFFF ∧ text.length + 4 ≤ n)
      ⟨fun ⟨hascii, hpos, hle, hfits⟩ => ⟨text, h, hascii, hpos, hle, hfits⟩,
        fun ⟨_, hs⟩ => by
          obtain rfl := Option.some.inj (h.symm.trans hs.text_eq)
          exact ⟨hs.ascii, hs.pos, hs.le, hs.fits⟩⟩

instance (stringify : ω → Option JsString) (e : Endpoint ω) (a : Act ω) :
    Decidable (a.Fine stringify e) := by
  cases a <;> unfold Act.Fine <;> infer_instance

/-! ### The invariant -/

/-- The bytes of the calls that were accepted are the frames of the messages that were. -/
def Framed (stringify : ω → Option JsString) (e : Endpoint ω) : Prop :=
  ∃ fs : List Frame, (∀ f ∈ fs, (∀ c ∈ f.text, c.toNat ≤ 0x7F) ∧ f.text ≠ []) ∧
    Socket.accepted e.sock.calls = streamBytes fs ∧
    fs.map (fun f => (f.bytes.length, some (f.message none))) =
      e.accepted.map fun o => (o.size stringify, o.received stringify e.process)

/-- The parser has been given the first bytes of the wire, in some chunks. -/
structure Arrived (wire : List UInt8) (e : Endpoint ω) : Prop where
  int : e.rb.length < 2 ^ 31
  wf : e.parser.WF
  le : e.consumed ≤ wire.length
  reads : ∃ chunks : List (List UInt8), chunks.flatten = wire.take e.consumed ∧
    ({} : Parser).cursor.run (ofChunks chunks) = (e.parser.cursor, e.seen)

/-- The invariant of the direction from the end `s` to the other one. -/
structure Carries (stringify : ω → Option JsString) (s : Side) (l : Link ω) : Prop where
  output : (l s).sock.handle.output = Socket.accepted (l s).sock.calls
  framed : Framed stringify (l s)
  arrived : Arrived (l s).sock.handle.sent (l s.other)

/-! ### The sending end -/

variable {stringify : ω → Option JsString} {e e' : Endpoint ω} {wire wire' : List UInt8}

theorem send_cases {o : Outgoing ω} {tried queued : Answer}
    (h : e.send stringify o tried queued = some e') :
    ∃ wb n sock call, Parser.write stringify e.process e.sock.ctx.out o 0 = some (wb, n) ∧
      Socket.step { e.sock with ctx := { e.sock.ctx with out := wb } } (.write n 0 tried queued) =
        some sock ∧
      sock.calls.getLast? = some call ∧
      e' = { e with sock := sock, sends := e.sends ++ [(o, call.result)] } := by
  obtain ⟨⟨wb, n⟩, hwrite, h⟩ := Option.bind_eq_some_iff.mp h
  obtain ⟨sock, hstep, h⟩ := Option.bind_eq_some_iff.mp h
  obtain ⟨call, hcall, rfl⟩ := Option.map_eq_some_iff.mp h
  exact ⟨wb, n, sock, call, hwrite, hstep, hcall, rfl⟩

theorem read_cases {n : Nat} (h : e.read wire n = some e') :
    e.consumed + n ≤ wire.length ∧
      ∃ sock rb r, Socket.step e.sock (.readData n) = some sock ∧
        writeAt e.rb 0 ((wire.drop e.consumed).take n) = some rb ∧
        e.parser.read returns rb e.seen n = some r ∧
        e' = { e with sock := sock, rb := rb, parser := r.parser, seen := r.seen
                      consumed := e.consumed + n } := by
  obtain ⟨hle, h⟩ := Option.ite_none_right_eq_some.mp h
  obtain ⟨sock, hstep, h⟩ := Option.bind_eq_some_iff.mp h
  obtain ⟨rb, hrb, h⟩ := Option.bind_eq_some_iff.mp h
  obtain ⟨r, hr, rfl⟩ := Option.map_eq_some_iff.mp h
  exact ⟨hle, sock, rb, r, hstep, hrb, hr, rfl⟩

theorem sock_cases {a : Socket.Act} (h : e.step stringify wire (.sock a) = some e') :
    isOther a = true ∧ ∃ sock, Socket.step e.sock a = some sock ∧ e' = { e with sock := sock } := by
  obtain ⟨hother, h⟩ := Option.ite_none_right_eq_some.mp h
  obtain ⟨sock, hstep, rfl⟩ := Option.map_eq_some_iff.mp h
  exact ⟨hother, sock, hstep, rfl⟩

theorem accepted_send (e : Endpoint ω) (sock : Socket.Sock) (o : Outgoing ω) (result : Int) :
    Endpoint.accepted { e with sock := sock, sends := e.sends ++ [(o, result)] } =
      e.accepted ++ if 0 ≤ result then [o] else [] := by
  by_cases h : 0 ≤ result <;> simp [Endpoint.accepted, h]

/-- An accepted call of `send` puts one frame behind the others; a refused one does nothing. -/
theorem send_output {o : Outgoing ω} {tried queued : Answer}
    (h : e.send stringify o tried queued = some e')
    (hfine : (Act.send o tried queued).Fine stringify e)
    (hout : e.sock.handle.output = Socket.accepted e.sock.calls) (hframed : Framed stringify e) :
    e'.sock.handle.output = Socket.accepted e'.sock.calls ∧ Framed stringify e' := by
  obtain ⟨ht, hq, text, hsend⟩ := hfine
  obtain ⟨wb, n, sock, call, hwrite, hstep, hcall, rfl⟩ := send_cases h
  -- what `Parser.write` leaves at the start of the out buffer is a frame
  obtain ⟨f, hascii, hne, hbytes, hmessage⟩ := exists_frame e.process hsend
  obtain ⟨wb', hwrite', -, hframe⟩ := write_sendable e.process hsend
  obtain ⟨rfl, rfl⟩ : wb' = wb ∧ text.length + 4 = n := by
    simpa using hwrite'.symm.trans hwrite
  rw [← hbytes] at hframe
  have hsock := Socket.step_write hstep
  obtain ⟨bytes, result, hread, hcalls, houtput⟩ := Socket.write_output hsock ht hq
  obtain rfl : bytes = f.bytes := Option.some.inj (hread.symm.trans hframe)
  obtain rfl : call = ⟨f.bytes, result⟩ := by
    rw [hcalls, List.getLast?_append] at hcall
    exact (Option.some.inj hcall).symm
  have hcalls' : Socket.accepted sock.calls =
      Socket.accepted e.sock.calls ++ if 0 ≤ result then f.bytes else [] := by
    rw [hcalls]
    exact Socket.accepted_snoc ..
  refine ⟨?_, ?_⟩
  · show sock.handle.output = Socket.accepted sock.calls
    rw [houtput, hcalls', ← hout]
  · obtain ⟨fs, hfs, hstream, hmap⟩ := hframed
    unfold Framed
    rw [accepted_send]
    show ∃ fs : List Frame, _ ∧ Socket.accepted sock.calls = _ ∧ _
    rw [hcalls']
    by_cases hresult : 0 ≤ result
    · have hlength : f.bytes.length = o.size stringify := by
        rw [hbytes]
        simp [Outgoing.size, hsend.text_eq, asciiBytes]
        omega
      refine ⟨fs ++ [f], ?_, ?_, ?_⟩
      · intro g hg
        rcases List.mem_append.mp hg with hg | hg
        · exact hfs g hg
        · obtain rfl := List.mem_singleton.mp hg
          exact ⟨hascii, hne⟩
      · rw [if_pos hresult, streamBytes_append, hstream, streamBytes_cons, streamBytes_nil,
          List.append_nil]
      · have hreceived : o.received stringify e.process = some (o.message e.process none text) := by
          rw [Outgoing.received, hsend.text_eq]
          rfl
        simp [hresult, hmap, hlength, hmessage, hreceived]
    · exact ⟨fs, hfs, by rw [if_neg hresult, List.append_nil, hstream],
        by simpa [hresult] using hmap⟩

/-- Whatever an end does, its accepted messages are the bytes it has put out. -/
theorem step_output {a : Act ω} (h : e.step stringify wire a = some e') (hfine : a.Fine stringify e)
    (hout : e.sock.handle.output = Socket.accepted e.sock.calls) (hframed : Framed stringify e) :
    e'.sock.handle.output = Socket.accepted e'.sock.calls ∧ Framed stringify e' := by
  have hquiet : ∀ {b sock}, isOther b = true ∨ (∃ n, b = .readData n) →
      ¬ Socket.Fails e.sock b → Socket.step e.sock b = some sock →
      sock.handle.output = Socket.accepted sock.calls ∧ sock.calls = e.sock.calls := by
    intro b sock hb hno hstep
    refine ⟨Socket.step_output hout hno hstep, Socket.step_calls ?_ hstep⟩
    rintro len off tried queued rfl
    rcases hb with hb | ⟨n, hb⟩ <;> cases hb
  cases a with
  | send o tried queued => exact send_output h hfine hout hframed
  | read n =>
    obtain ⟨-, sock, rb, r, hstep, -, -, rfl⟩ := read_cases h
    have hno : ¬ Socket.Fails e.sock (.readData n) := by
      rintro (hfail | ⟨hfail, -⟩) <;> cases hfail
    obtain ⟨houtput, hcalls⟩ := hquiet (.inr ⟨n, rfl⟩) hno hstep
    refine ⟨houtput, ?_⟩
    unfold Framed at hframed ⊢
    rw [← hcalls] at hframed
    exact hframed
  | sock b =>
    obtain ⟨hother, sock, hstep, rfl⟩ := sock_cases h
    obtain ⟨houtput, hcalls⟩ := hquiet (.inl hother) hfine hstep
    refine ⟨houtput, ?_⟩
    unfold Framed at hframed ⊢
    rw [← hcalls] at hframed
    exact hframed

/-- What the kernel has taken from an end, it has for good. -/
theorem step_sent {a : Act ω} (h : e.step stringify wire a = some e') :
    e.sock.handle.sent <+: e'.sock.handle.sent := by
  cases a with
  | send o tried queued =>
    obtain ⟨wb, n, sock, call, -, hstep, -, rfl⟩ := send_cases h
    have hsent := Socket.step_sent hstep
    exact hsent
  | read n =>
    obtain ⟨-, sock, rb, r, hstep, -, -, rfl⟩ := read_cases h
    exact Socket.step_sent hstep
  | sock b =>
    obtain ⟨-, sock, hstep, rfl⟩ := sock_cases h
    exact Socket.step_sent hstep

theorem step_process {a : Act ω} (h : e.step stringify wire a = some e') :
    e'.process = e.process := by
  cases a with
  | send o tried queued =>
    obtain ⟨wb, n, sock, call, -, -, -, rfl⟩ := send_cases h
    rfl
  | read n =>
    obtain ⟨-, sock, rb, r, -, -, -, rfl⟩ := read_cases h
    rfl
  | sock b =>
    obtain ⟨-, sock, -, rfl⟩ := sock_cases h
    rfl

/-! ### The receiving end -/

/-- More bytes are on the wire. -/
theorem Arrived.mono (h : Arrived wire e) (hwire : wire <+: wire') : Arrived wire' e := by
  obtain ⟨chunks, hchunks, hrun⟩ := h.reads
  obtain ⟨rest, rfl⟩ := hwire
  refine ⟨h.int, h.wf, ?_, chunks, ?_, hrun⟩
  · rw [List.length_append]
    exact Nat.le_add_right_of_le h.le
  · rw [hchunks, List.take_append_of_le_length h.le]

/-- A read hands the parser the next chunk. -/
theorem Arrived.read {n : Nat} (harr : Arrived wire e) (h : e.read wire n = some e') :
    Arrived wire e' := by
  obtain ⟨hle, sock, rb, r, -, hrb, hr, rfl⟩ := read_cases h
  obtain ⟨chunks, hchunks, hrun⟩ := harr.reads
  have hlength : ((wire.drop e.consumed).take n).length = n := by
    rw [List.length_take, List.length_drop]
    omega
  obtain ⟨hfit, hrb'⟩ := writeAt_eq_some_iff.mp hrb
  rw [hlength, Nat.zero_add] at hfit
  rw [List.take_zero, List.nil_append, hlength] at hrb'
  have hint := harr.int
  obtain ⟨p', hwf, hcursor, hread⟩ := read_eq_run (e.rb.drop (0 + n))
    (by rw [hlength]; omega) harr.wf e.seen
  rw [hlength, ← hrb', hr] at hread
  obtain rfl := Option.some.inj hread
  refine ⟨?_, hwf, hle, chunks ++ [(wire.drop e.consumed).take n], ?_, ?_⟩
  · show rb.length < 2 ^ 31
    rw [writeAt_length hrb]
    exact hint
  · rw [List.flatten_append, hchunks, List.flatten_singleton, List.take_add]
  · rw [ofChunks_append, Cursor.run_append, hrun, ofChunks_cons, ofChunks_nil, hcursor]

theorem step_arrived {a : Act ω} (harr : Arrived wire e) (h : e.step stringify wire a = some e') :
    Arrived wire e' := by
  cases a with
  | send o tried queued =>
    obtain ⟨wb, n, sock, call, -, -, -, rfl⟩ := send_cases h
    exact ⟨harr.int, harr.wf, harr.le, harr.reads⟩
  | read n => exact harr.read h
  | sock b =>
    obtain ⟨-, sock, -, rfl⟩ := sock_cases h
    exact ⟨harr.int, harr.wf, harr.le, harr.reads⟩

/-- Of ASCII frames the messages have been seen whose last byte has been read. -/
theorem Arrived.seen {fs : List Frame} {rest : List UInt8}
    (hfs : ∀ f ∈ fs, (∀ c ∈ f.text, c.toNat ≤ 0x7F) ∧ f.text ≠ []) (harr : Arrived wire e)
    (hwire : wire ++ rest = streamBytes fs) : e.seen = deliveredBy none fs e.consumed := by
  obtain ⟨chunks, hchunks, hrun⟩ := harr.reads
  have hflat : (ofChunks chunks).reduceOption = wire.take e.consumed := by
    rw [reduceOption_ofChunks, hchunks]
  have hlength : (ofChunks chunks).reduceOption.length = e.consumed := by
    rw [hflat, List.length_take, Nat.min_eq_left harr.le]
  have hstream : (ofChunks chunks).reduceOption ++ (wire.drop e.consumed ++ rest) =
      streamBytes fs ++ [] := by
    rw [hflat, ← List.append_assoc, List.take_append_drop, List.append_nil, hwire]
  have hidle := idle_start (p := {}) rfl
  have hdelivered := (hidle.delivered_iff fs hstream (Or.inl (by decide))).mpr ⟨?_, ?_⟩
  · rw [hrun, hlength] at hdelivered
    exact hdelivered
  · refine allCuts_of_forall fun k _ => ?_
    rintro ⟨pre, f, post, rfl, -, -, hsplit⟩
    exact not_inside_ascii (hfs f (by simp)).1 _ hsplit.2
  · rintro ⟨pre, f, post, rfl, htext, -⟩
    exact (hfs f (by simp)).2 htext

theorem deliveredBy_eq_complete (offset : Option Nat) (fs : List Frame) (n : Nat) :
    deliveredBy offset fs n =
      (complete (fun f => f.bytes.length) fs n).map (Frame.message · offset) := by
  induction fs generalizing n with
  | nil => rfl
  | cons f fs ih =>
    unfold deliveredBy complete
    split
    · rw [ih, List.map_cons]
    · rfl

/-! ### Runs -/

theorem Side.other_other (s : Side) : s.other.other = s := by cases s <;> rfl

theorem Side.other_ne (s : Side) : s.other ≠ s := by cases s <;> decide

theorem Side.eq_or_eq_other (s t : Side) : t = s ∨ t = s.other := by
  cases s <;> cases t <;> decide

/-- **One step**, at either end. -/
theorem step_carries {l l' : Link ω} {s : Side} {m : Side × Act ω} (hl : Carries stringify s l)
    (hfine : m.1 = s → m.2.Fine stringify (l s)) (h : l.step stringify m = some l') :
    Carries stringify s l' ∧ (l' s).process = (l s).process := by
  obtain ⟨t, a⟩ := m
  obtain ⟨e, hstep, rfl⟩ := Option.map_eq_some_iff.mp h
  rcases s.eq_or_eq_other t with rfl | rfl
  · -- the sending end
    obtain ⟨houtput, hframed⟩ := step_output hstep (hfine rfl) hl.output hl.framed
    refine ⟨⟨?_, ?_, ?_⟩, ?_⟩
    · rwa [Function.update_self]
    · rwa [Function.update_self]
    · rw [Function.update_self, Function.update_of_ne t.other_ne]
      exact hl.arrived.mono (step_sent hstep)
    · rw [Function.update_self]
      exact step_process hstep
  · -- the receiving end
    simp only [Side.other_other] at hstep
    have hsender : Function.update l s.other e s = l s := Function.update_of_ne s.other_ne.symm ..
    refine ⟨⟨?_, ?_, ?_⟩, ?_⟩
    · rw [hsender]
      exact hl.output
    · rw [hsender]
      exact hl.framed
    · rw [hsender, Function.update_self]
      exact step_arrived hl.arrived hstep
    · rw [hsender]

theorem opened_carries {process : Side → Process} {rb wb : Side → List UInt8} {s : Side}
    (hrb : (rb s.other).length < 2 ^ 31) :
    Carries stringify s (Link.opened process rb wb : Link ω) where
  output := rfl
  framed := ⟨[], by simp, rfl, rfl⟩
  arrived := ⟨hrb, Parser.wf_of_lt (p := {}) (by decide), Nat.zero_le _, [], rfl, rfl⟩

/-- **Messages arrive in order, each once.**  The two ends do what they want, the kernel takes and
    delivers bytes in any pieces.  If the messages of one end can be sent and its system calls do
    not fail, then the other end has seen its accepted messages up to the last whose bytes have
    all been read, and has seen all of them when nothing is queued and everything has been read. -/
theorem messages_arrive {process : Side → Process} {rb wb : Side → List UInt8} {s : Side}
    (hrb : (rb s.other).length < 2 ^ 31) {acts : List (Side × Act ω)} {l : Link ω}
    (hfine : Along (Link.step stringify) (fun l m => m.1 = s → m.2.Fine stringify (l s))
      (Link.opened process rb wb) acts)
    (hrun : run (Link.step stringify) (Link.opened process rb wb) acts = some l) :
    (l s.other).seen = (complete (Outgoing.size stringify) (l s).accepted
        (l s.other).consumed).filterMap (Outgoing.received stringify (process s)) ∧
      ((l s).sock.handle.writeQueue.flatMap WriteReq.left = [] →
        (l s.other).consumed = (l s).sock.handle.sent.length →
        (l s.other).seen = (l s).accepted.filterMap (Outgoing.received stringify (process s))) := by
  obtain ⟨hl, hprocess⟩ := run_invariant_along
    (I := fun l => Carries stringify s l ∧ (l s).process = process s)
    (fun l m l' hl hm hstep => by
      obtain ⟨hcarries, hsame⟩ := step_carries hl.1 hm hstep
      exact ⟨hcarries, hsame.trans hl.2⟩)
    ⟨opened_carries hrb, rfl⟩ hfine hrun
  obtain ⟨fs, hfs, hstream, hmap⟩ := hl.framed
  rw [hprocess] at hmap
  have hwire : (l s).sock.handle.sent ++ (l s).sock.handle.writeQueue.flatMap WriteReq.left =
      streamBytes fs := hl.output.trans hstream
  have hreceived : ∀ os : List (Outgoing ω), ∀ gs : List Frame,
      gs.map (fun f => some (f.message none)) = os.map (Outgoing.received stringify (process s)) →
      os.filterMap (Outgoing.received stringify (process s)) = gs.map (Frame.message · none) := by
    intro os gs heq
    calc os.filterMap (Outgoing.received stringify (process s))
        = (os.map (Outgoing.received stringify (process s))).filterMap id := by
          rw [List.filterMap_map]
          rfl
      _ = gs.map (Frame.message · none) := by
          rw [← heq, List.filterMap_map]
          simp
  have hnow := hl.arrived.seen hfs hwire
  constructor
  · rw [hnow, deliveredBy_eq_complete]
    exact (hreceived _ _ (map_complete hmap _)).symm
  · intro hqueue hall
    rw [hqueue, List.append_nil] at hwire
    rw [hnow, hall, hwire, deliveredBy_all]
    refine (hreceived _ _ ?_).symm
    simpa [Function.comp_def] using congrArg (List.map Prod.snd) hmap

/-- The worker sends `"hi"`, in two pieces; the process answers `"ok"` while the message is
    handled. -/
def hiAndOk : List (Side × Act Unit) :=
  [(.worker, .sock .enter), (.worker, .send (.string (utf16 ['h', 'i'])) (.wrote 3) .again),
    (.worker, .sock .ret), (.process, .read 2), (.process, .sock .ret),
    (.worker, .sock (.ioWrite (.wrote 3))), (.process, .read 4),
    (.process, .send (.string (utf16 ['o', 'k'])) (.wrote 6) .again)]

theorem messages_arrive_hiAndOk :
    ∃ l, run (Link.step fun _ => none)
        (Link.opened (fun _ => ⟨9, 0⟩) (fun _ => List.replicate 8 0) fun _ => List.replicate 8 0)
        hiAndOk = some l ∧
      (l .process).seen = [Outgoing.message ⟨9, 0⟩ none
        (.string (utf16 ['h', 'i']) : Outgoing Unit) (utf16 ['h', 'i'])] := by
  have harrive := @messages_arrive Unit (fun _ => none) (fun _ => ⟨9, 0⟩)
    (fun _ => List.replicate 8 0) (fun _ => List.replicate 8 0) .worker (by decide) hiAndOk _
    (by decide) rfl
  exact ⟨_, rfl, harrive.2 (by decide) (by decide)⟩

end Dv8.Ipc
