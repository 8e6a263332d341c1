import Dv8.Ipc.Resume
import Dv8.Ipc.Stream
import Dv8.Lib.Machine

namespace Dv8.Ipc

open Dv8.Lib Dv8.V8 Dv8.Builtins

/-!
# A handler that throws

`Parser.read` works on copies of its position and stores them when the loop is done, and it calls
`onMessage` before it steps over the frame.  When the handler throws, `after_read` of the socket
reports the exception and keeps reading: the rest of the chunk is never looked at, and the next
chunk is read from the position the last one *started* at, with the message object of the frame
that was delivered.

* `read_throws` — what a call leaves when the handler throws, beside what it would have left;
* `inStep_iff_along` — the reader stays in step with one whose handler never throws exactly when
  every throw is harmless: what is behind the frame in its chunk repeats the frame up to the
  position the chunk started at.
-/

/-! ### One turn -/

/-- What a turn with any handler makes of a turn with one that returns. -/
private def Vars.thrown (throws : List Message → Bool) (v : Vars) (r : Vars × Bool) : Vars × Bool :=
  if r.1.seen ≠ v.seen ∧ throws r.1.seen then
    ({ v with message := r.1.message, seen := r.1.seen }, true)
  else r

private theorem Vars.thrown_of_seen {throws : List Message → Bool} {v : Vars} {r : Vars × Bool}
    (h : r.1.seen = v.seen) : v.thrown throws r = r :=
  if_neg fun hr => hr.1 h

/-- The end of a turn that delivers. -/
private theorem Vars.delivered_throws (throws : List Message → Bool) (v : Vars) (m : Message)
    (toread : Int) :
    ({ v with message := m } : Vars).delivered throws toread
      = v.thrown throws (({ v with message := m } : Vars).delivered returns toread) := by
  have hne : v.seen ++ [m] ≠ v.seen := by simp
  unfold Vars.delivered Vars.onMessage returns
  by_cases hthrow : throws (v.seen ++ [m]) = true
  · by_cases hneg : (v.off : Int) + toread < 0
    · simp [hthrow, hneg, Vars.thrown, hne]
    · simp [hthrow, hneg, Vars.thrown, hne]
  · by_cases hneg : (v.off : Int) + toread < 0
    · simp [hthrow, hneg, Vars.thrown]
    · simp [hthrow, hneg, Vars.thrown]

/-- **A turn with any handler** is a turn with one that returns, but where the handler throws
    the turn has neither moved on nor reset the position. -/
private theorem turn_throws (throws : List Message → Bool) (rb : List UInt8) (len : Nat)
    (v : Vars) :
    turn throws rb len v = (turn returns rb len v).map (v.thrown throws) := by
  -- only a turn that delivers looks at the handler
  have hquiet (o : Option (Vars × Bool)) (ho : ∀ r ∈ o, r.1.seen = v.seen) :
      o = o.map (v.thrown throws) := by
    cases o with
    | none => rfl
    | some r => rw [Option.map_some, Vars.thrown_of_seen (ho r rfl)]
  have hheader (f : UInt8 → Vars) (hf : ∀ b, (f b).seen = v.seen) :
      ((DataView.getUint8 rb v.off).map fun b => (f b, false))
        = ((DataView.getUint8 rb v.off).map fun b => (f b, false)).map (v.thrown throws) := by
    apply hquiet
    intro r hr
    obtain ⟨b, -, rfl⟩ := Option.mem_map.mp hr
    exact hf b
  unfold turn
  by_cases h₀ : v.position = 0
  · rw [if_pos h₀, if_pos h₀]
    exact hheader _ fun _ => rfl
  by_cases h₁ : v.position = 1
  · rw [if_neg h₀, if_neg h₀, if_pos h₁, if_pos h₁]
    exact hheader _ fun _ => rfl
  by_cases h₂ : v.position = 2
  · rw [if_neg h₀, if_neg h₀, if_neg h₁, if_neg h₁, if_pos h₂, if_pos h₂]
    exact hheader _ fun _ => rfl
  by_cases h₃ : v.position = 3
  · rw [if_neg h₀, if_neg h₀, if_neg h₁, if_neg h₁, if_neg h₂, if_neg h₂, if_pos h₃, if_pos h₃]
    exact hheader _ fun _ => rfl
  simp only [if_neg h₀, if_neg h₁, if_neg h₂, if_neg h₃]
  generalize (v.message.length : Int) - ((v.position : Int) - 4) = toread
  by_cases hrest : toread + v.off > len
  · simp only [if_pos hrest]
    apply hquiet
    intro r hr
    by_cases hop : v.message.opCode ≠ 3
    · rw [if_pos hop] at hr
      obtain ⟨text, -, rfl⟩ := Option.mem_map.mp hr
      rfl
    · rw [if_neg hop] at hr
      cases hr
      rfl
  · simp only [if_neg hrest]
    by_cases hop : v.message.opCode ≠ 3
    · rw [if_pos hop, if_pos hop, Option.map_map]
      refine congrArg (Option.map · _) (funext fun text => ?_)
      exact Vars.delivered_throws throws v _ toread
    · rw [if_neg hop, if_neg hop, Option.map_some]
      exact congrArg some (Vars.delivered_throws throws v _ toread)

/-- The first message of a chunk on which the handler throws, and what is behind its frame. -/
def Cursor.firstThrow (throws : List Message → Bool) (c : Cursor) (seen : List Message) :
    List UInt8 → Option (Message × List UInt8)
  | [] => none
  | b :: bs =>
    match (c.event (some b)).2 with
    | [] => (c.event (some b)).1.firstThrow throws seen bs
    | m :: _ =>
      if throws (seen ++ [m]) then some (m, if c.due then b :: bs else bs)
      else (c.event (some b)).1.firstThrow throws (seen ++ [m]) bs

theorem Cursor.firstThrow_quiet {throws : List Message → Bool} {c : Cursor} {b : UInt8}
    (h : (c.event (some b)).2 = []) (seen : List Message) (bs : List UInt8) :
    c.firstThrow throws seen (b :: bs) = (c.event (some b)).1.firstThrow throws seen bs := by
  simp only [firstThrow, h]

theorem Cursor.firstThrow_loud {throws : List Message → Bool} {c : Cursor} {b : UInt8} {m : Message}
    (h : (c.event (some b)).2 = [m]) (seen : List Message) (bs : List UInt8) :
    c.firstThrow throws seen (b :: bs) =
      if throws (seen ++ [m]) then some (m, if c.due then b :: bs else bs)
      else (c.event (some b)).1.firstThrow throws (seen ++ [m]) bs := by
  simp only [firstThrow, h]

/-- A header byte delivers nothing. -/
theorem Cursor.firstThrow_header {throws : List Message → Bool} {c : Cursor} (h : c.position < 4)
    (hp : c.piece = []) (seen : List Message) (b : UInt8) (bs : List UInt8) :
    c.firstThrow throws seen (b :: bs) = (c.byte b).firstThrow throws seen bs := by
  have hevent := event_header h hp b
  rw [firstThrow_quiet (by rw [hevent]), hevent]

/-- Payload bytes that do not complete the frame deliver nothing. -/
theorem Cursor.firstThrow_piece {throws : List Message → Bool} {c : Cursor} (h : 4 ≤ c.position)
    (seen : List Message) (xs ys : List UInt8)
    (hxs : c.position + c.piece.length + xs.length < c.message.length + 4) :
    c.firstThrow throws seen (xs ++ ys) = (c.push xs).firstThrow throws seen ys := by
  induction xs generalizing c with
  | nil => simp [push]
  | cons b xs ih =>
    rw [List.length_cons] at hxs
    have hevent : c.event (some b) = (c.push [b], []) := by
      have hone := run_piece h [b] (by rw [List.length_singleton]; omega)
      rwa [List.map_singleton, run_cons, run_nil, List.append_nil] at hone
    rw [List.cons_append, firstThrow_quiet (by rw [hevent]), hevent,
      ih (c := c.push [b]) h (by
        rw [push_position, push_message, push_piece, List.length_append, List.length_singleton]
        omega), push_push]
    rfl

/-- The end of a frame, in the bytes or right before them: the handler throws on it or not. -/
theorem Cursor.firstThrow_complete {throws : List Message → Bool} {c : Cursor}
    (h : 4 ≤ c.position) (hp : c.piece = []) (seen : List Message) {xs ys : List UInt8}
    (hne : xs ++ ys ≠ []) (hxs : c.position + xs.length = c.message.length + 4) :
    c.firstThrow throws seen (xs ++ ys) =
      if throws (seen ++ (c.push xs).deliver.2) then some ((c.push xs).completed, ys)
      else (c.push xs).deliver.1.firstThrow throws (seen ++ (c.push xs).deliver.2) ys := by
  rcases List.eq_nil_or_concat xs with rfl | ⟨zs, b, rfl⟩
  · -- a frame without payload: its message comes out before the next byte
    rw [List.nil_append] at hne
    obtain ⟨b, bs, rfl⟩ := List.exists_cons_of_ne_nil hne
    have hdue : c.due := by
      rw [due_iff h, hp]
      exact Nat.le_of_eq hxs.symm
    have hpush : c.push [] = c := by
      rw [push, List.append_nil]
      rfl
    have hevent : c.event (some b) = (c.deliver.1.byte b, [c.completed]) := if_pos hdue
    rw [List.nil_append, firstThrow_loud (by rw [hevent]), if_pos hdue, hevent, hpush,
      firstThrow_header (c := c.deliver.1) (show 0 < 4 by omega) rfl]
    rfl
  · rw [List.concat_eq_append, List.length_append, List.length_singleton] at hxs
    have hdue : ¬ (c.push zs).due := by
      rw [due_push h, hp, List.length_nil]
      omega
    have hevent : (c.push zs).event (some b) = (c.push (zs ++ [b])).deliver := by
      have hlast := run_complete (c := c.push zs) h (List.cons_ne_nil b []) (by
        rw [push_position, push_piece, push_message, hp, List.nil_append, List.length_singleton]
        omega)
      rwa [List.map_singleton, run_cons, run_nil, List.append_nil, push_push] at hlast
    rw [List.concat_eq_append, List.append_assoc, firstThrow_piece h seen zs _ (by
      rw [hp, List.length_nil]
      omega), List.singleton_append, firstThrow_loud (by rw [hevent]; rfl), if_neg hdue, hevent]
    rfl

/-! ### The loop -/

/-- What a turn delivers is what the cursor looks for. -/
structure ThrowSpec (throws : List Message → Bool) (c : List UInt8) (v v' : Vars) : Prop where
  seen : v'.seen = v.seen ∨ (v'.seen = v.seen ++ [v'.message] ∧ v'.position = 0)
  first : v.cursor.firstThrow throws v.seen (c.drop v.off) =
    if v'.seen ≠ v.seen ∧ throws v'.seen then some (v'.message, c.drop v'.off)
    else v'.cursor.firstThrow throws v'.seen (c.drop v'.off)

private theorem turn_throwSpec (throws : List Message → Bool) {chunk : List UInt8}
    (rest : List UInt8) (hbig : chunk.length < 2 ^ 31) {v v' : Vars} (hwf : v.WF)
    (hlt : v.off < chunk.length)
    (hturn : turn returns (chunk ++ rest) chunk.length v = some (v', false)) :
    ThrowSpec throws chunk v v' := by
  have hlen : chunk.length ≤ (chunk ++ rest).length := by
    rw [List.length_append]
    omega
  have hget : (chunk ++ rest)[v.off]? = some chunk[v.off] := by
    rw [List.getElem?_append_left hlt, List.getElem?_eq_getElem hlt]
  by_cases hpos : v.position < 4
  · -- a header byte: `onMessage` is not called
    rw [turn_header hpos hget, Option.some.injEq, Prod.mk.injEq] at hturn
    obtain ⟨rfl, -⟩ := hturn
    obtain ⟨h₁, h₂, -⟩ := Cursor.byte_header (c := v.cursor) hpos rfl chunk[v.off]
    have hcur : ((v.cursor.byte chunk[v.off]).vars v.seen).cursor = v.cursor.byte chunk[v.off] := by
      rw [Vars.cursor, Cursor.vars, ← h₂]
    refine ⟨Or.inl rfl, ?_⟩
    rw [if_neg fun h => h.1 rfl, hcur, List.drop_eq_getElem_cons hlt,
      Cursor.firstThrow_header (c := v.cursor) hpos rfl]
    exact congrArg _ (congrArg chunk.drop h₁.symm)
  have hpos : 4 ≤ v.position := by omega
  have hmax : v.message.length ≤ 0xFFFF := hwf.length hpos
  have hread : v.position ≤ v.message.length + 4 := hwf.position hpos
  by_cases hrem : v.position + (chunk.length - v.off) < v.message.length + 4
  · -- the chunk ends inside the payload: `onMessage` is not called
    rw [ turn_partial hpos hlt hlen hbig hmax hrem, Option.some.injEq, Prod.mk.injEq] at hturn
    obtain ⟨rfl, -⟩ := hturn
    refine ⟨Or.inl rfl, ?_⟩
    have hpiece : v.cursor.position + v.cursor.piece.length + (chunk.drop v.off).length <
        v.cursor.message.length + 4 := by
      rw [List.length_drop]
      exact hrem
    have hnone : v.cursor.firstThrow throws v.seen (chunk.drop v.off ++ [])
        = (v.cursor.push (chunk.drop v.off)).firstThrow throws v.seen [] :=
      Cursor.firstThrow_piece hpos v.seen _ [] hpiece
    rw [List.append_nil] at hnone
    rw [if_neg fun h => h.1 rfl, hnone, List.drop_length]
    rfl
  · -- the payload is complete: `onMessage` is called, and throws or returns
    obtain ⟨n, hn⟩ : ∃ n, v.position + n = v.message.length + 4 :=
      ⟨v.message.length + 4 - v.position, by omega⟩
    have hfit : v.off + n ≤ chunk.length := by omega
    rw [turn_complete hpos hlen hbig hmax hlt hn hfit, Option.some.injEq, Prod.mk.injEq] at hturn
    obtain ⟨rfl, -⟩ := hturn
    have hsize : (slice chunk v.off n).length = n := length_slice hfit
    have hsplit : chunk.drop v.off = slice chunk v.off n ++ chunk.drop (v.off + n) := by
      rw [slice, ← List.drop_drop, List.take_append_drop]
    have hne : chunk.drop v.off ≠ [] := by
      apply List.ne_nil_of_length_pos
      rw [List.length_drop]
      omega
    rw [slice_append_left hfit]
    refine ⟨Or.inr ⟨rfl, rfl⟩, ?_⟩
    have hout : v.seen ++ (v.cursor.push (slice chunk v.off n)).deliver.2 ≠ v.seen := by
      simp [Cursor.deliver]
    have hnext : (v.cursor.push (slice chunk v.off n)).off = v.off + n := by
      rw [Cursor.push, hsize]
      rfl
    rw [hsplit] at hne ⊢
    rw [Cursor.firstThrow_complete (c := v.cursor) hpos rfl v.seen hne (by
      rw [hsize]
      exact hn)]
    rw [← hnext]
    by_cases hthrow : throws (v.seen ++ (v.cursor.push (slice chunk v.off n)).deliver.2) = true
    · rw [if_pos hthrow]
      exact (if_pos ⟨hout, hthrow⟩).symm
    · rw [if_neg hthrow]
      exact (if_neg fun h => hthrow h.2).symm

/-- The loop with a handler that never throws on this chunk, and with one that does. -/
theorem readLoop_throws (throws : List Message → Bool) {c : List UInt8} (rest : List UInt8)
    (hbig : c.length < 2 ^ 31) (fuel : Nat) {v : Vars} (hwf : v.WF) (hoff : v.off ≤ c.length)
    (hfuel : v.left c.length ≤ fuel) :
    match v.cursor.firstThrow throws v.seen (c.drop v.off) with
    | none => readLoop throws (c ++ rest) c.length fuel v
        = readLoop returns (c ++ rest) c.length fuel v
    | some (m, ys) => ∃ ms w off, readLoop throws (c ++ rest) c.length fuel v = some (w, true) ∧
        w.message = m ∧ w.seen = v.seen ++ ms ∧
        v.cursor.run (remaining c v.off) =
          (((m.next off).run (ys.map some ++ [none])).1,
            ms ++ ((m.next off).run (ys.map some ++ [none])).2) := by
  by_cases hlt : v.off < c.length
  · cases fuel with
    | zero =>
      unfold Vars.left at hfuel
      omega
    | succ fuel =>
      obtain ⟨v', hturn, hspec⟩ := turn_refines rest hbig hwf hlt
      obtain ⟨hseen, hfirst⟩ := turn_throwSpec throws rest hbig hwf hlt hturn
      obtain ⟨out, hout, hrun⟩ := hspec.run_eq
      have hleft := hspec.left_lt
      have ih := readLoop_throws throws rest hbig fuel hspec.wf hspec.off_le (by omega)
      have hthrown : turn throws (c ++ rest) c.length v = some (v.thrown throws (v', false)) := by
        rw [turn_throws, hturn]
        rfl
      rw [hfirst]
      by_cases hthrow : v'.seen ≠ v.seen ∧ throws v'.seen
      · -- the loop is left before the assignments behind `onMessage`
        rw [if_pos hthrow]
        have hend : v'.seen = v.seen ++ [v'.message] ∧ v'.position = 0 :=
          hseen.resolve_left hthrow.1
        obtain ⟨off, position, message, seen⟩ := v'
        refine ⟨out, { v with message := message, seen := seen }, off, ?_, rfl, hout, ?_⟩
        · rw [readLoop, if_pos hlt, hthrown, Vars.thrown, if_pos hthrow]
          rfl
        · obtain rfl : position = 0 := hend.2
          exact hrun
      · rw [if_neg hthrow]
        have hturn' : turn throws (c ++ rest) c.length v = some (v', false) := by
          rw [hthrown, Vars.thrown, if_neg hthrow]
        -- this turn does not throw, so the loop goes on with the induction hypothesis
        rw [readLoop_turn hlt hturn, readLoop_turn hlt hturn']
        cases hcase : v'.cursor.firstThrow throws v'.seen (c.drop v'.off) with
        | none =>
          rw [hcase] at ih
          exact ih
        | some r =>
          rw [hcase] at ih
          obtain ⟨ms, w, off, hloop, hm, hw, hrest⟩ := ih
          refine ⟨out ++ ms, w, off, hloop, hm, by rw [hw, hout, List.append_assoc], ?_⟩
          rw [hrun, hrest, List.append_assoc]
  · have hend : v.off = c.length := by omega
    rw [hend, List.drop_length, Cursor.firstThrow]
    rw [readLoop_done _ _ _ hlt, readLoop_done _ _ _ hlt]

/-- **A call of `read` on which the handler throws** leaves the position it started with and the
    message of the frame; without the exception it would have gone on with the rest of the chunk. -/
theorem read_throws (throws : List Message → Bool) {c : List UInt8} (rest : List UInt8)
    (hbig : c.length < 2 ^ 31) {p : Parser} (hp : p.WF) (seen : List Message) :
    match p.cursor.firstThrow throws seen c with
    | none => p.read throws (c ++ rest) seen c.length = p.read returns (c ++ rest) seen c.length
    | some (m, ys) => ∃ ms off,
        p.read throws (c ++ rest) seen c.length = some ⟨⟨p.position, m⟩, seen ++ ms, true⟩ ∧
        p.cursor.run (c.map some ++ [none]) =
          (((m.next off).run (ys.map some ++ [none])).1,
            ms ++ ((m.next off).run (ys.map some ++ [none])).2) := by
  have hloop := readLoop_throws throws rest hbig (2 * c.length + 1)
    (v := ⟨0, p.position, p.message, seen⟩) hp (Nat.zero_le _) (by
      unfold Vars.left
      split_ifs <;> simp)
  have hcursor : Cursor.firstThrow throws (⟨0, p.position, p.message, seen⟩ : Vars).cursor seen
      (c.drop 0) = p.cursor.firstThrow throws seen c := rfl
  rw [hcursor] at hloop
  cases hcase : p.cursor.firstThrow throws seen c with
  | none =>
    rw [hcase] at hloop
    simp only [Parser.read, hloop]
  | some r =>
    rw [hcase] at hloop
    obtain ⟨ms, w, off, hthrown, hm, hw, hrun⟩ := hloop
    refine ⟨ms, off, ?_, hrun⟩
    rw [Parser.read, hthrown, ← hm, ← hw]
    rfl

/-! ### The reader -/

/-- One end of the pair of sockets: the receive buffer, the parser over it and the messages its
    handler has been called with. -/
structure Reader where
  rb : List UInt8
  parser : Parser
  seen : List Message
  deriving DecidableEq, Repr

instance (rb c : List UInt8) : Decidable (Chunk rb c) :=
  decidable_of_iff (c ≠ [] ∧ c.length ≤ rb.length ∧ c.length < 2 ^ 31)
    ⟨fun ⟨h₁, h₂, h₃⟩ => ⟨h₁, h₂, h₃⟩, fun h => ⟨h.nonempty, h.fits, h.int⟩⟩

/-- `after_read` for a chunk: the bytes are at the start of the buffer and `onRead` gives their
    number to `read`; an exception is reported and the next chunk is read as usual. -/
def Reader.feed (throws : List Message → Bool) (s : Reader) (c : List UInt8) : Option Reader :=
  if Chunk s.rb c then
    (writeAt s.rb 0 c).bind fun rb =>
      (s.parser.read throws rb s.seen c.length).map fun r => ⟨rb, r.parser, r.seen⟩
  else none

/-- When the handler throws, what is behind the frame in its chunk repeats the frame up to the
    position the chunk started at. -/
def Harmless (throws : List Message → Bool) (s : Reader) (c : List UInt8) : Prop :=
  ∀ m ys, s.parser.cursor.firstThrow throws s.seen c = some (m, ys) →
    m.Repeated ys s.parser.position

instance (throws : List Message → Bool) (s : Reader) (c : List UInt8) :
    Decidable (Harmless throws s c) :=
  match h : s.parser.cursor.firstThrow throws s.seen c with
  | none => isTrue fun m ys heq => by rw [h] at heq; cases heq
  | some (m, ys) =>
    decidable_of_iff (m.Repeated ys s.parser.position)
      ⟨fun hr m' ys' heq => by rw [h] at heq; cases heq; exact hr, fun hh => hh m ys h⟩

/-- A reader beside the parser `q` of one whose handler never throws: the messages of the chunks
    are the same and the parsers expect the same bytes next. -/
def InStep (throws : List Message → Bool) (s : Reader) (q : Parser) (chunks : List (List UInt8)) :
    Prop :=
  ∃ t q', run (Reader.feed throws) s chunks = some t ∧
    Parser.readAll s.rb q s.seen chunks = some (q', t.seen) ∧ q'.Agrees t.parser

/-- **One chunk**: the two readers stay in step exactly when a throw on it is harmless. -/
theorem feed_step (throws : List Message → Bool) {s : Reader} {c : List UInt8} (hc : Chunk s.rb c)
    (hp : s.parser.WF) {q : Parser} (hq : q.Agrees s.parser) :
    ∃ s' q' ms, s.feed throws c = some s' ∧ writeAt s.rb 0 c = some s'.rb ∧
      q.read returns s'.rb s.seen c.length = some ⟨q', s.seen ++ ms, false⟩ ∧ q'.WF ∧
      (s'.seen = s.seen ++ ms ∧ q'.Agrees s'.parser ↔ Harmless throws s c) := by
  have hwrite := hc.write
  obtain ⟨q', hwf, hcur, hread⟩ :=
    read_eq_run (s.rb.drop c.length) hc.int (hq.symm.wf hp) s.seen
  obtain ⟨p', -, hcur', hread'⟩ := read_eq_run (s.rb.drop c.length) hc.int hp s.seen
  obtain ⟨hagrees, hmsgs⟩ := hq.cursor.run (c.map some ++ [none])
  -- on this chunk the two parsers do the same as long as no handler throws
  have hpq : q'.Agrees p' := by
    rw [hcur, hcur'] at hagrees
    exact ⟨hagrees.position, hagrees.message⟩
  have hthrows := read_throws throws (s.rb.drop c.length) hc.int hp s.seen
  unfold Harmless
  cases hcase : s.parser.cursor.firstThrow throws s.seen c with
  | none =>
    rw [hcase] at hthrows
    refine ⟨⟨c ++ s.rb.drop c.length, p', s.seen ++ (s.parser.cursor.run (c.map some ++ [none])).2⟩,
      q', _, ?_, hwrite, hread, hwf, ?_⟩
    · rw [Reader.feed, if_pos hc, hwrite, Option.bind_some, hthrows, hread', Option.map_some]
    · rw [hmsgs]
      exact iff_of_true ⟨rfl, hpq⟩ fun m ys h => by cases h
  | some r =>
    obtain ⟨m, ys⟩ := r
    rw [hcase] at hthrows
    obtain ⟨ms, off, hread₁, hrun⟩ := hthrows
    refine ⟨⟨c ++ s.rb.drop c.length, ⟨s.parser.position, m⟩, s.seen ++ ms⟩, q', _, ?_, hwrite,
      hread, hwf, ?_⟩
    · rw [Reader.feed, if_pos hc, hwrite, Option.bind_some, hread₁, Option.map_some]
    · have hrest : p'.cursor = ((m.next off).run (ys.map some ++ [none])).1 := by
        rw [← hcur', hrun]
      have hresumes : m.Resumes off ys ⟨s.parser.position, m⟩ ↔
          ((m.next off).run (ys.map some ++ [none])).2 = [] ∧
            p'.Agrees ⟨s.parser.position, m⟩ := by
        rw [Message.Resumes, ← hrest]
        rfl
      have hsame : s.seen ++ ms = s.seen ++ (q.cursor.run (c.map some ++ [none])).2 ↔
          ((m.next off).run (ys.map some ++ [none])).2 = [] := by
        rw [hmsgs, hrun, List.append_cancel_left_eq, List.self_eq_append_right]
      rw [hsame]
      constructor
      · rintro ⟨hnil, hagr⟩ m' ys' heq
        cases heq
        exact (resumes_iff m off ys _).mp (hresumes.mpr ⟨hnil, hpq.symm.trans hagr⟩)
      · intro hharm
        have h := hresumes.mp ((resumes_iff m off ys _).mpr (hharm m ys rfl))
        exact ⟨h.1, hpq.trans h.2⟩

/-- **In step, chunk by chunk.** A reader keeps in step with one whose handler never throws
    exactly when every throw is harmless. -/
theorem inStep_iff_along (throws : List Message → Bool) {s : Reader} {chunks : List (List UInt8)}
    (hchunks : ∀ c ∈ chunks, Chunk s.rb c) (hp : s.parser.WF) {q : Parser}
    (hq : q.Agrees s.parser) :
    (∀ fed rest, chunks = fed ++ rest → InStep throws s q fed) ↔
      Along (Reader.feed throws) (Harmless throws) s chunks := by
  induction chunks generalizing s q with
  | nil =>
    refine iff_of_true (fun fed rest heq => ?_) trivial
    obtain ⟨rfl, -⟩ := List.append_eq_nil_iff.mp heq.symm
    exact ⟨s, q, rfl, rfl, hq⟩
  | cons c chunks ih =>
    have hc := hchunks c List.mem_cons_self
    obtain ⟨s', q', ms, hfeed, hwrite, hread, hwf, hiff⟩ := feed_step throws hc hp hq
    have hnext : ∀ d ∈ chunks, Chunk s'.rb d := fun d hd =>
      (hchunks d (List.mem_cons_of_mem c hd)).of_write hwrite
    -- the readers on the chunks behind the first
    have hrest (fed : List (List UInt8)) (hseen : s'.seen = s.seen ++ ms) :
        InStep throws s q (c :: fed) ↔ InStep throws s' q' fed := by
      unfold InStep
      simp only [run_cons, hfeed, Option.bind_some, Parser.readAll, hwrite, hread, hseen]
    have halong : Along (Reader.feed throws) (Harmless throws) s (c :: chunks) ↔
        Harmless throws s c ∧ Along (Reader.feed throws) (Harmless throws) s' chunks :=
      and_congr_right fun _ => ⟨fun h => h s' hfeed, fun h t ht => by
        rw [hfeed] at ht
        cases ht
        exact h⟩
    rw [halong]
    constructor
    · intro hall
      have hone : s'.seen = s.seen ++ ms ∧ q'.Agrees s'.parser := by
        obtain ⟨t, q₁, hrun, hreadAll, hagrees⟩ := hall [c] chunks rfl
        rw [run_cons, hfeed, Option.bind_some, run_nil, Option.some.injEq] at hrun
        rw [Parser.readAll, hwrite, Option.bind_some, hread, Option.bind_some, Parser.readAll,
          Option.some.injEq, Prod.mk.injEq] at hreadAll
        obtain rfl := hrun
        obtain ⟨rfl, hseen⟩ := hreadAll
        exact ⟨hseen.symm, hagrees⟩
      refine ⟨hiff.mp hone, (ih hnext (hone.2.wf hwf) hone.2).mp fun fed rest heq => ?_⟩
      rw [← hrest fed hone.1]
      exact hall (c :: fed) rest (by rw [heq]; rfl)
    · rintro ⟨hharm, hP⟩ fed rest heq
      obtain ⟨hseen, hagrees⟩ := hiff.mpr hharm
      cases fed with
      | nil => exact ⟨s, q, rfl, rfl, hq⟩
      | cons d fed =>
        obtain ⟨rfl, htail⟩ := List.cons.inj heq
        rw [hrest fed hseen]
        exact (ih hnext (hagrees.wf hwf) hagrees).mpr hP fed rest htail

/-- From a fresh parser, the messages passed to a handler that may throw are those passed to one
    that never does. -/
def SameMessages (throws : List Message → Bool) (rb : List UInt8) (chunks : List (List UInt8)) :
    Prop :=
  ∃ t p, run (Reader.feed throws) ⟨rb, {}, []⟩ chunks = some t ∧
    Parser.readAll rb {} [] chunks = some (p, t.seen)

/-- **A handler that throws desynchronises nothing while its throws are harmless**: for every
    stream, every cut into chunks and every choice of the messages to throw on. -/
theorem same_messages_of_along (throws : List Message → Bool) {rb : List UInt8}
    {chunks : List (List UInt8)} (hchunks : ∀ c ∈ chunks, Chunk rb c)
    (h : Along (Reader.feed throws) (Harmless throws) ⟨rb, {}, []⟩ chunks) :
    SameMessages throws rb chunks := by
  have hstart : Parser.WF {} := Parser.wf_of_lt (by decide)
  obtain ⟨t, p, hrun, hread, -⟩ := (inStep_iff_along throws (s := ⟨rb, {}, []⟩) hchunks hstart
    (Parser.Agrees.refl {})).mpr h chunks [] (List.append_nil chunks).symm
  exact ⟨t, p, hrun, hread⟩

/-- Two frames, one in each chunk, whose handler always throws. -/
theorem same_messages_of_along_apart :
    SameMessages (fun _ => true) (List.replicate 16 0)
      [[1, 2, 0, 1, 0x61], [1, 2, 0, 1, 0x62]] :=
  same_messages_of_along _ (by decide) (by decide)

/-- **The second frame of a chunk is lost** when the handler throws on the first. -/
theorem not_same_messages_together :
    Chunk (List.replicate 16 0) [1, 2, 0, 1, 0x61, 1, 2, 0, 1, 0x62] ∧
      [1, 2, 0, 1, 0x61, 1, 2, 0, 1, 0x62]
        = streamBytes [⟨1, 2, ['a'], by decide, by decide⟩, ⟨1, 2, ['b'], by decide, by decide⟩] ∧
      ¬ SameMessages (fun seen => seen.length = 1) (List.replicate 16 0)
        [[1, 2, 0, 1, 0x61, 1, 2, 0, 1, 0x62]] := by
  refine ⟨by decide, by decide, ?_⟩
  rintro ⟨t, p, hrun, hread⟩
  have hone : (run (Reader.feed fun seen => seen.length = 1) ⟨List.replicate 16 0, {}, []⟩
      [[1, 2, 0, 1, 0x61, 1, 2, 0, 1, 0x62]]).map (fun t => t.seen.length) = some 1 := by decide
  have htwo : (Parser.readAll (List.replicate 16 0) {} []
      [[1, 2, 0, 1, 0x61, 1, 2, 0, 1, 0x62]]).map (fun r => r.2.length) = some 2 := by decide
  rw [hrun, Option.map_some, Option.some.injEq] at hone
  rw [hread, Option.map_some, Option.some.injEq, hone] at htwo
  exact absurd htwo (by decide)

end Dv8.Ipc
