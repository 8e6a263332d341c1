import Dv8.Ipc.Parser
import Dv8.Lib.Cuts

namespace Dv8.Ipc

open Dv8.Lib Dv8.V8 Dv8.Builtins

/-!
# The decoder one event at a time

`Parser.read` works on chunks; what it does to a stream is easier to say byte by byte.
A `Cursor` is the parser's state in the middle of a chunk: the payload bytes of the
current chunk that have not been decoded yet are its `piece`.  An event is a byte, or the end
of a chunk (`none`), where the piece is decoded and appended to the payload.

A frame without payload is complete with its header, but the loop only looks at it while
bytes remain: its message is *owed* until the next byte.  `Cursor.due` covers both that
case and the last byte of a payload.

* `read_eq_run` — on a chunk, `read` does what the cursor does on the chunk's bytes followed
  by its end;
* `readAll_eq_run` — the same for a list of chunks.
-/

/-- The state of the decoder inside a chunk. -/
structure Cursor where
  off : Nat
  position : Nat
  message : Message
  piece : List UInt8
  deriving DecidableEq, Repr

/-- The cursor at the start of a chunk. -/
def Parser.cursor (p : Parser) : Cursor := ⟨0, p.position, p.message, []⟩

/-- What is left of a cursor at the end of a chunk. -/
def Cursor.parser (c : Cursor) : Parser := ⟨c.position, c.message⟩

/-- All payload bytes are there. -/
def Cursor.due (c : Cursor) : Prop :=
  4 ≤ c.position ∧ c.message.length + 4 ≤ c.position + c.piece.length

instance (c : Cursor) : Decidable c.due :=
  inferInstanceAs (Decidable (_ ∧ _))

/-- Decode the piece into the message. -/
def Cursor.flushed (c : Cursor) : Message :=
  if c.message.opCode ≠ 3 then c.message.append (decode c.piece) else c.message

theorem Cursor.flushed_of_ne {c : Cursor} (h : c.message.opCode ≠ 3) :
    c.flushed = c.message.append (decode c.piece) := if_pos h

theorem Cursor.flushed_of_eq {c : Cursor} (h : c.message.opCode = 3) : c.flushed = c.message :=
  if_neg (not_not.mpr h)

/-- The message a complete frame delivers. -/
def Cursor.completed (c : Cursor) : Message :=
  if c.message.opCode ≠ 3 then c.message.append (decode c.piece)
  else { c.message with payload := none, offset := some (c.off - c.piece.length) }

/-- Deliver the frame and wait for the next header. -/
def Cursor.deliver (c : Cursor) : Cursor × List Message :=
  ({ c with position := 0, message := c.completed, piece := [] }, [c.completed])

/-- A byte of a frame that is not complete. -/
def Cursor.byte (c : Cursor) (b : UInt8) : Cursor :=
  if c.position = 0 then
    { c with message := { c.message with threadId := b }, off := c.off + 1, position := 1 }
  else if c.position = 1 then
    { c with message := { c.message with opCode := b }, off := c.off + 1, position := 2 }
  else if c.position = 2 then
    { c with message := { c.message with length := b.toNat <<< 8 }, off := c.off + 1,
             position := 3 }
  else if c.position = 3 then
    { c with message := { c.message with length := c.message.length + b.toNat,
                                         payload := some [] },
             off := c.off + 1, position := 4 }
  else { c with piece := c.piece ++ [b], off := c.off + 1 }

/-- A frame that is complete and has payload is delivered with its last byte. -/
def Cursor.settle (c : Cursor) : Cursor × List Message :=
  if c.due ∧ c.piece ≠ [] then c.deliver else (c, [])

/-- One event. -/
def Cursor.event (c : Cursor) : Option UInt8 → Cursor × List Message
  | some b =>
    if c.due then (c.deliver.1.byte b, c.deliver.2) else (c.byte b).settle
  | none =>
    if c.piece = [] then ({ c with off := 0 }, [])
    else (⟨0, c.position + c.piece.length, c.flushed, []⟩, [])

/-- A list of events. -/
def Cursor.run (c : Cursor) : List (Option UInt8) → Cursor × List Message
  | [] => (c, [])
  | x :: e =>
    let r := (c.event x).1.run e
    (r.1, (c.event x).2 ++ r.2)

/-! ### Runs -/

@[simp] theorem Cursor.run_nil (c : Cursor) : c.run [] = (c, []) := rfl

theorem Cursor.run_cons (c : Cursor) (x : Option UInt8) (e : List (Option UInt8)) :
    c.run (x :: e) = (((c.event x).1.run e).1, (c.event x).2 ++ ((c.event x).1.run e).2) := rfl

theorem Cursor.run_append (c : Cursor) (e₁ e₂ : List (Option UInt8)) :
    c.run (e₁ ++ e₂) = (((c.run e₁).1.run e₂).1, (c.run e₁).2 ++ ((c.run e₁).1.run e₂).2) := by
  induction e₁ generalizing c with
  | nil => rfl
  | cons x e₁ ih => rw [List.cons_append, run_cons, ih, run_cons, List.append_assoc]

theorem Cursor.run_none (c : Cursor) : c.run [none] = c.event none := by
  rw [run_cons, run_nil, List.append_nil]

/-! ### Header bytes -/

/-- A frame whose header is not complete is not due. -/
theorem Cursor.not_due_header {c : Cursor} (h : c.position < 4) : ¬ c.due :=
  fun hd => absurd hd.1 (by omega)

/-- A header byte delivers nothing. -/
theorem Cursor.event_header {c : Cursor} (h : c.position < 4) (hp : c.piece = []) (b : UInt8) :
    c.event (some b) = (c.byte b, []) := by
  have hpiece : (c.byte b).piece = [] := by
    unfold byte
    split_ifs <;> first | exact hp | omega
  rw [event, if_neg (not_due_header h), settle, if_neg (fun hs => hs.2 hpiece)]

/-- The owed message of a complete frame comes out with the next byte. -/
theorem Cursor.run_due {c : Cursor} (h : c.due) (b : UInt8) (e : List (Option UInt8)) :
    c.run (some b :: e)
      = ((c.deliver.1.run (some b :: e)).1, c.deliver.2 ++ (c.deliver.1.run (some b :: e)).2) := by
  have hevent : c.event (some b) = (c.deliver.1.byte b, c.deliver.2) := if_pos h
  have hnext := event_header (c := c.deliver.1) (show 0 < 4 by omega) rfl b
  rw [run_cons, run_cons, hevent, hnext, List.nil_append]

/-! ### Payload bytes -/

/-- The cursor with payload bytes added to its piece. -/
def Cursor.push (c : Cursor) (xs : List UInt8) : Cursor :=
  { c with piece := c.piece ++ xs, off := c.off + xs.length }

@[simp] theorem Cursor.push_position (c : Cursor) (xs : List UInt8) :
    (c.push xs).position = c.position := rfl

@[simp] theorem Cursor.push_message (c : Cursor) (xs : List UInt8) :
    (c.push xs).message = c.message := rfl

@[simp] theorem Cursor.push_piece (c : Cursor) (xs : List UInt8) :
    (c.push xs).piece = c.piece ++ xs := rfl

theorem Cursor.push_push (c : Cursor) (xs ys : List UInt8) :
    (c.push xs).push ys = c.push (xs ++ ys) := by
  simp only [push, List.append_assoc, List.length_append, Nat.add_assoc]

theorem Cursor.due_push {c : Cursor} (h : 4 ≤ c.position) (xs : List UInt8) :
    (c.push xs).due ↔ c.message.length + 4 ≤ c.position + c.piece.length + xs.length := by
  rw [due, push_position, push_message, push_piece, List.length_append, Nat.add_assoc]
  exact and_iff_right h

theorem Cursor.due_iff {c : Cursor} (h : 4 ≤ c.position) :
    c.due ↔ c.message.length + 4 ≤ c.position + c.piece.length := and_iff_right h

theorem Cursor.byte_payload {c : Cursor} (h : 4 ≤ c.position) (b : UInt8) :
    c.byte b = c.push [b] := by
  unfold byte
  rw [if_neg (by omega), if_neg (by omega), if_neg (by omega), if_neg (by omega)]
  rfl

/-- Payload bytes that do not complete the frame wait in the piece. -/
theorem Cursor.run_piece {c : Cursor} (h : 4 ≤ c.position) (xs : List UInt8)
    (hxs : c.position + c.piece.length + xs.length < c.message.length + 4) :
    c.run (xs.map some) = (c.push xs, []) := by
  induction xs generalizing c with
  | nil => simp [push]
  | cons b xs ih =>
    rw [List.length_cons] at hxs
    have hdue : ¬ c.due := by
      rw [due_iff h]
      omega
    have hnext : ¬ (c.push [b]).due := by
      rw [due_push h, List.length_singleton]
      omega
    have hevent : c.event (some b) = (c.push [b], []) := by
      rw [event, if_neg hdue, byte_payload h, settle, if_neg (fun hs => hnext hs.1)]
    have hpush := ih (c := c.push [b]) h (by
      rw [push_position, push_message, push_piece, List.length_append, List.length_singleton]
      omega)
    rw [List.map_cons, run_cons, hevent, hpush, push_push]
    rfl

/-- **The last payload byte delivers the frame.** -/
theorem Cursor.run_complete {c : Cursor} (h : 4 ≤ c.position) {xs : List UInt8} (hne : xs ≠ [])
    (hxs : c.position + c.piece.length + xs.length = c.message.length + 4) :
    c.run (xs.map some) = (c.push xs).deliver := by
  obtain ⟨ys, b, rfl⟩ := List.eq_nil_or_concat xs |>.resolve_left hne
  rw [List.concat_eq_append, List.length_append, List.length_singleton] at *
  have hdue : ¬ (c.push ys).due := by
    rw [due_push h]
    omega
  have hlast : (c.push (ys ++ [b])).due := by
    rw [due_push h, List.length_append, List.length_singleton]
    omega
  have hevent : (c.push ys).event (some b) = (c.push (ys ++ [b])).deliver := by
    rw [event, if_neg hdue, byte_payload (c := c.push ys) h, push_push, settle,
      if_pos ⟨hlast, by simp⟩]
  rw [List.map_append, run_append, run_piece h ys (by omega), List.map_singleton, run_cons, hevent,
    run_nil, List.append_nil, List.nil_append]

/-! ### The loop of `read` -/

/-- A parser whose length field fits 16 bits and that has not read more payload than it
    announces. -/
structure Parser.WF (p : Parser) : Prop where
  high : p.position = 3 → p.message.length ≤ 0xFF00
  length : 4 ≤ p.position → p.message.length ≤ 0xFFFF
  position : 4 ≤ p.position → p.position ≤ p.message.length + 4

/-- The cursor of the loop's variables. -/
def Vars.cursor (v : Vars) : Cursor := ⟨v.off, v.position, v.message, []⟩

/-- The variables a cursor between pieces stands for. -/
def Cursor.vars (c : Cursor) (seen : List Message) : Vars := ⟨c.off, c.position, c.message, seen⟩

/-- A header byte is one turn. -/
theorem turn_header {throws : List Message → Bool} {rb : List UInt8} {len : Nat} {v : Vars}
    {b : UInt8} (h : v.position < 4) (hb : rb[v.off]? = some b) :
    turn throws rb len v = some ((v.cursor.byte b).vars v.seen, false) := by
  obtain ⟨off, position, message, seen⟩ := v
  have hget : DataView.getUint8 rb off = some b := hb
  rcases show position = 0 ∨ position = 1 ∨ position = 2 ∨ position = 3 from by
    change position < 4 at h; omega with rfl | rfl | rfl | rfl <;>
    simp [turn, hget, Cursor.byte, Cursor.vars, Vars.cursor]

/-- A header byte leaves no piece and moves on by one. -/
theorem Cursor.byte_header {c : Cursor} (h : c.position < 4) (hp : c.piece = []) (b : UInt8) :
    (c.byte b).off = c.off + 1 ∧ (c.byte b).piece = [] ∧ (c.byte b).position = c.position + 1 := by
  unfold byte
  split_ifs with h₀ h₁ h₂ h₃
  · exact ⟨rfl, hp, by rw [h₀]⟩
  · exact ⟨rfl, hp, by rw [h₁]⟩
  · exact ⟨rfl, hp, by rw [h₂]⟩
  · exact ⟨rfl, hp, by rw [h₃]⟩
  · omega

/-- The rest of the chunk, when it does not complete the payload, is one turn. -/
theorem turn_partial {rb : List UInt8} {len : Nat} {v : Vars} (h : 4 ≤ v.position)
    (hoff : v.off < len) (hlen : len ≤ rb.length) (hbig : len < 2 ^ 31)
    (hm : v.message.length ≤ 0xFFFF)
    (hrem : v.position + (len - v.off) < v.message.length + 4) :
    turn returns rb len v = some (⟨len, v.position + (len - v.off),
      (v.cursor.push (slice rb v.off (len - v.off))).flushed, v.seen⟩, false) := by
  have hread : Buffer.read rb v.off ((len - v.off : Nat) : Int)
      = some (decode (slice rb v.off (len - v.off))) :=
    Buffer.read_eq (by omega) (by unfold kMaxLength; omega) (by omega)
  unfold turn
  rw [if_neg (by omega), if_neg (by omega), if_neg (by omega), if_neg (by omega)]
  have hbeyond : (v.message.length : Int) - ((v.position : Int) - 4) + v.off > len := by omega
  simp only [if_pos hbeyond, hread]
  by_cases hop : v.message.opCode ≠ 3
  · rw [if_pos hop, Option.map_some, Cursor.flushed_of_ne (c := v.cursor.push _) hop]
    rfl
  · rw [if_neg hop, Cursor.flushed_of_eq (c := v.cursor.push _) (not_not.mp hop)]
    rfl

/-- The rest of the payload, when the chunk holds it, is one turn that delivers. -/
theorem turn_complete {rb : List UInt8} {len n : Nat} {v : Vars} (h : 4 ≤ v.position)
    (hlen : len ≤ rb.length) (hbig : len < 2 ^ 31) (hm : v.message.length ≤ 0xFFFF)
    (hoff : v.off < len) (hn : v.position + n = v.message.length + 4) (hfit : v.off + n ≤ len) :
    turn returns rb len v = some
      ((v.cursor.push (slice rb v.off n)).deliver.1.vars
        (v.seen ++ (v.cursor.push (slice rb v.off n)).deliver.2), false) := by
  have htoread : (v.message.length : Int) - ((v.position : Int) - 4) = (n : Int) := by omega
  have hsize : (slice rb v.off n).length = n := length_slice (by omega)
  have hread : Buffer.read rb v.off (n : Int) = some (decode (slice rb v.off n)) :=
    Buffer.read_eq (by omega) (by unfold kMaxLength; omega) (by omega)
  have hnext : ((v.off : Int) + (n : Int)).toNat = v.off + n := by omega
  have hback : (v.off + n) - n = v.off := by omega
  have hfwd : ¬ (v.off : Int) + (n : Int) < 0 := by omega
  unfold turn
  rw [if_neg (by omega), if_neg (by omega), if_neg (by omega), if_neg (by omega)]
  simp only [htoread, hread, if_neg (show ¬ (n : Int) + v.off > len by omega)]
  by_cases hop : v.message.opCode ≠ 3
  · rw [if_pos hop]
    simp only [Option.map_some, Vars.delivered, Vars.onMessage, returns, if_neg hfwd, hnext,
      Cursor.deliver, Cursor.completed, Cursor.vars, Cursor.push, Vars.cursor, List.nil_append,
      hsize, if_pos hop]
  · rw [if_neg hop]
    simp only [Vars.delivered, Vars.onMessage, returns, if_neg hfwd, hnext, Cursor.deliver,
      Cursor.completed, Cursor.vars, Cursor.push, Vars.cursor, List.nil_append, hsize,
      if_neg hop, hback]

/-! ### Chunks -/

/-- The bytes of a chunk at the start of the receive buffer. -/
private theorem getElem?_chunk {chunk rest : List UInt8} {off : Nat} (h : off < chunk.length) :
    (chunk ++ rest)[off]? = some chunk[off] := by
  rw [List.getElem?_append_left h, List.getElem?_eq_getElem h]

/-- The events of what is left of a chunk. -/
def remaining (c : List UInt8) (off : Nat) : List (Option UInt8) :=
  (c.drop off).map some ++ [none]

/-- A byte of the chunk, then what is left after it. -/
private theorem remaining_cons {chunk : List UInt8} {off : Nat} (h : off < chunk.length) :
    remaining chunk off = some chunk[off] :: remaining chunk (off + 1) := by
  rw [remaining, List.drop_eq_getElem_cons h]
  rfl

/-- A range of the chunk, then what is left after it. -/
private theorem remaining_split {c : List UInt8} (rest : List UInt8) {off n : Nat}
    (h : off + n ≤ c.length) :
    remaining c off = (slice (c ++ rest) off n).map some ++ remaining c (off + n) := by
  rw [slice_append_left h, remaining, remaining, slice, ← List.append_assoc, ← List.map_append,
    ← List.drop_drop, List.take_append_drop]

/-- The well-formedness of the loop's variables. -/
def Vars.WF (v : Vars) : Prop := Parser.WF ⟨v.position, v.message⟩

/-- Early in a header there is nothing to check. -/
theorem Parser.wf_of_lt {p : Parser} (h : p.position < 3) : p.WF :=
  ⟨fun h' => absurd h' (by omega), fun h' => absurd h' (by omega), fun h' => absurd h' (by omega)⟩

/-- A header byte keeps the parser well formed. -/
theorem Cursor.wf_byte {c : Cursor} (h : c.position < 4) (hc : c.parser.WF) (b : UInt8) :
    (c.byte b).parser.WF := by
  have hb := b.toNat_lt
  have hshift : b.toNat <<< 8 = b.toNat * 256 := Nat.shiftLeft_eq _ _
  have hhigh : c.position = 3 → c.message.length ≤ 0xFF00 := hc.high
  unfold byte
  split_ifs with h₀ h₁ h₂ h₃
  · exact Parser.wf_of_lt (by show 1 < 3; omega)
  · exact Parser.wf_of_lt (by show 2 < 3; omega)
  · exact ⟨fun _ => by show b.toNat <<< 8 ≤ _; omega, fun h => absurd h (by show ¬ 4 ≤ 3; omega),
      fun h => absurd h (by show ¬ 4 ≤ 3; omega)⟩
  · have := hhigh h₃
    exact ⟨fun h => absurd h (by show ¬ 4 = 3; omega),
      fun _ => by show c.message.length + b.toNat ≤ _; omega,
      fun _ => by show 4 ≤ c.message.length + b.toNat + 4; omega⟩
  · omega

/-- The loop stops at the end of the chunk. -/
theorem readLoop_done (throws : List Message → Bool) (rb : List UInt8) {len : Nat}
    (fuel : Nat) {v : Vars} (h : ¬ v.off < len) :
    readLoop throws rb len fuel v = some (v, false) := by
  cases fuel with
  | zero => exact if_neg h
  | succ fuel => exact if_neg h

/-- One turn of the loop, when the handler returned. -/
theorem readLoop_turn {throws : List Message → Bool} {rb : List UInt8} {len fuel : Nat}
    {v v' : Vars} (h : v.off < len) (hturn : turn throws rb len v = some (v', false)) :
    readLoop throws rb len (fuel + 1) v = readLoop throws rb len fuel v' := by
  rw [readLoop, if_pos h, hturn]
  rfl

/-- The end of a chunk after undecoded payload. -/
theorem Cursor.event_none_of_ne {c : Cursor} (h : c.piece ≠ []) :
    c.event none = (⟨0, c.position + c.piece.length, c.flushed, []⟩, []) := if_neg h

/-- The turns the loop can still make. -/
def Vars.left (v : Vars) (len : Nat) : Nat :=
  2 * (len - v.off) + if 4 ≤ v.position then 1 else 0

/-- What one turn does, in terms of the cursor: the events it consumed gave the messages it
    delivered, and the rest of the chunk is still to come. -/
structure TurnSpec (c : List UInt8) (v v' : Vars) : Prop where
  wf : v'.WF
  off_le : v'.off ≤ c.length
  left_lt : v'.left c.length < v.left c.length
  run_eq : ∃ out, v'.seen = v.seen ++ out ∧ v.cursor.run (remaining c v.off) =
    ((v'.cursor.run (remaining c v'.off)).1, out ++ (v'.cursor.run (remaining c v'.off)).2)

private theorem turnSpec_header {chunk : List UInt8} {v : Vars} (hwf : v.WF)
    (hlt : v.off < chunk.length)
    (hpos : v.position < 4) :
    TurnSpec chunk v ((v.cursor.byte chunk[v.off]).vars v.seen) := by
  obtain ⟨h₁, h₂, h₃⟩ := Cursor.byte_header (c := v.cursor) hpos rfl chunk[v.off]
  have hoff : ((v.cursor.byte chunk[v.off]).vars v.seen).off = v.off + 1 := h₁
  have hcur : ((v.cursor.byte chunk[v.off]).vars v.seen).cursor = v.cursor.byte chunk[v.off] := by
    rw [Vars.cursor, Cursor.vars, ← h₂]
  refine ⟨Cursor.wf_byte (c := v.cursor) hpos hwf _, by omega, ?_, [], (List.append_nil _).symm, ?_⟩
  · rw [Vars.left, Vars.left, hoff]
    split_ifs <;> omega
  · rw [hcur, hoff, remaining_cons hlt, Cursor.run_cons,
      Cursor.event_header (c := v.cursor) hpos rfl]

private theorem turnSpec_partial {c : List UInt8} (rest : List UInt8) {v : Vars} (hwf : v.WF)
    (hlt : v.off < c.length) (hpos : 4 ≤ v.position)
    (hrem : v.position + (c.length - v.off) < v.message.length + 4) :
    TurnSpec c v ⟨c.length, v.position + (c.length - v.off),
      (v.cursor.push (slice (c ++ rest) v.off (c.length - v.off))).flushed, v.seen⟩ := by
  have hfit : v.off + (c.length - v.off) ≤ c.length := by omega
  have hsize : (slice (c ++ rest) v.off (c.length - v.off)).length = c.length - v.off :=
    length_slice (by rw [List.length_append]; omega)
  have hmsg : (v.cursor.push (slice (c ++ rest) v.off (c.length - v.off))).flushed.length
      = v.message.length := by
    unfold Cursor.flushed
    split <;> rfl
  have hmax : v.message.length ≤ 0xFFFF := hwf.length hpos
  refine ⟨⟨fun h => ?_, fun _ => ?_, fun _ => ?_⟩, Nat.le_refl _, ?_, [],
    (List.append_nil _).symm, ?_⟩
  · exact absurd h (by show ¬ v.position + (c.length - v.off) = 3; omega)
  · exact le_of_eq_of_le hmsg hmax
  · show v.position + (c.length - v.off) ≤ _ + 4
    rw [hmsg]
    omega
  · rw [Vars.left, Vars.left, if_pos hpos]
    show 2 * (c.length - c.length) + (if 4 ≤ v.position + (c.length - v.off) then 1 else 0) < _
    rw [if_pos (by omega)]
    omega
  · have hempty : slice (c ++ rest) v.off (c.length - v.off) ≠ [] := by
      apply List.ne_nil_of_length_pos
      omega
    have hend : remaining c c.length = [none] := by rw [remaining, List.drop_length]; rfl
    -- the rest of the chunk is one piece, and the end of the chunk flushes it
    rw [remaining_split rest hfit, Nat.add_sub_cancel' (Nat.le_of_lt hlt), hend,
      Cursor.run_append, Cursor.run_piece (c := v.cursor) hpos _ (by
        rw [hsize]
        exact hrem), Cursor.run_none, Cursor.run_none,
      Cursor.event_none_of_ne (by exact hempty), Cursor.push_piece]
    show ((⟨0, v.position + _, _, []⟩ : Cursor), _) = _
    rw [show v.cursor.piece = [] from rfl, List.nil_append, hsize]
    rfl

private theorem turnSpec_complete {c : List UInt8} (rest : List UInt8) {v : Vars} {n : Nat}
    (hlt : v.off < c.length) (hpos : 4 ≤ v.position)
    (hn : v.position + n = v.message.length + 4) (hfit : v.off + n ≤ c.length) :
    TurnSpec c v ((v.cursor.push (slice (c ++ rest) v.off n)).deliver.1.vars
      (v.seen ++ (v.cursor.push (slice (c ++ rest) v.off n)).deliver.2)) := by
  have hsize : (slice (c ++ rest) v.off n).length = n :=
    length_slice (by rw [List.length_append]; omega)
  have hoff : (v.cursor.push (slice (c ++ rest) v.off n)).off = v.off + n := by
    rw [Cursor.push, hsize]
    rfl
  refine ⟨Parser.wf_of_lt (by show 0 < 3; omega), le_of_eq_of_le hoff hfit, ?_, _, rfl, ?_⟩
  · rw [Vars.left, Vars.left, if_pos hpos]
    show 2 * (c.length - (v.cursor.push _).off) + 0 < _
    omega
  · show _ = (((v.cursor.push _).deliver.1.run (remaining c (v.cursor.push _).off)).1,
      _ ++ ((v.cursor.push _).deliver.1.run (remaining c (v.cursor.push _).off)).2)
    rw [hoff]
    by_cases h0 : n = 0
    · -- no payload left: the message comes out before the next byte
      subst h0
      have hdue : v.cursor.due := ⟨hpos, by
        show v.message.length + 4 ≤ v.position + 0
        omega⟩
      have hpush : v.cursor.push [] = v.cursor := rfl
      rw [slice_zero, hpush, Nat.add_zero, remaining_cons hlt, Cursor.run_due hdue]
    · have hempty : slice (c ++ rest) v.off n ≠ [] := by
        apply List.ne_nil_of_length_pos
        omega
      rw [remaining_split rest hfit, Cursor.run_append,
        Cursor.run_complete (c := v.cursor) hpos hempty (by
          rw [hsize]
          exact hn)]

/-- **One turn** of the loop of `read` on a chunk at the start of the receive buffer. -/
theorem turn_refines {c : List UInt8} (rest : List UInt8) (hbig : c.length < 2 ^ 31) {v : Vars}
    (hwf : v.WF) (hlt : v.off < c.length) :
    ∃ v', turn returns (c ++ rest) c.length v = some (v', false) ∧ TurnSpec c v v' := by
  have hlen : c.length ≤ (c ++ rest).length := by
    rw [List.length_append]
    omega
  by_cases hpos : v.position < 4
  · exact ⟨_, turn_header hpos (getElem?_chunk hlt), turnSpec_header hwf hlt hpos⟩
  · have hpos : 4 ≤ v.position := by omega
    have hmax : v.message.length ≤ 0xFFFF := hwf.length hpos
    have hread : v.position ≤ v.message.length + 4 := hwf.position hpos
    by_cases hrem : v.position + (c.length - v.off) < v.message.length + 4
    · exact ⟨_, turn_partial hpos hlt hlen hbig hmax hrem, turnSpec_partial rest hwf hlt hpos hrem⟩
    · obtain ⟨n, hn⟩ : ∃ n, v.position + n = v.message.length + 4 :=
        ⟨v.message.length + 4 - v.position, by omega⟩
      have hfit : v.off + n ≤ c.length := by omega
      exact ⟨_, turn_complete hpos hlen hbig hmax hlt hn hfit,
        turnSpec_complete rest hlt hpos hn hfit⟩

/-- **The loop of `read` is the cursor on the rest of the chunk.** -/
theorem readLoop_eq_run {c : List UInt8} (rest : List UInt8) (hbig : c.length < 2 ^ 31)
    (fuel : Nat) {v : Vars} (hwf : v.WF) (hoff : v.off ≤ c.length)
    (hfuel : v.left c.length ≤ fuel) :
    ∃ p : Parser, p.WF ∧ (v.cursor.run (remaining c v.off)).1 = p.cursor ∧
      readLoop returns (c ++ rest) c.length fuel v
        = some (⟨c.length, p.position, p.message,
            v.seen ++ (v.cursor.run (remaining c v.off)).2⟩, false) := by
  by_cases hlt : v.off < c.length
  · cases fuel with
    | zero =>
      unfold Vars.left at hfuel
      omega
    | succ fuel =>
      obtain ⟨v', hturn, hspec⟩ := turn_refines rest hbig hwf hlt
      have hleft := hspec.left_lt
      obtain ⟨p, hp, hcursor, hloop⟩ :=
        readLoop_eq_run rest hbig fuel hspec.wf hspec.off_le (by omega)
      obtain ⟨out, hseen, hrun⟩ := hspec.run_eq
      refine ⟨p, hp, by rw [hrun]; exact hcursor, ?_⟩
      rw [readLoop_turn hlt hturn, hloop, hrun, hseen, List.append_assoc]
  · -- at the end of the chunk the cut flushes nothing: no piece is open
    have hend : v.off = c.length := by omega
    have hrun : v.cursor.run (remaining c v.off) = ({ v.cursor with off := 0 }, []) := by
      rw [hend, remaining, List.drop_length]
      exact Cursor.run_none _
    refine ⟨⟨v.position, v.message⟩, hwf, by rw [hrun]; rfl, ?_⟩
    rw [readLoop_done _ _ _ hlt, hrun, List.append_nil, ← hend]

/-- **`Parser.read` is the cursor on the chunk and its end.** -/
theorem read_eq_run {c : List UInt8} (rest : List UInt8) (hbig : c.length < 2 ^ 31) {p : Parser}
    (hp : p.WF) (seen : List Message) :
    ∃ p' : Parser, p'.WF ∧ (p.cursor.run (c.map some ++ [none])).1 = p'.cursor ∧
      p.read returns (c ++ rest) seen c.length
        = some ⟨p', seen ++ (p.cursor.run (c.map some ++ [none])).2, false⟩ := by
  have hrem : remaining c 0 = c.map some ++ [none] := rfl
  obtain ⟨p', hp', hcursor, hloop⟩ := readLoop_eq_run rest hbig (2 * c.length + 1)
    (v := ⟨0, p.position, p.message, seen⟩) hp (Nat.zero_le _) (by
      unfold Vars.left
      split_ifs <;> simp)
  refine ⟨p', hp', hcursor, ?_⟩
  rw [Parser.read, hloop]
  rfl

/-- One read of the socket: bytes that fit the receive buffer, at most `INT_MAX` of them. -/
structure Chunk (rb c : List UInt8) : Prop where
  nonempty : c ≠ []
  fits : c.length ≤ rb.length
  int : c.length < 2 ^ 31

/-- The socket writes a chunk over the start of the buffer. -/
theorem Chunk.write {rb c : List UInt8} (hc : Chunk rb c) :
    writeAt rb 0 c = some (c ++ rb.drop c.length) := writeAt_zero hc.fits

/-- The buffer keeps its length. -/
theorem Chunk.of_write {rb rb' c d : List UInt8} {off : Nat} (hd : Chunk rb d)
    (hwrite : writeAt rb off c = some rb') : Chunk rb' d :=
  ⟨hd.nonempty, by rw [writeAt_length hwrite]; exact hd.fits, hd.int⟩

/-- **Reading chunks is the cursor on their events.** -/
theorem readAll_eq_run {rb : List UInt8} {chunks : List (List UInt8)}
    (hchunks : ∀ c ∈ chunks, Chunk rb c) {p : Parser} (hp : p.WF) (seen : List Message) :
    ∃ p' : Parser, p'.WF ∧ (p.cursor.run (ofChunks chunks)).1 = p'.cursor ∧
      Parser.readAll rb p seen chunks
        = some (p', seen ++ (p.cursor.run (ofChunks chunks)).2) := by
  induction chunks generalizing rb p seen with
  | nil => exact ⟨p, hp, rfl, by rw [Parser.readAll, ofChunks_nil, Cursor.run_nil, List.append_nil]⟩
  | cons c chunks ih =>
    have hc := hchunks c List.mem_cons_self
    have hwrite := hc.write
    obtain ⟨p₁, hp₁, hcur₁, hread⟩ := read_eq_run (rb.drop c.length) hc.int hp seen
    have hnext : ∀ d ∈ chunks, Chunk (c ++ rb.drop c.length) d := fun d hd =>
      (hchunks d (List.mem_cons_of_mem _ hd)).of_write hwrite
    obtain ⟨p₂, hp₂, hcur₂, hrest⟩ := ih hnext hp₁
      (seen ++ (p.cursor.run (c.map some ++ [none])).2)
    have hrun : p.cursor.run (ofChunks (c :: chunks)) = ((p₁.cursor.run (ofChunks chunks)).1,
        (p.cursor.run (c.map some ++ [none])).2 ++ (p₁.cursor.run (ofChunks chunks)).2) := by
      rw [show ofChunks (c :: chunks) = (c.map some ++ [none]) ++ ofChunks chunks from rfl,
        Cursor.run_append, hcur₁]
    refine ⟨p₂, hp₂, by rw [hrun, hcur₂], ?_⟩
    rw [Parser.readAll, hwrite, Option.bind_some, hread, Option.bind_some, hrest, hrun,
      List.append_assoc]

end Dv8.Ipc
