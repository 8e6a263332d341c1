import Dv8.Ipc.Bytewise
import Dv8.V8.Utf8Pieces
import Mathlib.Data.List.Induction

namespace Dv8.Ipc

open Dv8.Lib Dv8.V8 Dv8.Builtins

/-!
# One frame through the decoder

A `Frame` is what a sender means to say: identity, opCode and a text whose UTF-8 form
fits the 16-bit length.  Its bytes may reach the decoder with cuts anywhere.

* `Idle` — the decoder between two frames; it may still *owe* the message of a frame
  without payload;
* `Header` / `Receiving` — the decoder inside a header and inside a payload, in terms of
  the events that got it there;
* `run_frame` — the messages a whole frame yields, the payload decoded piece by piece;
* `run_incomplete` — an incomplete frame yields nothing but what was owed.
-/

/-- A frame with a text payload. -/
structure Frame where
  threadId : UInt8
  opCode : UInt8
  text : List Char
  opCode_ne : opCode ≠ 3
  length_lt : (utf8 text).length < 2 ^ 16

/-- The four header bytes. -/
def Frame.header (f : Frame) : List UInt8 :=
  f.threadId :: f.opCode :: bigEndian 2 (utf8 f.text).length

/-- The bytes of the frame. -/
def Frame.bytes (f : Frame) : List UInt8 := f.header ++ utf8 f.text

/-- The message object of the frame with the given payload; `offset` is what an earlier
    buffer message left there. -/
def Frame.messageWith (f : Frame) (offset : Option Nat) (payload : JsString) : Message :=
  { opCode := f.opCode, threadId := f.threadId, length := (utf8 f.text).length,
    payload := some payload, offset := offset }

/-- The message the frame stands for. -/
def Frame.message (f : Frame) (offset : Option Nat) : Message :=
  f.messageWith offset (utf16 f.text)

@[simp] theorem Frame.length_header (f : Frame) : f.header.length = 4 := by
  simp [header]

theorem Frame.length_bytes (f : Frame) : f.bytes.length = 4 + (utf8 f.text).length := by
  rw [bytes, List.length_append, length_header]

/-! ### Between frames -/

/-- The decoder between frames, owing the messages `owed`. -/
structure Idle (offset : Option Nat) (c : Cursor) (owed : List Message) : Prop where
  piece : c.piece = []
  offset : c.message.offset = offset
  state : (c.position = 0 ∧ owed = []) ∨ (c.due ∧ c.message.opCode ≠ 3 ∧ owed = c.deliver.2)

theorem Cursor.event_none_of_nil {c : Cursor} (h : c.piece = []) :
    c.event none = ({ c with off := 0 }, []) := if_pos h

/-- The start of a chunk owes nothing. -/
theorem idle_start {p : Parser} (h : p.position = 0) : Idle p.message.offset p.cursor [] :=
  ⟨rfl, rfl, Or.inl ⟨h, rfl⟩⟩

/-- Cuts between frames change nothing. -/
theorem Idle.run_nil {offset : Option Nat} {c : Cursor} {owed : List Message}
    (h : Idle offset c owed) {e : List (Option UInt8)} (he : e.reduceOption = []) :
    ∃ c', c.run e = (c', []) ∧ Idle offset c' owed := by
  induction e generalizing c with
  | nil => exact ⟨c, rfl, h⟩
  | cons x e ih =>
    cases x with
    | some b =>
      rw [List.reduceOption_cons_of_some] at he
      cases he
    | none =>
      have hc : Idle offset { c with off := 0 } owed := by
        refine ⟨h.piece, h.offset, h.state.imp id fun ⟨hdue, hop, howed⟩ => ⟨hdue, hop, ?_⟩⟩
        rw [howed, Cursor.deliver, Cursor.deliver, Cursor.completed, Cursor.completed, if_pos hop]
        rw [if_pos (show ({ c with off := 0 } : Cursor).message.opCode ≠ 3 from hop)]
      obtain ⟨c', hrun, hc'⟩ := ih hc he
      refine ⟨c', ?_, hc'⟩
      rw [Cursor.run_cons, Cursor.event_none_of_nil h.piece, hrun, List.nil_append]

/-! ### Headers -/

/-- The message object after header bytes `xs`. -/
def headerMessage (m : Message) (xs : List UInt8) : Message :=
  (xs.foldl Cursor.byte ⟨0, 0, m, []⟩).message

/-- The decoder inside a header whose first bytes were `xs`. -/
structure Header (m : Message) (xs : List UInt8) (c : Cursor) : Prop where
  piece : c.piece = []
  position : c.position = xs.length
  message : c.message = headerMessage m xs

/-- The message object of a whole header. -/
theorem headerMessage_four (m : Message) (t op hi lo : UInt8) :
    headerMessage m [t, op, hi, lo] =
      { opCode := op, threadId := t, length := hi.toNat <<< 8 + lo.toNat, payload := some [],
        offset := m.offset } := rfl

/-- What a header byte does to the message does not depend on the offset in the chunk. -/
theorem Cursor.byte_message_congr {c d : Cursor} (hp : c.position = d.position)
    (hm : c.message = d.message) (b : UInt8) : (c.byte b).message = (d.byte b).message := by
  unfold byte
  rw [hp, hm]
  split_ifs <;> rfl

theorem foldl_byte_position (m : Message) {xs : List UInt8} (h : xs.length ≤ 4) :
    (xs.foldl Cursor.byte ⟨0, 0, m, []⟩).position = xs.length ∧
      (xs.foldl Cursor.byte ⟨0, 0, m, []⟩).piece = [] := by
  induction xs using List.reverseRecOn with
  | nil => exact ⟨rfl, rfl⟩
  | append_singleton xs b ih =>
    rw [List.length_append, List.length_singleton] at h ⊢
    obtain ⟨h₁, h₂⟩ := ih (by omega)
    rw [List.foldl_append, List.foldl_cons, List.foldl_nil]
    obtain ⟨-, h₃, h₄⟩ := Cursor.byte_header (by rw [h₁]; omega) h₂ b
    exact ⟨by rw [h₄, h₁], h₃⟩

/-- A header byte. -/
theorem Header.event_some {m : Message} {xs : List UInt8} {c : Cursor} (h : Header m xs c)
    (hlen : xs.length < 4) (b : UInt8) :
    c.event (some b) = (c.byte b, []) ∧ Header m (xs ++ [b]) (c.byte b) := by
  have hpos : c.position < 4 := by rw [h.position]; exact hlen
  obtain ⟨-, h₂, h₃⟩ := Cursor.byte_header hpos h.piece b
  refine ⟨Cursor.event_header hpos h.piece b, h₂, ?_, ?_⟩
  · rw [h₃, h.position, List.length_append, List.length_singleton]
  · rw [headerMessage, List.foldl_append, List.foldl_cons, List.foldl_nil]
    refine Cursor.byte_message_congr ?_ h.message b
    rw [h.position, (foldl_byte_position m (by omega)).1]

/-- Header bytes, cut anywhere, deliver nothing. -/
theorem Header.run {m : Message} {xs : List UInt8} {c : Cursor} (h : Header m xs c)
    {e : List (Option UInt8)} (hlen : xs.length + e.reduceOption.length ≤ 4) :
    ∃ c', c.run e = (c', []) ∧ Header m (xs ++ e.reduceOption) c' := by
  induction e generalizing c xs with
  | nil => exact ⟨c, rfl, by rw [List.reduceOption_nil, List.append_nil]; exact h⟩
  | cons x e ih =>
    cases x with
    | none =>
      have hc : Header m xs { c with off := 0 } := ⟨h.piece, h.position, h.message⟩
      obtain ⟨c', hrun, hc'⟩ := ih hc (by rwa [List.reduceOption_cons_of_none] at hlen)
      refine ⟨c', ?_, by rwa [List.reduceOption_cons_of_none]⟩
      rw [Cursor.run_cons, Cursor.event_none_of_nil h.piece, hrun, List.nil_append]
    | some b =>
      rw [List.reduceOption_cons_of_some, List.length_cons] at hlen
      obtain ⟨hevent, hnext⟩ := h.event_some (by omega) b
      obtain ⟨c', hrun, hc'⟩ := ih hnext (by
        rw [List.length_append, List.length_singleton]
        omega)
      refine ⟨c', by rw [Cursor.run_cons, hevent, hrun, List.nil_append], ?_⟩
      rwa [List.reduceOption_cons_of_some, List.append_cons]

/-- The first byte of a header releases what was owed. -/
theorem Idle.run_first {offset : Option Nat} {c : Cursor} {owed : List Message}
    (h : Idle offset c owed) {e : List (Option UInt8)} {b : UInt8} {bs : List UInt8}
    (he : e.reduceOption = b :: bs) :
    ∃ (m : Message) (c' : Cursor) (e' : List (Option UInt8)),
      m.offset = offset ∧ Header m [b] c' ∧ e'.reduceOption = bs ∧
      c.run e = ((c'.run e').1, owed ++ (c'.run e').2) := by
  induction e generalizing c with
  | nil => cases he
  | cons x e ih =>
    cases x with
    | none =>
      obtain ⟨c₁, hrun, hc₁⟩ := h.run_nil (e := [none]) rfl
      obtain ⟨m, c', e', hm, hc', he', hrest⟩ := ih hc₁ he
      refine ⟨m, c', e', hm, hc', he', ?_⟩
      rw [← List.singleton_append, Cursor.run_append, hrun, hrest, List.nil_append]
    | some x =>
      rw [List.reduceOption_cons_of_some, List.cons.injEq] at he
      obtain ⟨rfl, he⟩ := he
      -- the message before was delivered already, or is delivered with this byte
      rcases h.state with ⟨hpos, rfl⟩ | ⟨hdue, hop, rfl⟩
      · have hc : Header c.message [] c := ⟨h.piece, hpos, rfl⟩
        obtain ⟨hevent, hnext⟩ := hc.event_some (by decide) x
        exact ⟨c.message, _, e, h.offset, hnext, he, by rw [Cursor.run_cons, hevent]⟩
      · have hc : Header c.deliver.1.message [] c.deliver.1 := ⟨rfl, rfl, rfl⟩
        obtain ⟨-, hnext⟩ := hc.event_some (by decide) x
        refine ⟨_, _, e, ?_, hnext, he, ?_⟩
        · show c.completed.offset = offset
          rw [Cursor.completed, if_pos hop]
          exact h.offset
        · rw [Cursor.run_cons, Cursor.event, if_pos hdue]

/-! ### Payloads -/

/-- The decoder inside the payload of a frame with header message `m`, after the payload
    events `e`: what it has decoded and what it still holds is what decoding `e` piece by piece
    has stored and still holds. -/
structure Receiving (m : Message) (e : List (Option UInt8)) (c : Cursor) : Prop where
  position : 4 ≤ c.position
  count : c.position + c.piece.length = 4 + e.reduceOption.length
  message : c.message = { m with payload := c.message.payload }
  text : m.opCode ≠ 3 → ∃ stored, c.message.payload = some stored ∧
    stored ++ (Decoder.start.feedAll c.piece).2 = (Decoder.start.feedEvents e).2 ∧
    (Decoder.start.feedAll c.piece).1 = (Decoder.start.feedEvents e).1

/-- Right after the header nothing has been decoded. -/
theorem Header.receiving {m : Message} {xs : List UInt8} {c : Cursor} (h : Header m xs c)
    (hlen : xs.length = 4) : Receiving (headerMessage m xs) [] c := by
  refine ⟨by rw [h.position]; omega, by rw [h.piece, h.position, hlen]; rfl, by rw [h.message],
    fun _ => ⟨[], ?_, by rw [h.piece]; rfl, by rw [h.piece]; rfl⟩⟩
  match xs, hlen with
  | [t, op, hi, lo], _ => rw [h.message, headerMessage_four]

/-- One more payload byte in the piece. -/
theorem Receiving.push {m : Message} {e : List (Option UInt8)} {c : Cursor}
    (h : Receiving m e c) (b : UInt8) : Receiving m (e ++ [some b]) (c.push [b]) := by
  refine ⟨h.position, ?_, h.message, fun hop => ?_⟩
  · have := h.count
    rw [Cursor.push_position, Cursor.push_piece, List.length_append, List.reduceOption_append,
      List.length_append, List.length_singleton]
    show c.position + (c.piece.length + 1) = 4 + (e.reduceOption.length + 1)
    omega
  · obtain ⟨stored, hpay, hout, hdec⟩ := h.text hop
    refine ⟨stored, hpay, ?_, ?_⟩
    · rw [Cursor.push_piece, Decoder.feedAll_append, Decoder.feedEvents_append, ← hout, ← hdec,
        List.append_assoc]
      rfl
    · rw [Cursor.push_piece, Decoder.feedAll_append, Decoder.feedEvents_append, ← hdec]
      rfl

/-- The end of a chunk inside a payload. -/
theorem Receiving.event_none {m : Message} {e : List (Option UInt8)} {c : Cursor}
    (h : Receiving m e c) :
    ∃ c', c.event none = (c', []) ∧ Receiving m (e ++ [none]) c' := by
  have hcount := h.count
  have hbytes : (e ++ [none]).reduceOption = e.reduceOption := by
    rw [List.reduceOption_append]
    exact List.append_nil _
  have hevents : Decoder.start.feedEvents (e ++ [none]) =
      (Decoder.start,
        (Decoder.start.feedEvents e).2 ++ (Decoder.start.feedEvents e).1.finish) := by
    rw [Decoder.feedEvents_append]
    show (_, _ ++ (_ ++ [])) = _
    rw [List.append_nil]
    rfl
  by_cases hp : c.piece = []
  · -- no byte since the last cut: the payload stays, and the decoder was fresh already
    refine ⟨{ c with off := 0 }, Cursor.event_none_of_nil hp, h.position,
      by rw [hbytes]; exact hcount, h.message, fun hop => ?_⟩
    obtain ⟨stored, hpay, hout, hdec⟩ := h.text hop
    rw [hp, Decoder.feedAll_nil, List.append_nil] at hout
    rw [hp, Decoder.feedAll_nil] at hdec
    refine ⟨stored, hpay, ?_, ?_⟩
    · rw [hevents, ← hdec, hout]
      show _ ++ (Decoder.start.feedAll c.piece).2 = _
      rw [hp]
      rfl
    · rw [hevents]
      show (Decoder.start.feedAll c.piece).1 = _
      rw [hp]
      rfl
  · -- the piece is decoded by itself and appended
    refine ⟨_, Cursor.event_none_of_ne hp, ?_, ?_, ?_, fun hop => ?_⟩
    · have := h.position
      show 4 ≤ c.position + c.piece.length
      omega
    · rw [hbytes]
      exact hcount
    · show c.flushed = { m with payload := c.flushed.payload }
      unfold Cursor.flushed
      split
      · rw [Message.append, h.message]
      · exact h.message
    · obtain ⟨stored, hpay, hout, hdec⟩ := h.text hop
      have hop' : c.message.opCode ≠ 3 := by rw [h.message]; exact hop
      refine ⟨stored ++ decode c.piece, ?_, ?_, by rw [hevents]; rfl⟩
      · show c.flushed.payload = _
        rw [Cursor.flushed_of_ne hop', Message.append, hpay]
        rfl
      · show (stored ++ decode c.piece) ++ [] = _
        rw [List.append_nil, hevents, ← hdec, ← hout, decode, List.append_assoc]

/-- **Payload events that do not complete the frame** deliver nothing. -/
theorem Receiving.run {m : Message} {e₀ : List (Option UInt8)} {c : Cursor}
    (h : Receiving m e₀ c) {e : List (Option UInt8)}
    (hlen : e₀.reduceOption.length + e.reduceOption.length < m.length ∨ e.reduceOption = []) :
    ∃ c', c.run e = (c', []) ∧ Receiving m (e₀ ++ e) c' := by
  induction e generalizing c e₀ with
  | nil => exact ⟨c, rfl, by rw [List.append_nil]; exact h⟩
  | cons x e ih =>
    cases x with
    | none =>
      obtain ⟨c₁, hevent, hc₁⟩ := h.event_none
      obtain ⟨c', hrun, hc'⟩ := ih hc₁ (by
        rw [List.reduceOption_append]
        simpa using hlen)
      refine ⟨c', by rw [Cursor.run_cons, hevent, hrun, List.nil_append], ?_⟩
      rwa [← List.append_cons] at hc'
    | some b =>
      rw [List.reduceOption_cons_of_some, List.length_cons] at hlen
      have hlen := hlen.resolve_right (List.cons_ne_nil _ _)
      have hcount := h.count
      have hmlen : c.message.length = m.length := by rw [h.message]
      have hrun₁ : c.run [some b] = (c.push [b], []) := Cursor.run_piece h.position [b] (by
        rw [hmlen, List.length_singleton]
        omega)
      obtain ⟨c', hrun, hc'⟩ := ih (h.push b) (Or.inl (by
        rw [List.reduceOption_append, List.length_append]
        show _ + 1 + _ < _
        omega))
      refine ⟨c', ?_, by rwa [← List.append_cons] at hc'⟩
      rw [← List.singleton_append, Cursor.run_append, hrun₁, hrun, List.nil_append]

/-- **The last payload byte** delivers the message with the payload decoded so far. -/
theorem Receiving.last {m : Message} {e : List (Option UInt8)} {c : Cursor}
    (h : Receiving m e c) (hop : m.opCode ≠ 3) (b : UInt8)
    (hlen : e.reduceOption.length + 1 = m.length) :
    ∃ c', c.run [some b] = (c', [{ m with payload := some (decodeEvents (e ++ [some b])) }]) ∧
      Idle m.offset c' [] := by
  have hcount := h.count
  have hmlen : c.message.length = m.length := by rw [h.message]
  have hop' : c.message.opCode ≠ 3 := by rw [h.message]; exact hop
  obtain ⟨stored, hpay, hout, hdec⟩ := (h.push b).text hop
  have hcomp : (c.push [b]).completed
      = { m with payload := some (decodeEvents (e ++ [some b])) } := by
    rw [Cursor.completed, if_pos (show (c.push [b]).message.opCode ≠ 3 from hop'), Message.append,
      hpay, (h.push b).message, decodeEvents, ← hout, ← hdec, decode, List.append_assoc]
    rfl
  refine ⟨(c.push [b]).deliver.1, ?_, rfl, ?_, Or.inl ⟨rfl, rfl⟩⟩
  · have hrun : c.run ([b].map some) = (c.push [b]).deliver :=
      Cursor.run_complete h.position (List.cons_ne_nil _ _) (by
        rw [hmlen, List.length_singleton]
        omega)
    rw [List.map_singleton] at hrun
    rw [hrun, Cursor.deliver, hcomp]
  · show (c.push [b]).completed.offset = _
    rw [hcomp]

/-! ### Whole frames -/

/-- Some bytes of a header, from between frames. -/
theorem Idle.run_header {offset : Option Nat} {c : Cursor} {owed : List Message}
    (h : Idle offset c owed) {e : List (Option UInt8)} (hne : e.reduceOption ≠ [])
    (hlen : e.reduceOption.length ≤ 4) :
    ∃ (m : Message) (c' : Cursor), m.offset = offset ∧ Header m e.reduceOption c' ∧
      c.run e = (c', owed) := by
  obtain ⟨b, bs, hbs⟩ := List.exists_cons_of_ne_nil hne
  obtain ⟨m, c₁, e₁, hm, hc₁, he₁, hrun⟩ := h.run_first hbs
  rw [hbs, List.length_cons] at hlen
  obtain ⟨c', hrun₁, hc'⟩ := hc₁.run (e := e₁) (by
    rw [he₁, List.length_singleton]
    omega)
  refine ⟨m, c', hm, by rw [hbs, ← he₁]; exact hc', ?_⟩
  rw [hrun, hrun₁, List.append_nil]

/-- The two bytes of a 16-bit length, as the decoder puts them together. -/
theorem length_field {n : Nat} (h : n < 2 ^ 16) :
    (UInt8.ofNat (n / 256 ^ 1)).toNat <<< 8 + (UInt8.ofNat (n / 256 ^ 0)).toNat = n := by
  rw [UInt8.toNat_ofNat', UInt8.toNat_ofNat', Nat.pow_zero, Nat.div_one, Nat.shiftLeft_eq]
  omega

/-- The message object after the header of a frame. -/
theorem Frame.headerMessage_eq (f : Frame) (m : Message) :
    headerMessage m f.header = f.messageWith m.offset [] := by
  rw [header, bigEndian, bigEndian, bigEndian, headerMessage_four, length_field f.length_lt,
    messageWith]

/-- Position `n` of the frame is strictly inside a character of its text. -/
def Frame.SplitsAt (f : Frame) (n : Nat) : Prop := 4 ≤ n ∧ Inside f.text (n - 4)

/-- The cuts of a frame that matter are those of its payload. -/
theorem Frame.allCuts_splitsAt (f : Frame) {e₁ e₂ : List (Option UInt8)}
    (h₁ : e₁.reduceOption = f.header) :
    AllCuts (fun n => ¬ f.SplitsAt n) (e₁ ++ e₂) ↔ AllCuts (fun n => ¬ Inside f.text n) e₂ := by
  rw [allCuts_append, h₁, f.length_header]
  constructor
  · exact fun h => h.2.mono fun n _ hn hin => hn ⟨by omega, by rwa [Nat.add_sub_cancel]⟩
  · refine fun h => ⟨allCuts_of_forall fun n hn hin => ?_, h.mono fun n _ hn hin => hn ?_⟩
    · rw [h₁, f.length_header] at hn
      have h4 : n = 4 := by
        have := hin.1
        omega
      subst h4
      exact not_inside_zero _ hin.2
    · have := hin.2
      rwa [Nat.add_sub_cancel] at this

/-- What a whole frame yields: its message with some payload, right or wrong, either at once
    or, for an empty text, owed. -/
structure FrameOutcome (f : Frame) (offset : Option Nat) (e : List (Option UInt8))
    (out owed : List Message) (payload : JsString) : Prop where
  payload_iff : payload = utf16 f.text ↔ AllCuts (fun n => ¬ f.SplitsAt n) e
  messages : out ++ owed = [f.messageWith offset payload]
  owed_iff : owed = [] ↔ f.text ≠ []

/-- Cuts after the last byte of a text are not inside it. -/
private theorem allCuts_inside_trailing (cs : List Char) {e₁ e₂ : List (Option UInt8)}
    (h₁ : e₁.reduceOption = utf8 cs) (h₂ : e₂.reduceOption = []) :
    AllCuts (fun n => ¬ Inside cs n) (e₁ ++ e₂) ↔ AllCuts (fun n => ¬ Inside cs n) e₁ := by
  rw [allCuts_append]
  refine and_iff_left (allCuts_of_forall fun n hn hin => ?_)
  have := hin.lt_length
  rw [h₂, List.length_nil] at hn
  rw [h₁] at this
  omega

/-- **A whole frame**, cut anywhere. -/
theorem Idle.run_frame {offset : Option Nat} {c : Cursor} {owed : List Message}
    (h : Idle offset c owed) (f : Frame) {e : List (Option UInt8)}
    (he : e.reduceOption = f.bytes) :
    ∃ c' out owed' payload, c.run e = (c', owed ++ out) ∧ Idle offset c' owed' ∧
      FrameOutcome f offset e out owed' payload := by
  obtain ⟨e₁, e₂, rfl, h₁, h₂⟩ := events_split he
  have hne : e₁.reduceOption ≠ [] := by rw [h₁]; exact List.cons_ne_nil _ _
  obtain ⟨m, c₁, hm, hc₁, hrun₁⟩ := h.run_header hne (by rw [h₁, f.length_header])
  have hrec := hc₁.receiving (by rw [h₁, f.length_header])
  rw [h₁, f.headerMessage_eq, hm] at hrec
  by_cases htext : f.text = []
  · -- no payload: the message is owed
    rw [htext, utf8_nil] at h₂
    obtain ⟨c', hrun₂, hc'⟩ := hrec.run (e := e₂) (Or.inr h₂)
    have hcount := hc'.count
    rw [List.nil_append, h₂, List.length_nil] at hcount
    have hpos := hc'.position
    have hpiece : c'.piece = [] := List.eq_nil_of_length_eq_zero (by omega)
    have hop : c'.message.opCode ≠ 3 := by rw [hc'.message]; exact f.opCode_ne
    obtain ⟨stored, hpay, hout, -⟩ := hc'.text f.opCode_ne
    have hstray := feedEvents_strays (e := e₂) (by rw [h₂]; simp)
    rw [hpiece, Decoder.feedAll_nil, List.append_nil, List.nil_append, hstray, h₂] at hout
    have hdeliver : c'.deliver.2 = [f.messageWith offset []] := by
      rw [Cursor.deliver, Cursor.completed, if_pos hop, hpiece, Message.append, hpay, hout,
        hc'.message]
      rfl
    refine ⟨c', [], [f.messageWith offset []], [], ?_, ⟨hpiece, ?_, Or.inr ⟨⟨hpos, ?_⟩, hop,
      hdeliver.symm⟩⟩, ⟨?_, rfl, ?_⟩⟩
    · rw [Cursor.run_append, hrun₁, hrun₂]
    · rw [hc'.message]
      rfl
    · have hlen : c'.message.length = (utf8 f.text).length := by
        rw [hc'.message]
        rfl
      rw [hlen, htext, hpiece]
      exact hpos
    · rw [f.allCuts_splitsAt h₁, htext]
      exact ⟨fun _ => allCuts_of_forall fun n _ => not_inside_nil n, fun _ => rfl⟩
    · simp [htext]
  · have hne₂ : e₂.reduceOption ≠ [] := by
      rw [h₂]
      exact fun h => htext (utf8_eq_nil.mp h)
    obtain ⟨e₃, b, e₄, rfl, h₄⟩ := events_last hne₂
    have hsplit : e₃ ++ some b :: e₄ = (e₃ ++ [some b]) ++ e₄ := List.append_cons _ _ _
    have hbytes : (e₃ ++ [some b]).reduceOption = utf8 f.text := by
      rw [← h₂, hsplit, List.reduceOption_append (e₃ ++ [some b]), h₄, List.append_nil]
    have hlen : e₃.reduceOption.length + 1 = (utf8 f.text).length := by
      rw [← hbytes, List.reduceOption_append, List.length_append]
      rfl
    obtain ⟨c₂, hrun₂, hc₂⟩ := hrec.run (e := e₃) (Or.inl (by
      show 0 + _ < (utf8 f.text).length
      omega))
    rw [List.nil_append] at hc₂
    obtain ⟨c₃, hrun₃, hc₃⟩ := hc₂.last f.opCode_ne b hlen
    obtain ⟨c', hrun₄, hc'⟩ := hc₃.run_nil h₄
    refine ⟨c', [f.messageWith offset (decodeEvents (e₃ ++ [some b]))], [],
      decodeEvents (e₃ ++ [some b]), ?_, hc', ⟨?_, rfl, by simp [htext]⟩⟩
    · rw [Cursor.run_append, hrun₁, Cursor.run_append, hrun₂, ← List.singleton_append,
        Cursor.run_append, hrun₃, hrun₄]
      rfl
    · rw [f.allCuts_splitsAt h₁, hsplit, allCuts_inside_trailing _ hbytes h₄,
        decodeEvents_eq_iff f.text hbytes]

/-- Bytes that do not make up a frame. -/
def Incomplete (xs : List UInt8) : Prop :=
  xs.length < 4 ∨ ∃ t op hi lo rest, xs = t :: op :: hi :: lo :: rest ∧
    rest.length < hi.toNat <<< 8 + lo.toNat

/-- **An incomplete frame** yields nothing but what was owed. -/
theorem Idle.run_incomplete {offset : Option Nat} {c : Cursor} {owed : List Message}
    (h : Idle offset c owed) {e : List (Option UInt8)} (hinc : Incomplete e.reduceOption)
    (hne : e.reduceOption ≠ []) : (c.run e).2 = owed := by
  rcases hinc with hlen | ⟨t, op, hi, lo, rest, heq, hlen⟩
  · obtain ⟨m, c', -, -, hrun⟩ := h.run_header hne (by omega)
    rw [hrun]
  · have hsplit : e.reduceOption = [t, op, hi, lo] ++ rest := heq
    obtain ⟨e₁, e₂, rfl, h₁, h₂⟩ := events_split hsplit
    obtain ⟨m, c₁, -, hc₁, hrun₁⟩ := h.run_header (e := e₁) (by rw [h₁]; exact List.cons_ne_nil _ _)
      (by rw [h₁]; exact Nat.le_refl _)
    have hrec := hc₁.receiving (by rw [h₁]; rfl)
    rw [h₁, headerMessage_four] at hrec
    obtain ⟨c', hrun₂, -⟩ := hrec.run (e := e₂) (Or.inl (by
      rw [h₂]
      show 0 + rest.length < hi.toNat <<< 8 + lo.toNat
      omega))
    rw [Cursor.run_append, hrun₁, hrun₂, List.append_nil]

private theorem exists_header {xs : List UInt8} (h : ¬ xs.length < 4) :
    ∃ a b c d ys, xs = a :: b :: c :: d :: ys := by
  match xs, h with
  | a :: b :: c :: d :: ys, _ => exact ⟨a, b, c, d, ys, rfl⟩
  | [], h | [_], h | [_, _], h | [_, _, _], h => exact absurd (by simp) h

/-- The beginning of an incomplete frame is incomplete. -/
theorem Incomplete.of_prefix {xs ys : List UInt8} (h : Incomplete (xs ++ ys)) : Incomplete xs := by
  rcases h with h | ⟨t, op, hi, lo, rest, heq, hlen⟩
  · rw [List.length_append] at h
    exact Or.inl (by omega)
  · by_cases hshort : xs.length < 4
    · exact Or.inl hshort
    · obtain ⟨a, b, c, d, xs, rfl⟩ := exists_header hshort
      simp only [List.cons_append, List.cons.injEq] at heq
      obtain ⟨rfl, rfl, rfl, rfl, rfl⟩ := heq
      rw [List.length_append] at hlen
      exact Or.inr ⟨_, _, _, _, xs, rfl, by omega⟩

/-- A frame that is cut short is incomplete. -/
theorem Frame.incomplete_of_prefix (f : Frame) {xs ys : List UInt8} (h : xs ++ ys = f.bytes)
    (hys : ys ≠ []) : Incomplete xs := by
  have hpos := List.length_pos_of_ne_nil hys
  by_cases hlen : xs.length < 4
  · exact Or.inl hlen
  · rw [bytes, header, bigEndian, bigEndian, bigEndian] at h
    obtain ⟨a, b, c, d, xs, rfl⟩ := exists_header hlen
    simp only [List.cons_append, List.nil_append, List.cons.injEq] at h
    obtain ⟨rfl, rfl, rfl, rfl, h⟩ := h
    refine Or.inr ⟨_, _, _, _, xs, rfl, ?_⟩
    have hsum := congrArg List.length h
    rw [List.length_append] at hsum
    rw [length_field f.length_lt]
    omega

end Dv8.Ipc
