import Dv8.Ipc.Frames

namespace Dv8.Ipc

open Dv8.Lib Dv8.V8

/-!
# Parsers that go on alike

A parser in the middle of a frame has read some of the header fields; the others, left from an
earlier frame, are overwritten before `onMessage` sees them.  Two parsers *agree* when they
stand at the same position and what they have read is the same.

* `Cursor.Agrees.run` — parsers that agree deliver the same messages and go on to agree;
* `resumes_iff` — bytes behind a complete frame deliver nothing and lead to a parser that agrees
  with one at position `n` and the message of that frame, exactly when they are `n` bytes that
  *repeat* the beginning of the frame.
-/

/-- The fields a parser at position `n` has read are the same; `offset` is never reset. -/
structure Message.Agrees (n : Nat) (m m' : Message) : Prop where
  offset : m.offset = m'.offset
  threadId : 1 ≤ n → m.threadId = m'.threadId
  opCode : 2 ≤ n → m.opCode = m'.opCode
  length : 3 ≤ n → m.length = m'.length
  payload : 4 ≤ n → m.opCode ≠ 3 → m.payload = m'.payload

/-- Parsers at the same position that have read the same. -/
structure Parser.Agrees (p q : Parser) : Prop where
  position : p.position = q.position
  message : p.message.Agrees p.position q.message

/-- Cursors that agree; only payload bytes wait in a piece. -/
structure Cursor.Agrees (c d : Cursor) : Prop where
  off : c.off = d.off
  position : c.position = d.position
  piece : c.piece = d.piece
  payload : c.piece ≠ [] → 4 ≤ c.position
  message : c.message.Agrees c.position d.message

/-! ### Agreement is an equivalence -/

theorem Message.Agrees.refl (n : Nat) (m : Message) : m.Agrees n m :=
  ⟨rfl, fun _ => rfl, fun _ => rfl, fun _ => rfl, fun _ _ => rfl⟩

theorem Message.Agrees.symm {n : Nat} {m m' : Message} (h : m.Agrees n m') : m'.Agrees n m := by
  refine ⟨h.offset.symm, fun hn => (h.threadId hn).symm, fun hn => (h.opCode hn).symm,
    fun hn => (h.length hn).symm, fun hn hop => ?_⟩
  apply Eq.symm
  apply h.payload hn
  rwa [h.opCode (by omega)]

theorem Message.Agrees.trans {n : Nat} {m m' m'' : Message} (h : m.Agrees n m')
    (h' : m'.Agrees n m'') : m.Agrees n m'' := by
  refine ⟨h.offset.trans h'.offset, fun hn => (h.threadId hn).trans (h'.threadId hn),
    fun hn => (h.opCode hn).trans (h'.opCode hn), fun hn => (h.length hn).trans (h'.length hn),
    fun hn hop => (h.payload hn hop).trans (h'.payload hn ?_)⟩
  rwa [← h.opCode (by omega)]

theorem Parser.Agrees.refl (p : Parser) : p.Agrees p := ⟨rfl, Message.Agrees.refl _ _⟩

theorem Parser.Agrees.symm {p q : Parser} (h : p.Agrees q) : q.Agrees p :=
  ⟨h.position.symm, by rw [← h.position]; exact h.message.symm⟩

theorem Parser.Agrees.trans {p q r : Parser} (h : p.Agrees q) (h' : q.Agrees r) : p.Agrees r := by
  refine ⟨h.position.trans h'.position, h.message.trans ?_⟩
  rw [h.position]
  exact h'.message

/-- Well-formedness only looks at fields that have been read. -/
theorem Parser.Agrees.wf {p q : Parser} (h : p.Agrees q) (hp : p.WF) : q.WF := by
  refine ⟨fun hq => ?_, fun hq => ?_, fun hq => ?_⟩
  · rw [← h.message.length (by rw [h.position]; omega)]
    exact hp.high (by rw [h.position, hq])
  · rw [← h.message.length (by rw [h.position]; omega)]
    exact hp.length (by rw [h.position]; exact hq)
  · rw [← h.message.length (by rw [h.position]; omega), ← h.position]
    exact hp.position (by rw [h.position]; exact hq)

/-! ### Cursors that agree -/

theorem Parser.Agrees.cursor {p q : Parser} (h : p.Agrees q) : p.cursor.Agrees q.cursor :=
  ⟨rfl, h.position, rfl, fun hne => absurd rfl hne, h.message⟩

/-- Payload bytes are the same, in the same place. -/
theorem Cursor.Agrees.due_iff {c d : Cursor} (h : c.Agrees d) : c.due ↔ d.due := by
  unfold due
  rw [← h.position, ← h.piece]
  refine and_congr_right fun hpos => ?_
  rw [h.message.length (by omega)]

/-- Behind the header the payload read so far is decoded alike. -/
theorem Cursor.Agrees.flushed {c d : Cursor} (h : c.Agrees d) (hpos : 4 ≤ c.position) (n : Nat) :
    c.flushed.Agrees n d.flushed := by
  have hop := h.message.opCode (by omega)
  by_cases h3 : c.message.opCode = 3
  · rw [flushed_of_eq h3, flushed_of_eq (hop ▸ h3)]
    exact ⟨h.message.offset, fun _ => h.message.threadId (by omega), fun _ => hop,
      fun _ => h.message.length (by omega), fun _ hne => absurd h3 hne⟩
  · rw [flushed_of_ne h3, flushed_of_ne (hop ▸ h3), Message.append, Message.append,
      h.message.payload hpos h3, h.piece]
    exact ⟨h.message.offset, fun _ => h.message.threadId (by omega), fun _ => hop,
      fun _ => h.message.length (by omega), fun _ _ => rfl⟩

/-- A complete frame has read every field: the messages are equal. -/
theorem Cursor.Agrees.completed {c d : Cursor} (h : c.Agrees d) (hpos : 4 ≤ c.position) :
    c.completed = d.completed := by
  have hflush := h.flushed hpos 4
  have hop := h.message.opCode (by omega)
  by_cases h3 : c.message.opCode = 3
  · rw [Cursor.completed, Cursor.completed, if_neg (not_not.mpr h3),
      if_neg (not_not.mpr (hop ▸ h3)), h.off, h.piece]
    rw [flushed_of_eq h3, flushed_of_eq (hop ▸ h3)] at hflush
    rw [Message.mk.injEq]
    exact ⟨hop, hflush.threadId (by omega), hflush.length (by omega), rfl, rfl⟩
  · rw [Cursor.completed, Cursor.completed, if_pos h3, if_pos (hop ▸ h3)]
    rw [flushed_of_ne h3, flushed_of_ne (hop ▸ h3)] at hflush
    obtain ⟨h₁, h₂, h₃, h₄, h₅⟩ := hflush
    exact Message.mk.injEq .. ▸ ⟨hop, h₂ (by omega), h₄ (by omega), h₅ (by omega) h3, h₁⟩

theorem Cursor.Agrees.deliver {c d : Cursor} (h : c.Agrees d) (hpos : 4 ≤ c.position) :
    c.deliver.1.Agrees d.deliver.1 ∧ c.deliver.2 = d.deliver.2 := by
  unfold Cursor.deliver
  rw [h.completed hpos]
  exact ⟨⟨h.off, rfl, rfl, fun hne => absurd rfl hne, Message.Agrees.refl _ _⟩, rfl⟩

/-- The same byte goes into the same field. -/
theorem Cursor.Agrees.byte {c d : Cursor} (h : c.Agrees d) (b : UInt8) :
    (c.byte b).Agrees (d.byte b) := by
  obtain ⟨off, n, m, xs⟩ := c
  obtain ⟨off', n', m', xs'⟩ := d
  obtain ⟨rfl, rfl, rfl, hpay, hm⟩ := h
  have hnil : n < 4 → xs = [] := fun hlt => by
    by_contra hne
    exact absurd (hpay hne) (by change ¬ 4 ≤ n; omega)
  -- each header byte overwrites one field, so the two messages agree on one more
  unfold Cursor.byte
  split_ifs with h₀ h₁ h₂ h₃
  · exact ⟨rfl, rfl, rfl, fun hne => absurd (hnil (by change n = 0 at h₀; omega)) hne,
      hm.offset, fun _ => rfl, fun h => absurd h (by show ¬ 2 ≤ 1; omega),
      fun h => absurd h (by show ¬ 3 ≤ 1; omega), fun h => absurd h (by show ¬ 4 ≤ 1; omega)⟩
  · exact ⟨rfl, rfl, rfl, fun hne => absurd (hnil (by change n = 1 at h₁; omega)) hne,
      hm.offset, fun _ => hm.threadId (by change n = 1 at h₁; omega), fun _ => rfl,
      fun h => absurd h (by show ¬ 3 ≤ 2; omega), fun h => absurd h (by show ¬ 4 ≤ 2; omega)⟩
  · exact ⟨rfl, rfl, rfl, fun hne => absurd (hnil (by change n = 2 at h₂; omega)) hne,
      hm.offset, fun _ => hm.threadId (by change n = 2 at h₂; omega),
      fun _ => hm.opCode (by change n = 2 at h₂; omega), fun _ => rfl,
      fun h => absurd h (by show ¬ 4 ≤ 3; omega)⟩
  · have hn : n = 3 := h₃
    refine ⟨rfl, rfl, rfl, fun hne => absurd (hnil (by omega)) hne,
      hm.offset, fun _ => hm.threadId (by omega), fun _ => hm.opCode (by omega), fun _ => ?_,
      fun _ _ => rfl⟩
    show m.length + b.toNat = m'.length + b.toNat
    rw [hm.length (by omega)]
  · refine ⟨rfl, rfl, rfl, fun _ => ?_, hm⟩
    simp only at h₀ h₁ h₂ h₃
    show 4 ≤ n
    omega

/-- **One event.** -/
theorem Cursor.Agrees.event {c d : Cursor} (h : c.Agrees d) (x : Option UInt8) :
    (c.event x).1.Agrees (d.event x).1 ∧ (c.event x).2 = (d.event x).2 := by
  cases x with
  | none =>
    by_cases hnil : c.piece = []
    · rw [event_none_of_nil hnil, event_none_of_nil (h.piece ▸ hnil)]
      exact ⟨⟨rfl, h.position, h.piece, h.payload, h.message⟩, rfl⟩
    · rw [event_none_of_ne hnil, event_none_of_ne (h.piece ▸ hnil), h.position, h.piece]
      exact ⟨⟨rfl, rfl, rfl, fun hne => absurd rfl hne, h.flushed (h.payload hnil) _⟩, rfl⟩
  | some b =>
    by_cases hdue : c.due
    · obtain ⟨hnext, hout⟩ := h.deliver hdue.1
      rw [Cursor.event, Cursor.event, if_pos hdue, if_pos (h.due_iff.mp hdue)]
      exact ⟨hnext.byte b, hout⟩
    · have hnext := h.byte b
      rw [Cursor.event, Cursor.event, if_neg hdue, if_neg (mt h.due_iff.mpr hdue),
        settle, settle]
      by_cases hs : (c.byte b).due ∧ (c.byte b).piece ≠ []
      · rw [if_pos hs, if_pos ⟨hnext.due_iff.mp hs.1, hnext.piece ▸ hs.2⟩]
        exact hnext.deliver hs.1.1
      · rw [if_neg hs, if_neg fun hs' => hs ⟨hnext.due_iff.mpr hs'.1, hnext.piece ▸ hs'.2⟩]
        exact ⟨hnext, rfl⟩

/-- **Parsers that agree deliver the same messages**, and go on to agree. -/
theorem Cursor.Agrees.run {c d : Cursor} (h : c.Agrees d) (e : List (Option UInt8)) :
    (c.run e).1.Agrees (d.run e).1 ∧ (c.run e).2 = (d.run e).2 := by
  induction e generalizing c d with
  | nil => exact ⟨h, rfl⟩
  | cons x e ih =>
    obtain ⟨hnext, hout⟩ := h.event x
    obtain ⟨hrest, hmsgs⟩ := ih hnext
    rw [run_cons, run_cons, hout, hmsgs]
    exact ⟨hrest, rfl⟩

/-! ### Bytes that repeat a frame -/

/-- The bytes are `n` in number, their header fields are those of `m`, and behind the header
    they are a beginning of its payload with the text `m` holds. -/
def Message.Repeated (m : Message) : List UInt8 → Nat → Prop
  | [], n => n = 0
  | [t], n => n = 1 ∧ t = m.threadId
  | [t, op], n => n = 2 ∧ t = m.threadId ∧ op = m.opCode
  | [t, op, hi], n => n = 3 ∧ t = m.threadId ∧ op = m.opCode ∧ hi.toNat <<< 8 = m.length
  | t :: op :: hi :: lo :: body, n =>
    n = body.length + 4 ∧ t = m.threadId ∧ op = m.opCode ∧
      hi.toNat <<< 8 + lo.toNat = m.length ∧ (body = [] ∨ body.length < m.length) ∧
      (m.opCode ≠ 3 → m.payload = some (decode body))

instance : (m : Message) → (xs : List UInt8) → (n : Nat) → Decidable (m.Repeated xs n)
  | _, [], n => inferInstanceAs (Decidable (n = 0))
  | _, [_], _ => inferInstanceAs (Decidable (_ ∧ _))
  | _, [_, _], _ => inferInstanceAs (Decidable (_ ∧ _))
  | _, [_, _, _], _ => inferInstanceAs (Decidable (_ ∧ _))
  | _, _ :: _ :: _ :: _ :: _, _ => inferInstanceAs (Decidable (_ ∧ _))

/-- A parser between frames, in the middle of a chunk. -/
def Message.next (m : Message) (off : Nat) : Cursor := ⟨off, 0, m, []⟩

/-- The bytes deliver nothing and leave a parser that agrees with `p`. -/
def Message.Resumes (m : Message) (off : Nat) (xs : List UInt8) (p : Parser) : Prop :=
  ((m.next off).run (xs.map some ++ [none])).2 = [] ∧
    ((m.next off).run (xs.map some ++ [none])).1.parser.Agrees p

/-- What header bytes leave. -/
private theorem next_run_header (m : Message) (off : Nat) {xs : List UInt8} (h : xs.length ≤ 4) :
    ∃ c, (m.next off).run (xs.map some) = (c, []) ∧ Header m xs c := by
  have hstart : Header m [] (m.next off) := ⟨rfl, rfl, rfl⟩
  have hbytes := reduceOption_map_some xs
  obtain ⟨c, hrun, hc⟩ := hstart.run (e := xs.map some) (by rw [hbytes]; simpa using h)
  rw [hbytes, List.nil_append] at hc
  exact ⟨c, hrun, hc⟩

/-- Inside a header only the fields that have been read are compared. -/
private theorem resumes_header_iff (m : Message) (off : Nat) {xs : List UInt8}
    (h : xs.length ≤ 4) (n : Nat) (m' : Message) :
    m.Resumes off xs ⟨n, m'⟩ ↔ n = xs.length ∧ (headerMessage m xs).Agrees xs.length m' := by
  obtain ⟨c, hrun, hc⟩ := next_run_header m off h
  have hend : c.event none = ({ c with off := 0 }, []) := Cursor.event_none_of_nil hc.piece
  have hpos := hc.position
  unfold Message.Resumes
  rw [Cursor.run_append, hrun, Cursor.run_none, hend, ← hc.message, ← hpos]
  constructor
  · rintro ⟨-, hposition, hmessage⟩
    exact ⟨hposition.symm, hmessage⟩
  · rintro ⟨rfl, hmessage⟩
    exact ⟨rfl, rfl, hmessage⟩

/-- Payload bytes that complete the frame, or come behind an empty one, deliver. -/
private theorem Header.run_delivers {m : Message} {xs : List UInt8} {c : Cursor}
    (h : Header m xs c) (hxs : xs.length = 4) {body : List UInt8} (hne : body ≠ [])
    (hlen : c.message.length ≤ body.length) (e : List (Option UInt8)) :
    (c.run (body.map some ++ e)).2 ≠ [] := by
  have hpos : 4 ≤ c.position := by rw [h.position, hxs]
  by_cases h0 : c.message.length = 0
  · -- the message of an empty frame comes out before the first byte
    obtain ⟨b, ys, rfl⟩ := List.exists_cons_of_ne_nil hne
    have hdue : c.due := by
      rw [Cursor.due_iff hpos]
      omega
    rw [List.map_cons, List.cons_append, Cursor.run_due hdue]
    exact List.cons_ne_nil _ _
  · have hfirst : (body.take c.message.length).length = c.message.length :=
      List.length_take_of_le hlen
    rw [← List.take_append_drop c.message.length body, List.map_append, List.append_assoc,
      Cursor.run_append, Cursor.run_complete hpos (by
        apply List.ne_nil_of_length_pos
        omega) (by
        rw [hfirst, h.piece, h.position, hxs, List.length_nil]
        omega)]
    exact List.cons_ne_nil _ _

/-- Payload bytes behind a header that do not complete the frame. -/
private theorem Header.run_body {m : Message} {xs : List UInt8} {c : Cursor} (h : Header m xs c)
    (hxs : xs.length = 4) {body : List UInt8} (hlen : body.length < c.message.length) :
    c.run (body.map some ++ [none]) = ((c.push body).event none) := by
  rw [Cursor.run_append, Cursor.run_piece (by rw [h.position, hxs]) body (by
    rw [h.position, hxs, h.piece, List.length_nil]
    omega), Cursor.run_none, List.nil_append]

/-- Inside a payload all header fields are compared, and the text decoded so far. -/
private theorem resumes_body_iff (m : Message) (off : Nat) {t op hi lo : UInt8}
    {body : List UInt8} (hne : body ≠ []) (n : Nat) :
    m.Resumes off (t :: op :: hi :: lo :: body) ⟨n, m⟩ ↔
      n = body.length + 4 ∧ t = m.threadId ∧ op = m.opCode ∧
        hi.toNat <<< 8 + lo.toNat = m.length ∧ body.length < m.length ∧
        (m.opCode ≠ 3 → m.payload = some (decode body)) := by
  have hfour : [t, op, hi, lo].length ≤ 4 := Nat.le_refl 4
  obtain ⟨c, hrun, hc⟩ := next_run_header m off hfour
  have hmsg : c.message = _ := hc.message.trans (headerMessage_four m t op hi lo)
  have hlen : c.message.length = hi.toNat <<< 8 + lo.toNat := by rw [hmsg]
  have hsplit : (t :: op :: hi :: lo :: body).map some ++ [none]
      = [t, op, hi, lo].map some ++ (body.map some ++ [none]) := rfl
  unfold Message.Resumes
  rw [hsplit, Cursor.run_append, hrun, List.nil_append]
  by_cases hlt : body.length < c.message.length
  · have hpiece : (c.push body).piece = body := by rw [Cursor.push_piece, hc.piece]; rfl
    have hend :
        (c.push body).event none = (⟨0, 4 + body.length, (c.push body).flushed, []⟩, []) := by
      rw [Cursor.event_none_of_ne (by rw [hpiece]; exact hne), hpiece, Cursor.push_position,
        hc.position]
      rfl
    have hflush : (c.push body).flushed =
        { opCode := op, threadId := t, length := hi.toNat <<< 8 + lo.toNat,
          payload := some (if op ≠ 3 then decode body else []), offset := m.offset } := by
      rw [Cursor.flushed, Cursor.push_message, hpiece, hmsg]
      split <;> rfl
    rw [hc.run_body rfl hlt, hend, hflush]
    constructor
    · rintro ⟨-, hposition, hagrees⟩
      have hposition : 4 + body.length = n := hposition
      have hn : 4 ≤ 4 + body.length := by omega
      have hlength : hi.toNat <<< 8 + lo.toNat = m.length := hagrees.length (Nat.le_of_succ_le hn)
      have hop : op = m.opCode := hagrees.opCode (show 2 ≤ 4 + body.length by omega)
      refine ⟨by omega, hagrees.threadId (show 1 ≤ 4 + body.length by omega), hop, hlength,
        by omega, fun hne3 => ?_⟩
      have hpayload := hagrees.payload hn (hop ▸ hne3)
      rw [if_pos (hop ▸ hne3)] at hpayload
      exact hpayload.symm
    · rintro ⟨rfl, rfl, rfl, hlength, -, hpayload⟩
      refine ⟨rfl, Nat.add_comm 4 body.length, rfl, fun _ => rfl, fun _ => rfl, fun _ => hlength,
        fun _ hne3 => ?_⟩
      have hne3 : m.opCode ≠ 3 := hne3
      show some (if m.opCode ≠ 3 then decode body else []) = m.payload
      rw [if_pos hne3, hpayload hne3]
  · -- a body as long as the header says is delivered again
    refine iff_of_false (fun h => hc.run_delivers rfl hne (by omega) _ h.1) ?_
    rintro ⟨-, -, -, hlength, hshort, -⟩
    omega

/-- **Bytes behind a frame go unnoticed** exactly when they repeat its beginning up to the
    position the parser is left at. -/
theorem resumes_iff (m : Message) (off : Nat) (xs : List UInt8) (n : Nat) :
    m.Resumes off xs ⟨n, m⟩ ↔ m.Repeated xs n := by
  match xs with
  | [] =>
    rw [resumes_header_iff m off (by simp), Message.Repeated]
    exact and_iff_left (Message.Agrees.refl 0 m)
  | [t] =>
    rw [resumes_header_iff m off (by simp), Message.Repeated]
    refine and_congr_right fun _ => ⟨fun h => h.threadId (Nat.le_refl 1), ?_⟩
    rintro rfl
    exact Message.Agrees.refl 1 m
  | [t, op] =>
    rw [resumes_header_iff m off (by simp), Message.Repeated]
    refine and_congr_right fun _ =>
      ⟨fun h => ⟨h.threadId (Nat.le_succ 1), h.opCode (Nat.le_refl 2)⟩, ?_⟩
    rintro ⟨rfl, rfl⟩
    exact Message.Agrees.refl 2 m
  | [t, op, hi] =>
    rw [resumes_header_iff m off (by simp), Message.Repeated]
    refine and_congr_right fun _ => ⟨fun h => ⟨h.threadId (by simp), h.opCode (by simp),
      h.length (Nat.le_refl 3)⟩, ?_⟩
    rintro ⟨rfl, rfl, hlength⟩
    exact ⟨rfl, fun _ => rfl, fun _ => rfl, fun _ => hlength, fun h => absurd h (by simp)⟩
  | [t, op, hi, lo] =>
    rw [resumes_header_iff m off (by simp), Message.Repeated, headerMessage_four]
    refine and_congr_right fun _ => ⟨fun h => ⟨h.threadId (by simp), h.opCode (by simp),
      h.length (by simp), Or.inl rfl, fun hne => ?_⟩, ?_⟩
    · have hop : op = m.opCode := h.opCode (by simp)
      exact (h.payload (Nat.le_refl 4) (hop ▸ hne)).symm
    · rintro ⟨rfl, rfl, hlength, -, hpayload⟩
      exact ⟨rfl, fun _ => rfl, fun _ => rfl, fun _ => hlength, fun _ hne => (hpayload hne).symm⟩
  | t :: op :: hi :: lo :: b :: body =>
    rw [resumes_body_iff m off (List.cons_ne_nil b body), Message.Repeated,
      or_iff_right (List.cons_ne_nil b body)]

end Dv8.Ipc
