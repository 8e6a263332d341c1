import Dv8.Ipc.Frames

namespace Dv8.Ipc

open Dv8.Lib Dv8.V8 Dv8.Builtins

/-!
# Where a delivered message points

The payload of an opCode 3 frame is not copied: `onMessage` gets the `offset` of the payload in
`rb` and its `length`.  But every read of the socket starts at the first byte of `rb` again,
and the parser takes for `offset` the place where it goes on with the payload *in the chunk that
completes it*.  For a payload that began in an earlier chunk that is the start of `rb`, and
what the message names there is the end of the payload and whatever lies behind it.

* `DeliveredAt` — the messages of a chunk, by the place where their frames start, counted from
  the start of the chunk and negative for a frame begun earlier;
* `At.run_bytes` — the bytes of a chunk, read from inside a frame;
* `pointAtPayloads_iff` — the messages point at their payloads exactly when `rb`, once
  it has been written over by the chunk that completes a cut payload, begins with it.
-/

/-- A frame with any payload; the length field leaves room for 16 bits. -/
structure Packet where
  threadId : UInt8
  opCode : UInt8
  payload : List UInt8
  length_lt : payload.length < 2 ^ 16

/-- The four header bytes. -/
def Packet.header (f : Packet) : List UInt8 :=
  f.threadId :: f.opCode :: bigEndian 2 f.payload.length

/-- The bytes of the frame. -/
def Packet.bytes (f : Packet) : List UInt8 := f.header ++ f.payload

/-- The bytes of a list of frames. -/
def packetBytes (fs : List Packet) : List UInt8 := fs.flatMap Packet.bytes

@[simp] theorem Packet.length_header (f : Packet) : f.header.length = 4 := by
  simp [header]

theorem Packet.length_bytes (f : Packet) : f.bytes.length = 4 + f.payload.length := by
  rw [bytes, List.length_append, length_header]

@[simp] theorem packetBytes_nil : packetBytes [] = [] := rfl

theorem packetBytes_cons (f : Packet) (fs : List Packet) :
    packetBytes (f :: fs) = f.bytes ++ packetBytes fs := rfl

theorem packetBytes_append (fs gs : List Packet) :
    packetBytes (fs ++ gs) = packetBytes fs ++ packetBytes gs := List.flatMap_append

/-! ### The calls of `onMessage` -/

/-- The calls of `onMessage` while chunks are read: the receive buffer as the call finds it, and
    its argument. -/
def Parser.deliveries (rb : List UInt8) :
    Parser → List (List UInt8) → Option (List (List UInt8 × Message))
  | _, [] => some []
  | p, c :: chunks =>
    (writeAt rb 0 c).bind fun rb =>
      (p.read returns rb [] c.length).bind fun r =>
        (deliveries rb r.parser chunks).map fun ds => r.seen.map (fun m => (rb, m)) ++ ds

/-- The message is the one of the frame. -/
structure Packet.Names (f : Packet) (m : Message) : Prop where
  threadId : m.threadId = f.threadId
  opCode : m.opCode = f.opCode
  length : m.length = f.payload.length

/-- The bytes of `rb` from `message.offset` to `message.offset + message.length` are the
    payload. -/
def Packet.PointedAt (f : Packet) (rb : List UInt8) (m : Message) : Prop :=
  ∃ o, m.offset = some o ∧ readAt rb o m.length = some f.payload

/-- `onMessage` is called for the frames in their order, and for each of opCode 3 it is given
    the place of the payload. -/
def PointAtPayloads (rb : List UInt8) (p : Parser) (fs : List Packet)
    (chunks : List (List UInt8)) : Prop :=
  ∃ ds, p.deliveries rb chunks = some ds ∧ ds.length ≤ fs.length ∧
    ∀ fd ∈ fs.zip ds, fd.1.Names fd.2.2 ∧
      (fd.1.opCode = 3 → fd.1.PointedAt fd.2.1 fd.2.2)

/-- `c`, the next chunk after `n` bytes of the stream, completes no payload of opCode 3 that
    began before it, unless `rb` begins with that payload. -/
def CompletesAtStart (fs : List Packet) (n : Nat) (rb c : List UInt8) : Prop :=
  ∀ pre f post, fs = pre ++ f :: post → f.opCode = 3 →
    (packetBytes pre).length + 4 < n → n < (packetBytes (pre ++ [f])).length →
    (packetBytes (pre ++ [f])).length ≤ n + c.length → f.payload <+: rb

/-- The condition on a list of chunks, each written over the start of `rb`. -/
def CutsHarmless (fs : List Packet) : Nat → List UInt8 → List (List UInt8) → Prop
  | _, _, [] => True
  | n, rb, c :: chunks =>
    CompletesAtStart fs n (c ++ rb.drop c.length) c ∧
      CutsHarmless fs (n + c.length) (c ++ rb.drop c.length) chunks

/-! ### Inside a frame -/

/-- The decoder after the first `i` bytes of the first of the frames that are not delivered.
    Of its payload it holds what the current chunk has brought. -/
structure At (fs : List Packet) (i : Nat) (c : Cursor) : Prop where
  piece : c.piece.length = min (i - 4) c.off
  position : c.position + c.piece.length = i
  next : fs = [] → i = 0
  undelivered : ∀ f ∈ fs.head?, i < f.bytes.length ∨ f.payload = [] ∧ i = 4
  header : ∀ f ∈ fs.head?, i < 4 → ∃ m, Header m (f.header.take i) c
  names : ∀ f ∈ fs.head?, 4 ≤ i → f.Names c.message

/-- The messages of frames that follow each other from place `s` of the chunk on. -/
def DeliveredAt : Int → List Packet → List Message → Prop
  | _, [], [] => True
  | s, f :: fs, m :: ms =>
    (f.Names m ∧ (f.opCode = 3 → m.offset = some (s + 4).toNat)) ∧
      DeliveredAt (s + f.bytes.length) fs ms
  | _, _, _ => False

/-- Between frames the decoder is at the first byte of the next one. -/
private theorem at_zero {c : Cursor} (hpos : c.position = 0) (hpiece : c.piece = [])
    (fs : List Packet) : At fs 0 c := by
  refine ⟨?_, ?_, fun _ => rfl, fun f _ => Or.inl ?_, fun f _ _ => ⟨c.message, hpiece, hpos, rfl⟩,
    fun f _ h => absurd h (by omega)⟩
  · rw [hpiece, List.length_nil]
    omega
  · rw [hpiece, hpos, List.length_nil]
  · rw [f.length_bytes]
    omega

/-- A header byte of the frame in hand. -/
private theorem At.header_byte {fs : List Packet} {f : Packet} {i : Nat} {c : Cursor}
    (h : At (f :: fs) i c) (hi : i < 4) {b : UInt8} (hb : f.header[i]? = some b) :
    c.event (some b) = (c.byte b, []) ∧ (c.byte b).off = c.off + 1 ∧
      At (f :: fs) (i + 1) (c.byte b) := by
  obtain ⟨m, hm⟩ := h.header f rfl hi
  have hlen : (f.header.take i).length = i := by
    rw [List.length_take, f.length_header]
    omega
  have hpos : c.position < 4 := by
    rw [hm.position, hlen]
    exact hi
  obtain ⟨hevent, hnext⟩ := hm.event_some (by omega) b
  obtain ⟨hoff, -, -⟩ := Cursor.byte_header hpos hm.piece b
  have htake : f.header.take i ++ [b] = f.header.take (i + 1) := by
    rw [List.take_add_one, hb]
    rfl
  rw [htake] at hnext
  have hlen' : (f.header.take (i + 1)).length = i + 1 := by
    rw [List.length_take, f.length_header]
    omega
  refine ⟨hevent, hoff, ?_, ?_, fun h => absurd h (List.cons_ne_nil _ _), ?_, ?_, ?_⟩
  · rw [hnext.piece, List.length_nil]
    omega
  · rw [hnext.piece, hnext.position, hlen', List.length_nil, Nat.add_zero]
  all_goals
    intro g hg
    obtain rfl : f = g := by simpa using hg
  · rw [f.length_bytes]
    by_cases hpay : f.payload = []
    · by_cases h3 : i + 1 = 4
      · exact Or.inr ⟨hpay, h3⟩
      · exact Or.inl (by omega)
    · have := List.length_pos_of_ne_nil hpay
      exact Or.inl (by omega)
  · exact fun _ => ⟨m, hnext⟩
  · -- the fourth byte completes the header
    intro h4
    have hwhole : f.header.take (i + 1) = f.header := List.take_of_length_le (by
      rw [f.length_header]
      exact h4)
    have hmsg := hnext.message
    rw [hwhole, Packet.header, bigEndian, bigEndian, bigEndian, headerMessage_four,
      length_field f.length_lt] at hmsg
    rw [hmsg]
    exact ⟨rfl, rfl, rfl⟩

/-- What the message delivered after the last byte of a frame says of it. -/
private theorem names_completed {f : Packet} {c : Cursor}
    (hp : c.piece.length = min f.payload.length c.off) (h : f.Names c.message) :
    f.Names c.completed ∧
      (f.opCode = 3 →
        c.completed.offset = some ((c.off : Int) - f.bytes.length + 4).toNat) := by
  have hsize := f.length_bytes
  obtain ⟨h₁, h₂, h₃⟩ := h
  unfold Cursor.completed
  split_ifs with hop
  · exact ⟨⟨h₁, h₂, h₃⟩, fun h => absurd (h₂.trans h) hop⟩
  · refine ⟨⟨h₁, h₂, h₃⟩, fun _ => congrArg some ?_⟩
    omega

/-- A payload byte of the frame in hand. -/
private theorem At.push {fs : List Packet} {f : Packet} {i : Nat} {c : Cursor}
    (h : At (f :: fs) i c) (hi : 4 ≤ i) (hlt : i + 1 < f.bytes.length) (b : UInt8) :
    At (f :: fs) (i + 1) (c.push [b]) := by
  have hp := h.piece
  have hpos := h.position
  have hlen : (c.push [b]).piece.length = c.piece.length + 1 := by
    rw [Cursor.push_piece, List.length_append, List.length_singleton]
  refine ⟨?_, ?_, fun h => absurd h (List.cons_ne_nil _ _), ?_, ?_, ?_⟩
  · rw [hlen]
    show _ = min (i + 1 - 4) (c.off + 1)
    omega
  · rw [hlen, Cursor.push_position]
    omega
  all_goals
    intro g hg
    obtain rfl : f = g := by simpa using hg
  · exact Or.inl hlt
  · intro h4
    omega
  · intro _
    exact h.names f rfl hi

/-- What a byte of the stream does: it is one more of the frame in hand, or it delivers that
    frame, of which it is the last byte or, when nothing follows its header, the first behind it. -/
private theorem At.event_some {fs : List Packet} {i : Nat} {c : Cursor} (h : At fs i c)
    {b : UInt8} {bs : List UInt8} (hb : (packetBytes fs).drop i = b :: bs) :
    ∃ c', c'.off = c.off + 1 ∧
      ((c.event (some b) = (c', []) ∧ At fs (i + 1) c' ∧ bs = (packetBytes fs).drop (i + 1)) ∨
        ∃ f fs' j m, fs = f :: fs' ∧ c.event (some b) = (c', [m]) ∧ At fs' j c' ∧
          f.bytes.length + j = i + 1 ∧ bs = (packetBytes fs').drop j ∧ f.Names m ∧
          (f.opCode = 3 → m.offset = some ((c.off : Int) - i + 4).toNat)) := by
  have hbs : bs = (packetBytes fs).drop (i + 1) := by
    rw [← List.drop_drop, hb]
    rfl
  have hget : (packetBytes fs)[i]? = some b := by
    rw [← List.head?_drop, hb]
    rfl
  cases fs with
  | nil => cases hget
  | cons f fs =>
    have hsize := f.length_bytes
    have hp := h.piece
    have hpos := h.position
    rw [packetBytes_cons] at hget
    by_cases h4 : i < 4
    · -- a byte of the header
      have hhead : f.header[i]? = some b := by
        rwa [List.getElem?_append_left (by omega), Packet.bytes,
          List.getElem?_append_left (by rw [f.length_header]; exact h4)] at hget
      obtain ⟨hevent, hoff, hnext⟩ := h.header_byte h4 hhead
      exact ⟨_, hoff, Or.inl ⟨hevent, hnext, hbs⟩⟩
    · have h4 : 4 ≤ i := by omega
      have hnames := h.names f rfl h4
      have hlen := hnames.length
      have hdue : c.due ↔ f.bytes.length ≤ i := by
        rw [Cursor.due_iff (by omega), hlen, hpos, hsize, Nat.add_comm]
      rcases h.undelivered f rfl with hlt | ⟨hpay, rfl⟩
      · have hnot : ¬ c.due := by
          rw [hdue]
          omega
        have hbyte := Cursor.byte_payload (c := c) (by omega) b
        have hpiece : (c.push [b]).piece ≠ [] := by simp
        have hlast : (c.push [b]).due ↔ f.bytes.length ≤ i + 1 := by
          rw [Cursor.due_push (by omega), hlen, hpos, hsize, List.length_singleton, Nat.add_comm]
        have hevent : c.event (some b) = (c.push [b]).settle := by
          rw [Cursor.event, if_neg hnot, hbyte]
        by_cases hend : i + 1 < f.bytes.length
        · -- a byte of the payload that is not its last
          refine ⟨c.push [b], rfl, Or.inl ⟨?_, h.push h4 hend b, hbs⟩⟩
          rw [hevent, Cursor.settle, if_neg fun hs => ?_]
          have := hlast.mp hs.1
          omega
        · -- the last byte of the payload
          have hspec := names_completed (f := f) (c := c.push [b]) (by
            rw [Cursor.push_piece, List.length_append, List.length_singleton]
            show _ = min _ (c.off + 1)
            omega) hnames
          refine ⟨(c.push [b]).deliver.1, rfl, Or.inr ⟨f, fs, 0, _, rfl, ?_,
            at_zero rfl rfl fs, by omega, ?_, hspec.1, fun hop => ?_⟩⟩
          · rw [hevent, Cursor.settle, if_pos ⟨hlast.mpr (by omega), hpiece⟩]
            rfl
          · rw [hbs, packetBytes_cons, List.drop_append_of_le_length (by omega),
              List.drop_of_length_le (by omega)]
            rfl
          · rw [hspec.2 hop]
            congr 2
            show ((c.off + 1 : Nat) : Int) - _ + 4 = _
            omega
      · -- the frame was complete with its header, and the byte is the first of the next one
        have hzero : f.payload.length = 0 := by rw [hpay]; rfl
        have hspec := names_completed (f := f) (c := c) (by omega) hnames
        have hevent : c.event (some b) = (c.deliver.1.byte b, c.deliver.2) :=
          if_pos (hdue.mpr (by omega))
        have hskip : (packetBytes (f :: fs)).drop 5 = (packetBytes fs).drop 1 := by
          rw [packetBytes_cons, List.drop_append, List.drop_of_length_le (by omega), hsize, hzero]
          rfl
        rw [List.getElem?_append_right (by omega), show 4 - f.bytes.length = 0 by omega] at hget
        cases fs with
        | nil => cases hget
        | cons g fs =>
          rw [packetBytes_cons, List.getElem?_append_left (by rw [g.length_bytes]; omega),
            Packet.bytes, List.getElem?_append_left (by simp)] at hget
          have hstart : At (g :: fs) 0 c.deliver.1 := at_zero rfl rfl _
          obtain ⟨-, hoff, hnext⟩ := hstart.header_byte (by omega) hget
          refine ⟨c.deliver.1.byte b, hoff, Or.inr ⟨f, g :: fs, 1, _, rfl, hevent, hnext,
            by omega, hbs.trans hskip, hspec.1, fun hop => ?_⟩⟩
          rw [hspec.2 hop]
          congr 2
          omega

/-- The end of a chunk. -/
private theorem At.event_none {fs : List Packet} {i : Nat} {c : Cursor} (h : At fs i c) :
    ∃ c', c'.off = 0 ∧ c.event none = (c', []) ∧ At fs i c' := by
  have hp := h.piece
  have hpos := h.position
  by_cases hnil : c.piece = []
  · -- nothing of the payload was in the chunk
    refine ⟨{ c with off := 0 }, rfl, Cursor.event_none_of_nil hnil, ?_, hpos, h.next,
      h.undelivered, fun f hf hi => ?_, h.names⟩
    · show c.piece.length = min (i - 4) 0
      rw [hnil, List.length_nil]
      omega
    · obtain ⟨m, h₁, h₂, h₃⟩ := h.header f hf hi
      exact ⟨m, h₁, h₂, h₃⟩
  · have hlen := List.length_pos_of_ne_nil hnil
    have h4 : 4 < i := by omega
    refine ⟨_, rfl, Cursor.event_none_of_ne hnil, ?_, hpos, h.next, h.undelivered,
      fun f hf hi => absurd hi (by omega), fun f hf hi => ?_⟩
    · show 0 = min (i - 4) 0
      omega
    · obtain ⟨h₁, h₂, h₃⟩ := h.names f hf hi
      show f.Names c.flushed
      unfold Cursor.flushed
      split
      · exact ⟨h₁, h₂, h₃⟩
      · exact ⟨h₁, h₂, h₃⟩

/-- **The bytes of a chunk**, read from inside a frame. -/
private theorem At.run_bytes {fs : List Packet} {i : Nat} {c : Cursor} (h : At fs i c)
    {xs later : List UInt8} (hxs : (packetBytes fs).drop i = xs ++ later) :
    ∃ gs hs j c', fs = gs ++ hs ∧ (c.run (xs.map some)).1 = c' ∧ At hs j c' ∧
      (packetBytes gs).length + j = i + xs.length ∧ (packetBytes hs).drop j = later ∧
      DeliveredAt ((c.off : Int) - i) gs (c.run (xs.map some)).2 := by
  induction xs generalizing fs i c with
  | nil => exact ⟨[], fs, i, c, rfl, rfl, h, by simp, hxs, trivial⟩
  | cons b xs ih =>
    obtain ⟨c₁, hoff, hcase⟩ := h.event_some hxs
    rw [List.map_cons, Cursor.run_cons]
    rcases hcase with ⟨hevent, hnext, hbs⟩ |
      ⟨f, fs', j, m, rfl, hevent, hnext, hj, hbs, hnames, hat⟩
    · obtain ⟨gs, hs, j, c', hfs, hrun, hat, hcount, hlater, hdel⟩ := ih hnext hbs.symm
      have hs₁ : (c₁.off : Int) - (i + 1 : Nat) = c.off - i := by omega
      rw [hs₁] at hdel
      rw [hevent]
      exact ⟨gs, hs, j, c', hfs, hrun, hat, by rw [List.length_cons]; omega, hlater, hdel⟩
    · obtain ⟨gs, hs, k, c', rfl, hrun, hat', hcount, hlater, hdel⟩ := ih hnext hbs.symm
      have hs₁ : (c₁.off : Int) - j = c.off - i + f.bytes.length := by omega
      rw [hs₁] at hdel
      rw [hevent]
      refine ⟨f :: gs, hs, k, c', rfl, hrun, hat', ?_, hlater, ⟨hnames, hat⟩, hdel⟩
      rw [packetBytes_cons, List.length_append, List.length_cons]
      omega

/-! ### Chunks -/

theorem DeliveredAt.length_eq {s : Int} {fs : List Packet} {ms : List Message}
    (h : DeliveredAt s fs ms) : ms.length = fs.length := by
  induction fs generalizing s ms with
  | nil =>
    cases ms with
    | nil => rfl
    | cons m ms => exact absurd h id
  | cons f fs ih =>
    cases ms with
    | nil => exact absurd h id
    | cons m ms => rw [List.length_cons, List.length_cons, ih h.2]

/-- What is right for one call of `onMessage`. -/
private def Right (f : Packet) (rb : List UInt8) (m : Message) : Prop :=
  f.Names m ∧ (f.opCode = 3 → f.PointedAt rb m)

/-- A payload that lies in the chunk is pointed at. -/
private theorem pointedAt_of_drop {f : Packet} {rb more : List UInt8} {m : Message} {o : Nat}
    (hm : m.offset = some o) (hlen : m.length = f.payload.length) (ho : o ≤ rb.length)
    (hrb : rb.drop o = f.payload ++ more) : f.PointedAt rb m := by
  refine ⟨o, hm, ?_⟩
  rw [← List.take_append_drop o rb, hrb, hlen]
  exact readAt_middle (by rw [List.length_take]; omega) rfl

/-- The frames that begin in the chunk. -/
private theorem DeliveredAt.right {s : Nat} {fs : List Packet} {ms : List Message}
    (h : DeliveredAt s fs ms) {rb more : List UInt8} (hs : s ≤ rb.length)
    (hrb : rb.drop s = packetBytes fs ++ more) :
    ∀ fm ∈ fs.zip ms, Right fm.1 rb fm.2 := by
  induction fs generalizing s ms with
  | nil => simp
  | cons f fs ih =>
    cases ms with
    | nil => simp
    | cons m ms =>
      obtain ⟨⟨hnames, hat⟩, hrest⟩ := h
      rw [packetBytes_cons, List.append_assoc] at hrb
      have hlen := congrArg List.length hrb
      rw [List.length_drop, List.length_append, f.length_bytes] at hlen
      have hskip : rb.drop (s + f.bytes.length) = packetBytes fs ++ more := by
        rw [← List.drop_drop, hrb, List.drop_left]
      have hpay : rb.drop (s + 4) = f.payload ++ (packetBytes fs ++ more) := by
        rw [← List.drop_drop, hrb, Packet.bytes, List.append_assoc]
        exact List.drop_left' f.length_header
      rw [← Int.natCast_add] at hrest
      intro fm hfm
      rw [List.zip_cons_cons, List.mem_cons] at hfm
      rcases hfm with rfl | hfm
      · exact ⟨hnames, fun hop =>
          pointedAt_of_drop (hat hop) hnames.length (by omega) hpay⟩
      · exact ih hrest (by rw [f.length_bytes]; omega) hskip fm hfm

/-- A payload that began before the chunk is pointed at exactly when the buffer begins with
    it: the message points at the start of the buffer. -/
private theorem pointedAt_zero_iff {f : Packet} {rb : List UInt8} {m : Message}
    (hm : m.offset = some 0) (hlen : m.length = f.payload.length) :
    f.PointedAt rb m ↔ f.payload <+: rb := by
  rw [List.prefix_iff_eq_take]
  constructor
  · rintro ⟨o, ho, hread⟩
    rw [hm] at ho
    cases ho
    rw [hlen, readAt_eq_some_iff] at hread
    exact hread.2
  · intro h
    have hfit := congrArg List.length h
    rw [List.length_take] at hfit
    refine ⟨0, hm, ?_⟩
    rw [hlen, readAt_eq_some_iff]
    exact ⟨by omega, h⟩

/-- **The messages of a chunk**: only the first frame can point elsewhere, when its
    payload began earlier. -/
private theorem right_chunk_iff {gs : List Packet} {ms : List Message} {i : Nat}
    {rb c rest more : List UInt8} {f : Packet} (h : DeliveredAt (-i : Int) (f :: gs) ms)
    (hrb : rb = c ++ rest) (hc : (packetBytes (f :: gs)).drop i ++ more = c)
    (hi : i ≤ f.bytes.length) :
    (∀ fm ∈ (f :: gs).zip ms, Right fm.1 rb fm.2) ↔
      ∀ g ∈ (f :: gs).head?, g.opCode = 3 → 4 < i → g.payload <+: rb := by
  cases ms with
  | nil => exact absurd h id
  | cons m ms =>
    obtain ⟨⟨hnames, hat⟩, hrest⟩ := h
    have hsize := f.length_bytes
    rw [packetBytes_cons, List.drop_append_of_le_length hi, List.append_assoc] at hc
    have hlen := congrArg List.length hc
    rw [List.length_append, List.length_append, List.length_drop] at hlen
    have hrblen := congrArg List.length hrb
    rw [List.length_append] at hrblen
    -- the frames behind the first one begin in the chunk
    obtain ⟨n, hn⟩ : ∃ n, i + n = f.bytes.length := ⟨f.bytes.length - i, by omega⟩
    have hnext : (-i : Int) + f.bytes.length = (n : Int) := by omega
    have hdrop : rb.drop n = packetBytes gs ++ (more ++ rest) := by
      have hsplit : rb = f.bytes.drop i ++ (packetBytes gs ++ (more ++ rest)) := by
        rw [hrb, ← hc]
        simp only [List.append_assoc]
      rw [hsplit]
      exact List.drop_left' (by rw [List.length_drop]; omega)
    rw [hnext] at hrest
    have htail := hrest.right (by omega) hdrop
    have hfirst : Right f rb m ↔ (f.opCode = 3 → 4 < i → f.payload <+: rb) := by
      by_cases hcut : 4 < i
      · -- its payload began earlier, and the message names the start of the buffer
        have hzero : ((-i : Int) + 4).toNat = 0 := by omega
        rw [hzero] at hat
        constructor
        · exact fun hr hop _ => (pointedAt_zero_iff (hat hop) hnames.length).mp (hr.2 hop)
        · exact fun hp => ⟨hnames, fun hop =>
            (pointedAt_zero_iff (hat hop) hnames.length).mpr (hp hop hcut)⟩
      · -- its payload is in the chunk as a whole, behind the rest of its header
        refine ⟨fun _ _ h => absurd h hcut, fun _ => ⟨hnames, fun hop => ?_⟩⟩
        have hsplit : rb = f.header.drop i ++ (f.payload ++ (packetBytes gs ++
            (more ++ rest))) := by
          rw [hrb, ← hc, Packet.bytes, List.drop_append_of_le_length (by
            rw [f.length_header]
            omega)]
          simp only [List.append_assoc]
        have hpay : rb.drop ((-i : Int) + 4).toNat
            = f.payload ++ (packetBytes gs ++ (more ++ rest)) := by
          rw [hsplit]
          exact List.drop_left' (by rw [List.length_drop, f.length_header]; omega)
        exact pointedAt_of_drop (hat hop) hnames.length (by omega) hpay
    rw [List.zip_cons_cons]
    simp only [List.forall_mem_cons, List.head?_cons, Option.mem_some_iff, forall_eq']
    rw [and_iff_left htail]
    exact hfirst

private theorem length_packetBytes_snoc (pre : List Packet) (f : Packet) :
    (packetBytes (pre ++ [f])).length = (packetBytes pre).length + f.bytes.length := by
  rw [packetBytes_append, List.length_append, packetBytes_cons, packetBytes_nil, List.append_nil]

/-- The payload a chunk completes without having begun it is the one in hand. -/
private theorem completesAtStart_iff {past gs hs : List Packet} {i j n : Nat} {c d : Cursor}
    {xs rb : List UInt8} (h : At (gs ++ hs) i c) (h' : At hs j d)
    (hn : n = (packetBytes past).length + i)
    (hcount : (packetBytes gs).length + j = i + xs.length) :
    CompletesAtStart (past ++ (gs ++ hs)) n rb xs ↔
      ∀ f ∈ gs.head?, f.opCode = 3 → 4 < i → f.payload <+: rb := by
  constructor
  · intro hP f hf hop hi
    obtain ⟨gs, rfl⟩ : ∃ gs', gs = f :: gs' := by
      cases gs with
      | nil => cases hf
      | cons g gs =>
        obtain rfl : g = f := by simpa using hf
        exact ⟨gs, rfl⟩
    have hlt := (h.undelivered f rfl).resolve_right (by omega)
    rw [packetBytes_cons, List.length_append] at hcount
    have hlen := length_packetBytes_snoc past f
    exact hP past f (gs ++ hs) rfl hop (by omega) (by omega) (by omega)
  · intro hhead pre f post heq hop hpre hlt hle
    rw [length_packetBytes_snoc] at hlt hle
    -- the frame in hand: its payload is the only one that the byte count is inside of
    have hin : ∀ post, gs ++ hs = f :: post → (packetBytes pre).length = (packetBytes past).length →
        f.payload <+: rb := by
      intro post hfs hlen
      cases gs with
      | nil =>
        rw [List.nil_append] at hfs
        subst hfs
        simp only [packetBytes_nil, List.length_nil] at hcount
        rcases h'.undelivered f rfl with h | ⟨-, h⟩ <;> omega
      | cons g gs =>
        obtain ⟨rfl, -⟩ := List.cons.inj hfs
        exact hhead g rfl hop (by omega)
    rcases List.append_eq_append_iff.mp heq with ⟨mid, rfl, hfs⟩ | ⟨mid, rfl, hfs⟩
    · cases mid with
      | nil => exact hin post hfs (by rw [List.append_nil])
      | cons g mid =>
        -- a frame behind the one in hand has not begun before the chunk
        rw [packetBytes_append, packetBytes_cons, List.length_append, List.length_append] at hpre
        have hund := h.undelivered g (by rw [hfs]; rfl)
        have := g.length_bytes
        rcases hund with h | ⟨-, h⟩ <;> omega
    · cases mid with
      | nil => exact hin post hfs.symm (by rw [List.append_nil])
      | cons g mid =>
        -- a frame of `past` ends before the chunk
        obtain ⟨rfl, -⟩ := List.cons.inj hfs
        rw [packetBytes_append, packetBytes_cons, List.length_append, List.length_append] at hn
        omega

/-- What is left of a chunk behind the frames it completes. -/
private theorem chunk_split {gs hs : List Packet} {i j : Nat} {xs later : List UInt8}
    (hxs : (packetBytes (gs ++ hs)).drop i = xs ++ later)
    (hcount : (packetBytes gs).length + j = i + xs.length) (hi : i ≤ (packetBytes gs).length) :
    (packetBytes gs).drop i ++ (packetBytes hs).take j = xs := by
  have htake := congrArg (List.take xs.length) hxs
  have hlen : ((packetBytes gs).drop i).length = (packetBytes gs).length - i := List.length_drop
  have hj : xs.length - ((packetBytes gs).drop i).length = j := by omega
  rwa [List.take_left, packetBytes_append, List.drop_append_of_le_length hi, List.take_append, hj,
    List.take_of_length_le (by omega)] at htake

/-- The calls made while one chunk is read from inside a frame. -/
private theorem right_iff_completesAtStart {past gs hs : List Packet} {i j n : Nat} {d e : Cursor}
    {c rest later : List UInt8} {ms : List Message} (h : At (gs ++ hs) i d) (h' : At hs j e)
    (hn : n = (packetBytes past).length + i)
    (hcount : (packetBytes gs).length + j = i + c.length)
    (hc : (packetBytes (gs ++ hs)).drop i = c ++ later) (hdel : DeliveredAt (0 - (i : Int)) gs ms) :
    (∀ fm ∈ gs.zip ms, Right fm.1 (c ++ rest) fm.2) ↔
      CompletesAtStart (past ++ (gs ++ hs)) n (c ++ rest) c := by
  rw [completesAtStart_iff h h' hn hcount]
  rw [Int.zero_sub] at hdel
  cases gs with
  | nil => simp
  | cons f gs =>
    have hsize := f.length_bytes
    have hi : i ≤ f.bytes.length := by
      rcases h.undelivered f rfl with h | ⟨-, h⟩ <;> omega
    have hfit : i ≤ (packetBytes (f :: gs)).length := by
      rw [packetBytes_cons, List.length_append]
      omega
    exact right_chunk_iff hdel rfl (chunk_split hc hcount hfit) hi

/-- The calls made while chunks are read from inside a frame. -/
private theorem deliveries_right_iff {past fs : List Packet} {i n : Nat} {rb later : List UInt8}
    {chunks : List (List UInt8)} {p : Parser} (hchunks : ∀ c ∈ chunks, Chunk rb c) (hp : p.WF)
    (hat : At fs i p.cursor) (hn : n = (packetBytes past).length + i)
    (hstream : (packetBytes fs).drop i = chunks.flatten ++ later) :
    ∃ ds, p.deliveries rb chunks = some ds ∧ ds.length ≤ fs.length ∧
      ((∀ fd ∈ fs.zip ds, Right fd.1 fd.2.1 fd.2.2) ↔
        CutsHarmless (past ++ fs) n rb chunks) := by
  induction chunks generalizing past fs i n rb p with
  | nil => exact ⟨[], rfl, Nat.zero_le _, by simp [CutsHarmless]⟩
  | cons c chunks ih =>
    have hc := hchunks c List.mem_cons_self
    have hwrite := hc.write
    have hrest : ∀ d ∈ chunks, Chunk (c ++ rb.drop c.length) d := fun d hd =>
      (hchunks d (List.mem_cons_of_mem _ hd)).of_write hwrite
    rw [List.flatten_cons, List.append_assoc] at hstream
    obtain ⟨gs, hs, j, c₁, rfl, hc₁, hat₁, hcount, hlater, hdel⟩ := hat.run_bytes hstream
    obtain ⟨c₂, -, hevent, hat₂⟩ := hat₁.event_none
    obtain ⟨p₁, hp₁, hcur, hread⟩ := read_eq_run (rb.drop c.length) hc.int hp []
    rw [Cursor.run_append, hc₁, Cursor.run_none, hevent] at hcur hread
    rw [List.append_nil, List.nil_append] at hread
    have hcur : c₂ = p₁.cursor := hcur
    have hn₁ : n + c.length = (packetBytes (past ++ gs)).length + j := by
      rw [packetBytes_append, List.length_append]
      omega
    obtain ⟨ds, hds, hle, hiff⟩ := ih hrest hp₁ (hcur ▸ hat₂) hn₁ hlater
    have hlen := hdel.length_eq
    refine ⟨(p.cursor.run (c.map some)).2.map (fun m => (c ++ rb.drop c.length, m)) ++ ds,
      ?_, ?_, ?_⟩
    · rw [Parser.deliveries, hwrite, Option.bind_some, hread, Option.bind_some, hds]
      rfl
    · rw [List.length_append, List.length_map, hlen, List.length_append]
      omega
    · rw [List.append_assoc] at hiff
      rw [List.zip_append (by rw [List.length_map, hlen]), List.forall_mem_append, hiff,
        CutsHarmless, ← right_iff_completesAtStart hat hat₁ hn hcount hstream hdel,
        List.zip_map_right]
      simp only [List.forall_mem_map, Prod.map_fst, Prod.map_snd, id]

/-- **Buffer messages point at their payloads exactly on harmless cuts**: every opCode 3
    payload that a chunk completes but did not begin has to stand at the start of `rb` once
    that chunk is there. -/
theorem pointAtPayloads_iff {rb : List UInt8} {chunks : List (List UInt8)}
    (hchunks : ∀ c ∈ chunks, Chunk rb c) {fs : List Packet}
    (hstream : chunks.flatten <+: packetBytes fs) {p : Parser} (hp : p.position = 0) :
    PointAtPayloads rb p fs chunks ↔ CutsHarmless fs 0 rb chunks := by
  obtain ⟨later, hlater⟩ := hstream
  have hstart : At fs 0 p.cursor := at_zero hp rfl fs
  have hzero : 0 = (packetBytes []).length + 0 := rfl
  obtain ⟨ds, hds, hle, hiff⟩ :=
    deliveries_right_iff hchunks (Parser.wf_of_lt (by omega)) hstart hzero hlater.symm
  rw [List.nil_append] at hiff
  rw [← hiff]
  constructor
  · rintro ⟨ds', hds', -, hright⟩
    rw [hds] at hds'
    cases hds'
    exact hright
  · exact fun hright => ⟨ds, hds, hle, hright⟩

/-- A buffer frame with two bytes of payload. -/
def twoByteBuffer : Packet := ⟨1, 3, [7, 8], by decide⟩

/-- Cut inside its header, the frame is found where the message points. -/
theorem pointAtPayloads_iff_whole :
    PointAtPayloads (List.replicate 8 0) {} [twoByteBuffer] [[1, 3], [0], [2, 7, 8]] := by
  have hchunks : ∀ c ∈ [[1, 3], [0], [2, 7, 8]], Chunk (List.replicate 8 0) c := by
    intro c hc
    simp only [List.mem_cons, List.not_mem_nil, or_false] at hc
    obtain rfl | rfl | rfl := hc
    all_goals exact ⟨by decide, by decide, by decide⟩
  -- no chunk starts inside the payload
  have hharmless : ∀ (n : Nat) (rb c : List UInt8), n ≤ 4 →
      CompletesAtStart [twoByteBuffer] n rb c := by
    intro n rb c hn pre f post _ _ hlo
    omega
  refine (pointAtPayloads_iff hchunks (by decide) rfl).mpr ?_
  exact ⟨hharmless 0 _ _ (by decide), hharmless 2 _ _ (by decide), hharmless 3 _ _ (by decide),
    trivial⟩

/-- **Cut inside its payload, the frame is not found again**: the second chunk has taken the place
    of the header, and the message points at its first byte. -/
theorem not_pointAtPayloads_cut :
    (∀ c ∈ [[1, 3, 0, 2, 7], [8]], Chunk (List.replicate 8 0) c) ∧
      [[1, 3, 0, 2, 7], [8]].flatten = packetBytes [twoByteBuffer] ∧
      ¬ PointAtPayloads (List.replicate 8 0) {} [twoByteBuffer] [[1, 3, 0, 2, 7], [8]] := by
  refine ⟨?_, by decide, ?_⟩
  · intro c hc
    rcases List.mem_cons.mp hc with rfl | hc
    · exact ⟨by decide, by decide, by decide⟩
    · obtain rfl := List.mem_singleton.mp hc
      exact ⟨by decide, by decide, by decide⟩
  · rintro ⟨ds, hds, -, hright⟩
    have hread : Parser.deliveries (List.replicate 8 0) {} [[1, 3, 0, 2, 7], [8]]
        = some [([8, 3, 0, 2, 7, 0, 0, 0], ⟨3, 1, 2, none, some 0⟩)] := by decide
    rw [hread] at hds
    cases hds
    obtain ⟨o, ho, hpay⟩ := (hright _ (by exact List.mem_cons_self)).2 rfl
    cases ho
    exact absurd hpay (by decide)

end Dv8.Ipc
