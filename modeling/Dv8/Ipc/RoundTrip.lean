import Dv8.Ipc.Stream

namespace Dv8.Ipc

open Dv8.Lib Dv8.V8 Dv8.Builtins

/-!
# From `Parser.write` to `Parser.read`

An ASCII text is written as the frame that stands for it (`writeText_ascii`), and its bytes
are all characters of their own, so no cut can fall inside one: the receiver gets every
message of the sender, whatever chunks the socket makes of the frames.
-/

variable {ω : Type}

/-- The text an outgoing message puts on the wire. -/
def Outgoing.text (stringify : ω → Option JsString) : Outgoing ω → Option JsString
  | .json o => stringify o
  | .string s => some s
  | .buffer _ | .other _ => none

/-- The opCode of an outgoing message. -/
def Outgoing.opCode : Outgoing ω → UInt8
  | .json _ => 1
  | .string _ => 2
  | .buffer _ => 3
  | .other n => UInt8.ofNat n

/-- The sender writes each message at the start of `wb` and hands the socket as many bytes as
    `write` returned. -/
def Parser.sendAll (stringify : ω → Option JsString) (proc : Process) :
    List UInt8 → List (Outgoing ω) → Option (List (List UInt8))
  | _, [] => some []
  | wb, o :: os =>
    (Parser.write stringify proc wb o 0).bind fun (wb, n) =>
      (readAt wb 0 n).bind fun frame => (sendAll stringify proc wb os).map (frame :: ·)

/-- A message with a non-empty ASCII text that fits the length field and the buffer. -/
structure Sendable (stringify : ω → Option JsString) (wbSize : Nat) (o : Outgoing ω)
    (text : JsString) : Prop where
  text_eq : o.text stringify = some text
  ascii : IsAscii text
  pos : 1 ≤ text.length
  le : text.length ≤ 0xFFFF
  fits : text.length + 4 ≤ wbSize

/-- The message the receiver is to see. -/
def Outgoing.message (proc : Process) (offset : Option Nat) (o : Outgoing ω) (text : JsString) :
    Message :=
  { opCode := o.opCode, threadId := UInt8.ofNat proc.id, length := text.length,
    payload := some text, offset := offset }

/-! ### The sender -/

/-- An ASCII text is written behind its header. -/
theorem writeText_ascii {proc : Process} {wb : List UInt8} {opCode : Nat} {text : JsString}
    (hascii : IsAscii text) (hfit : text.length + 4 ≤ wb.length) :
    Parser.writeText proc wb opCode text 0
      = some ((bigEndian 1 proc.id ++ bigEndian 1 opCode ++ bigEndian 2 text.length
          ++ asciiBytes text) ++ wb.drop (text.length + 4), text.length + 4) := by
  have hbytes : (asciiBytes text).length = text.length := List.length_map _
  have hwrite : Buffer.write ((bigEndian 1 proc.id ++ bigEndian 1 opCode
      ++ bigEndian 2 text.length) ++ wb.drop 4) text (0 + 4 : Nat)
        = some ((bigEndian 1 proc.id ++ bigEndian 1 opCode ++ bigEndian 2 text.length
          ++ asciiBytes text) ++ wb.drop (text.length + 4), text.length) := by
    rw [Buffer.write, int32Value_natCast (by decide), writeUtf8_ascii hascii (Nat.le_refl _)]
    show (writeAt _ 4 (asciiBytes text)).map _ = _
    rw [writeAt_append (by simp) (by rw [hbytes, List.length_drop]; omega), hbytes, List.drop_drop,
      Nat.add_comm]
    rfl
  -- each field is written right behind the one before
  have h₁ : DataView.setUint8 wb 0 proc.id = some (bigEndian 1 proc.id ++ wb.drop 1) :=
    @writeAt_append _ [] wb _ 0 rfl (by rw [length_bigEndian]; omega)
  have h₂ : DataView.setUint8 (bigEndian 1 proc.id ++ wb.drop 1) (0 + 1) opCode
      = some ((bigEndian 1 proc.id ++ bigEndian 1 opCode) ++ wb.drop 2) := by
    rw [DataView.setUint8, writeAt_append (by simp)
      (by rw [length_bigEndian, List.length_drop]; omega),
      length_bigEndian, List.drop_drop]
  have h₃ : DataView.setUint16 ((bigEndian 1 proc.id ++ bigEndian 1 opCode) ++ wb.drop 2) (0 + 2)
      text.length = some ((bigEndian 1 proc.id ++ bigEndian 1 opCode ++ bigEndian 2 text.length)
        ++ wb.drop 4) := by
    rw [DataView.setUint16, writeAt_append (by simp)
      (by rw [length_bigEndian, List.length_drop]; omega), length_bigEndian, List.drop_drop]
  simp only [Parser.writeText, h₁, h₂, h₃, hwrite, Option.bind_eq_bind, Option.bind_some]

/-- The frame a sendable message is written as. -/
theorem exists_frame {stringify : ω → Option JsString} {n : Nat} {o : Outgoing ω}
    {text : JsString} (proc : Process) (h : Sendable stringify n o text) :
    ∃ f : Frame, (∀ c ∈ f.text, c.toNat ≤ 0x7F) ∧ f.text ≠ [] ∧
      f.bytes = bigEndian 1 proc.id ++ [o.opCode] ++ bigEndian 2 text.length ++ asciiBytes text ∧
      ∀ offset, f.message offset = o.message proc offset text := by
  obtain ⟨cs, hcs, h16, h8⟩ := exists_text_of_ascii h.ascii
  have hlen : (utf8 cs).length = text.length := by rw [h8]; exact List.length_map _
  -- opCode 3 is a buffer, which is not sent as text
  have hop : o.opCode ≠ 3 := by
    have ht := h.text_eq
    cases o with
    | json _ => exact (show (1 : UInt8) ≠ 3 by decide)
    | string _ => exact (show (2 : UInt8) ≠ 3 by decide)
    | buffer _ => cases ht
    | other _ => cases ht
  have hlt : (utf8 cs).length < 2 ^ 16 := by
    have := h.le
    omega
  refine ⟨⟨UInt8.ofNat proc.id, o.opCode, cs, hop, hlt⟩, hcs, ?_, ?_, fun offset => ?_⟩
  · rintro rfl
    have := h.pos
    rw [utf8_nil, List.length_nil] at hlen
    omega
  · calc UInt8.ofNat proc.id :: o.opCode :: bigEndian 2 (utf8 cs).length ++ utf8 cs
        = UInt8.ofNat proc.id :: o.opCode :: bigEndian 2 text.length ++ asciiBytes text := by
          rw [hlen, h8]
      _ = _ := by
          rw [bigEndian_one]
          rfl
  · show Message.mk _ _ (utf8 cs).length (some (utf16 cs)) _ = _
    rw [hlen, h16]
    rfl

/-- One message through `write`. -/
theorem write_sendable {stringify : ω → Option JsString} {wb : List UInt8} {o : Outgoing ω}
    {text : JsString} (proc : Process) (h : Sendable stringify wb.length o text) :
    ∃ wb', Parser.write stringify proc wb o 0 = some (wb', text.length + 4) ∧
      wb'.length = wb.length ∧ readAt wb' 0 (text.length + 4) = some
        (bigEndian 1 proc.id ++ [o.opCode] ++ bigEndian 2 text.length ++ asciiBytes text) := by
  have hbytes : (asciiBytes text).length = text.length := List.length_map _
  obtain ⟨n, hn, hwrite⟩ : ∃ n, [o.opCode] = bigEndian 1 n ∧
      Parser.write stringify proc wb o 0 = Parser.writeText proc wb n text 0 := by
    have ht := h.text_eq
    cases o with
    | json o => exact ⟨1, rfl, by
        show (stringify o).bind _ = _
        rw [show stringify o = some text from ht]
        rfl⟩
    | string s => cases ht; exact ⟨2, rfl, rfl⟩
    | buffer _ => cases ht
    | other _ => cases ht
  have hlen : (bigEndian 1 proc.id ++ bigEndian 1 n ++ bigEndian 2 text.length
      ++ asciiBytes text).length = text.length + 4 := by
    simp only [List.length_append, length_bigEndian, hbytes]
    omega
  have hfit := h.fits
  refine ⟨_, by rw [hwrite, writeText_ascii h.ascii hfit], ?_, ?_⟩
  · rw [List.length_append, hlen, List.length_drop]
    omega
  · rw [hn, readAt_eq_some (by rw [List.length_append, hlen]; omega), slice_append_left (by omega),
      ← hlen, slice_all]

/-- All messages through `write`, as the frames they stand for. -/
theorem sendAll_sendable {stringify : ω → Option JsString} (proc : Process) {wb : List UInt8}
    {msgs : List (Outgoing ω × JsString)}
    (h : ∀ m ∈ msgs, Sendable stringify wb.length m.1 m.2) :
    ∃ fs : List Frame, (∀ f ∈ fs, (∀ c ∈ f.text, c.toNat ≤ 0x7F) ∧ f.text ≠ []) ∧
      Parser.sendAll stringify proc wb (msgs.map Prod.fst) = some (fs.map Frame.bytes) ∧
      ∀ offset, fs.map (Frame.message · offset)
        = msgs.map fun m => m.1.message proc offset m.2 := by
  induction msgs generalizing wb with
  | nil => exact ⟨[], by simp, rfl, fun _ => rfl⟩
  | cons m msgs ih =>
    obtain ⟨f, hascii, hne, hbytes, hmsg⟩ := exists_frame proc (h m List.mem_cons_self)
    obtain ⟨wb', hwrite, hsize, hread⟩ := write_sendable proc (h m List.mem_cons_self)
    have hrest : ∀ m ∈ msgs, Sendable stringify wb'.length m.1 m.2 := fun m hm => by
      rw [hsize]
      exact h m (List.mem_cons_of_mem _ hm)
    obtain ⟨fs, hfs, hsend, hmsgs⟩ := ih hrest
    refine ⟨f :: fs, ?_, ?_, fun offset => ?_⟩
    · intro g hg
      rcases List.mem_cons.mp hg with rfl | hg
      · exact ⟨hascii, hne⟩
      · exact hfs g hg
    · rw [List.map_cons, Parser.sendAll, hwrite, Option.bind_some]
      show (readAt wb' 0 (m.2.length + 4)).bind _ = _
      rw [hread, Option.bind_some, hsend, ← hbytes]
      rfl
    · rw [List.map_cons, List.map_cons, hmsg, hmsgs]

/-! ### The receiver -/

/-- Non-empty ASCII frames are cut cleanly by every cutting. -/
theorem cutsCleanly_ascii {fs : List Frame}
    (h : ∀ f ∈ fs, (∀ c ∈ f.text, c.toNat ≤ 0x7F) ∧ f.text ≠ []) (chunks : List (List UInt8)) :
    CutsCleanly fs chunks := by
  intro pre c post _
  constructor
  · rintro ⟨fpre, f, fpost, rfl, -, hsplit⟩
    exact not_inside_ascii (h f (by simp)).1 _ hsplit.2
  · rintro ⟨fpre, f, fpost, rfl, htext, -⟩
    exact (h f (by simp)).2 htext

/-- All frames have been delivered when all bytes have been fed. -/
theorem deliveredBy_all (offset : Option Nat) (fs : List Frame) :
    deliveredBy offset fs (streamBytes fs).length = fs.map (Frame.message · offset) := by
  induction fs with
  | nil => rfl
  | cons f fs ih =>
    rw [streamBytes_cons, List.length_append, deliveredBy, if_pos (by omega),
      Nat.add_sub_cancel_left, ih, List.map_cons]

/-- **Frame round trip.** Messages with non-empty ASCII texts are written as frames; cut into
    any chunks, these frames give the receiver exactly these messages, in order. -/
theorem read_sendAll_ascii {stringify : ω → Option JsString} {proc : Process}
    {wb : List UInt8} {msgs : List (Outgoing ω × JsString)}
    (hmsgs : ∀ m ∈ msgs, Sendable stringify wb.length m.1 m.2) :
    ∃ frames, Parser.sendAll stringify proc wb (msgs.map Prod.fst) = some frames ∧
      ∀ (rb : List UInt8) (chunks : List (List UInt8)) (p : Parser) (seen : List Message),
        (∀ c ∈ chunks, Chunk rb c) → chunks.flatten = frames.flatten → p.position = 0 →
        ∃ p', Parser.readAll rb p seen chunks = some (p',
          seen ++ msgs.map fun m => m.1.message proc p.message.offset m.2) := by
  obtain ⟨fs, hfs, hsend, hmsg⟩ := sendAll_sendable proc hmsgs
  refine ⟨_, hsend, fun rb chunks p seen hchunks hflat hp => ?_⟩
  have hbytes : chunks.flatten = streamBytes fs := by
    rw [hflat, streamBytes, List.flatMap_def]
  have hnone : Incomplete [] := Or.inl (by decide)
  have hdue := deliversDue_of_cutsCleanly hchunks hnone (by rw [hbytes, List.append_nil]) hp seen
    (cutsCleanly_ascii hfs chunks)
  obtain ⟨p', hp'⟩ := hdue chunks [] (List.append_nil _).symm
  exact ⟨p', by rw [hp', hbytes, deliveredBy_all, hmsg]⟩

/-- The string `"hi"` of thread 9 in three chunks. -/
theorem read_sendAll_ascii_hi :
    ∃ p', Parser.readAll (List.replicate 16 0) {} [] [[9, 2, 0], [2, 0x68], [0x69]]
      = some (p', [Outgoing.message ⟨9, 0⟩ none (.string [0x68, 0x69] : Outgoing Unit)
          [0x68, 0x69]]) := by
  obtain ⟨frames, hsend, hread⟩ := @read_sendAll_ascii Unit (fun _ => none) ⟨9, 0⟩
    (List.replicate 16 0) [(.string [0x68, 0x69], [0x68, 0x69])] (fun m hm => by
      obtain rfl := List.mem_singleton.mp hm
      exact ⟨rfl, by decide, by decide, by decide, by decide⟩)
  have hframes : some [[9, 2, 0, 2, 0x68, 0x69]] = some frames := hsend
  obtain rfl := Option.some.inj hframes
  refine hread _ _ {} [] (fun c hc => ?_) rfl rfl
  simp only [List.mem_cons, List.not_mem_nil, or_false] at hc
  rcases hc with rfl | rfl | rfl <;> exact ⟨by decide, by decide, by decide⟩

end Dv8.Ipc
