import Dv8.Ipc.RoundTrip

namespace Dv8.Ipc

open Dv8.Lib Dv8.V8 Dv8.Builtins

/-!
# What `Parser.write` says about its own frame

A text has three sizes here: its UTF-16 length, which `write` puts into the header and returns;
the number of bytes `Buffer::Write` stores, which is never more than that; and the number of
bytes its UTF-8 form has.  They agree on ASCII texts only.

`Parser.frame` tells apart what `Parser.write` leaves open: a message that is rejected with an
exception, and one that makes the builtin store outside of its block.

* `frame_of_write` — where `write` returns, `frame` says the same;
* `frameText_iff` — a text is framed as its header says, or rejected, exactly when it is plain;
* `selfDescribing_iff` — a message is framed as its header says, or rejected, exactly when
  there is no room for a header or the text is ASCII, short and fits.
-/

variable {ω : Type}

/-- What a call of `write` comes to. -/
inductive Outcome where
  /-- an exception leaves the call -/
  | threw
  /-- `Buffer::Write` stores outside of its block -/
  | overran
  | framed (wb : List UInt8) (n : Nat)
  deriving DecidableEq, Repr

/-- The three calls of the view. -/
def Parser.writeHeader (proc : Process) (wb : List UInt8) (opCode len off : Nat) :
    Option (List UInt8) :=
  (DataView.setUint8 wb off proc.id).bind fun wb =>
    (DataView.setUint8 wb (off + 1) opCode).bind fun wb => DataView.setUint16 wb (off + 2) len

/-- `write` behind `wb.write(message, off + 4)`.  A builtin that stores no byte does not leave
    its block. -/
def Outcome.ofWrite (wb : List UInt8) (text : JsString) : Option (List UInt8 × Nat) → Outcome
  | some (wb, _) => .framed wb (text.length + 4)
  | none => if (writeUtf8 text text.length).1 = [] then .framed wb (text.length + 4) else .overran

/-- `write` of a text: the view checks its offsets, the builtin does not. -/
def Parser.frameText (proc : Process) (wb : List UInt8) (opCode : Nat) (text : JsString)
    (off : Nat) : Outcome :=
  (Parser.writeHeader proc wb opCode text.length off).elim .threw fun wb =>
    .ofWrite wb text (Buffer.write wb text (off + 4 : Nat))

/-- `Parser.write(o, opCode, off)`; `JSON.stringify` has no text for some values, and throws for
    others, and then `message.length` does. -/
def Parser.frame (stringify : ω → Option JsString) (proc : Process) (wb : List UInt8)
    (o : Outgoing ω) (off : Nat) : Outcome :=
  match o with
  | .json o =>
    match stringify o with
    | none => .threw
    | some message => Parser.frameText proc wb 1 message off
  | .string s => Parser.frameText proc wb 2 s off
  | .buffer _ | .other _ =>
    match Parser.write stringify proc wb o off with
    | some (wb, n) => .framed wb n
    | none => .threw

/-- The bytes of the whole text. -/
def utf8Size (text : JsString) : Nat := (writeUtf8 text (3 * text.length)).1.length

/-- The frame at `off`, of `n` bytes, is in the buffer, says how many payload bytes were stored,
    and these are the whole text. -/
structure Described (off : Nat) (text : JsString) (wb : List UInt8) (n : Nat) : Prop where
  inside : off + n ≤ wb.length
  count : n = (writeUtf8 text text.length).1.length + 4
  field : (readAt wb (off + 2) 2).map ofBigEndian = some (writeUtf8 text text.length).1.length
  payload : readAt wb (off + 4) (writeUtf8 text text.length).1.length =
    some (writeUtf8 text text.length).1
  whole : (writeUtf8 text text.length).2 = text.length

/-- There is a frame for the text, and room for it. -/
def Framable (wb : List UInt8) (off : Nat) (text : JsString) : Prop :=
  utf8Size text < 2 ^ 16 ∧ off + 4 + utf8Size text ≤ wb.length

/-- The text is framed as its header says, or rejected because no frame can hold it. -/
def Outcome.Describes (wb : List UInt8) (off : Nat) (text : Option JsString) : Outcome → Prop
  | .threw => ∀ t, text = some t → ¬ Framable wb off t
  | .overran => False
  | .framed wb' n => ∃ t, text = some t ∧ Described off t wb' n

/-- `write` frames the message as its header says, or rejects it because no frame can hold it. -/
def SelfDescribing (stringify : ω → Option JsString) (proc : Process) (wb : List UInt8)
    (o : Outgoing ω) (off : Nat) : Prop :=
  (Parser.frame stringify proc wb o off).Describes wb off (o.text stringify)

/-- There is no room for a header, or the text is as long in bytes as in units and fits.  An
    offset from `2^31 - 4` on is negative for the builtin. -/
def Plain (wb : List UInt8) (off : Nat) (text : JsString) : Prop :=
  wb.length < off + 4 ∨
    (IsAscii text ∧ text.length < 2 ^ 16 ∧ off + 4 + text.length ≤ wb.length ∧
      (off + 4 < 2 ^ 31 ∨ text = []))

instance (wb : List UInt8) (off : Nat) (text : JsString) : Decidable (Plain wb off text) :=
  inferInstanceAs (Decidable (_ ∨ _))

/-! ### The header -/

theorem writeHeader_eq_none_iff {proc : Process} {wb : List UInt8} {opCode len off : Nat} :
    Parser.writeHeader proc wb opCode len off = none ↔ wb.length < off + 4 := by
  unfold Parser.writeHeader DataView.setUint8 DataView.setUint16
  constructor
  · intro h
    by_contra hroom
    obtain ⟨w₁, h₁⟩ : ∃ w, writeAt wb off (bigEndian 1 proc.id) = some w :=
      ⟨_, writeAt_eq_some (by rw [length_bigEndian]; omega)⟩
    have hlen₁ := writeAt_length h₁
    obtain ⟨w₂, h₂⟩ : ∃ w, writeAt w₁ (off + 1) (bigEndian 1 opCode) = some w :=
      ⟨_, writeAt_eq_some (by rw [length_bigEndian]; omega)⟩
    have hlen₂ := writeAt_length h₂
    rw [h₁, Option.bind_some, h₂, Option.bind_some,
      writeAt_eq_some (by rw [length_bigEndian]; omega)] at h
    cases h
  · intro hroom
    rw [Option.bind_eq_none_iff]
    intro w₁ h₁
    rw [Option.bind_eq_none_iff]
    intro w₂ h₂
    rw [writeAt, if_neg (by rw [length_bigEndian, writeAt_length h₂, writeAt_length h₁]; omega)]

/-- The length field is where a reader looks for it. -/
theorem writeHeader_spec {proc : Process} {wb wb' : List UInt8} {opCode len off : Nat}
    (h : Parser.writeHeader proc wb opCode len off = some wb') :
    wb'.length = wb.length ∧ slice wb' (off + 2) 2 = bigEndian 2 len := by
  unfold Parser.writeHeader DataView.setUint8 DataView.setUint16 at h
  obtain ⟨w₁, h₁, h⟩ := Option.bind_eq_some_iff.mp h
  obtain ⟨w₂, h₂, h₃⟩ := Option.bind_eq_some_iff.mp h
  refine ⟨by rw [writeAt_length h₃, writeAt_length h₂, writeAt_length h₁], ?_⟩
  have hfield := slice_writeAt_same h₃
  rwa [length_bigEndian] at hfield

/-! ### The text -/

/-- What `Parser.write` returns is what it frames. -/
theorem frameText_of_writeText {proc : Process} {wb wb' : List UInt8} {opCode off n : Nat}
    {text : JsString} (h : Parser.writeText proc wb opCode text off = some (wb', n)) :
    Parser.frameText proc wb opCode text off = .framed wb' n := by
  unfold Parser.writeText at h
  simp only [Option.bind_eq_bind, Option.bind_eq_some_iff] at h
  obtain ⟨w₁, h₁, w₂, h₂, w₃, h₃, ⟨w₄, k⟩, h₄, h⟩ := h
  rw [Option.some.injEq, Prod.mk.injEq] at h
  obtain ⟨rfl, rfl⟩ := h
  have hheader : Parser.writeHeader proc wb opCode text.length off = some w₃ := by
    rw [Parser.writeHeader, h₁, Option.bind_some, h₂, Option.bind_some, h₃]
  rw [Parser.frameText, hheader, Option.elim_some, h₄, Outcome.ofWrite]

theorem frame_of_write {stringify : ω → Option JsString} {proc : Process} {wb wb' : List UInt8}
    {o : Outgoing ω} {off n : Nat} (h : Parser.write stringify proc wb o off = some (wb', n)) :
    Parser.frame stringify proc wb o off = .framed wb' n := by
  cases o with
  | json o =>
    simp only [Parser.write, Option.bind_eq_bind, Option.bind_eq_some_iff] at h
    obtain ⟨message, hmessage, h⟩ := h
    simp only [Parser.frame, hmessage]
    exact frameText_of_writeText h
  | string s =>
    rw [Parser.write] at h
    exact frameText_of_writeText h
  | buffer size => simp only [Parser.frame, h]
  | other opCode => simp only [Parser.frame, h]

/-- The bytes of the text are stored behind the header, and only there. -/
theorem described_of_write {off : Nat} {text : JsString} {wb wb' : List UInt8} {k : Nat}
    (hfield : slice wb (off + 2) 2 = bigEndian 2 text.length)
    (h : Buffer.write wb text (off + 4 : Nat) = some (wb', k)) (hascii : IsAscii text)
    (hlen : text.length < 2 ^ 16) (hroom : off + 4 + text.length ≤ wb.length)
    (hoff : off + 4 < 2 ^ 31) : Described off text wb' (text.length + 4) := by
  have hstored : writeUtf8 text text.length = (asciiBytes text, text.length) :=
    writeUtf8_ascii hascii (Nat.le_refl _)
  have hbytes : (asciiBytes text).length = text.length := List.length_map _
  rw [Buffer.write, int32Value_natCast hoff, hstored] at h
  obtain ⟨-, h⟩ := Option.ite_none_left_eq_some.mp h
  obtain ⟨w, hw, heq⟩ := Option.map_eq_some_iff.mp h
  cases heq
  rw [Int.toNat_natCast] at hw
  have hsize := writeAt_length hw
  have hmod : text.length % 256 ^ 2 = text.length := Nat.mod_eq_of_lt (by omega)
  constructor
  · omega
  · rw [hstored, hbytes]
  · rw [hstored, readAt_eq_some (by omega), slice_writeAt_before hw (by omega), hfield,
      Option.map_some, ofBigEndian_bigEndian, hbytes, hmod]
  · have hsame := slice_writeAt_same hw
    rw [hbytes] at hsame
    rw [hstored, hbytes, readAt_eq_some (by omega), hsame]
  · rw [hstored]

/-- Nothing is stored of an empty text. -/
theorem described_nil {off : Nat} {wb : List UInt8} (hroom : off + 4 ≤ wb.length)
    (hfield : slice wb (off + 2) 2 = bigEndian 2 0) : Described off [] wb 4 where
  inside := hroom
  count := rfl
  field := by
    rw [readAt_eq_some (by omega), hfield]
    rfl
  payload := by
    show readAt wb (off + 4) 0 = some []
    rw [readAt_eq_some (by omega), slice_zero]
  whole := rfl

section

variable {proc : Process} {wb wb₁ : List UInt8} {opCode off : Nat} {text : JsString}
  {r : Option (List UInt8 × Nat)}

/-- Of a text that is not plain no frame is described. -/
private theorem plain_of_describes (hwb : wb.length < 2 ^ 32) (hroom : off + 4 ≤ wb.length)
    (hheader : Parser.writeHeader proc wb opCode text.length off = some wb₁)
    (hwrite : Buffer.write wb₁ text (off + 4 : Nat) = r)
    (h : (Outcome.ofWrite wb₁ text r).Describes wb off (some text)) : Plain wb off text := by
  obtain ⟨hlen, hfield⟩ := writeHeader_spec hheader
  refine Or.inr ?_
  cases r with
  | none =>
    rw [Outcome.ofWrite] at h
    split at h
    · rename_i hbytes
      obtain ⟨t, ht, hd⟩ := h
      cases ht
      have hcount := hd.count
      rw [hbytes, List.length_nil] at hcount
      obtain rfl : text = [] := List.eq_nil_of_length_eq_zero (by omega)
      exact ⟨nofun, by decide, hroom, Or.inr rfl⟩
    · exact h.elim
  | some r =>
    obtain ⟨wb₂, k⟩ := r
    obtain ⟨t, ht, hd⟩ := h
    cases ht
    obtain ⟨hoff, hstore, -⟩ := (Buffer.write_eq_some_iff (by omega) (by omega)).mp hwrite
    -- only an ASCII text is stored whole within its own length
    have hascii := (writeUtf8_whole_iff text).mp hd.whole
    have hstored : (writeUtf8 text text.length).1.length = text.length := by
      rw [writeUtf8_ascii hascii (Nat.le_refl _)]
      exact List.length_map _
    have hfit := (writeAt_eq_some_iff.mp hstore).1
    -- the field is the length modulo 2^16, and what was stored is the length
    have hmod := hd.field
    rw [readAt_eq_some (by rw [writeAt_length hstore]; omega),
      slice_writeAt_before hstore (by omega), hfield, Option.map_some, ofBigEndian_bigEndian,
      hstored, Option.some.injEq] at hmod
    exact ⟨hascii, by omega, by omega, Or.inl hoff⟩

private theorem describes_of_plain (hwb : wb.length < 2 ^ 32) (hroom : off + 4 ≤ wb.length)
    (hheader : Parser.writeHeader proc wb opCode text.length off = some wb₁)
    (hwrite : Buffer.write wb₁ text (off + 4 : Nat) = r) (hplain : Plain wb off text) :
    (Outcome.ofWrite wb₁ text r).Describes wb off (some text) := by
  obtain ⟨hlen, hfield⟩ := writeHeader_spec hheader
  obtain ⟨hascii, hshort, hfit, hoff⟩ := hplain.resolve_left (by omega)
  cases r with
  | some r =>
    obtain ⟨wb₂, k⟩ := r
    obtain ⟨hoff, -, -⟩ := (Buffer.write_eq_some_iff (by omega) (by omega)).mp hwrite
    exact ⟨text, rfl, described_of_write hfield hwrite hascii hshort (by omega) hoff⟩
  | none =>
    -- the text fits, so the offset is one the builtin takes for a negative one
    obtain rfl : text = [] := by
      refine hoff.resolve_left fun hoff => ?_
      obtain ⟨wb₂, hstore⟩ :
          ∃ wb₂, writeAt wb₁ (off + 4) (writeUtf8 text text.length).1 = some wb₂ := by
        rw [writeUtf8_ascii hascii (Nat.le_refl _)]
        refine ⟨_, writeAt_eq_some ?_⟩
        show off + 4 + (text.map _).length ≤ _
        rw [List.length_map]
        omega
      rw [(Buffer.write_eq_some_iff (by omega) (by omega)).mpr ⟨hoff, hstore, rfl⟩] at hwrite
      cases hwrite
    have hnone : (writeUtf8 [] 0).1 = [] := rfl
    rw [Outcome.ofWrite, List.length_nil, if_pos hnone]
    exact ⟨[], rfl, described_nil (by omega) hfield⟩

/-- A text is framed as its header says, or rejected, exactly when it is plain. -/
private theorem frameText_iff (hwb : wb.length < 2 ^ 32) :
    (Parser.frameText proc wb opCode text off).Describes wb off (some text) ↔
      Plain wb off text := by
  unfold Parser.frameText
  by_cases hroom : wb.length < off + 4
  · -- the view throws, and no frame fits
    rw [writeHeader_eq_none_iff.mpr hroom, Option.elim_none]
    refine iff_of_true ?_ (Or.inl hroom)
    rintro t ht ⟨-, hfit⟩
    omega
  · have hsome : Parser.writeHeader proc wb opCode text.length off ≠ none :=
      mt writeHeader_eq_none_iff.mp hroom
    obtain ⟨wb₁, hheader⟩ := Option.ne_none_iff_exists'.mp hsome
    have hfit : off + 4 ≤ wb.length := Nat.not_lt.mp hroom
    rw [hheader, Option.elim_some]
    generalize hwrite : Buffer.write wb₁ text (off + 4 : Nat) = r
    exact ⟨plain_of_describes hwb hfit hheader hwrite, describes_of_plain hwb hfit hheader hwrite⟩

end

/-- **Self-describing frames** are made of exactly the plain texts. -/
theorem selfDescribing_iff (stringify : ω → Option JsString) (proc : Process) {wb : List UInt8}
    (hwb : wb.length < 2 ^ 32) (off : Nat) :
    (∀ o, SelfDescribing stringify proc wb (.json o) off ↔
        ∀ text, stringify o = some text → Plain wb off text) ∧
      ∀ s, SelfDescribing stringify proc wb (.string s) off ↔ Plain wb off s := by
  refine ⟨fun o => ?_, fun s => frameText_iff hwb⟩
  unfold SelfDescribing
  cases htext : stringify o with
  | none =>
    have hthrew : Parser.frame stringify proc wb (.json o) off = .threw := by
      rw [Parser.frame, htext]
    rw [hthrew]
    exact iff_of_true (fun t ht => by rw [Outgoing.text, htext] at ht; cases ht) nofun
  | some text =>
    have hframe : Parser.frame stringify proc wb (.json o) off =
        Parser.frameText proc wb 1 text off := by
      rw [Parser.frame, htext]
    rw [hframe, Outgoing.text, htext, frameText_iff hwb]
    exact ⟨fun h t ht => by cases ht; exact h, fun h => h text rfl⟩

/-- Two messages from a worker: one that is framed, one that is not. -/
theorem selfDescribing_iff_hi :
    SelfDescribing (fun s : JsString => some s) ⟨1, 7⟩ (Buffer.alloc 16) (.string [0x68, 0x69]) 0 ∧
      ¬ SelfDescribing (fun s : JsString => some s) ⟨1, 7⟩ (Buffer.alloc 16) (.json [0xE9]) 0 := by
  have hwb : (Buffer.alloc 16).length < 2 ^ 32 := by decide
  have h := selfDescribing_iff (fun s : JsString => some s) ⟨1, 7⟩ hwb 0
  refine ⟨(h.2 _).mpr (by decide), fun hd => ?_⟩
  have hplain := (h.1 _).mp hd _ rfl
  revert hplain
  decide

/-- The text `"é"` is announced with one byte, and none is stored. -/
theorem not_selfDescribing_acute :
    ¬ SelfDescribing (fun s : JsString => some s) ⟨1, 7⟩ (Buffer.alloc 16) (.string [0xE9]) 0 := by
  have hframe : Parser.frame (fun s : JsString => some s) ⟨1, 7⟩ (Buffer.alloc 16)
      (.string [0xE9]) 0 = .framed (1 :: 2 :: 0 :: 1 :: List.replicate 12 0) 5 := by decide
  rintro hd
  rw [SelfDescribing, hframe] at hd
  obtain ⟨t, ht, hd⟩ := hd
  cases ht
  exact absurd hd.count (by decide)

end Dv8.Ipc
