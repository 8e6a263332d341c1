import Dv8.Lib.Bytes
import Dv8.Lib.Machine

namespace Dv8.Http

open Dv8.Lib

/-!
# `HTTPParser` of `httpParser.cc`

`http_parser` splits a connection into calls of the callbacks below.  They assemble the url and
the headers of a message in the work buffer, from `STRING_OFFSET` on, and
`headers_complete_cb` puts a header of nine bytes in front.

The machine takes one callback a step.  `none` is a `memcpy` that leaves the work buffer.
JavaScript, which `on_headers_complete`, `on_body` and `on_message_complete` call, is taken
to leave the work buffer alone.
-/

/-- `STRING_OFFSET` -/
def STRING_OFFSET : Nat := 16

/-- `header_element_type` -/
inductive HeaderElementType where
  | none | field | value
  deriving DecidableEq, Repr

/-- The memory of a `Buffer`, which has a `uint32_t` for a length. -/
structure Work where
  bytes : List UInt8
  small : bytes.length < 2 ^ 32
  deriving DecidableEq

/-- `_request` -/
structure Request where
  urllength : UInt16 := 0
  headerLength : UInt16 := 0
  lastel : HeaderElementType := .none
  deriving DecidableEq, Repr

/-- `_context`, and the flag of `onBody`. -/
structure Context where
  /-- the work buffer -/
  buf : Work
  request : Request := {}
  soff : UInt32 := 0
  parserMode : UInt8 := 0
  onBody : Bool := false
  deriving DecidableEq

/-- What `headers_complete_cb` asks the parser about the message. -/
structure Info where
  httpMajor : UInt16
  httpMinor : UInt16
  method : UInt8
  upgrade : Bool
  statusCode : UInt16
  shouldKeepAlive : Bool
  deriving DecidableEq, Repr

/-- The callbacks of `http_parser`. -/
inductive Callback where
  | messageBegin
  | url (buf : List UInt8)
  | headerField (buf : List UInt8)
  | headerValue (buf : List UInt8)
  | headersComplete (parser : Info)
  | body (buf : List UInt8)
  | messageComplete
  deriving DecidableEq, Repr

/-- `memcpy` into the work buffer, at `off`. -/
def Work.memcpy (w : Work) (off : Nat) (xs : List UInt8) : Option Work :=
  match h : writeAt w.bytes off xs with
  | some bytes => some ⟨bytes, by rw [writeAt_length h]; exact w.small⟩
  | none => none

/-- `message_begin_cb` -/
def Context.messageBegin (s : Context) : Context :=
  { s with request := {}, soff := UInt32.ofNat STRING_OFFSET }

/-- `url_cb` -/
def Context.url (s : Context) (buf : List UInt8) : Option Context :=
  (s.buf.memcpy s.soff.toNat buf).map fun work =>
    { s with buf := work
             soff := s.soff + UInt32.ofNat buf.length
             request.urllength := s.request.urllength + UInt16.ofNat buf.length }

/-- A fragment of an element, with a separator where one is due. -/
def Context.element (s : Context) (separator : List UInt8) (el : HeaderElementType)
    (buf : List UInt8) : Option Context :=
  (s.buf.memcpy s.soff.toNat (separator ++ buf)).map fun work =>
    { s with buf := work
             soff := s.soff + UInt32.ofNat separator.length + UInt32.ofNat buf.length
             request.headerLength := s.request.headerLength + UInt16.ofNat separator.length +
               UInt16.ofNat buf.length
             request.lastel := el }

/-- `"\r\n"` -/
def crlf : List UInt8 := [13, 10]

/-- `": "` -/
def colon : List UInt8 := [58, 32]

/-- `header_field_cb` -/
def Context.headerField (s : Context) (buf : List UInt8) : Option Context :=
  s.element (if s.request.lastel = .value then crlf else []) .field buf

/-- `header_value_cb` -/
def Context.headerValue (s : Context) (buf : List UInt8) : Option Context :=
  s.element (if s.request.lastel ≠ .value then colon else []) .value buf

/-- The header `headers_complete_cb` writes. -/
def Context.header (s : Context) (parser : Info) : List UInt8 :=
  [parser.httpMajor.toUInt8, parser.httpMinor.toUInt8] ++
    (if s.parserMode = 0 then [parser.method, parser.upgrade.toUInt8]
      else [(parser.statusCode >>> 8).toUInt8, parser.statusCode.toUInt8]) ++
    [parser.shouldKeepAlive.toUInt8,
      (s.request.urllength >>> 8).toUInt8, s.request.urllength.toUInt8,
      (s.request.headerLength >>> 8).toUInt8, s.request.headerLength.toUInt8]

/-- `headers_complete_cb` -/
def Context.headersComplete (s : Context) (parser : Info) : Option Context :=
  (s.buf.memcpy 0 (s.header parser)).map fun work => { s with buf := work }

/-- `body_cb` -/
def Context.body (s : Context) (buf : List UInt8) : Option Context :=
  if 0 < buf.length ∧ s.onBody then
    (s.buf.memcpy 0 buf).map fun work => { s with buf := work }
  else some s

/-- One callback. -/
def step (s : Context) : Callback → Option Context
  | .messageBegin => some s.messageBegin
  | .url buf => s.url buf
  | .headerField buf => s.headerField buf
  | .headerValue buf => s.headerValue buf
  | .headersComplete parser => s.headersComplete parser
  | .body buf => s.body buf
  | .messageComplete => some s

theorem memcpy_eq_some_iff {w w' : Work} {off : Nat} {xs : List UInt8} :
    w.memcpy off xs = some w' ↔ writeAt w.bytes off xs = some w'.bytes := by
  unfold Work.memcpy
  split
  · rename_i bytes h
    constructor
    · intro hw
      cases hw
      exact h
    · intro hw
      obtain rfl := Option.some.inj (h.symm.trans hw)
      rfl
  · rename_i h
    rw [h]
    simp

/-- A `memcpy` inside the buffer can be done. -/
theorem exists_memcpy {w : Work} {off : Nat} {xs : List UInt8}
    (h : off + xs.length ≤ w.bytes.length) : ∃ w', w.memcpy off xs = some w' := by
  have hlen : (w.bytes.take off ++ xs ++ w.bytes.drop (off + xs.length)).length =
      w.bytes.length := writeAt_length (writeAt_eq_some h)
  exact ⟨⟨_, by rw [hlen]; exact w.small⟩, memcpy_eq_some_iff.mpr (writeAt_eq_some h)⟩

theorem memcpy_length {w w' : Work} {off : Nat} {xs : List UInt8}
    (h : w.memcpy off xs = some w') : w'.bytes.length = w.bytes.length :=
  writeAt_length (memcpy_eq_some_iff.mp h)

/-- A callback keeps the size of the work buffer. -/
theorem step_length {s s' : Context} {cb : Callback} (h : step s cb = some s') :
    s'.buf.bytes.length = s.buf.bytes.length := by
  have hmap : ∀ {off : Nat} {xs : List UInt8} {f : Work → Context},
      (∀ w, (f w).buf = w) → (s.buf.memcpy off xs).map f = some s' →
      s'.buf.bytes.length = s.buf.bytes.length := by
    intro off xs f hf h
    rw [Option.map_eq_some_iff] at h
    obtain ⟨w, hw, rfl⟩ := h
    rw [hf]
    exact memcpy_length hw
  cases cb with
  | messageBegin =>
    cases h
    rfl
  | url buf => exact hmap (fun _ => rfl) h
  | headerField buf => exact hmap (fun _ => rfl) h
  | headerValue buf => exact hmap (fun _ => rfl) h
  | headersComplete parser => exact hmap (fun _ => rfl) h
  | body buf =>
    simp only [step, Context.body] at h
    split at h
    · exact hmap (fun _ => rfl) h
    · cases h
      rfl
  | messageComplete =>
    cases h
    rfl

end Dv8.Http
