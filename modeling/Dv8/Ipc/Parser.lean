import Dv8.Builtins.Buffer

namespace Dv8.Ipc

open Dv8.Lib Dv8.V8 Dv8.Builtins

/-!
# `Parser` of `main.js` — framed messages over a socket

A frame is a thread id byte, an opCode byte, a big-endian 16-bit length and that many
payload bytes.  `Parser.write` puts one frame into the send buffer `wb`; `Parser.read` is
given the number of bytes the socket has put at the start of the receive buffer `rb` and
keeps `position` and one `message` object from call to call.

`read` runs a loop over the local variables `Vars`; one turn of it is `turn`.  The
handler `onMessage` is the list of copies it has been given, and may throw.
-/

/-- The message object.  Until a header has been read `length` is absent, and `offset` until
    a buffer message has been delivered. -/
structure Message where
  opCode : UInt8 := 0
  threadId : UInt8 := 0
  length : Nat := 0
  payload : Option JsString := some []
  offset : Option Nat := none
  deriving DecidableEq, Repr

/-- What a `Parser` keeps between calls. -/
structure Parser where
  position : Nat := 0
  message : Message := {}
  deriving DecidableEq, Repr

/-! ### Reading -/

/-- The variables of the loop of `read`, and the arguments `onMessage` has been called with. -/
structure Vars where
  off : Nat
  position : Nat
  message : Message
  seen : List Message
  deriving DecidableEq, Repr

/-- The text of `null` where a string is expected. -/
def nullText : JsString := [0x6E, 0x75, 0x6C, 0x6C]

/-- `message.payload += text`. -/
def Message.append (m : Message) (text : JsString) : Message :=
  { m with payload := some (m.payload.getD nullText ++ text) }

/-- `this.onMessage(Object.assign({}, message))`; the flag says that it threw. -/
def Vars.onMessage (throws : List Message → Bool) (v : Vars) : Vars × Bool :=
  let seen := v.seen ++ [v.message]
  ({ v with seen := seen }, throws seen)

/-- The end of a turn that delivers: `off += toread; position = 0`, unless the handler threw.  A
    negative `off` is an exception too: the next turn asks the view for a byte outside of it. -/
def Vars.delivered (throws : List Message → Bool) (v : Vars) (toread : Int) : Vars × Bool :=
  match v.onMessage throws with
  | (v, true) => (v, true)
  | (v, false) =>
    if v.off + toread < 0 then (v, true)
    else ({ v with off := (v.off + toread).toNat, position := 0 }, false)

/-- One turn of the loop of `read`, for `off < len`. -/
def turn (throws : List Message → Bool) (rb : List UInt8) (len : Nat) (v : Vars) :
    Option (Vars × Bool) :=
  if v.position = 0 then
    (DataView.getUint8 rb v.off).map fun b =>
      ({ v with message := { v.message with threadId := b }, off := v.off + 1,
                position := v.position + 1 }, false)
  else if v.position = 1 then
    (DataView.getUint8 rb v.off).map fun b =>
      ({ v with message := { v.message with opCode := b }, off := v.off + 1,
                position := v.position + 1 }, false)
  else if v.position = 2 then
    (DataView.getUint8 rb v.off).map fun b =>
      ({ v with message := { v.message with length := b.toNat <<< 8 }, off := v.off + 1,
                position := v.position + 1 }, false)
  else if v.position = 3 then
    (DataView.getUint8 rb v.off).map fun b =>
      ({ v with message := { v.message with length := v.message.length + b.toNat,
                                            payload := some [] },
                off := v.off + 1, position := v.position + 1 }, false)
  else
    let toread : Int := v.message.length - (v.position - 4 : Int)
    if toread + v.off > len then
      let toread := len - v.off
      if v.message.opCode ≠ 3 then
        (Buffer.read rb v.off toread).map fun text =>
          ({ v with message := v.message.append text, position := v.position + toread,
                    off := len }, false)
      else some ({ v with position := v.position + toread, off := len }, false)
    else if v.message.opCode ≠ 3 then
      (Buffer.read rb v.off toread).map fun text =>
        { v with message := v.message.append text }.delivered throws toread
    else
      some ({ v with message := { v.message with payload := none, offset := some v.off } }.delivered
        throws toread)

/-- The loop of `read`; `none` also when the fuel is used up. -/
def readLoop (throws : List Message → Bool) (rb : List UInt8) (len : Nat) :
    Nat → Vars → Option (Vars × Bool)
  | 0, v => if v.off < len then none else some (v, false)
  | fuel + 1, v =>
    if v.off < len then
      (turn throws rb len v).bind fun
        | (v, true) => some (v, true)
        | (v, false) => readLoop throws rb len fuel v
    else some (v, false)

/-- What a call of `read` leaves: the parser, the messages seen, whether an exception left it. -/
structure Reading where
  parser : Parser
  seen : List Message
  threw : Bool
  deriving DecidableEq, Repr

/-- `Parser.read(len)`.  Two turns a byte are enough.  An exception leaves the call before
    `this.position` is stored; the message object is shared and keeps what was assigned. -/
def Parser.read (throws : List Message → Bool) (rb : List UInt8) (p : Parser)
    (seen : List Message) (len : Nat) : Option Reading :=
  (readLoop throws rb len (2 * len + 1) ⟨0, p.position, p.message, seen⟩).map fun
    | (v, true) => ⟨{ p with message := v.message }, v.seen, true⟩
    | (v, false) => ⟨⟨v.position, v.message⟩, v.seen, false⟩

/-- A handler that returns. -/
def returns : List Message → Bool := fun _ => false

/-- The socket puts each chunk at the start of `rb` and gives its length to `read`. -/
def Parser.readAll (rb : List UInt8) : Parser → List Message → List (List UInt8) →
    Option (Parser × List Message)
  | p, seen, [] => some (p, seen)
  | p, seen, c :: chunks =>
    (writeAt rb 0 c).bind fun rb =>
      (p.read returns rb seen c.length).bind fun r => readAll rb r.parser r.seen chunks

/-! ### Writing -/

/-- The identity of the writing thread. -/
structure Process where
  TID : Nat
  PID : Nat
  deriving DecidableEq, Repr

/-- `process.TID || process.PID`. -/
def Process.id (proc : Process) : Nat := if proc.TID = 0 then proc.PID else proc.TID

/-- The arguments of `write`, by opCode: an object, a string, or the size of a payload that
    is already in the buffer. -/
inductive Outgoing (ω : Type) where
  | json (o : ω)
  | string (s : JsString)
  | buffer (size : Nat)
  | other (opCode : Nat)
  deriving DecidableEq, Repr

variable {ω : Type}

/-- The frame of a text: header, then the text at `off + 4`; returns `len + 4`. -/
def Parser.writeText (proc : Process) (wb : List UInt8) (opCode : Nat) (text : JsString)
    (off : Nat) : Option (List UInt8 × Nat) := do
  let wb ← DataView.setUint8 wb off proc.id
  let wb ← DataView.setUint8 wb (off + 1) opCode
  let wb ← DataView.setUint16 wb (off + 2) text.length
  let (wb, _) ← Buffer.write wb text (off + 4 : Nat)
  some (wb, text.length + 4)

/-- `Parser.write(o, opCode, off, size)`: the buffer after it and the value it returns.
    `stringify` is `JSON.stringify`, which has no text for some values. -/
def Parser.write (stringify : ω → Option JsString) (proc : Process) (wb : List UInt8)
    (o : Outgoing ω) (off : Nat) : Option (List UInt8 × Nat) :=
  match o with
  | .json o => do
    let message ← stringify o
    Parser.writeText proc wb 1 message off
  | .string s => Parser.writeText proc wb 2 s off
  | .buffer size => do
    let wb ← DataView.setUint8 wb off proc.id
    let wb ← DataView.setUint8 wb (off + 1) 3
    let wb ← DataView.setUint16 wb (off + 2) size
    some (wb, size + 4)
  | .other _ => some (wb, 0)

end Dv8.Ipc
