import Dv8.Http.Parser
import Dv8.Http.Pause

namespace Dv8.Http

open Dv8.Lib

/-!
# `http_parser_execute`

`switch` says what the loop does with the byte at `p`: a `Move`, which is the sequence of marks,
callbacks and checks of the source, up to `break`, `RETURN` or an error.  `goto reexecute` is the
move of the state it goes to, on the same byte.  `Scan.perform` carries a move out on the
variables of the function, and `execute` is the loop around it.

The callbacks are those of `httpParser.cc`, which return 0: there is none for the status of a
response and for the chunks of a body.  JavaScript, which some of them call, does nothing to the
parser but pause it; where that leaves the function is in `Made`.  `none` is a failed `assert`, a
byte read behind the end of a string, or a callback for less than no bytes.
-/

/-- What a mark is the start of. -/
inductive Kind where
  | headerField | headerValue | url | body | status
  deriving DecidableEq, Repr

/-- The callback for the bytes from a mark on; `on_status` is not set. -/
def Kind.callback : Kind → List UInt8 → Option Callback
  | .headerField, buf => some (.headerField buf)
  | .headerValue, buf => some (.headerValue buf)
  | .url, buf => some (.url buf)
  | .body, buf => some (.body buf)
  | .status, _ => none

/-- What is done about a byte. -/
inductive Move where
  /-- `break` -/
  | next (c : Core)
  /-- `RETURN(p - data)`, or `RETURN(p - data + 1)` -/
  | ret (c : Core) (advance : Bool)
  /-- `SET_ERRNO(e)` and `goto error` -/
  | fail (c : Core) (e : Errno)
  /-- a failed `assert` -/
  | abort
  /-- `MARK` -/
  | mark (k : Kind) (m : Move)
  /-- `CALLBACK_DATA_` with the bytes from the mark to `p`, or with the byte at `p` as well; when
      it leaves the function, `p - data` is returned, or `p - data + 1` -/
  | data (k : Kind) (c : Core) (whole advance : Bool) (m : Move)
  /-- `CALLBACK_NOTIFY_`, in the same way -/
  | notify (cb : Callback) (c : Core) (advance : Bool) (m : Move)
  /-- `COUNT_HEADER_SIZE` -/
  | count (v : Nat) (c : Core) (m : Move)
  /-- `parser->nread = 0` -/
  | reset (m : Move)
  /-- `assert(parser->nread == 1)` -/
  | counted (m : Move)
  /-- `p += n` -/
  | skip (n : Nat) (m : Move)
  /-- `--p` -/
  | back (m : Move)
  deriving DecidableEq, Repr

/-- `UPDATE_STATE` -/
def Core.updateState (c : Core) (s : State) : Core := { c with state := s }

/-- `NEW_MESSAGE` -/
def Core.newMessage (c : Core) : Core := c.updateState (startState c.type)

/-! ### The end of a message -/

/-- `s_message_done` -/
def Core.messageDone (c : Core) : Move :=
  .notify .messageComplete c.newMessage true
    (if c.upgrade then .ret c.newMessage true else .next c.newMessage)

def Core.hasBody (c : Core) : Bool :=
  c.flags.chunked || (0 < c.contentLength && c.contentLength ≠ ULLONG_MAX)

/-- `s_headers_done` -/
def Core.headersDone (c : Core) : Move :=
  .reset (
    if c.upgrade && (c.method = .connect || c.flags.skipbody || !c.hasBody) then
      .notify .messageComplete c.newMessage true (.ret c.newMessage true)
    else if c.flags.skipbody then
      .notify .messageComplete c.newMessage true (.next c.newMessage)
    else if c.flags.chunked then .next (c.updateState .chunkSizeStart)
    else if c.contentLength = 0 then
      .notify .messageComplete c.newMessage true (.next c.newMessage)
    else if c.contentLength ≠ ULLONG_MAX then .next (c.updateState .bodyIdentity)
    else if !c.messageNeedsEof then
      .notify .messageComplete c.newMessage true (.next c.newMessage)
    else .next (c.updateState .bodyIdentityEof))

/-- `s_headers_almost_done` -/
def Core.headersAlmostDone (c : Core) : Move :=
  if c.flags.trailing then (c.updateState .messageDone).messageDone
  else if c.flags.chunked && c.flags.contentlength then .fail c .unexpectedContentLength
  else
    let c := { c with
      state := .headersDone
      upgrade :=
        if c.flags.upgrade && c.flags.connectionUpgrade then
          c.type = .request || c.statusCode = 101
        else c.method = .connect }
    .notify (.headersComplete c.info) c false c.headersDone

/-! ### Headers -/

/-- A state of the form `h_matching_…`: the next byte of `word`. -/
def matching (word : List UInt8) (index : Nat) (ch : UInt8) (no this yes : HeaderState) :
    HeaderState :=
  if word.length < index || (word ++ [0])[index]? ≠ some ch then no
  else if index = word.length - 1 then yes
  else this

/-- The `switch` in `s_header_field`, for a byte of a field and its `TOKEN`. -/
def Core.fieldStep (c : Core) (ch tok : UInt8) : Option Core :=
  let i := c.index + 1
  match c.headerState with
  | .general => some c
  | .C => some { c with index := i, headerState := if tok = chr 'o' then .CO else .general }
  | .CO => some { c with index := i, headerState := if tok = chr 'n' then .CON else .general }
  | .CON => some { c with
      index := i
      headerState :=
        if tok = chr 'n' then .matchingConnection
        else if tok = chr 't' then .matchingContentLength
        else .general }
  | .matchingConnection => some { c with
      index := i
      headerState :=
        matching (ascii "connection") i tok .general .matchingConnection .connection }
  | .matchingProxyConnection => some { c with
      index := i
      headerState :=
        matching (ascii "proxy-connection") i tok .general .matchingProxyConnection .connection }
  | .matchingContentLength => some { c with
      index := i
      headerState :=
        matching (ascii "content-length") i tok .general .matchingContentLength .contentLength }
  | .matchingTransferEncoding => some { c with
      index := i
      headerState := matching (ascii "transfer-encoding") i tok .general
        .matchingTransferEncoding .transferEncoding }
  | .matchingUpgrade => some { c with
      index := i
      headerState := matching (ascii "upgrade") i tok .general .matchingUpgrade .upgrade }
  | .connection | .contentLength | .transferEncoding | .upgrade =>
    some (if ch ≠ chr ' ' then { c with headerState := .general } else c)
  | _ => none

/-- The loop in `s_header_field`, and how far it comes. -/
def Core.fieldLoop : Core → List UInt8 → Option (Core × Nat)
  | c, [] => some (c, 0)
  | c, ch :: rest =>
    if token ch = 0 then some (c, 0)
    else (c.fieldStep ch (token ch)).bind fun c' =>
      (c'.fieldLoop rest).map fun (q, n) => (q, n + 1)

/-- What follows the loop in `s_header_field`, at the end of `data` or at another byte. -/
def Core.fieldEnd (c : Core) : Option UInt8 → Move
  | none => .back (.next c)
  | some ch =>
    if ch = chr ':' then
      .data .headerField (c.updateState .headerValueDiscardWs) false true
        (.next (c.updateState .headerValueDiscardWs))
    else .fail c .invalidHeaderToken

/-- `s_header_field` -/
def Core.headerField (c : Core) (xs : List UInt8) : Move :=
  match c.fieldLoop xs with
  | none => .abort
  | some (q, n) => .skip n (.count n q (q.fieldEnd xs[n]?))

/-- `s_header_field_start` -/
def Core.headerFieldStart (c : Core) (ch : UInt8) : Move :=
  if ch = CR then .next (c.updateState .headersAlmostDone)
  else if ch = LF then (c.updateState .headersAlmostDone).headersAlmostDone
  else if token ch = 0 then .fail c .invalidHeaderToken
  else .mark .headerField (.next { c with
    index := 0
    state := .headerField
    headerState :=
      if token ch = chr 'c' then .C
      else if token ch = chr 'p' then .matchingProxyConnection
      else if token ch = chr 't' then .matchingTransferEncoding
      else if token ch = chr 'u' then .matchingUpgrade
      else .general })

/-- `s_header_value_start` -/
def Core.headerValueStart (c : Core) (ch : UInt8) : Move :=
  let c := { c with state := .headerValue, index := 0 }
  .mark .headerValue (
    match c.headerState with
    | .upgrade => .next { c with flags.upgrade := true, headerState := .general }
    | .transferEncoding => .next { c with
        headerState :=
          if chr 'c' = lower ch then .matchingTransferEncodingChunked else .general }
    | .contentLength =>
      if !isNum ch then .fail c .invalidContentLength
      else if c.flags.contentlength then .fail c .unexpectedContentLength
      else .next { c with
        flags.contentlength := true
        contentLength := ch.toNat - 48
        headerState := .contentLengthNum }
    | .connection => .next { c with
        headerState :=
          if lower ch = chr 'k' then .matchingConnectionKeepAlive
          else if lower ch = chr 'c' then .matchingConnectionClose
          else if lower ch = chr 'u' then .matchingConnectionUpgrade
          else .matchingConnectionToken }
    | .matchingConnectionTokenStart => .next c
    | _ => .next { c with headerState := .general })

/-- What the `switch` in `s_header_value` does with a byte. -/
inductive ValueStep where
  | go (c : Core) (h : HeaderState)
  /-- `h_general`: on to the end of the line -/
  | jump
  | fail (e : Errno)
  | abort
  deriving DecidableEq, Repr

/-- `h_content_length_num` -/
def Core.contentLengthNum (c : Core) (ch : UInt8) : ValueStep :=
  if ch = chr ' ' then .go c .contentLengthWs
  else if !isNum ch then .fail .invalidContentLength
  else
    let t := (c.contentLength * 10 + (ch.toNat - 48)) % 2 ^ 64
    if (ULLONG_MAX - 10) / 10 < c.contentLength then .fail .invalidContentLength
    else .go { c with contentLength := t } .contentLengthNum

/-- A flag is set by an element of the `Connection` header. -/
def Flags.connection (f : Flags) : HeaderState → Flags
  | .connectionKeepAlive => { f with connectionKeepAlive := true }
  | .connectionClose => { f with connectionClose := true }
  | .connectionUpgrade => { f with connectionUpgrade := true }
  | _ => f

/-- The `switch` in `s_header_value`; `h` is `h_state`. -/
def Core.valueStep (c : Core) (h : HeaderState) (ch : UInt8) : ValueStep :=
  let i := c.index + 1
  match h with
  | .general => .jump
  | .connection | .transferEncoding => .abort
  | .contentLength => if ch = chr ' ' then .go c h else c.contentLengthNum ch
  | .contentLengthNum => c.contentLengthNum ch
  | .contentLengthWs => if ch = chr ' ' then .go c h else .fail .invalidContentLength
  | .matchingTransferEncodingChunked => .go { c with index := i }
      (matching (ascii "chunked") i (lower ch) .general h .transferEncodingChunked)
  | .matchingConnectionTokenStart => .go c (
      if lower ch = chr 'k' then .matchingConnectionKeepAlive
      else if lower ch = chr 'c' then .matchingConnectionClose
      else if lower ch = chr 'u' then .matchingConnectionUpgrade
      else if tokens (lower ch) ≠ 0 then .matchingConnectionToken
      else if lower ch = chr ' ' || lower ch = chr '\t' then h
      else .general)
  | .matchingConnectionKeepAlive => .go { c with index := i }
      (matching (ascii "keep-alive") i (lower ch) .matchingConnectionToken h .connectionKeepAlive)
  | .matchingConnectionClose => .go { c with index := i }
      (matching (ascii "close") i (lower ch) .matchingConnectionToken h .connectionClose)
  | .matchingConnectionUpgrade => .go { c with index := i }
      (matching (ascii "upgrade") i (lower ch) .matchingConnectionToken h .connectionUpgrade)
  | .matchingConnectionToken =>
    if ch = chr ',' then .go { c with index := 0 } .matchingConnectionTokenStart else .go c h
  | .transferEncodingChunked => .go c (if ch ≠ chr ' ' then .general else h)
  | .connectionKeepAlive | .connectionClose | .connectionUpgrade =>
    if ch = chr ',' then
      .go { c with flags := c.flags.connection h, index := 0 } .matchingConnectionTokenStart
    else .go c (if ch ≠ chr ' ' then .matchingConnectionToken else h)
  | _ => .go (c.updateState .headerValue) .general

/-- Where the loop in `s_header_value` stops. -/
inductive ValueEnd where
  | cr | lf
  /-- at the end of `data` -/
  | data
  | fail (e : Errno)
  | abort
  deriving DecidableEq, Repr

/-- The loop in `s_header_value`: the parser, `h_state`, `p - start`, and where it stops. -/
structure ValueLoop where
  core : Core
  hState : HeaderState
  taken : Nat
  stop : ValueEnd
  deriving DecidableEq, Repr

/-- `h_general`: `memchr` for CR and LF, within `max_header_size` bytes. -/
def Core.valueJump (c : Core) (h : HeaderState) (xs : List UInt8) : ValueLoop :=
  match (xs.take maxHeaderSize).findIdx? fun ch => ch = CR || ch = LF with
  | some i => ⟨c, h, i, if xs[i]? = some CR then .cr else .lf⟩
  | none => ⟨c, h, xs.length, .data⟩

/-- The loop in `s_header_value`. -/
def Core.valueLoop : Core → HeaderState → List UInt8 → ValueLoop
  | c, h, [] => ⟨c, h, 0, .data⟩
  | c, h, ch :: rest =>
    if ch = CR then ⟨c, h, 0, .cr⟩
    else if ch = LF then ⟨c, h, 0, .lf⟩
    else if !c.lenientHttpHeaders && !isHeaderChar ch then ⟨c, h, 0, .fail .invalidHeaderToken⟩
    else
      match c.valueStep h ch with
      | .go c' h' =>
        let r := c'.valueLoop h' rest
        { r with taken := r.taken + 1 }
      | .jump => c.valueJump h (ch :: rest)
      | .fail e => ⟨c, h, 0, .fail e⟩
      | .abort => ⟨c, h, 0, .abort⟩

/-- `s_header_almost_done` -/
def Core.headerAlmostDone (c : Core) (ch : UInt8) : Move :=
  if ch ≠ LF then .fail c .lfExpected else .next (c.updateState .headerValueLws)

/-- What follows the loop in `s_header_value`. -/
def ValueLoop.move (r : ValueLoop) : Move :=
  let q := { r.core with headerState := r.hState }
  match r.stop with
  | .cr =>
    let q := q.updateState .headerAlmostDone
    .skip r.taken (.data .headerValue q false true (.count r.taken q (.next q)))
  | .lf =>
    let q := q.updateState .headerAlmostDone
    .skip r.taken (.count r.taken q (.data .headerValue q false false (q.headerAlmostDone LF)))
  | .data => .skip r.taken (.count r.taken q (.back (.next q)))
  | .fail e => .skip r.taken (.fail q e)
  | .abort => .abort

/-- `s_header_value` -/
def Core.headerValue (c : Core) (xs : List UInt8) : Move := (c.valueLoop c.headerState xs).move

/-- The flag a header sets when it ends. -/
def Core.headerEnd (c : Core) : Core :=
  match c.headerState with
  | .transferEncodingChunked => { c with flags.chunked := true }
  | h => { c with flags := c.flags.connection h }

/-- `s_header_value_lws` -/
def Core.headerValueLws (c : Core) (ch : UInt8) : Move :=
  if ch = chr ' ' || ch = chr '\t' then (c.updateState .headerValueStart).headerValueStart ch
  else (c.headerEnd.updateState .headerFieldStart).headerFieldStart ch

/-- `s_header_value_discard_lws` -/
def Core.headerValueDiscardLws (c : Core) (ch : UInt8) : Move :=
  if ch = chr ' ' || ch = chr '\t' then .next (c.updateState .headerValueDiscardWs)
  else
    let c := c.headerEnd.updateState .headerFieldStart
    .mark .headerValue (.data .headerValue c false false (c.headerFieldStart ch))

/-! ### Start lines -/

/-- What every message starts with. -/
def Core.fresh (c : Core) : Core := { c with flags := {}, contentLength := ULLONG_MAX }

/-- `s_start_req` -/
def Core.startReq (c : Core) (ch : UInt8) : Move :=
  if ch = CR || ch = LF then .next c
  else
    let c := c.fresh
    if !isAlpha ch then .fail c .invalidMethod
    else
      match Method.ofFirst ch with
      | none => .fail { c with method := .delete, index := 1 } .invalidMethod
      | some method =>
        let c := { c with method := method, index := 1, state := .reqMethod }
        .notify .messageBegin c true (.next c)

/-- `s_start_req_or_res` -/
def Core.startReqOrRes (c : Core) (ch : UInt8) : Move :=
  if ch = CR || ch = LF then .next c
  else
    let c := c.fresh
    if ch = chr 'H' then
      .notify .messageBegin (c.updateState .resOrRespH) true (.next (c.updateState .resOrRespH))
    else { c with type := .request, state := .startReq }.startReq ch

/-- `s_res_or_resp_H` -/
def Core.resOrRespH (c : Core) (ch : UInt8) : Move :=
  if ch = chr 'T' then .next { c with type := .response, state := .resHT }
  else if ch ≠ chr 'E' then .fail c .invalidConstant
  else .next { c with type := .request, method := .head, index := 2, state := .reqMethod }

/-- `s_start_res` -/
def Core.startRes (c : Core) (ch : UInt8) : Move :=
  let c := c.fresh
  if ch = chr 'H' then
    .notify .messageBegin (c.updateState .resH) true (.next (c.updateState .resH))
  else if ch = CR || ch = LF then .notify .messageBegin c true (.next c)
  else .fail c .invalidConstant

/-- `s_res_http_major`, `s_res_http_minor` and the same states of a request -/
def Core.digit (c : Core) (ch : UInt8) (set : Core → Nat → Core) (s : State) : Move :=
  if !isNum ch then .fail c .invalidVersion
  else .next ((set c (ch.toNat - 48)).updateState s)

/-- A byte that has to be there. -/
def Core.expect (c : Core) (ch want : UInt8) (e : Errno) (s : State) : Move :=
  if ch ≠ want then .fail c e else .next (c.updateState s)

/-- `s_res_first_status_code` -/
def Core.resFirstStatusCode (c : Core) (ch : UInt8) : Move :=
  if !isNum ch then if ch = chr ' ' then .next c else .fail c .invalidStatus
  else .next { c with statusCode := ch.toNat - 48, state := .resStatusCode }

/-- `s_res_status` -/
def Core.resStatus (c : Core) (ch : UInt8) : Move :=
  if ch = CR then
    .data .status (c.updateState .resLineAlmostDone) false true
      (.next (c.updateState .resLineAlmostDone))
  else if ch = LF then
    .data .status (c.updateState .headerFieldStart) false true
      (.next (c.updateState .headerFieldStart))
  else .next c

/-- `s_res_status_start` -/
def Core.resStatusStart (c : Core) (ch : UInt8) : Move :=
  let c := { c with state := .resStatus, index := 0 }
  .mark .status (if ch = CR || ch = LF then c.resStatus ch else .next c)

/-- `s_res_status_code` -/
def Core.resStatusCode (c : Core) (ch : UInt8) : Move :=
  if !isNum ch then
    if ch = chr ' ' then .next (c.updateState .resStatusStart)
    else if ch = CR || ch = LF then (c.updateState .resStatusStart).resStatusStart ch
    else .fail c .invalidStatus
  else
    let c := { c with statusCode := c.statusCode * 10 + (ch.toNat - 48) }
    if 999 < c.statusCode then .fail c .invalidStatus else .next c

/-- `s_req_method` -/
def Core.reqMethod (c : Core) (ch : UInt8) : Move :=
  if ch = 0 then .fail c .invalidMethod
  else
    match (c.method.string ++ [0])[c.index]? with
    | none => .abort
    | some want =>
      if ch = chr ' ' && want = 0 then
        .next { c with state := .reqSpacesBeforeUrl, index := c.index + 1 }
      else if ch = want then .next { c with index := c.index + 1 }
      else if (chr 'A' ≤ ch && ch ≤ chr 'Z') || ch = chr '-' then
        match c.method.other c.index ch with
        | some method => .next { c with method := method, index := c.index + 1 }
        | none => .fail c .invalidMethod
      else .fail c .invalidMethod

/-- A byte of a url. -/
def Core.urlChar (c : Core) (ch : UInt8) : Move :=
  let c := c.updateState (parseUrlChar c.state ch)
  if c.state = .dead then .fail c .invalidUrl else .next c

/-- `s_req_spaces_before_url` -/
def Core.reqSpacesBeforeUrl (c : Core) (ch : UInt8) : Move :=
  if ch = chr ' ' then .next c
  else .mark .url
    ((if c.method = .connect then c.updateState .reqServerStart else c).urlChar ch)

/-- The states of a url that cannot be its end. -/
def Core.reqSchema (c : Core) (ch : UInt8) : Move :=
  if ch = chr ' ' || ch = CR || ch = LF then .fail c .invalidUrl else c.urlChar ch

/-- The states of a url that can be its end. -/
def Core.reqUrl (c : Core) (ch : UInt8) : Move :=
  if ch = chr ' ' then
    .data .url (c.updateState .reqHttpStart) false true (.next (c.updateState .reqHttpStart))
  else if ch = CR || ch = LF then
    let c := { c with
      httpMajor := 0
      httpMinor := 9
      state := if ch = CR then .reqLineAlmostDone else .headerFieldStart }
    .data .url c false true (.next c)
  else c.urlChar ch

/-- `s_req_http_start` -/
def Core.reqHttpStart (c : Core) (ch : UInt8) : Move :=
  if ch = chr 'H' then .next (c.updateState .reqHttpH)
  else if ch = chr ' ' then .next c
  else .fail c .invalidConstant

/-- `s_req_http_end` -/
def Core.reqHttpEnd (c : Core) (ch : UInt8) : Move :=
  if ch = CR then .next (c.updateState .reqLineAlmostDone)
  else if ch = LF then .next (c.updateState .headerFieldStart)
  else .fail c .invalidVersion

/-- `s_header_value_discard_ws` -/
def Core.headerValueDiscardWs (c : Core) (ch : UInt8) : Move :=
  if ch = chr ' ' || ch = chr '\t' then .next c
  else if ch = CR then .next (c.updateState .headerValueDiscardWsAlmostDone)
  else if ch = LF then .next (c.updateState .headerValueDiscardLws)
  else c.headerValueStart ch

/-! ### Bodies -/

/-- `s_body_identity` -/
def Core.bodyIdentity (c : Core) (xs : List UInt8) : Move :=
  if c.contentLength = 0 || c.contentLength = ULLONG_MAX then .abort
  else
    let toRead := min c.contentLength xs.length
    let c := { c with contentLength := c.contentLength - toRead }
    .mark .body (.skip (toRead - 1) (
      if c.contentLength = 0 then
        .data .body (c.updateState .messageDone) true false
          (c.updateState .messageDone).messageDone
      else .next c))

/-- `s_chunk_size_start` -/
def Core.chunkSizeStart (c : Core) (ch : UInt8) : Move :=
  .counted (
    if !c.flags.chunked then .abort
    else
      match unhex ch with
      | none => .fail c .invalidChunkSize
      | some d => .next { c with contentLength := d, state := .chunkSize })

/-- `s_chunk_size` -/
def Core.chunkSize (c : Core) (ch : UInt8) : Move :=
  if !c.flags.chunked then .abort
  else if ch = CR then .next (c.updateState .chunkSizeAlmostDone)
  else
    match unhex ch with
    | none =>
      if ch = chr ';' || ch = chr ' ' then .next (c.updateState .chunkParameters)
      else .fail c .invalidChunkSize
    | some d =>
      let t := (c.contentLength * 16 + d) % 2 ^ 64
      if (ULLONG_MAX - 16) / 16 < c.contentLength then .fail c .invalidContentLength
      else .next { c with contentLength := t }

/-- `s_chunk_parameters` -/
def Core.chunkParameters (c : Core) (ch : UInt8) : Move :=
  if !c.flags.chunked then .abort
  else if ch = CR then .next (c.updateState .chunkSizeAlmostDone)
  else .next c

/-- `s_chunk_size_almost_done` -/
def Core.chunkSizeAlmostDone (c : Core) : Move :=
  if !c.flags.chunked then .abort
  else .reset (.next (
    if c.contentLength = 0 then { c with flags.trailing := true, state := .headerFieldStart }
    else c.updateState .chunkData))

/-- `s_chunk_data` -/
def Core.chunkData (c : Core) (xs : List UInt8) : Move :=
  if !c.flags.chunked || c.contentLength = 0 || c.contentLength = ULLONG_MAX then .abort
  else
    let toRead := min c.contentLength xs.length
    let c := { c with contentLength := c.contentLength - toRead }
    .mark .body (.skip (toRead - 1) (
      .next (if c.contentLength = 0 then c.updateState .chunkDataAlmostDone else c)))

/-- `s_chunk_data_almost_done` -/
def Core.chunkDataAlmostDone (c : Core) : Move :=
  if !c.flags.chunked || c.contentLength ≠ 0 then .abort
  else
    .data .body (c.updateState .chunkDataDone) false true (.next (c.updateState .chunkDataDone))

/-- `s_chunk_data_done` -/
def Core.chunkDataDone (c : Core) : Move :=
  if !c.flags.chunked then .abort
  else .reset (.next (c.updateState .chunkSizeStart))

/-! ### The loop -/

/-- The `switch` of `http_parser_execute`, on the byte `ch` with `rest` behind it. -/
def Core.switch (c : Core) (ch : UInt8) (rest : List UInt8) : Move :=
  match c.state with
  | .dead => if ch = CR || ch = LF then .next c else .fail c .closedConnection
  | .startReqOrRes => c.startReqOrRes ch
  | .resOrRespH => c.resOrRespH ch
  | .startRes => c.startRes ch
  | .resH => .next (c.updateState .resHT)
  | .resHT => .next (c.updateState .resHTT)
  | .resHTT => .next (c.updateState .resHTTP)
  | .resHTTP => .next (c.updateState .resHttpMajor)
  | .resHttpMajor => c.digit ch (fun c d => { c with httpMajor := d }) .resHttpDot
  | .resHttpDot => c.expect ch (chr '.') .invalidVersion .resHttpMinor
  | .resHttpMinor => c.digit ch (fun c d => { c with httpMinor := d }) .resHttpEnd
  | .resHttpEnd => c.expect ch (chr ' ') .invalidVersion .resFirstStatusCode
  | .resFirstStatusCode => c.resFirstStatusCode ch
  | .resStatusCode => c.resStatusCode ch
  | .resStatusStart => c.resStatusStart ch
  | .resStatus => c.resStatus ch
  | .resLineAlmostDone => .next (c.updateState .headerFieldStart)
  | .startReq => c.startReq ch
  | .reqMethod => c.reqMethod ch
  | .reqSpacesBeforeUrl => c.reqSpacesBeforeUrl ch
  | .reqSchema | .reqSchemaSlash | .reqSchemaSlashSlash | .reqServerStart => c.reqSchema ch
  | .reqServer | .reqServerWithAt | .reqPath | .reqQueryStringStart | .reqQueryString
  | .reqFragmentStart | .reqFragment => c.reqUrl ch
  | .reqHttpStart => c.reqHttpStart ch
  | .reqHttpH => .next (c.updateState .reqHttpHT)
  | .reqHttpHT => .next (c.updateState .reqHttpHTT)
  | .reqHttpHTT => .next (c.updateState .reqHttpHTTP)
  | .reqHttpHTTP => .next (c.updateState .reqHttpMajor)
  | .reqHttpMajor => c.digit ch (fun c d => { c with httpMajor := d }) .reqHttpDot
  | .reqHttpDot => c.expect ch (chr '.') .invalidVersion .reqHttpMinor
  | .reqHttpMinor => c.digit ch (fun c d => { c with httpMinor := d }) .reqHttpEnd
  | .reqHttpEnd => c.reqHttpEnd ch
  | .reqLineAlmostDone => c.expect ch LF .lfExpected .headerFieldStart
  | .headerFieldStart => c.headerFieldStart ch
  | .headerField => c.headerField (ch :: rest)
  | .headerValueDiscardWs => c.headerValueDiscardWs ch
  | .headerValueDiscardWsAlmostDone => .next (c.updateState .headerValueDiscardLws)
  | .headerValueDiscardLws => c.headerValueDiscardLws ch
  | .headerValueStart => c.headerValueStart ch
  | .headerValue => c.headerValue (ch :: rest)
  | .headerValueLws => c.headerValueLws ch
  | .headerAlmostDone => c.headerAlmostDone ch
  | .headersAlmostDone => c.headersAlmostDone
  | .headersDone => c.headersDone
  | .chunkSizeStart => c.chunkSizeStart ch
  | .chunkSize => c.chunkSize ch
  | .chunkParameters => c.chunkParameters ch
  | .chunkSizeAlmostDone => c.chunkSizeAlmostDone
  | .chunkData => c.chunkData (ch :: rest)
  | .chunkDataAlmostDone => c.chunkDataAlmostDone
  | .chunkDataDone => c.chunkDataDone
  | .bodyIdentity => c.bodyIdentity (ch :: rest)
  | .bodyIdentityEof => .mark .body (.skip rest.length (.next c))
  | .messageDone => c.messageDone

/-- One turn of the loop. -/
def Core.turn (c : Core) (ch : UInt8) (rest : List UInt8) : Move :=
  if c.state.parsingHeader then .count 1 c (c.switch ch rest) else c.switch ch rest

/-- The variables of `http_parser_execute`: the parser, `p - data`, the marks, and the callbacks
    so far. -/
structure Scan where
  parser : Parser
  p : Nat
  mark : Kind → Option Nat
  made : List (Made Parser)

/-- What a move comes to. -/
inductive Outcome where
  | next (s : Scan)
  | done (ex : Execution Parser)
  | abort

/-- The parser with what a move has made of it. -/
def Scan.stored (s : Scan) (c : Core) : Parser := { c with nread := s.parser.nread }

/-- `CALLBACK_DATA_` -/
def Scan.data (s : Scan) (data : List UInt8) (k : Kind) (c : Core) (whole advance : Bool) :
    Option Scan :=
  match s.mark k with
  | none => some s
  | some i =>
    if s.p + whole.toNat < i then none
    else
      let buf := slice data i (s.p + whole.toNat - i)
      some { s with
        parser := s.stored c
        mark := Function.update s.mark k none
        made := match k.callback buf with
          | some cb => s.made ++ [⟨cb, s.p + advance.toNat, s.stored c, false⟩]
          | none => s.made }

/-- The function returns behind this move in any case. -/
def Move.returns : Move → Bool
  | .ret _ _ => true
  | _ => false

/-- A move, carried out. -/
def Scan.perform (data : List UInt8) : Scan → Move → Outcome
  | s, .next c => .next { s with parser := s.stored c }
  | s, .ret c advance => .done ⟨s.made, s.p + advance.toNat, s.stored c⟩
  | s, .fail c e => .done ⟨s.made, s.p, s.stored { c with httpErrno := e }⟩
  | _, .abort => .abort
  | s, .mark k m =>
    Scan.perform data
      { s with mark := Function.update s.mark k (some ((s.mark k).getD s.p)) } m
  | s, .data k c whole advance m =>
    match s.data data k c whole advance with
    | none => .abort
    | some s => s.perform data m
  | s, .notify cb c advance m =>
    Scan.perform data
      { s with
        parser := s.stored c
        made := s.made ++ [⟨cb, s.p + advance.toNat, s.stored c, m.returns⟩] } m
  | s, .count v c m =>
    let nread := (s.parser.nread + v) % 2 ^ 32
    if maxHeaderSize < nread then
      .done ⟨s.made, s.p, { c with httpErrno := .headerOverflow, nread := nread }⟩
    else Scan.perform data { s with parser := { c with nread := nread } } m
  | s, .reset m => Scan.perform data { s with parser.nread := 0 } m
  | s, .counted m => if s.parser.nread = 1 then s.perform data m else .abort
  | s, .skip n m => Scan.perform data { s with p := s.p + n } m
  | s, .back m => Scan.perform data { s with p := s.p - 1 } m

/-- The marks that are set in front of the loop. -/
def State.initialMark : State → Option Kind
  | .headerField => some .headerField
  | .headerValue => some .headerValue
  | .reqPath | .reqSchema | .reqSchemaSlash | .reqSchemaSlashSlash | .reqServerStart | .reqServer
  | .reqServerWithAt | .reqQueryStringStart | .reqQueryString | .reqFragmentStart
  | .reqFragment => some .url
  | .resStatus => some .status
  | _ => none

/-- The kinds, in the order in which they are called back behind the loop. -/
def kinds : List Kind := [.headerField, .headerValue, .url, .body, .status]

/-- Behind the loop. -/
def Scan.finish (data : List UInt8) (s : Scan) : Option (Execution Parser) :=
  if 1 < (kinds.filter fun k => (s.mark k).isSome).length then none
  else
    (kinds.foldlM (fun (s : Scan) k => s.data data k s.parser.toCore false false) s).map fun s =>
      ⟨s.made, data.length, s.parser⟩

/-- The loop, with as much fuel as there are bytes left. -/
def Scan.loop (data : List UInt8) : Nat → Scan → Option (Execution Parser)
  | 0, s => s.finish data
  | fuel + 1, s =>
    match data.drop s.p with
    | [] => s.finish data
    | ch :: rest =>
      match s.perform data (s.parser.turn ch rest) with
      | .next s => Scan.loop data fuel { s with p := s.p + 1 }
      | .done ex => some ex
      | .abort => none

/-- The variables in front of the loop. -/
def Parser.scan (p : Parser) : Scan where
  parser := p
  p := 0
  mark := fun k => if p.state.initialMark = some k then some 0 else none
  made := []

/-- `http_parser_execute` at the end of the connection. -/
def Parser.eof (p : Parser) : Execution Parser :=
  match p.state with
  | .bodyIdentityEof => ⟨[⟨.messageComplete, 0, p, true⟩], 0, p⟩
  | .dead | .startReqOrRes | .startRes | .startReq => ⟨[], 0, p⟩
  | _ => ⟨[], 1, { p with httpErrno := .invalidEofState }⟩

/-- `http_parser_execute` -/
def Parser.execute (p : Parser) (data : List UInt8) : Option (Execution Parser) :=
  if p.httpErrno ≠ .ok then some ⟨[], 0, p⟩
  else if data = [] then some p.eof
  else p.scan.loop data data.length

end Dv8.Http
