import Dv8.Http.Lengths

namespace Dv8.Http

open Dv8.Lib

/-!
# `http_parser` of `http_parser.c`

The states of the parser, its character classes, and what is decided without looking at the
loop of `http_parser_execute`: the states of a url, the end of a message, and whether the
connection is kept.  `http-parser.sh` compiles the file with `HTTP_PARSER_STRICT` 0, which makes
`STRICT_CHECK` empty and every message start over.
-/

/-! ### Characters -/

/-- A character of the source. -/
abbrev chr (c : Char) : UInt8 := c.toUInt8

/-- The bytes of a string of the source. -/
def ascii (s : String) : List UInt8 := s.toList.map chr

def CR : UInt8 := 13

def LF : UInt8 := 10

/-- `LOWER` -/
def lower (c : UInt8) : UInt8 := c ||| 0x20

/-- `IS_ALPHA` -/
def isAlpha (c : UInt8) : Bool := chr 'a' ≤ lower c && lower c ≤ chr 'z'

/-- `IS_NUM` -/
def isNum (c : UInt8) : Bool := chr '0' ≤ c && c ≤ chr '9'

/-- `IS_ALPHANUM` -/
def isAlphanum (c : UInt8) : Bool := isAlpha c || isNum c

/-- `IS_MARK` -/
def isMark (c : UInt8) : Bool := (ascii "-_.!~*'()").contains c

/-- `IS_USERINFO_CHAR` -/
def isUserinfoChar (c : UInt8) : Bool :=
  isAlphanum c || isMark c || (ascii "%;:&=+$,").contains c

/-- `tokens`: the characters of a token, in lower case, and 0 for the others. -/
def tokens (c : UInt8) : UInt8 :=
  if chr 'A' ≤ c && c ≤ chr 'Z' then c + 32
  else if (chr 'a' ≤ c && c ≤ chr 'z') || isNum c || (ascii "!#$%&'*+-.^_`|~").contains c then c
  else 0

/-- `TOKEN` -/
def token (c : UInt8) : UInt8 := if c = chr ' ' then chr ' ' else tokens c

/-- `IS_URL_CHAR`, by the bits of `normal_url_char` -/
def isUrlChar (c : UInt8) : Bool :=
  c = 9 || c = 12 || (33 ≤ c && c ≤ 126 && c ≠ chr '#' && c ≠ chr '?') || 0x80 ≤ c

/-- `IS_HEADER_CHAR` -/
def isHeaderChar (c : UInt8) : Bool := c = CR || c = LF || c = 9 || (31 < c && c ≠ 127)

/-- `unhex`; the table spells out its first half only, and the other half is 0. -/
def unhex (c : UInt8) : Option Nat :=
  if isNum c then some (c.toNat - 48)
  else if chr 'A' ≤ c && c ≤ chr 'F' then some (c.toNat - 55)
  else if chr 'a' ≤ c && c ≤ chr 'f' then some (c.toNat - 87)
  else if 0x80 ≤ c then some 0
  else none

/-! ### The parser -/

/-- `enum state` -/
inductive State where
  | dead
  | startReqOrRes | resOrRespH | startRes
  | resH | resHT | resHTT | resHTTP | resHttpMajor | resHttpDot | resHttpMinor | resHttpEnd
  | resFirstStatusCode | resStatusCode | resStatusStart | resStatus | resLineAlmostDone
  | startReq | reqMethod | reqSpacesBeforeUrl
  | reqSchema | reqSchemaSlash | reqSchemaSlashSlash | reqServerStart | reqServer | reqServerWithAt
  | reqPath | reqQueryStringStart | reqQueryString | reqFragmentStart | reqFragment
  | reqHttpStart | reqHttpH | reqHttpHT | reqHttpHTT | reqHttpHTTP | reqHttpMajor | reqHttpDot
  | reqHttpMinor | reqHttpEnd | reqLineAlmostDone
  | headerFieldStart | headerField
  | headerValueDiscardWs | headerValueDiscardWsAlmostDone | headerValueDiscardLws
  | headerValueStart | headerValue | headerValueLws | headerAlmostDone
  | chunkSizeStart | chunkSize | chunkParameters | chunkSizeAlmostDone
  | headersAlmostDone | headersDone
  | chunkData | chunkDataAlmostDone | chunkDataDone
  | bodyIdentity | bodyIdentityEof
  | messageDone
  deriving DecidableEq, Repr

/-- `PARSING_HEADER` -/
def State.parsingHeader : State → Bool
  | .chunkData | .chunkDataAlmostDone | .chunkDataDone | .bodyIdentity | .bodyIdentityEof
  | .messageDone => false
  | _ => true

/-- `enum header_states` -/
inductive HeaderState where
  | general | C | CO | CON
  | matchingConnection | matchingProxyConnection | matchingContentLength
  | matchingTransferEncoding | matchingUpgrade
  | connection | contentLength | contentLengthNum | contentLengthWs | transferEncoding | upgrade
  | matchingTransferEncodingChunked | matchingConnectionTokenStart
  | matchingConnectionKeepAlive | matchingConnectionClose | matchingConnectionUpgrade
  | matchingConnectionToken
  | transferEncodingChunked | connectionKeepAlive | connectionClose | connectionUpgrade
  deriving DecidableEq, Repr

/-- `enum http_method`, in its order -/
inductive Method where
  | delete | get | head | post | put
  | connect | options | trace
  | copy | lock | mkcol | move | propfind | proppatch | search | unlock | bind | rebind | unbind
  | acl
  | report | mkactivity | checkout | merge
  | msearch | notify | subscribe | unsubscribe
  | patch | purge
  | mkcalendar
  | link | unlink
  | source
  deriving DecidableEq, Repr

/-- `method_strings` -/
def Method.string : Method → List UInt8
  | .delete => ascii "DELETE" | .get => ascii "GET" | .head => ascii "HEAD"
  | .post => ascii "POST" | .put => ascii "PUT"
  | .connect => ascii "CONNECT" | .options => ascii "OPTIONS" | .trace => ascii "TRACE"
  | .copy => ascii "COPY" | .lock => ascii "LOCK" | .mkcol => ascii "MKCOL"
  | .move => ascii "MOVE" | .propfind => ascii "PROPFIND" | .proppatch => ascii "PROPPATCH"
  | .search => ascii "SEARCH" | .unlock => ascii "UNLOCK" | .bind => ascii "BIND"
  | .rebind => ascii "REBIND" | .unbind => ascii "UNBIND" | .acl => ascii "ACL"
  | .report => ascii "REPORT" | .mkactivity => ascii "MKACTIVITY"
  | .checkout => ascii "CHECKOUT" | .merge => ascii "MERGE"
  | .msearch => ascii "M-SEARCH" | .notify => ascii "NOTIFY" | .subscribe => ascii "SUBSCRIBE"
  | .unsubscribe => ascii "UNSUBSCRIBE"
  | .patch => ascii "PATCH" | .purge => ascii "PURGE"
  | .mkcalendar => ascii "MKCALENDAR"
  | .link => ascii "LINK" | .unlink => ascii "UNLINK"
  | .source => ascii "SOURCE"

/-- The method a first letter stands for, until another letter says otherwise. -/
def Method.ofFirst (ch : UInt8) : Option Method :=
  if ch = chr 'A' then some .acl
  else if ch = chr 'B' then some .bind
  else if ch = chr 'C' then some .connect
  else if ch = chr 'D' then some .delete
  else if ch = chr 'G' then some .get
  else if ch = chr 'H' then some .head
  else if ch = chr 'L' then some .lock
  else if ch = chr 'M' then some .mkcol
  else if ch = chr 'N' then some .notify
  else if ch = chr 'O' then some .options
  else if ch = chr 'P' then some .post
  else if ch = chr 'R' then some .report
  else if ch = chr 'S' then some .subscribe
  else if ch = chr 'T' then some .trace
  else if ch = chr 'U' then some .unlock
  else none

/-- The method another letter at this place makes of it. -/
def Method.other : Method → Nat → UInt8 → Option Method
  | .post, 1, ch =>
    if ch = chr 'U' then some .put
    else if ch = chr 'A' then some .patch
    else if ch = chr 'R' then some .propfind
    else none
  | .put, 2, ch => if ch = chr 'R' then some .purge else none
  | .connect, 1, ch => if ch = chr 'H' then some .checkout else none
  | .connect, 2, ch => if ch = chr 'P' then some .copy else none
  | .mkcol, 1, ch =>
    if ch = chr 'O' then some .move
    else if ch = chr 'E' then some .merge
    else if ch = chr '-' then some .msearch
    else none
  | .mkcol, 2, ch => if ch = chr 'A' then some .mkactivity else none
  | .mkcol, 3, ch => if ch = chr 'A' then some .mkcalendar else none
  | .subscribe, 1, ch =>
    if ch = chr 'E' then some .search
    else if ch = chr 'O' then some .source
    else none
  | .report, 2, ch => if ch = chr 'B' then some .rebind else none
  | .propfind, 4, ch => if ch = chr 'P' then some .proppatch else none
  | .lock, 1, ch => if ch = chr 'I' then some .link else none
  | .unlock, 2, ch =>
    if ch = chr 'S' then some .unsubscribe
    else if ch = chr 'B' then some .unbind
    else none
  | .unlock, 3, ch => if ch = chr 'I' then some .unlink else none
  | _, _, _ => none

/-- `enum http_parser_type` -/
inductive ParserType where
  | request | response | both
  deriving DecidableEq, Repr

/-- `enum http_errno`, in its order -/
inductive Errno where
  | ok
  | cbMessageBegin | cbUrl | cbHeaderField | cbHeaderValue | cbHeadersComplete | cbBody
  | cbMessageComplete | cbStatus | cbChunkHeader | cbChunkComplete
  | invalidEofState | headerOverflow | closedConnection | invalidVersion | invalidStatus
  | invalidMethod | invalidUrl | invalidHost | invalidPort | invalidPath | invalidQueryString
  | invalidFragment | lfExpected | invalidHeaderToken | invalidContentLength
  | unexpectedContentLength | invalidChunkSize | invalidConstant | invalidInternalState
  | strict | paused | unknown
  deriving DecidableEq, Repr

/-- `enum flags` -/
structure Flags where
  chunked : Bool := false
  connectionKeepAlive : Bool := false
  connectionClose : Bool := false
  connectionUpgrade : Bool := false
  trailing : Bool := false
  upgrade : Bool := false
  skipbody : Bool := false
  contentlength : Bool := false
  deriving DecidableEq, Repr

/-- `http_parser`, but for `nread`, which only `COUNT_HEADER_SIZE` looks at.  The state
    `http_parser_execute` works on, `p_state`, is the one it stores. -/
structure Core where
  type : ParserType
  flags : Flags := {}
  state : State
  headerState : HeaderState := .general
  index : Nat := 0
  lenientHttpHeaders : Bool := false
  contentLength : Nat := 0
  httpMajor : Nat := 0
  httpMinor : Nat := 0
  statusCode : Nat := 0
  method : Method := .delete
  httpErrno : Errno := .ok
  upgrade : Bool := false
  deriving DecidableEq, Repr

/-- `http_parser` -/
structure Parser extends Core where
  nread : Nat := 0
  deriving DecidableEq, Repr

/-- `start_state` -/
def startState : ParserType → State
  | .request => .startReq
  | _ => .startRes

/-- `http_parser_init` -/
def Parser.init (t : ParserType) : Parser where
  type := t
  state := match t with
    | .request => .startReq
    | .response => .startRes
    | .both => .startReqOrRes

def ULLONG_MAX : Nat := 2 ^ 64 - 1

/-- `max_header_size`, which nobody sets -/
def maxHeaderSize : Nat := HTTP_MAX_HEADER_SIZE

/-- `http_message_needs_eof` -/
def Core.messageNeedsEof (c : Core) : Bool :=
  if c.type = .request then false
  else if c.statusCode / 100 = 1 || c.statusCode = 204 || c.statusCode = 304 || c.flags.skipbody
  then false
  else if c.flags.chunked || c.contentLength ≠ ULLONG_MAX then false
  else true

/-- `http_should_keep_alive` -/
def Core.shouldKeepAlive (c : Core) : Bool :=
  if 0 < c.httpMajor && 0 < c.httpMinor then
    -- HTTP/1.1
    if c.flags.connectionClose then false else !c.messageNeedsEof
  else
    -- HTTP/1.0 or earlier
    if !c.flags.connectionKeepAlive then false else !c.messageNeedsEof

/-- What `headers_complete_cb` asks about the message. -/
def Core.info (c : Core) : Info where
  httpMajor := UInt16.ofNat c.httpMajor
  httpMinor := UInt16.ofNat c.httpMinor
  method := UInt8.ofNat c.method.ctorIdx
  upgrade := c.upgrade
  statusCode := UInt16.ofNat c.statusCode
  shouldKeepAlive := c.shouldKeepAlive

/-- `parse_url_char` -/
def parseUrlChar (s : State) (ch : UInt8) : State :=
  if ch = chr ' ' || ch = CR || ch = LF then .dead
  else
    match s with
    | .reqSpacesBeforeUrl =>
      if ch = chr '/' || ch = chr '*' then .reqPath
      else if isAlpha ch then .reqSchema
      else .dead
    | .reqSchema =>
      if isAlpha ch then s
      else if ch = chr ':' then .reqSchemaSlash
      else .dead
    | .reqSchemaSlash => if ch = chr '/' then .reqSchemaSlashSlash else .dead
    | .reqSchemaSlashSlash => if ch = chr '/' then .reqServerStart else .dead
    | .reqServerWithAt | .reqServerStart | .reqServer =>
      if s = .reqServerWithAt && ch = chr '@' then .dead
      else if ch = chr '/' then .reqPath
      else if ch = chr '?' then .reqQueryStringStart
      else if ch = chr '@' then .reqServerWithAt
      else if isUserinfoChar ch || ch = chr '[' || ch = chr ']' then .reqServer
      else .dead
    | .reqPath =>
      if isUrlChar ch then s
      else if ch = chr '?' then .reqQueryStringStart
      else if ch = chr '#' then .reqFragmentStart
      else .dead
    | .reqQueryStringStart | .reqQueryString =>
      if isUrlChar ch then .reqQueryString
      else if ch = chr '?' then .reqQueryString
      else if ch = chr '#' then .reqFragmentStart
      else .dead
    | .reqFragmentStart =>
      if isUrlChar ch then .reqFragment
      else if ch = chr '?' then .reqFragment
      else if ch = chr '#' then s
      else .dead
    | .reqFragment =>
      if isUrlChar ch then s
      else if ch = chr '?' || ch = chr '#' then s
      else .dead
    | _ => .dead

end Dv8.Http
