import Stutter.Bytes

namespace Stutter.Joyent

inductive ParserType where
  | request | response | both
  deriving DecidableEq, Repr

/-- `enum http_method`, in the order of `HTTP_METHOD_MAP`. -/
inductive Method where
  | delete | get | head | post | put | connect | options | trace
  | copy | lock | mkcol | move | propfind | proppatch | search | unlock
  | report | mkactivity | checkout | merge
  | msearch | notify | subscribe | unsubscribe
  | patch | purge
  deriving DecidableEq, Repr

/-- `method_strings`. -/
def Method.string : Method → Bytes
  | .delete => ascii "DELETE"
  | .get => ascii "GET"
  | .head => ascii "HEAD"
  | .post => ascii "POST"
  | .put => ascii "PUT"
  | .connect => ascii "CONNECT"
  | .options => ascii "OPTIONS"
  | .trace => ascii "TRACE"
  | .copy => ascii "COPY"
  | .lock => ascii "LOCK"
  | .mkcol => ascii "MKCOL"
  | .move => ascii "MOVE"
  | .propfind => ascii "PROPFIND"
  | .proppatch => ascii "PROPPATCH"
  | .search => ascii "SEARCH"
  | .unlock => ascii "UNLOCK"
  | .report => ascii "REPORT"
  | .mkactivity => ascii "MKACTIVITY"
  | .checkout => ascii "CHECKOUT"
  | .merge => ascii "MERGE"
  | .msearch => ascii "M-SEARCH"
  | .notify => ascii "NOTIFY"
  | .subscribe => ascii "SUBSCRIBE"
  | .unsubscribe => ascii "UNSUBSCRIBE"
  | .patch => ascii "PATCH"
  | .purge => ascii "PURGE"

/-- `enum state`. -/
inductive State where
  | dead
  | startReqOrRes | resOrRespH
  | startRes | resH | resHT | resHTT | resHTTP
  | resFirstHttpMajor | resHttpMajor | resFirstHttpMinor | resHttpMinor
  | resFirstStatusCode | resStatusCode | resStatus | resLineAlmostDone
  | startReq
  | reqMethod | reqSpacesBeforeUrl
  | reqSchema | reqSchemaSlash | reqSchemaSlashSlash
  | reqServerStart | reqServer | reqServerWithAt
  | reqPath | reqQueryStringStart | reqQueryString | reqFragmentStart | reqFragment
  | reqHttpStart | reqHttpH | reqHttpHT | reqHttpHTT | reqHttpHTTP
  | reqFirstHttpMajor | reqHttpMajor | reqFirstHttpMinor | reqHttpMinor | reqLineAlmostDone
  | headerFieldStart | headerField | headerValueStart | headerValue | headerValueLws
  | headerAlmostDone
  | chunkSizeStart | chunkSize | chunkParameters | chunkSizeAlmostDone
  | headersAlmostDone | headersDone
  | chunkData | chunkDataAlmostDone | chunkDataDone
  | bodyIdentity | bodyIdentityEof
  | messageDone
  deriving DecidableEq, Repr

/-- `PARSING_HEADER`: the states up to `s_headers_done`. -/
def State.parsingHeader : State → Bool
  | .chunkData | .chunkDataAlmostDone | .chunkDataDone
  | .bodyIdentity | .bodyIdentityEof | .messageDone => false
  | _ => true

/-- `enum header_states`. -/
inductive HeaderState where
  | general | c | co | con
  | matchingConnection | matchingProxyConnection | matchingContentLength
  | matchingTransferEncoding | matchingUpgrade
  | connection | contentLength | transferEncoding | upgrade
  | matchingTransferEncodingChunked | matchingConnectionKeepAlive | matchingConnectionClose
  | transferEncodingChunked | connectionKeepAlive | connectionClose
  deriving DecidableEq, Repr

/-- The data callbacks, each with its mark in `http_parser_execute`. -/
inductive Mark where
  | headerField | headerValue | url | body
  deriving DecidableEq, Repr

/-- The `HPE_*` values that `http_parser_execute` sets. -/
inductive Errno where
  | ok
  | cbData (k : Mark) | cbHeadersComplete | cbMessageComplete
  | invalidEofState | headerOverflow | closedConnection
  | invalidVersion | invalidStatus | invalidMethod | invalidUrl
  | lfExpected | invalidHeaderToken | invalidContentLength | invalidChunkSize
  | invalidConstant | strict | unknown
  deriving DecidableEq, Repr

/-- The `F_*` bits of `http_parser.flags`. -/
structure Flags where
  chunked : Bool
  connectionKeepAlive : Bool
  connectionClose : Bool
  trailing : Bool
  upgrade : Bool
  skipbody : Bool
  deriving DecidableEq, Repr

def Flags.none : Flags := ⟨false, false, false, false, false, false⟩

structure HttpParser where
  type : ParserType
  flags : Flags
  state : State
  headerState : HeaderState
  index : ℕ
  nread : ℕ
  contentLength : ℕ
  httpMajor : ℕ
  httpMinor : ℕ
  statusCode : ℕ
  method : Method
  httpErrno : Errno
  upgrade : Bool
  deriving DecidableEq, Repr

def ULLONG_MAX : ℕ := 2 ^ 64 - 1

/-- `HTTP_MAX_HEADER_SIZE` -/
def maxHeaderSize : ℕ := 80 * 1024

/-- `http_parser_init`: everything is zeroed but the type and the state. -/
def HttpParser.init (t : ParserType) : HttpParser where
  type := t
  flags := .none
  state := match t with
    | .request => .startReq
    | .response => .startRes
    | .both => .startReqOrRes
  headerState := .general
  index := 0
  nread := 0
  contentLength := 0
  httpMajor := 0
  httpMinor := 0
  statusCode := 0
  method := .delete
  httpErrno := .ok
  upgrade := false

def HttpParser.messageNeedsEof (p : HttpParser) : Bool :=
  if p.type = .request then false
  else if p.statusCode / 100 = 1 ∨ p.statusCode = 204 ∨ p.statusCode = 304 ∨
      p.flags.skipbody then false
  else if p.flags.chunked ∨ p.contentLength ≠ ULLONG_MAX then false
  else true

def HttpParser.shouldKeepAlive (p : HttpParser) : Bool :=
  if p.httpMajor > 0 ∧ p.httpMinor > 0 then
    if p.flags.connectionClose then false else !p.messageNeedsEof
  else if !p.flags.connectionKeepAlive then false
  else !p.messageNeedsEof

/-- `NEW_MESSAGE()` of the strict build. -/
def HttpParser.newMessage (p : HttpParser) : State :=
  if p.shouldKeepAlive then
    if p.type = .request then .startReq else .startRes
  else .dead

end Stutter.Joyent
