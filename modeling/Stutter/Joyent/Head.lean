import Stutter.Joyent.Chars

namespace Stutter.Joyent

/-- What a `case` does that runs no callback: `break`, `goto error`, or a failed `assert`. -/
inductive Outcome where
  | ok (p : HttpParser)
  | fail (p : HttpParser) (e : Errno)
  | abort

def HttpParser.goto (p : HttpParser) (s : State) : HttpParser := { p with state := s }

/-- `STRICT_CHECK(ch != want)`, then the next state. -/
def strictNext (p : HttpParser) (want ch : UInt8) (s : State) : Outcome :=
  if ch ≠ want then .fail p .strict else .ok (p.goto s)

def startReq (p : HttpParser) (ch : UInt8) : Outcome :=
  if ch = CR ∨ ch = LF then .ok p
  else
    let p := { p with flags := .none, contentLength := ULLONG_MAX }
    if !isAlpha ch then .fail p .invalidMethod
    else
      let p := { p with method := .delete, index := 1 }
      let go (m : Method) : Outcome := .ok { p with method := m, state := .reqMethod }
      if ch = 'C'.toUInt8 then go .connect
      else if ch = 'D'.toUInt8 then go .delete
      else if ch = 'G'.toUInt8 then go .get
      else if ch = 'H'.toUInt8 then go .head
      else if ch = 'L'.toUInt8 then go .lock
      else if ch = 'M'.toUInt8 then go .mkcol
      else if ch = 'N'.toUInt8 then go .notify
      else if ch = 'O'.toUInt8 then go .options
      else if ch = 'P'.toUInt8 then go .post
      else if ch = 'R'.toUInt8 then go .report
      else if ch = 'S'.toUInt8 then go .subscribe
      else if ch = 'T'.toUInt8 then go .trace
      else if ch = 'U'.toUInt8 then go .unlock
      else .fail p .invalidMethod

def reqMethod (p : HttpParser) (ch : UInt8) : Outcome :=
  let matcher := p.method.string.getD p.index 0
  let next (p : HttpParser) : Outcome := .ok { p with index := p.index + 1 }
  let turn (m : Method) : Outcome := next { p with method := m }
  if ch = 0 then .fail p .invalidMethod
  else if ch = SP ∧ matcher = 0 then next (p.goto .reqSpacesBeforeUrl)
  else if ch = matcher then next p
  else if p.method = .connect then
    if p.index = 1 ∧ ch = 'H'.toUInt8 then turn .checkout
    else if p.index = 2 ∧ ch = 'P'.toUInt8 then turn .copy
    else .fail p .unknown
  else if p.method = .mkcol then
    if p.index = 1 ∧ ch = 'O'.toUInt8 then turn .move
    else if p.index = 1 ∧ ch = 'E'.toUInt8 then turn .merge
    else if p.index = 1 ∧ ch = '-'.toUInt8 then turn .msearch
    else if p.index = 2 ∧ ch = 'A'.toUInt8 then turn .mkactivity
    else .fail p .unknown
  else if p.method = .subscribe then
    if p.index = 1 ∧ ch = 'E'.toUInt8 then turn .search else .fail p .unknown
  else if p.index = 1 ∧ p.method = .post then
    if ch = 'R'.toUInt8 then turn .propfind
    else if ch = 'U'.toUInt8 then turn .put
    else if ch = 'A'.toUInt8 then turn .patch
    else .fail p .unknown
  else if p.index = 2 then
    -- the source has no error here, so any third byte passes for most methods
    if p.method = .put then
      if ch = 'R'.toUInt8 then turn .purge else next p
    else if p.method = .unlock then
      if ch = 'S'.toUInt8 then turn .unsubscribe else next p
    else next p
  else if p.index = 4 ∧ p.method = .propfind ∧ ch = 'P'.toUInt8 then turn .proppatch
  else .fail p .invalidMethod

/-- The first digit of a version number; `s_req_first_http_major` alone refuses 0. -/
def firstMajor (p : HttpParser) (ch : UInt8) (least : UInt8) (s : State) : Outcome :=
  if ch < least ∨ '9'.toUInt8 < ch then .fail p .invalidVersion
  else .ok { p with httpMajor := digit ch, state := s }

def httpMajor (p : HttpParser) (ch : UInt8) (dot : State) : Outcome :=
  if ch = '.'.toUInt8 then .ok (p.goto dot)
  else if !isNum ch then .fail p .invalidVersion
  else
    let p := { p with httpMajor := p.httpMajor * 10 + digit ch }
    if p.httpMajor > 999 then .fail p .invalidVersion else .ok p

def firstMinor (p : HttpParser) (ch : UInt8) (s : State) : Outcome :=
  if !isNum ch then .fail p .invalidVersion
  else .ok { p with httpMinor := digit ch, state := s }

def httpMinor (p : HttpParser) (ch : UInt8) : Outcome :=
  if !isNum ch then .fail p .invalidVersion
  else
    let p := { p with httpMinor := p.httpMinor * 10 + digit ch }
    if p.httpMinor > 999 then .fail p .invalidVersion else .ok p

def startRes (p : HttpParser) (ch : UInt8) : Outcome :=
  let p := { p with flags := .none, contentLength := ULLONG_MAX }
  if ch = 'H'.toUInt8 then .ok (p.goto .resH)
  else if ch = CR ∨ ch = LF then .ok p
  else .fail p .invalidConstant

def resStatusCode (p : HttpParser) (ch : UInt8) : Outcome :=
  if !isNum ch then
    if ch = SP then .ok (p.goto .resStatus)
    else if ch = CR then .ok (p.goto .resLineAlmostDone)
    else if ch = LF then .ok (p.goto .headerFieldStart)
    else .fail p .invalidStatus
  else
    let p := { p with statusCode := p.statusCode * 10 + digit ch }
    if p.statusCode > 999 then .fail p .invalidStatus else .ok p

/-- One more byte of a known name or value, whose last byte leads to `full`. -/
def matchNext (p : HttpParser) (c : UInt8) (word : Bytes) (full : HeaderState) : HttpParser :=
  let p := { p with index := p.index + 1 }
  if p.index > word.length ∨ c ≠ word.getD p.index 0 then { p with headerState := .general }
  else if p.index = word.length - 1 then { p with headerState := full }
  else p

/-- The first byte of a header name picks the names it can become. -/
def headerNameStart (c : UInt8) : HeaderState :=
  if c = 'c'.toUInt8 then .c
  else if c = 'p'.toUInt8 then .matchingProxyConnection
  else if c = 't'.toUInt8 then .matchingTransferEncoding
  else if c = 'u'.toUInt8 then .matchingUpgrade
  else .general

/-- The `switch` over `header_state` of `s_header_field`, for a token byte. -/
def headerNameNext (p : HttpParser) (ch c : UInt8) : Outcome :=
  let turn (h : HeaderState) : Outcome := .ok { p with index := p.index + 1, headerState := h }
  match p.headerState with
  | .general => .ok p
  | .c => turn (if c = 'o'.toUInt8 then .co else .general)
  | .co => turn (if c = 'n'.toUInt8 then .con else .general)
  | .con =>
    turn (if c = 'n'.toUInt8 then .matchingConnection
      else if c = 't'.toUInt8 then .matchingContentLength
      else .general)
  | .matchingConnection => .ok (matchNext p c (ascii "connection") .connection)
  | .matchingProxyConnection => .ok (matchNext p c (ascii "proxy-connection") .connection)
  | .matchingContentLength => .ok (matchNext p c (ascii "content-length") .contentLength)
  | .matchingTransferEncoding => .ok (matchNext p c (ascii "transfer-encoding") .transferEncoding)
  | .matchingUpgrade => .ok (matchNext p c (ascii "upgrade") .upgrade)
  | .connection | .contentLength | .transferEncoding | .upgrade =>
    .ok (if ch ≠ SP then { p with headerState := .general } else p)
  | _ => .abort

/-- The `switch` over `header_state` of `s_header_value_start`. -/
def headerValueFirst (p : HttpParser) (ch : UInt8) : Outcome :=
  let c := lower ch
  let turn (h : HeaderState) : Outcome := .ok { p with headerState := h }
  match p.headerState with
  | .upgrade => .ok { p with flags.upgrade := true, headerState := .general }
  | .transferEncoding =>
    turn (if c = 'c'.toUInt8 then .matchingTransferEncodingChunked else .general)
  | .contentLength =>
    if !isNum ch then .fail p .invalidContentLength
    else .ok { p with contentLength := digit ch }
  | .connection =>
    turn (if c = 'k'.toUInt8 then .matchingConnectionKeepAlive
      else if c = 'c'.toUInt8 then .matchingConnectionClose
      else .general)
  | _ => turn .general

/-- `t *= base; t += d` in a `uint64_t`, and the test for overflow that follows it. -/
def pushDigit (p : HttpParser) (base d : ℕ) : Outcome :=
  let t := (p.contentLength * base % 2 ^ 64 + d) % 2 ^ 64
  if t < p.contentLength ∨ t = ULLONG_MAX then .fail p .invalidContentLength
  else .ok { p with contentLength := t }

/-- The `switch` over `header_state` of `s_header_value`. -/
def headerValueNext (p : HttpParser) (ch : UInt8) : Outcome :=
  let c := lower ch
  match p.headerState with
  | .general => .ok p
  | .connection | .transferEncoding => .abort
  | .contentLength =>
    if ch = SP then .ok p
    else if !isNum ch then .fail p .invalidContentLength
    else pushDigit p 10 (digit ch)
  | .matchingTransferEncodingChunked =>
    .ok (matchNext p c (ascii "chunked") .transferEncodingChunked)
  | .matchingConnectionKeepAlive =>
    .ok (matchNext p c (ascii "keep-alive") .connectionKeepAlive)
  | .matchingConnectionClose => .ok (matchNext p c (ascii "close") .connectionClose)
  | .transferEncodingChunked | .connectionKeepAlive | .connectionClose =>
    .ok (if ch ≠ SP then { p with headerState := .general } else p)
  | _ => .ok { p with state := .headerValue, headerState := .general }

def headerAlmostDone (p : HttpParser) (ch : UInt8) : Outcome :=
  if ch ≠ LF then .fail p .strict
  else
    let p := p.goto .headerValueLws
    match p.headerState with
    | .connectionKeepAlive => .ok { p with flags.connectionKeepAlive := true }
    | .connectionClose => .ok { p with flags.connectionClose := true }
    | .transferEncodingChunked => .ok { p with flags.chunked := true }
    | _ => .ok p

def chunkSizeStart (p : HttpParser) (ch : UInt8) : Outcome :=
  if p.nread ≠ 1 ∨ !p.flags.chunked then .abort
  else if unhex ch = -1 then .fail p .invalidChunkSize
  else .ok { p with contentLength := (unhex ch).toNat, state := .chunkSize }

def chunkSize (p : HttpParser) (ch : UInt8) : Outcome :=
  if !p.flags.chunked then .abort
  else if ch = CR then .ok (p.goto .chunkSizeAlmostDone)
  else if unhex ch = -1 then
    if ch = ';'.toUInt8 ∨ ch = SP then .ok (p.goto .chunkParameters)
    else .fail p .invalidChunkSize
  else pushDigit p 16 (unhex ch).toNat

def chunkParameters (p : HttpParser) (ch : UInt8) : Outcome :=
  if !p.flags.chunked then .abort
  else if ch = CR then .ok (p.goto .chunkSizeAlmostDone)
  else .ok p

def chunkSizeAlmostDone (p : HttpParser) (ch : UInt8) : Outcome :=
  if !p.flags.chunked then .abort
  else if ch ≠ LF then .fail p .strict
  else
    let p := { p with nread := 0 }
    if p.contentLength = 0 then
      .ok { p with flags.trailing := true, state := .headerFieldStart }
    else .ok (p.goto .chunkData)

def chunkDataDone (p : HttpParser) (ch : UInt8) : Outcome :=
  if !p.flags.chunked then .abort
  else if ch ≠ LF then .fail p .strict
  else .ok { p with nread := 0, state := .chunkSizeStart }

end Stutter.Joyent
