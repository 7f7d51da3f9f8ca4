import Stutter.Joyent.Head

namespace Stutter.Joyent

/-- `http_parser_settings` over a user state `σ`, without `on_message_begin`, which is never set.
A data callback returns its code; `on_message_complete` alone may replace the parser, and `none`
is an abnormal end inside it. -/
structure Settings (σ : Type) where
  onData : Mark → Bytes → σ → ℤ × σ
  onHeadersComplete : HttpParser → σ → ℤ × σ
  onMessageComplete : HttpParser → σ → Option (ℤ × HttpParser × σ)

/-- The four marks. A set mark is kept as the bytes from the mark up to `p`. -/
structure Marks where
  headerField : Option Bytes
  headerValue : Option Bytes
  url : Option Bytes
  body : Option Bytes
  deriving DecidableEq

namespace Marks

def none : Marks := ⟨.none, .none, .none, .none⟩

def get (m : Marks) : Mark → Option Bytes
  | .headerField => m.headerField
  | .headerValue => m.headerValue
  | .url => m.url
  | .body => m.body

def set (m : Marks) (k : Mark) (v : Option Bytes) : Marks :=
  match k with
  | .headerField => { m with headerField := v }
  | .headerValue => { m with headerValue := v }
  | .url => { m with url := v }
  | .body => { m with body := v }

/-- `MARK(FOR)`: a mark that is set stays. -/
def mark (m : Marks) (k : Mark) : Marks :=
  match m.get k with
  | .none => m.set k (some [])
  | some _ => m

/-- `p` moves on over `bs`. -/
def push (m : Marks) (bs : Bytes) : Marks where
  headerField := m.headerField.map (· ++ bs)
  headerValue := m.headerValue.map (· ++ bs)
  url := m.url.map (· ++ bs)
  body := m.body.map (· ++ bs)

/-- How many marks are set. -/
def count (m : Marks) : ℕ :=
  m.headerField.toList.length + m.headerValue.toList.length + m.url.toList.length +
    m.body.toList.length

end Marks

/-- The variables of `http_parser_execute` besides `p`. -/
structure Cfg (σ : Type) where
  parser : HttpParser
  user : σ
  marks : Marks

/-- How one turn of the loop ends. -/
inductive Flow (σ : Type) where
  /-- `break`, after `p` was moved on by `skip` -/
  | next (c : Cfg σ) (skip : ℕ)
  /-- `SET_ERRNO(e); goto error` -/
  | fail (c : Cfg σ) (e : Errno)
  /-- `return p - data + adv` -/
  | ret (c : Cfg σ) (adv : ℕ)
  /-- a failed `assert`, or the abnormal end of a callback -/
  | abort

variable {σ : Type}

def Cfg.goto (c : Cfg σ) (s : State) : Cfg σ := { c with parser := c.parser.goto s }

def Cfg.mark (c : Cfg σ) (k : Mark) : Cfg σ := { c with marks := c.marks.mark k }

/-- A `case` that runs no callback. -/
def Cfg.lift (c : Cfg σ) : Outcome → Flow σ
  | .ok p => .next { c with parser := p } 0
  | .fail p e => .fail { c with parser := p } e
  | .abort => .abort

/-- `CALLBACK_DATA_(FOR, LEN, ER)`: `extra` is what `LEN` adds to the bytes before `p`. -/
def callbackData (S : Settings σ) (k : Mark) (extra : Bytes) (er : ℕ) (c : Cfg σ)
    (go : Cfg σ → Flow σ) : Flow σ :=
  if c.parser.httpErrno ≠ .ok then .abort
  else match c.marks.get k with
  | none => go c
  | some frag =>
    let r := S.onData k (frag ++ extra) c.user
    let c := { c with user := r.2 }
    if r.1 ≠ 0 then .ret { c with parser.httpErrno := .cbData k } er
    else go { c with marks := c.marks.set k none }

/-- `CALLBACK_NOTIFY_(message_complete, ER)` -/
def callbackMessageComplete (S : Settings σ) (er : ℕ) (c : Cfg σ) (go : Cfg σ → Flow σ) :
    Flow σ :=
  if c.parser.httpErrno ≠ .ok then .abort
  else match S.onMessageComplete c.parser c.user with
  | none => .abort
  | some (r, p, u) =>
    let p := if r ≠ 0 then { p with httpErrno := .cbMessageComplete } else p
    let c := { c with parser := p, user := u }
    if p.httpErrno ≠ .ok then .ret c er else go c

/-- `CALLBACK_NOTIFY(message_begin)` with no callback set. -/
def notifyMessageBegin (c : Cfg σ) (f : Flow σ) : Flow σ :=
  if c.parser.httpErrno ≠ .ok then .abort else f

/-- `parser->state = NEW_MESSAGE(); CALLBACK_NOTIFY(message_complete)` -/
def completeMessage (S : Settings σ) (er : ℕ) (c : Cfg σ) (go : Cfg σ → Flow σ) : Flow σ :=
  callbackMessageComplete S er (c.goto c.parser.newMessage) go

def urlFirst (c : Cfg σ) (ch : UInt8) : Flow σ :=
  if ch = SP then .next c 0
  else
    let c := c.mark .url
    let s := if c.parser.method = .connect then .reqServerStart else c.parser.state
    let c := c.goto (parseUrlChar s ch)
    if c.parser.state = .dead then .fail c .invalidUrl else .next c 0

/-- `s_req_schema` .. `s_req_server_start`: no white space here. -/
def urlSchema (c : Cfg σ) (ch : UInt8) : Flow σ :=
  if ch = SP ∨ ch = CR ∨ ch = LF then .fail c .invalidUrl
  else
    let c := c.goto (parseUrlChar c.parser.state ch)
    if c.parser.state = .dead then .fail c .invalidUrl else .next c 0

/-- `s_req_server` .. `s_req_fragment` -/
def urlRest (S : Settings σ) (c : Cfg σ) (ch : UInt8) : Flow σ :=
  if ch = SP then
    callbackData S .url [] 1 (c.goto .reqHttpStart) (.next · 0)
  else if ch = CR ∨ ch = LF then
    let p := { c.parser with
      httpMajor := 0, httpMinor := 9
      state := if ch = CR then .reqLineAlmostDone else .headerFieldStart }
    callbackData S .url [] 1 { c with parser := p } (.next · 0)
  else
    let c := c.goto (parseUrlChar c.parser.state ch)
    if c.parser.state = .dead then .fail c .invalidUrl else .next c 0

def headerField (S : Settings σ) (c : Cfg σ) (ch : UInt8) : Flow σ :=
  if token ch ≠ 0 then c.lift (headerNameNext c.parser ch (token ch))
  else if ch = ':'.toUInt8 then
    callbackData S .headerField [] 1 (c.goto .headerValueStart) (.next · 0)
  else if ch = CR then
    callbackData S .headerField [] 1 (c.goto .headerAlmostDone) (.next · 0)
  else if ch = LF then
    callbackData S .headerField [] 1 (c.goto .headerFieldStart) (.next · 0)
  else .fail c .invalidHeaderToken

def headerValueStart (S : Settings σ) (c : Cfg σ) (ch : UInt8) : Flow σ :=
  if ch = SP ∨ ch = HT then .next c 0
  else
    let c := c.mark .headerValue
    let c := { c with parser := { c.parser with state := .headerValue, index := 0 } }
    if ch = CR then
      let p := { c.parser with headerState := .general, state := .headerAlmostDone }
      callbackData S .headerValue [] 1 { c with parser := p } (.next · 0)
    else if ch = LF then
      callbackData S .headerValue [] 1 (c.goto .headerFieldStart) (.next · 0)
    else c.lift (headerValueFirst c.parser ch)

def headerValue (S : Settings σ) (c : Cfg σ) (ch : UInt8) : Flow σ :=
  if ch = CR then
    callbackData S .headerValue [] 1 (c.goto .headerAlmostDone) (.next · 0)
  else if ch = LF then
    -- the byte is executed again, in `s_header_almost_done`
    callbackData S .headerValue [] 0 (c.goto .headerAlmostDone)
      (fun c => c.lift (headerAlmostDone c.parser ch))
  else c.lift (headerValueNext c.parser ch)

def headersDone (S : Settings σ) (c : Cfg σ) (ch : UInt8) : Flow σ :=
  if ch ≠ LF then .fail c .strict
  else
    let c := { c with parser := { c.parser with nread := 0 } }
    if c.parser.upgrade then completeMessage S 1 c (.ret · 1)
    else if c.parser.flags.skipbody then completeMessage S 1 c (.next · 0)
    else if c.parser.flags.chunked then .next (c.goto .chunkSizeStart) 0
    else if c.parser.contentLength = 0 then completeMessage S 1 c (.next · 0)
    else if c.parser.contentLength ≠ ULLONG_MAX then .next (c.goto .bodyIdentity) 0
    else if c.parser.type = .request ∨ !c.parser.messageNeedsEof then
      completeMessage S 1 c (.next · 0)
    else .next (c.goto .bodyIdentityEof) 0

def headersAlmostDone (S : Settings σ) (c : Cfg σ) (ch : UInt8) : Flow σ :=
  if ch ≠ LF then .fail c .strict
  else if c.parser.flags.trailing then completeMessage S 1 c (.next · 0)
  else
    let p := { c.parser with
      state := .headersDone
      upgrade := c.parser.flags.upgrade || c.parser.method = .connect }
    let r := S.onHeadersComplete p c.user
    let c := { c with parser := p, user := r.2 }
    if r.1 = 0 then
      if c.parser.httpErrno ≠ .ok then .ret c 0 else headersDone S c ch
    else if r.1 = 1 then
      let c := { c with parser.flags.skipbody := true }
      if c.parser.httpErrno ≠ .ok then .ret c 0 else headersDone S c ch
    else .ret { c with parser.httpErrno := .cbHeadersComplete } 0

def headerFieldStart (S : Settings σ) (c : Cfg σ) (ch : UInt8) : Flow σ :=
  if ch = CR then .next (c.goto .headersAlmostDone) 0
  else if ch = LF then headersAlmostDone S (c.goto .headersAlmostDone) ch
  else if token ch = 0 then .fail c .invalidHeaderToken
  else
    let c := c.mark .headerField
    .next { c with parser := { c.parser with
      index := 0, state := .headerField, headerState := headerNameStart (token ch) } } 0

def headerValueLws (S : Settings σ) (c : Cfg σ) (ch : UInt8) : Flow σ :=
  if ch = SP ∨ ch = HT then .next (c.goto .headerValueStart) 0
  else headerFieldStart S (c.goto .headerFieldStart) ch

/-- `to_read` bytes of the body at once; at its end the last byte is executed again, in
`s_message_done`. -/
def bodyIdentity (S : Settings σ) (c : Cfg σ) (ch : UInt8) (rest : Bytes) : Flow σ :=
  let toRead := min c.parser.contentLength (ch :: rest).length
  if c.parser.contentLength = 0 ∨ c.parser.contentLength = ULLONG_MAX then .abort
  else
    let c := c.mark .body
    let p := { c.parser with contentLength := c.parser.contentLength - toRead }
    if p.contentLength = 0 then
      callbackData S .body ((ch :: rest).take toRead) (toRead - 1)
        { c with parser := p.goto .messageDone }
        fun c => completeMessage S toRead c (.next · (toRead - 1))
    else .next { c with parser := p } (toRead - 1)

def chunkData (c : Cfg σ) (ch : UInt8) (rest : Bytes) : Flow σ :=
  let toRead := min c.parser.contentLength (ch :: rest).length
  if !c.parser.flags.chunked then .abort
  else if c.parser.contentLength = 0 ∨ c.parser.contentLength = ULLONG_MAX then .abort
  else
    let c := c.mark .body
    let p := { c.parser with contentLength := c.parser.contentLength - toRead }
    .next { c with parser := if p.contentLength = 0 then p.goto .chunkDataAlmostDone else p }
      (toRead - 1)

def chunkDataAlmostDone (S : Settings σ) (c : Cfg σ) (ch : UInt8) : Flow σ :=
  if !c.parser.flags.chunked ∨ c.parser.contentLength ≠ 0 then .abort
  else if ch ≠ CR then .fail c .strict
  else callbackData S .body [] 1 (c.goto .chunkDataDone) (.next · 0)

/-- The `switch (parser->state)` of the loop at the byte `ch`. -/
def exec (S : Settings σ) (c : Cfg σ) (ch : UInt8) (rest : Bytes) : Flow σ :=
  let p := c.parser
  match p.state with
  | .dead => if ch = CR ∨ ch = LF then .next c 0 else .fail c .closedConnection
  | .startReqOrRes =>
    if ch = CR ∨ ch = LF then .next c 0
    else
      let p := { p with flags := .none, contentLength := ULLONG_MAX }
      if ch = 'H'.toUInt8 then
        notifyMessageBegin c (.next { c with parser := p.goto .resOrRespH } 0)
      else
        notifyMessageBegin c (c.lift (startReq { p with type := .request, state := .startReq } ch))
  | .resOrRespH =>
    if ch = 'T'.toUInt8 then
      .next { c with parser := { p with type := .response, state := .resHT } } 0
    else if ch ≠ 'E'.toUInt8 then .fail c .invalidConstant
    else .next { c with parser := { p with
      type := .request, method := .head, index := 2, state := .reqMethod } } 0
  | .startRes => notifyMessageBegin c (c.lift (startRes p ch))
  | .resH => c.lift (strictNext p 'T'.toUInt8 ch .resHT)
  | .resHT => c.lift (strictNext p 'T'.toUInt8 ch .resHTT)
  | .resHTT => c.lift (strictNext p 'P'.toUInt8 ch .resHTTP)
  | .resHTTP => c.lift (strictNext p '/'.toUInt8 ch .resFirstHttpMajor)
  | .resFirstHttpMajor => c.lift (firstMajor p ch '0'.toUInt8 .resHttpMajor)
  | .resHttpMajor => c.lift (httpMajor p ch .resFirstHttpMinor)
  | .resFirstHttpMinor => c.lift (firstMinor p ch .resHttpMinor)
  | .resHttpMinor =>
    if ch = SP then .next (c.goto .resFirstStatusCode) 0 else c.lift (httpMinor p ch)
  | .resFirstStatusCode =>
    if !isNum ch then if ch = SP then .next c 0 else .fail c .invalidStatus
    else .next { c with parser := { p with statusCode := digit ch, state := .resStatusCode } } 0
  | .resStatusCode => c.lift (resStatusCode p ch)
  | .resStatus =>
    if ch = CR then .next (c.goto .resLineAlmostDone) 0
    else if ch = LF then .next (c.goto .headerFieldStart) 0
    else .next c 0
  | .resLineAlmostDone => c.lift (strictNext p LF ch .headerFieldStart)
  | .startReq => notifyMessageBegin c (c.lift (startReq p ch))
  | .reqMethod => c.lift (reqMethod p ch)
  | .reqSpacesBeforeUrl => urlFirst c ch
  | .reqSchema | .reqSchemaSlash | .reqSchemaSlashSlash | .reqServerStart => urlSchema c ch
  | .reqServer | .reqServerWithAt | .reqPath | .reqQueryStringStart | .reqQueryString
  | .reqFragmentStart | .reqFragment => urlRest S c ch
  | .reqHttpStart =>
    if ch = 'H'.toUInt8 then .next (c.goto .reqHttpH) 0
    else if ch = SP then .next c 0
    else .fail c .invalidConstant
  | .reqHttpH => c.lift (strictNext p 'T'.toUInt8 ch .reqHttpHT)
  | .reqHttpHT => c.lift (strictNext p 'T'.toUInt8 ch .reqHttpHTT)
  | .reqHttpHTT => c.lift (strictNext p 'P'.toUInt8 ch .reqHttpHTTP)
  | .reqHttpHTTP => c.lift (strictNext p '/'.toUInt8 ch .reqFirstHttpMajor)
  | .reqFirstHttpMajor => c.lift (firstMajor p ch '1'.toUInt8 .reqHttpMajor)
  | .reqHttpMajor => c.lift (httpMajor p ch .reqFirstHttpMinor)
  | .reqFirstHttpMinor => c.lift (firstMinor p ch .reqHttpMinor)
  | .reqHttpMinor =>
    if ch = CR then .next (c.goto .reqLineAlmostDone) 0
    else if ch = LF then .next (c.goto .headerFieldStart) 0
    else c.lift (httpMinor p ch)
  | .reqLineAlmostDone =>
    if ch ≠ LF then .fail c .lfExpected else .next (c.goto .headerFieldStart) 0
  | .headerFieldStart => headerFieldStart S c ch
  | .headerField => headerField S c ch
  | .headerValueStart => headerValueStart S c ch
  | .headerValue => headerValue S c ch
  | .headerValueLws => headerValueLws S c ch
  | .headerAlmostDone => c.lift (headerAlmostDone p ch)
  | .chunkSizeStart => c.lift (chunkSizeStart p ch)
  | .chunkSize => c.lift (chunkSize p ch)
  | .chunkParameters => c.lift (chunkParameters p ch)
  | .chunkSizeAlmostDone => c.lift (chunkSizeAlmostDone p ch)
  | .headersAlmostDone => headersAlmostDone S c ch
  | .headersDone => headersDone S c ch
  | .chunkData => chunkData c ch rest
  | .chunkDataAlmostDone => chunkDataAlmostDone S c ch
  | .chunkDataDone => c.lift (chunkDataDone p ch)
  | .bodyIdentity => bodyIdentity S c ch rest
  | .bodyIdentityEof => .next (c.mark .body) rest.length
  | .messageDone => completeMessage S 1 c (.next · 0)

/-- `++parser->nread` -/
def Cfg.countByte (c : Cfg σ) : Cfg σ :=
  { c with parser := { c.parser with nread := c.parser.nread + 1 } }

/-- The bytes of a head are counted, up to `HTTP_MAX_HEADER_SIZE`; then the `switch`. -/
def turn (S : Settings σ) (c : Cfg σ) (ch : UInt8) (rest : Bytes) : Flow σ :=
  if !c.parser.state.parsingHeader then exec S c ch rest
  else if c.countByte.parser.nread > maxHeaderSize then .fail c.countByte .headerOverflow
  else exec S c.countByte ch rest

/-- What `http_parser_execute` returns, with the parser and the user state it leaves; `none` is
an abnormal end. -/
abbrev Result (σ : Type) := Option (ℕ × HttpParser × σ)

/-- After the loop: the callbacks for a mark that is left over. -/
def leftover (S : Settings σ) (len : ℕ) (c : Cfg σ) : Result σ :=
  if c.marks.count > 1 then none
  else
    let flow :=
      callbackData S .headerField [] 0 c fun c =>
      callbackData S .headerValue [] 0 c fun c =>
      callbackData S .url [] 0 c fun c =>
      callbackData S .body [] 0 c (.next · 0)
    match flow with
    | .next c _ => some (len, c.parser, c.user)
    | .ret c adv => some (len + adv, c.parser, c.user)
    | .fail c _ => some (len, c.parser, c.user)
    | .abort => none

/-- The loop, `pos` bytes into the buffer. While `skip` counts down, `p` passes over bytes that
a `case` has read already. -/
def loop (S : Settings σ) : Cfg σ → ℕ → ℕ → Bytes → Result σ
  | c, _, pos, [] => leftover S pos c
  | c, skip + 1, pos, ch :: rest =>
    loop S { c with marks := c.marks.push [ch] } skip (pos + 1) rest
  | c, 0, pos, ch :: rest =>
    match turn S c ch rest with
    | .next c skip => loop S { c with marks := c.marks.push [ch] } skip (pos + 1) rest
    | .fail c e => some (pos, { c.parser with httpErrno := e }, c.user)
    | .ret c adv => some (pos + adv, c.parser, c.user)
    | .abort => none

/-- The marks that are set on entry, at the start of the buffer. -/
def entryMarks : State → Marks
  | .headerField => Marks.none.set .headerField (some [])
  | .headerValue => Marks.none.set .headerValue (some [])
  | .reqPath | .reqSchema | .reqSchemaSlash | .reqSchemaSlashSlash | .reqServerStart
  | .reqServer | .reqServerWithAt | .reqQueryStringStart | .reqQueryString
  | .reqFragmentStart | .reqFragment => Marks.none.set .url (some [])
  | _ => Marks.none

/-- `len == 0` tells the parser that the stream has ended. -/
def executeEof (S : Settings σ) (p : HttpParser) (u : σ) : Result σ :=
  match p.state with
  | .bodyIdentityEof =>
    match callbackMessageComplete S 0 ⟨p, u, .none⟩ (.ret · 0) with
    | .ret c adv => some (adv, c.parser, c.user)
    | _ => none
  | .dead | .startReqOrRes | .startRes | .startReq => some (0, p, u)
  | _ => some (1, { p with httpErrno := .invalidEofState }, u)

def httpParserExecute (S : Settings σ) (p : HttpParser) (u : σ) (data : Bytes) : Result σ :=
  if p.httpErrno ≠ .ok then some (0, p, u)
  else if data = [] then executeEof S p u
  else loop S ⟨p, u, entryMarks p.state⟩ 0 0 data

end Stutter.Joyent
