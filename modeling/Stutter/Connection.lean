import Stutter.Session
import Stutter.Strategy

namespace Stutter

open Joyent

/-- A `BaseHandler`: it may change the request, the reply, the files and what it keeps itself. -/
abbrev Handler (ω : Type) := Request → Reply → Fs → ω → Request × Reply × Fs × ω

/-- `Dispatcher`: the handlers with their prefixes, in the order they were added. -/
structure Dispatcher (ω : Type) where
  handlers : List (Bytes × Handler ω)

namespace Dispatcher

variable {ω : Type}

def add (d : Dispatcher ω) (pre : Bytes) (h : Handler ω) : Dispatcher ω :=
  ⟨d.handlers ++ [(pre, h)]⟩

/-- The first handler whose prefix the URL has; `none` is the null pointer. -/
def get (d : Dispatcher ω) (url : Bytes) : Option (Handler ω) :=
  (d.handlers.find? fun h => h.1.length ≤ url.length ∧ h.1 = url.take h.1.length).map Prod.snd

end Dispatcher

/-- What a connection needs of its server and of the system. -/
structure Server (ω : Type) where
  router : Dispatcher ω
  env : Env
  io : Strategy

/-- A reply that was written for a request, and the files then; `handled` is what the handler was
given, if it was called. -/
structure Exchange where
  handled : Option (Request × Fs)
  reply : Reply
  fs : Fs
  sent : Bool

/-- `Connection::State`. -/
inductive ConnectionState where
  | readyForData | need100Continue | ioError | parseError | shouldClose
  deriving DecidableEq, Repr

/-- The states in which `exec` returns `HALT`. -/
def ConnectionState.halts : ConnectionState → Bool
  | .ioError | .parseError | .shouldClose => true
  | .readyForData | .need100Continue => false

/-- The part of an `http::Connection` that is not in its parser's session: the state, the socket
and what the handlers keep, with a record of the exchanges. -/
structure Connection (ω : Type) where
  state : ConnectionState
  socket : Socket
  world : ω
  record : List Exchange

namespace Connection

variable {ω : Type}

abbrev Objects (ω : Type) := Session (Connection ω)

def processError (e : ParseError) (r : Reply) : Reply :=
  match e with
  | .bodyTooLarge => r.setStatus 413 (ascii "Request entity too large")
  | .uriTooLong => r.setStatus 414 (ascii "Request URI too long")
  | _ => r.setStatus 400 (ascii "Bad request")

/-- The error reply, or the handler's; `none` where the router has no handler. -/
def answer (S : Server ω) (u : Objects ω) : Option (Objects ω) :=
  if u.error ≠ .ok then
    some { u with
      reply := processError u.error u.reply
      cx := { u.cx with state := .parseError } }
  else (S.router.get u.request.url).map fun handle =>
    let (request, reply, fs, world) := handle u.request u.reply u.fs u.cx.world
    { u with request := request, reply := reply, fs := fs, cx := { u.cx with world := world } }

def isHttp10 (p : HttpParser) : Prop := p.httpMajor = 1 ∧ p.httpMinor = 0

instance (p : HttpParser) : Decidable (isHttp10 p) := inferInstanceAs (Decidable (_ ∧ _))

/-- `m_request.get_header(Message::Connec) == Message::Close` -/
def asksClose (r : Request) : Prop := r.message.getHeader Message.connec = Message.close

instance (r : Request) : Decidable (asksClose r) := inferInstanceAs (Decidable (_ = _))

def announceClose (u : Objects ω) : Objects ω := { u with
  reply := u.reply.addHeader Message.connec Message.close
  cx := { u.cx with state := .shouldClose } }

/-- HTTP 1.0 and `Connection: Close`. -/
def checkClose (p : HttpParser) (u : Objects ω) : Objects ω :=
  let u := if isHttp10 p then announceClose { u with reply := u.reply.setHttpVersion 1 0 } else u
  if asksClose u.request then announceClose u else u

/-- `send_headers`, which has the loop of `send_raw`. -/
def sendHeaders (W : Strategy) (s : Socket) (r : Reply) : Bool × Socket :=
  s.writeLoop W r.message.data.length r.message.data

def send (W : Strategy) (s : Socket) (fs : Fs) (r : Reply) : Bool × Reply × Socket :=
  let r := r.prepare
  match sendHeaders W s r with
  | (false, s) => (false, r, s)
  | (true, s) =>
    match s.sendBufferedBody W fs r.message.body with
    | (ok, s) => (ok, r, s)

/-- The three resets at the end of `process`. -/
def resetAll (u : Objects ω) : HttpParser × Objects ω :=
  let (request, fs) := u.request.reset u.fs
  let (reply, fs) := u.reply.reset fs
  Session.reset { u with request := request, reply := reply, fs := fs }

/-- What the handler is given, if it is called. -/
def given (u : Objects ω) : Option (Request × Fs) :=
  if u.error ≠ .ok then none else some (u.request, u.fs)

/-- The reply is sent, and recorded with what the handler was given. -/
def respond (S : Server ω) (handled : Option (Request × Fs)) (u : Objects ω) : Bool × Objects ω :=
  match send S.io u.cx.socket u.fs u.reply with
  | (sent, reply, socket) => (sent, { u with
      reply := reply
      cx := { u.cx with
        socket := socket, record := u.cx.record ++ [⟨handled, u.reply, u.fs, sent⟩] } })

/-- The end of `process`, after `send`. -/
def conclude (p : HttpParser) (sent : Bool) (u : Objects ω) : Bool × HttpParser × Objects ω :=
  if sent then (true, resetAll u)
  else (false, p, { u with cx := { u.cx with state := .ioError } })

def process (S : Server ω) : Session.Callback (Connection ω) := fun p u =>
  (answer S u).map fun u₁ =>
    let (sent, u₂) := respond S (given u) (checkClose p u₁)
    conclude p sent u₂

/-- `m_parser.add`, whose result `exec` does not look at. -/
def add (S : Server ω) (s : HttpParser × Objects ω) (data : Bytes) :
    Option (HttpParser × Objects ω) :=
  (Session.add S.env (process S) s.1 s.2 data).map fun r => (r.2.1, r.2.2)

def send100Continue (W : Strategy) (s : Socket) : Bool × Socket :=
  s.sendRaw W (ascii "HTTP/1.1 100 Continue" ++ crlf ++ crlf)

/-- One turn of `exec` with what `safe_read` gave, nothing at the end of the stream or after an
error; the result says whether `exec` returns. -/
def turn (S : Server ω) (s : HttpParser × Objects ω) (chunk : Bytes) :
    Option (Bool × HttpParser × Objects ω) :=
  if chunk = [] then some (true, s.1, { s.2 with cx := { s.2.cx with state := .ioError } })
  else (add S s chunk).map fun (p, u) =>
    if u.cx.state = .need100Continue then
      (false, p, { u with cx := { u.cx with socket := (send100Continue S.io u.cx.socket).2 } })
    else (u.cx.state.halts, p, u)

/-- `exec` over the reads that come; it may still wait for another at their end. -/
def exec (S : Server ω) : List Bytes → HttpParser × Objects ω →
    Option (Bool × HttpParser × Objects ω)
  | [], s => some (false, s)
  | chunk :: rest, s => (turn S s chunk).bind fun (halted, s) =>
    if halted then some (true, s) else exec S rest s

/-- A connection that was just accepted. -/
def accepted (fs : Fs) (world : ω) : HttpParser × Objects ω :=
  (.init .request, .new .request fs ⟨.readyForData, .new [], world, []⟩)

end Connection

end Stutter
