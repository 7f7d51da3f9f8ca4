import Stutter.Pool
import Stutter.Session
import Stutter.Strategy

namespace Stutter

open Joyent

/-- `Client::Error`. -/
inductive ClientError where
  | notExecuted | success | socketError | dnsError | connectionError | writeError | readError
  deriving DecidableEq

/-- `http::Client`. -/
structure Client where
  fd : ℤ
  error : ClientError
  done : Bool
  host : Bytes
  port : UInt16

/-- What clients share: the pools of `PoolManager`, each as if it was there from the start, the open
sockets and what happens on each, and the files. -/
structure System where
  pools : Bytes × UInt16 → SocketPool
  sockets : Sockets
  wires : ℤ → Socket
  fs : Fs

namespace System

def new (wires : ℤ → Socket) (fs : Fs) : System :=
  ⟨fun target => .new target.1 target.2, fun _ => none, wires, fs⟩

def setPool (s : System) (target : Bytes × UInt16) (pool : SocketPool) : System :=
  { s with pools := Function.update s.pools target pool }

def setWire (s : System) (fd : ℤ) (w : Socket) : System :=
  { s with wires := Function.update s.wires fd w }

end System

/-- The bytes that are still to be read. -/
def Socket.unread (w : Socket) : ℕ := w.inbox.flatten.length

namespace Client

def new (host : Bytes) (port : UInt16) : Client := ⟨-1, .notExecuted, false, host, port⟩

/-- The pool that `PoolManager::get_pool` finds or inserts. -/
def pool (c : Client) (s : System) : SocketPool := s.pools (c.host, c.port)

def connect (N : Network) (c : Client) (s : System) : Bool × Client × System :=
  match (c.pool s).get N c.fd s.sockets with
  | (ok, pool, fd, sockets) =>
    (ok, { c with fd := fd }, { s.setPool (c.host, c.port) pool with sockets := sockets })

def releaseSocket (c : Client) (s : System) : System :=
  s.setPool (c.host, c.port) ((c.pool s).put c.fd).2

def failure (c : Client) (e : ClientError) (s : System) : Client × System :=
  ({ c with error := e }, c.releaseSocket s)

/-- `_done`, over `m_done`. -/
def onMsgComplete : Session.Callback Bool := fun p u => some (true, p, { u with cx := true })

/-- The loop of `read_reply`; a read that does not end it takes a byte at least. -/
def readLoop (E : Env) : ℕ → HttpParser → Session Bool → Socket →
    Option (Bool × HttpParser × Session Bool × Socket)
  | fuel, p, u, w =>
    if u.cx then some (true, p, u, w)
    else match fuel with
    | 0 => none
    | fuel + 1 =>
      match w.read 1024 with
      | (chunk, w) =>
        if chunk = [] then some (false, p, u, w)
        else (Session.add E onMsgComplete p u chunk).bind fun (e, p, u) =>
          if e ≠ .ok then some (false, p, u, w) else readLoop E fuel p u w

/-- `read_reply`, with the parser over `reply`. -/
def readReply (E : Env) (reply : Reply) (fs : Fs) (w : Socket) :
    Option (Bool × HttpParser × Session Bool × Socket) :=
  readLoop E (w.unread + 1) (.init .response)
    { Session.new .response fs false with reply := reply } w

/-- `send_headers` -/
def sendHeaders (W : Strategy) (c : Client) (s : System) (r : Request) : Bool × System :=
  match (s.wires c.fd).sendRaw W r.message.data with
  | (ok, w) => (ok, s.setWire c.fd w)

def waitFor100 (E : Env) (c : Client) (s : System) : Option (Bool × Client × System) :=
  (readReply E .new s.fs (s.wires c.fd)).map fun (ok, _, u, w) =>
    -- the temporary reply is destroyed
    (ok && u.reply.code = 100, { c with done := u.cx },
      { s.setWire c.fd w with fs := (u.reply.message.body.clear u.fs).2 })

def sendBody (W : Strategy) (c : Client) (s : System) (r : Request) : Bool × System :=
  let body := r.message.body
  -- the first part of the body, which is not behind the headers if the server is asked first
  match if r.require100 then (s.wires c.fd).sendRaw W body.data else (true, s.wires c.fd) with
  | (false, w) => (false, s.setWire c.fd w)
  | (true, w) =>
    match w.sendBufferedBody W s.fs body with
    | (ok, w) => (ok, s.setWire c.fd w)

/-- `send` up to the response: what went wrong, if anything did. -/
def ask (E : Env) (W : Strategy) (N : Network) (c : Client) (s : System) (r : Request) :
    Option (Option ClientError × Client × System × Request) :=
  let c := { c with done := false }
  let r := (r.setHost c.host).prepare
  match c.connect N s with
  | (false, c, s) => some (some .connectionError, c, s, r)
  | (true, c, s) =>
    match c.sendHeaders W s r with
    | (false, s) => some (some .writeError, c, s, r)
    | (true, s) =>
      (if r.require100 then c.waitFor100 E s else some (true, c, s)).map fun (ok, c, s) =>
        if !ok then (some .readError, c, s, r)
        else match c.sendBody W s r with
        | (false, s) => (some .writeError, c, s, r)
        | (true, s) => (none, c, s, r)

/-- The response, into `reply`. -/
def receive (E : Env) (c : Client) (s : System) (reply : Reply) :
    Option (Bool × Client × System × Reply) :=
  (readReply E reply s.fs (s.wires c.fd)).map fun (ok, _, u, w) =>
    (ok, { c with done := u.cx }, { s.setWire c.fd w with fs := u.fs }, u.reply)

/-- `send`; `none` is an abnormal end. -/
def send (E : Env) (W : Strategy) (N : Network) (c : Client) (s : System) (r : Request)
    (reply : Reply) : Option (Bool × Client × System × Request × Reply) :=
  (c.ask E W N s r).bind fun (e, c, s, r) =>
    match e with
    | some e => let (c, s) := c.failure e s; some (false, c, s, r, reply)
    | none => (c.receive E s reply).map fun (ok, c, s, reply) =>
      if ok then (true, c, c.releaseSocket s, r, reply)
      else let (c, s) := c.failure .readError s; (false, c, s, r, reply)

end Client

end Stutter
