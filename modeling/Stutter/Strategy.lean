import Stutter.Body

namespace Stutter

/-- What happens on a socket. -/
inductive Event where
  | wrote (p : Bytes)
  | read (p : Bytes)
  deriving DecidableEq

/-- A socket: what `safe_read` still gives, one piece a call, what has happened, and how many
writes there were. -/
structure Socket where
  inbox : List Bytes
  log : List Event
  turn : ℕ

/-- An `IOStrategy`: the `int` that the `n`-th write on a socket returns for the count asked for.
No write takes more than it is given, nor more than the file has. -/
structure Strategy where
  write : ℕ → ℕ → ℤ
  sendfile : ℕ → ℕ → ℤ

namespace Event

def written : Event → Bytes
  | .wrote p => p
  | .read _ => []

end Event

namespace Socket

def new (inbox : List Bytes) : Socket := ⟨inbox, [], 0⟩

/-- All the bytes written. -/
def out (s : Socket) : Bytes := s.log.flatMap Event.written

/-- `safe_write`. -/
def write (W : Strategy) (s : Socket) (p : Bytes) : ℤ × Socket :=
  let ret := min (W.write s.turn p.length) p.length
  (ret, { s with
    turn := s.turn + 1
    log := if ret > 0 then s.log ++ [.wrote (p.take ret.toNat)] else s.log })

/-- `safe_sendfile` at `offset` of a file. -/
def sendfile (W : Strategy) (s : Socket) (file : Bytes) (offset count : ℕ) : ℤ × Socket :=
  let p := (file.drop offset).take count
  let ret := min (W.sendfile s.turn count) p.length
  (ret, { s with
    turn := s.turn + 1
    log := if ret > 0 then s.log ++ [.wrote (p.take ret.toNat)] else s.log })

/-- `safe_read` into a buffer of `size` bytes; nothing at the end of the stream. -/
def read (s : Socket) (size : ℕ) : Bytes × Socket :=
  match s.inbox with
  | [] => ([], s)
  | p :: rest => (p.take size, { s with
      inbox := if p.length ≤ size then rest else p.drop size :: rest
      log := s.log ++ [.read (p.take size)] })

/-- The loop of `send_raw`, which sends what is left of the block. -/
def writeLoop (W : Strategy) : ℕ → Socket → Bytes → Bool × Socket
  | _, s, [] => (true, s)
  | 0, s, _ :: _ => (false, s)
  | fuel + 1, s, p =>
    match s.write W p with
    | (ret, s) => if ret ≤ 0 then (false, s) else writeLoop W fuel s (p.drop ret.toNat)

/-- `send_raw`; each write that goes on takes a byte at least. -/
def sendRaw (W : Strategy) (s : Socket) (data : Bytes) : Bool × Socket :=
  writeLoop W data.length s data

/-- The loop of `send_buffered_body`. `sendfile(2)` moves the offset on, and so does the loop. -/
def sendfileLoop (W : Strategy) (file : Bytes) : ℕ → Socket → ℕ → ℕ → Bool × Socket
  | _, s, _, 0 => (true, s)
  | 0, s, _, _ + 1 => (false, s)
  | fuel + 1, s, offset, remain =>
    match s.sendfile W file offset remain with
    | (sent, s) =>
      if sent ≤ 0 then (false, s)
      else sendfileLoop W file fuel s (offset + sent.toNat + sent.toNat) (remain - sent.toNat)

def sendBufferedBody (W : Strategy) (s : Socket) (fs : Fs) (body : Body) : Bool × Socket :=
  if body.fd ≤ 0 then (true, s)
  else sendfileLoop W (fs.contents body.fd) body.sizeOnDisk s 0 body.sizeOnDisk

end Socket

end Stutter
