import Stutter.Message

namespace Stutter

/-- An `int` stored in a `short`. -/
def toInt16 (n : ℤ) : ℤ := n.bmod (2 ^ 16)

/-- `http::Reply`. -/
structure Reply where
  message : Message
  code : ℤ
  status : Bytes
  httpMajor : ℤ
  httpMinor : ℤ

namespace Reply

def transferEncoding : Bytes := ascii "Transfer-Encoding"
def chunked : Bytes := ascii "chunked"

def setStatus (r : Reply) (code : ℤ) (status : Bytes) : Reply :=
  { r with code := toInt16 code, status := status }

def setHttpVersion (r : Reply) (major minor : ℤ) : Reply :=
  { r with httpMajor := major, httpMinor := minor }

def addHeader (r : Reply) (key val : Bytes) : Reply :=
  { r with message := r.message.addHeader key val }

/-- `reset`, which does not touch the version. -/
def reset (r : Reply) (fs : Fs) : Reply × Fs :=
  let (message, fs) := r.message.reset fs
  ((setStatus { r with message := message } 200 (ascii "OK")).addHeader Message.connec
    Message.keepAlive, fs)

/-- The constructor, which calls `reset`. -/
def new : Reply where
  message := Message.new.addHeader Message.connec Message.keepAlive
  code := 200
  status := ascii "OK"
  httpMajor := 1
  httpMinor := 1

/-- The headers that `prepare` writes. -/
def prepareHeaders (r : Reply) : Message :=
  let m := if r.message.getHeader transferEncoding = chunked then
    r.message.delHeader transferEncoding else r.message
  m.addHeaderInt Message.contentLength m.body.size

/-- The status line and the headers that `prepare` writes. -/
def head (r : Reply) : Bytes :=
  ascii "HTTP/" ++ decimalInt r.httpMajor ++ ascii "." ++ decimalInt r.httpMinor ++ ascii " " ++
    decimalInt r.code ++ ascii " " ++ r.status ++ crlf ++ r.prepareHeaders.headerLines ++ crlf

/-- `prepare`: the old buffer is cleared, then it is the head and the in-memory part of the body. -/
def prepare (r : Reply) : Reply :=
  { r with message := { r.prepareHeaders with data := r.head ++ r.prepareHeaders.body.data } }

/-- `set_file`, with its result. -/
def setFile (E : Env) (r : Reply) (fs : Fs) (filename : Bytes) : Bool × Reply × Fs :=
  match r.message.body.setFile E fs filename with
  | (false, body, fs) => (false, { r with message := { r.message with body := body } }, fs)
  | (true, body, fs) => (true, { r with
      message := { r.message with body := body }.addHeaderInt Message.contentLength body.size }, fs)

end Reply

end Stutter
