import Stutter.Decimal
import Stutter.Lib.SortedMap
import Stutter.Storage

namespace Stutter

/-- `std::map<std::string, std::string, nocase_less>` -/
abbrev Headers := SortedMap nocase Bytes

/-- `http::Message`. -/
structure Message where
  headers : Headers
  data : Bytes
  body : Body

namespace Message

def expect : Bytes := ascii "Expect"
def contentLength : Bytes := ascii "Content-Length"
def host : Bytes := ascii "Host"
def connec : Bytes := ascii "Connection"

def keepAlive : Bytes := ascii "keep-alive"
def oneHundredContinue : Bytes := ascii "100-continue"
def close : Bytes := ascii "Close"

def new : Message := ⟨.empty, [], .new⟩

/-- The copy constructor, which leaves `m_data` behind. -/
def copy (E : Env) (m : Message) (fs : Fs) : Message × Fs :=
  let (body, fs) := m.body.copy E fs
  (⟨m.headers, [], body⟩, fs)

def addHeader (m : Message) (key val : Bytes) : Message :=
  { m with headers := m.headers.insert key val }

/-- `add_header(key, int)` with a `size_t`. -/
def addHeaderInt (m : Message) (key : Bytes) (val : ℕ) : Message :=
  m.addHeader key (decimalInt (toInt32 val))

def delHeader (m : Message) (key : Bytes) : Message := { m with headers := m.headers.erase key }

/-- `get_header`: a header that is not there reads as the empty string. -/
def getHeader (m : Message) (key : Bytes) : Bytes := (m.headers.get key).getD []

/-- `add_body`, which always returns: `Body.addBody_some`. -/
def addBody (E : Env) (m : Message) (fs : Fs) (p : Bytes) : Message × Fs :=
  match Body.addBody E m.body fs p with
  | some (body, fs) => ({ m with body := body }, fs)
  | none => (m, fs)

def reset (m : Message) (fs : Fs) : Message × Fs :=
  let (body, fs) := m.body.clear fs
  (⟨.empty, [], body⟩, fs)

/-- `hi->first << ": " << hi->second << crlf`, for all headers. -/
def headerLines (m : Message) : Bytes :=
  m.headers.entries.flatMap fun h => h.1 ++ ascii ": " ++ h.2 ++ crlf

@[simp] theorem body_addHeader (m : Message) (key val : Bytes) :
    (m.addHeader key val).body = m.body := rfl

@[simp] theorem data_addHeader (m : Message) (key val : Bytes) :
    (m.addHeader key val).data = m.data := rfl

@[simp] theorem body_addHeaderInt (m : Message) (key : Bytes) (val : ℕ) :
    (m.addHeaderInt key val).body = m.body := rfl

@[simp] theorem data_addHeaderInt (m : Message) (key : Bytes) (val : ℕ) :
    (m.addHeaderInt key val).data = m.data := rfl

theorem getHeader_addHeader (m : Message) (key val k : Bytes) :
    (m.addHeader key val).getHeader k = if nocase k = nocase key then val else m.getHeader k := by
  simp only [getHeader, addHeader, SortedMap.get_insert]
  split_ifs <;> rfl

end Message

end Stutter
