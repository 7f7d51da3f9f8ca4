import Stutter.Message

namespace Stutter

/-- `Request::Verb`. -/
inductive Verb where
  | get | post | put | head | delete
  deriving DecidableEq, Repr

/-- `verb_str`. -/
def Verb.str : Verb → Bytes
  | .get => ascii "GET"
  | .post => ascii "POST"
  | .put => ascii "PUT"
  | .head => ascii "HEAD"
  | .delete => ascii "DELETE"

/-- `std::map<std::string, std::string>` -/
abbrev QueryString := SortedMap (List.map UInt8.toNat) Bytes

/-- `insert`, which leaves an argument alone that is there already. -/
def QueryString.insertNew (m : QueryString) (name value : Bytes) : QueryString :=
  if (m.get name).isSome then m else m.insert name value

/-- The text between two separators. -/
def QueryString.addPair (m : QueryString) (pair : Bytes) : QueryString :=
  let name := pair.takeWhile (· ≠ '='.toUInt8)
  match pair.dropWhile (· ≠ '='.toUInt8) with
  | [] => m.insertNew pair []
  | _ :: value => if name = [] then m else m.insertNew name value

/-- `http::Request`. -/
structure Request where
  message : Message
  verb : Verb
  url : Bytes
  host : Bytes
  queryString : QueryString
  require100 : Bool

namespace Request

def new : Request := ⟨.new, .get, [], [], .empty, false⟩

/-- The copy constructor: neither the host nor the query string is copied. -/
def copy (E : Env) (r : Request) (fs : Fs) : Request × Fs :=
  let (message, fs) := r.message.copy E fs
  (⟨message, r.verb, r.url, [], .empty, r.require100⟩, fs)

def addUrlFragment (r : Request) (frag : Bytes) : Request := { r with url := r.url ++ frag }

def extractQueryString (r : Request) : Request :=
  match r.url.dropWhile (· ≠ '?'.toUInt8) with
  | [] => r
  | _ :: rest => { r with
      queryString := (rest.splitOn '&'.toUInt8).foldl QueryString.addPair r.queryString }

def setUrl (r : Request) (url : Bytes) : Request := { r with url := url }

def setHost (r : Request) (host : Bytes) : Request := { r with host := host }

def setVerb (r : Request) (v : Verb) : Request := { r with verb := v }

def reset (r : Request) (fs : Fs) : Request × Fs :=
  let (message, fs) := r.message.reset fs
  (⟨message, .get, [], [], .empty, false⟩, fs)

/-- The headers that `prepare` writes. -/
def prepareHeaders (r : Request) : Message :=
  let m := r.message.addHeader Message.host r.host
  if r.verb ≠ .get then m.addHeaderInt Message.contentLength m.body.size else m

/-- The request line and the headers that `prepare` writes. -/
def head (r : Request) : Bytes :=
  r.verb.str ++ ascii " " ++ r.url ++ ascii " HTTP/1.1" ++ crlf ++
    r.prepareHeaders.headerLines ++ crlf

def prepare (r : Request) : Request :=
  let m := { r.prepareHeaders with data := r.message.data ++ r.head }
  -- the in-memory part of the body, unless the server is asked first
  if m.getHeader Message.expect = Message.oneHundredContinue then
    { r with message := m, require100 := true }
  else { r with message := { m with data := m.data ++ m.body.data } }

end Request

end Stutter
