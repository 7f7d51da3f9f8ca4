import Stutter.Joyent.Execute
import Stutter.Reply
import Stutter.Request

namespace Stutter

open Joyent

def MAX_UPLOAD_SIZE : ℤ := 1024 * 1024
def MAX_URI_LENGTH : ℕ := 4096

/-- `Parser::Mode`. -/
inductive Mode where
  | request | response
  deriving DecidableEq, Repr

/-- `Parser::Error`. -/
inductive ParseError where
  | ok | failure | need100Continue | bodyTooLarge | uriTooLong | handlerFailure
  deriving DecidableEq, Repr

/-- `http::Parser` without the `http_parser`, and the objects that its callbacks reach: in mode
`request` the message is that of `request`, in mode `response` that of `reply`. `cx` is what the
callback `m_fun` works on besides. -/
structure Session (χ : Type) where
  mode : Mode
  error : ParseError
  headerKey : Bytes
  headerVal : Bytes
  headerGotval : Bool
  request : Request
  reply : Reply
  fs : Fs
  cx : χ

namespace Session

variable {χ : Type}

/-- A new parser over new objects. -/
def new (mode : Mode) (fs : Fs) (cx : χ) : Session χ :=
  ⟨mode, .ok, [], [], false, .new, .new, fs, cx⟩

def msg (u : Session χ) : Message :=
  match u.mode with
  | .request => u.request.message
  | .response => u.reply.message

def setMsg (u : Session χ) (m : Message) : Session χ :=
  match u.mode with
  | .request => { u with request := { u.request with message := m } }
  | .response => { u with reply := { u.reply with message := m } }

/-- The pending header, if its value has come. -/
def storeHeader (u : Session χ) : Session χ :=
  if u.headerGotval then
    { u.setMsg (u.msg.addHeader u.headerKey u.headerVal) with
      headerKey := [], headerVal := [], headerGotval := false }
  else u

/-- What the headers that a request has so far make of `m_error`. -/
def verdict (m : Message) (e : ParseError) : ParseError :=
  let sz := atol (m.getHeader Message.contentLength)
  if sz < 0 ∨ sz > MAX_UPLOAD_SIZE then .bodyTooLarge
  else if m.getHeader Message.expect = Message.oneHundredContinue then .need100Continue
  else e

/-- The checks for large uploads and 100-continue. -/
def checkHeaders (u : Session χ) : Session χ :=
  if u.mode = .request then { u with error := verdict u.request.message u.error } else u

def saveLastHeader (u : Session χ) : Session χ := u.storeHeader.checkHeaders

def setKey (u : Session χ) (key : Bytes) : Session χ := { u with headerKey := key }

def addUrlFragment (u : Session χ) (frag : Bytes) : Session χ :=
  if u.mode = .request ∧ u.error ≠ .uriTooLong then
    if u.request.url.length + frag.length > MAX_URI_LENGTH then { u with error := .uriTooLong }
    else { u with request := u.request.addUrlFragment frag }
  else u

def addBodyFragment (E : Env) (u : Session χ) (frag : Bytes) : Session χ :=
  if u.error ≠ .bodyTooLarge then
    let (m, fs) := u.msg.addBody E u.fs frag
    { u.setMsg m with fs := fs }
  else u

/-- The data callbacks; all of them return 0. -/
def onData (E : Env) (k : Mark) (frag : Bytes) (u : Session χ) : Session χ :=
  match k with
  | .url => u.addUrlFragment frag
  | .headerField =>
    let u := u.saveLastHeader
    u.setKey (u.headerKey ++ frag)
  | .headerValue => { u with headerVal := u.headerVal ++ frag, headerGotval := true }
  | .body => u.addBodyFragment E frag

/-- The verbs that `callback` knows; another method leaves the verb as it is. -/
def verbOf : Method → Option Verb
  | .get => some .get
  | .post => some .post
  | .put => some .put
  | .head => some .head
  | .delete => some .delete
  | _ => none

/-- The request or the reply at the end of its message, before `m_fun` is called. -/
def complete (p : HttpParser) (u : Session χ) : Session χ :=
  match u.mode with
  | .request =>
    let r := u.request.extractQueryString
    { u with request := r.setVerb ((verbOf p.method).getD r.verb) }
  | .response => { u with reply := u.reply.setStatus p.statusCode [] }

/-- `m_fun`, with the parser and the objects it leaves; `none` is an abnormal end. -/
abbrev Callback (χ : Type) := HttpParser → Session χ → Option (Bool × HttpParser × Session χ)

/-- `Parser::callback`, behind `extract_query_string`. -/
def callback (fn : Callback χ) (p : HttpParser) (u : Session χ) :
    Option (ℤ × HttpParser × Session χ) :=
  (fn p (u.complete p)).map fun (ok, p, u) =>
    (0, p, if ok then u else { u with error := .handlerFailure })

/-- `m_parserconf`. -/
def settings (E : Env) (fn : Callback χ) : Settings (Session χ) where
  onData k frag u := (0, u.onData E k frag)
  onHeadersComplete _ u := (0, u.saveLastHeader)
  onMessageComplete := callback fn

/-- `Parser::add`. -/
def add (E : Env) (fn : Callback χ) (p : HttpParser) (u : Session χ) (data : Bytes) :
    Option (ParseError × HttpParser × Session χ) :=
  (httpParserExecute (settings E fn) p u data).map fun (nparsed, p, u) =>
    (if nparsed = data.length then u.error else .failure, p, u)

def parserType : Mode → ParserType
  | .request => .request
  | .response => .response

/-- `Parser::reset`: the `http_parser` it leaves is a new one. -/
def reset (u : Session χ) : HttpParser × Session χ :=
  (.init (parserType u.mode),
    { u with headerKey := [], headerVal := [], headerGotval := false, error := .ok })

@[simp] theorem mode_setMsg (u : Session χ) (m : Message) : (u.setMsg m).mode = u.mode := by
  rw [setMsg]
  cases u.mode <;> rfl

@[simp] theorem error_setMsg (u : Session χ) (m : Message) : (u.setMsg m).error = u.error := by
  rw [setMsg]
  cases u.mode <;> rfl

@[simp] theorem mode_storeHeader (u : Session χ) : u.storeHeader.mode = u.mode := by
  rw [storeHeader]
  split_ifs
  · exact mode_setMsg u _
  · rfl

@[simp] theorem error_storeHeader (u : Session χ) : u.storeHeader.error = u.error := by
  rw [storeHeader]
  split_ifs
  · exact error_setMsg u _
  · rfl

@[simp] theorem gotval_storeHeader (u : Session χ) : u.storeHeader.headerGotval = false := by
  rw [storeHeader]
  split_ifs with h
  · rfl
  · exact Bool.eq_false_iff.mpr h

@[simp] theorem mode_checkHeaders (u : Session χ) : u.checkHeaders.mode = u.mode := by
  rw [checkHeaders]
  split_ifs <;> rfl

@[simp] theorem gotval_checkHeaders (u : Session χ) :
    u.checkHeaders.headerGotval = u.headerGotval := by
  rw [checkHeaders]
  split_ifs <;> rfl

@[simp] theorem mode_saveLastHeader (u : Session χ) : u.saveLastHeader.mode = u.mode := by
  rw [saveLastHeader, mode_checkHeaders, mode_storeHeader]

@[simp] theorem gotval_saveLastHeader (u : Session χ) : u.saveLastHeader.headerGotval = false := by
  rw [saveLastHeader, gotval_checkHeaders, gotval_storeHeader]

theorem storeHeader_of_not {u : Session χ} (h : u.headerGotval = false) : u.storeHeader = u := by
  rw [storeHeader, h]
  rfl

theorem verdict_verdict (m : Message) (e : ParseError) : verdict m (verdict m e) = verdict m e := by
  simp only [verdict]
  split_ifs <;> rfl

theorem verdict_ne_uri (m : Message) {e : ParseError} (h : e ≠ .uriTooLong) :
    verdict m e ≠ .uriTooLong := by
  simp only [verdict]
  split_ifs
  · decide
  · decide
  · exact h

theorem checkHeaders_checkHeaders (u : Session χ) :
    u.checkHeaders.checkHeaders = u.checkHeaders := by
  by_cases h : u.mode = .request
  · simp only [checkHeaders, if_pos h, verdict_verdict]
  · simp only [checkHeaders, if_neg h]

@[simp] theorem checkHeaders_setKey (u : Session χ) (key : Bytes) :
    (u.setKey key).checkHeaders = u.checkHeaders.setKey key := by
  by_cases h : u.mode = .request
  · rw [checkHeaders, if_pos (by exact h), checkHeaders, if_pos h]
    rfl
  · rw [checkHeaders, if_neg (by exact h), checkHeaders, if_neg h]

/-- The headers are checked at each piece of a name; one check is as good as many. -/
theorem saveLastHeader_setKey (u : Session χ) (key : Bytes) :
    (u.saveLastHeader.setKey key).saveLastHeader = u.saveLastHeader.setKey key := by
  have hs : (u.saveLastHeader.setKey key).headerGotval = false := gotval_saveLastHeader u
  rw [saveLastHeader, storeHeader_of_not hs, checkHeaders_setKey, saveLastHeader,
    checkHeaders_checkHeaders]

end Session

end Stutter
