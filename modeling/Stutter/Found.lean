import Stutter.Callbacks
import Stutter.Client
import Stutter.Joyent.Related

namespace Stutter

open Joyent

/-- What `http_parser` finds in some bytes: the header in progress, the header lines, the bytes of
bodies, and the status code of each message at its end. -/
structure Found where
  key : Bytes
  val : Bytes
  gotval : Bool
  fields : List (Bytes × Bytes)
  body : Bytes
  codes : List ℕ
  deriving DecidableEq

namespace Found

def new : Found := ⟨[], [], false, [], [], []⟩

/-- The header in progress is a line once its value has begun. -/
def save (f : Found) : Found :=
  if f.gotval then
    { f with key := [], val := [], gotval := false, fields := f.fields ++ [(f.key, f.val)] }
  else f

def data (k : Mark) (frag : Bytes) (f : Found) : Found :=
  match k with
  | .url => f
  | .headerField => { f.save with key := f.save.key ++ frag }
  | .headerValue => { f with val := f.val ++ frag, gotval := true }
  | .body => { f with body := f.body ++ frag }

def settings : Settings Found where
  onData k frag f := (0, f.data k frag)
  onHeadersComplete _ f := (0, f.save)
  onMessageComplete p f := some (0, p, { f with codes := f.codes ++ [p.statusCode] })

/-- What is found in the reads of a socket, up to the end of a message, a parse error or the end of
the stream. -/
def readLoop : ℕ → HttpParser → Found → Socket → Option (Bool × HttpParser × Found × Socket)
  | fuel, p, f, w =>
    if f.codes ≠ [] then some (true, p, f, w)
    else match fuel with
    | 0 => none
    | fuel + 1 =>
      match w.read 1024 with
      | (chunk, w) =>
        if chunk = [] then some (false, p, f, w)
        else (httpParserExecute settings p f chunk).bind fun (n, p, f) =>
          if n ≠ chunk.length then some (false, p, f, w) else readLoop fuel p f w

def readReply (w : Socket) : Option (Bool × HttpParser × Found × Socket) :=
  readLoop (w.unread + 1) (.init .response) new w

/-- The code and the status that a reply has behind the messages. -/
def status (r : Reply) (f : Found) : ℤ × Bytes :=
  match f.codes.getLast? with
  | none => (r.code, r.status)
  | some n => (toInt16 n, [])

/-- A reply and the files, behind what was found. -/
def put (E : Env) (r : Reply) (fs : Fs) (f : Found) : Reply × Fs :=
  let (body, fs) := r.message.body.store E fs f.body
  ({ r with
    message := ⟨r.message.headers.insertAll f.fields, r.message.data, body⟩
    code := (f.status r).1
    status := (f.status r).2 }, fs)

end Found

theorem Body.store_nil (E : Env) (b : Body) (fs : Fs) : b.store E fs [] = (b, fs) := by
  have ho : b.overflow [] = [] := List.drop_nil
  have h := Body.addBody_memory (E := E) ho fs
  rw [Body.store, if_pos ho]
  exact (Option.some.inj (h.symm.trans rfl))

theorem Session.complete_response {χ : Type} {u : Session χ} (hm : u.mode = .response)
    (p : HttpParser) : u.complete p = { u with reply := u.reply.setStatus p.statusCode [] } := by
  rw [Session.complete]
  simp only [hm]

/-- The objects of a parser of responses, and what was found for them. -/
structure Session.Finds (E : Env) (r : Reply) (fs : Fs) (u : Session Bool) (f : Found) : Prop where
  mode : u.mode = .response
  error : u.error = .ok
  headerKey : u.headerKey = f.key
  headerVal : u.headerVal = f.val
  headerGotval : u.headerGotval = f.gotval
  cx : u.cx = decide (f.codes ≠ [])
  put : (u.reply, u.fs) = f.put E r fs

namespace Session.Finds

variable {E : Env} {r : Reply} {fs : Fs} {u : Session Bool} {f : Found}

theorem new (E : Env) (r : Reply) (fs : Fs) :
    Finds E r fs { Session.new .response fs false with reply := r } .new := by
  refine ⟨rfl, rfl, rfl, rfl, rfl, rfl, ?_⟩
  rw [Found.put, Found.new, Body.store_nil]
  rfl

theorem reply_eq (h : Finds E r fs u f) : u.reply = (f.put E r fs).1 := congrArg Prod.fst h.put

theorem fs_eq (h : Finds E r fs u f) : u.fs = (f.put E r fs).2 := congrArg Prod.snd h.put

theorem save (h : Finds E r fs u f) : Finds E r fs u.saveLastHeader f.save := by
  have hm : u.storeHeader.mode ≠ .request := by
    rw [Session.mode_storeHeader, h.mode]
    decide
  rw [Session.saveLastHeader, Session.checkHeaders, if_neg hm, Session.storeHeader, Found.save]
  rw [h.headerGotval]
  split_ifs with hg
  · have hmsg : u.msg = u.reply.message := by rw [Session.msg, h.mode]
    have hset : ∀ m, u.setMsg m = { u with reply := { u.reply with message := m } } := fun m => by
      rw [Session.setMsg, h.mode]
    rw [hset, hmsg]
    refine ⟨h.mode, h.error, rfl, rfl, rfl, h.cx, ?_⟩
    dsimp only
    rw [h.reply_eq, h.fs_eq, h.headerKey, h.headerVal]
    simp only [Found.put, Message.addHeader, SortedMap.insertAll_append, SortedMap.insertAll_cons,
      SortedMap.insertAll_nil]
    rfl
  · exact h

theorem data (hE : E.Reliable) (h : Finds E r fs u f) (k : Mark) (frag : Bytes) :
    Finds E r fs (u.onData E k frag) (f.data k frag) := by
  cases k with
  | url =>
    rw [Session.onData, Session.addUrlFragment_response (by rw [h.mode]; decide)]
    exact h
  | headerField =>
    obtain ⟨hm, he, hk, hv, hg, hc, hp⟩ := h.save
    exact ⟨hm, he, congrArg (· ++ frag) hk, hv, hg, hc, hp⟩
  | headerValue =>
    exact ⟨h.mode, h.error, h.headerKey, congrArg (· ++ frag) h.headerVal, rfl, h.cx, h.put⟩
  | body =>
    have hmsg : u.msg = u.reply.message := by rw [Session.msg, h.mode]
    have hset : ∀ m, u.setMsg m = { u with reply := { u.reply with message := m } } := fun m => by
      rw [Session.setMsg, h.mode]
    rw [Session.onData, Session.addBodyFragment, if_pos (by rw [h.error]; decide), hmsg]
    dsimp only
    rw [hset]
    refine ⟨h.mode, h.error, h.headerKey, h.headerVal, h.headerGotval, h.cx, ?_⟩
    dsimp only
    rw [h.reply_eq, h.fs_eq, Message.addBody_eq hE]
    simp only [Found.put, Found.data, Body.store_append hE.toHealthy]
    rfl

theorem complete (h : Finds E r fs u f) (p : HttpParser) :
    Finds E r fs { u.complete p with cx := true }
      { f with codes := f.codes ++ [p.statusCode] } := by
  rw [Session.complete_response h.mode]
  refine ⟨h.mode, h.error, h.headerKey, h.headerVal, h.headerGotval, ?_, ?_⟩
  · exact (decide_eq_true (List.append_ne_nil_of_right_ne_nil _ (List.cons_ne_nil _ _))).symm
  · dsimp only
    rw [h.reply_eq, h.fs_eq]
    simp only [Found.put, Found.status, Reply.setStatus, List.getLast?_concat]

/-- The parser over a reply does what the recorder does. -/
theorem related (hE : E.Reliable) (r : Reply) (fs : Fs) :
    (Session.settings E Client.onMsgComplete).Related Found.settings (Finds E r fs)
      fun _ => False where
  data k frag _ _ h := ⟨rfl, h.data hE k frag⟩
  headers _ _ _ h := ⟨rfl, h.save⟩
  complete p _ _ h := ⟨rfl, rfl, h.complete p⟩
  spoiled := Settings.keeps_false _

end Session.Finds

namespace Client

variable {E : Env}

/-- Two loops that read the same, the second of them the recorder's. -/
def SameLoop (R : Session Bool → Found → Prop) :
    Option (Bool × HttpParser × Session Bool × Socket) →
    Option (Bool × HttpParser × Found × Socket) → Prop
  | some (ok, p, u, w), some (ok', p', f, w') => ok = ok' ∧ p = p' ∧ w = w' ∧ R u f
  | none, none => True
  | _, _ => False

/-- Callbacks that keep a relation keep it over the reads. -/
theorem readLoop_rel {R : Session Bool → Found → Prop}
    (hR : (Session.settings E onMsgComplete).Related Found.settings R fun _ => False)
    (hu : ∀ {u f}, R u f → u.error = .ok ∧ u.cx = decide (f.codes ≠ [])) {u : Session Bool}
    {f : Found} (h : R u f) (fuel : ℕ) (p : HttpParser) (w : Socket) :
    SameLoop R (readLoop E fuel p u w) (Found.readLoop fuel p f w) := by
  induction fuel generalizing p u f w with
  | zero =>
    rw [readLoop, Found.readLoop, (hu h).2]
    by_cases hc : f.codes ≠ []
    · rw [if_pos (decide_eq_true hc), if_pos hc]
      exact ⟨rfl, rfl, rfl, h⟩
    · rw [if_neg (by simpa using hc), if_neg hc]
      trivial
  | succ fuel ih =>
    rw [readLoop, Found.readLoop, (hu h).2]
    by_cases hc : f.codes ≠ []
    · rw [if_pos (decide_eq_true hc), if_pos hc]
      exact ⟨rfl, rfl, rfl, h⟩
    rw [if_neg (by simpa using hc), if_neg hc]
    generalize w.read 1024 = x
    obtain ⟨chunk, w⟩ := x
    dsimp only
    by_cases hne : chunk = []
    · rw [if_pos hne, if_pos hne]
      exact ⟨rfl, rfl, rfl, h⟩
    rw [if_neg hne, if_neg hne]
    have hx := execute_rel (p := p) hR (Settings.loopKeeps_false _) h chunk
    rw [Session.add]
    generalize httpParserExecute (Session.settings E onMsgComplete) p u chunk = a at hx
    generalize httpParserExecute Found.settings p f chunk = b at hx
    obtain _ | ⟨n, q, v⟩ := a <;> obtain _ | ⟨n', q', g⟩ := b
    · trivial
    · exact hx.elim
    · exact hx.elim
    · obtain ⟨rfl, rfl, hv⟩ := hx
      dsimp only [Option.map_some, Option.bind_some]
      by_cases hn : n = chunk.length
      · rw [if_pos hn, (hu hv).1, if_neg (by simp), if_neg (not_not.mpr hn)]
        exact ih hv q w
      · rw [if_neg hn, if_pos (by simp), if_pos hn]
        exact ⟨rfl, rfl, rfl, hv⟩

theorem readReply_found (hE : E.Reliable) (r : Reply) (fs : Fs) (w : Socket) :
    SameLoop (Session.Finds E r fs) (readReply E r fs w) (Found.readReply w) :=
  readLoop_rel (Session.Finds.related hE r fs) (fun h => ⟨h.error, h.cx⟩) (.new E r fs) _ _ w

end Client

end Stutter
