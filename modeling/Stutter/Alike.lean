import Stutter.Buffering
import Stutter.Callbacks
import Stutter.Closing
import Stutter.Joyent.Related
import Stutter.Sending

namespace Stutter

open Joyent

/-- Two bodies over their files that nothing but the descriptors tells apart. -/
structure Body.Like (b : Body) (fs : Fs) (b' : Body) (fs' : Fs) : Prop where
  data : b.data = b'.data
  size : b.size = b'.size
  file : b.file fs = b'.file fs'
  fd : 0 < b.fd ↔ 0 < b'.fd

structure Message.Like (m : Message) (fs : Fs) (m' : Message) (fs' : Fs) : Prop where
  headers : m.headers = m'.headers
  data : m.data = m'.data
  body : m.body.Like fs m'.body fs'

structure Request.Like (r : Request) (fs : Fs) (r' : Request) (fs' : Fs) : Prop where
  message : r.message.Like fs r'.message fs'
  verb : r.verb = r'.verb
  url : r.url = r'.url
  host : r.host = r'.host
  queryString : r.queryString = r'.queryString
  require100 : r.require100 = r'.require100

structure Reply.Like (r : Reply) (fs : Fs) (r' : Reply) (fs' : Fs) : Prop where
  message : r.message.Like fs r'.message fs'
  code : r.code = r'.code
  status : r.status = r'.status
  httpMajor : r.httpMajor = r'.httpMajor
  httpMinor : r.httpMinor = r'.httpMinor

theorem Message.Like.getHeader {m m' : Message} {fs fs' : Fs} (h : m.Like fs m' fs') (k : Bytes) :
    m.getHeader k = m'.getHeader k := by
  rw [Message.getHeader, h.headers, Message.getHeader]

theorem Reply.Like.addHeader {r r' : Reply} {fs fs' : Fs} (h : r.Like fs r' fs') (k val : Bytes) :
    (r.addHeader k val).Like fs (r'.addHeader k val) fs' := { h with
  message := { h.message with headers := congrArg (·.insert k val) h.message.headers } }

/-- What is sent does not tell them apart either. -/
theorem Reply.Like.wire {r r' : Reply} {fs fs' : Fs} (h : r.Like fs r' fs') :
    r.wire fs = r'.wire fs' := by
  have hte := h.message.getHeader transferEncoding
  have hh : r.prepareHeaders.headers = r'.prepareHeaders.headers := by
    simp only [prepareHeaders, hte]
    split_ifs <;> simp only [Message.addHeaderInt, Message.addHeader, Message.delHeader,
      h.message.headers, h.message.body.size]
  have hc : r.message.body.content fs = r'.message.body.content fs' := by
    rw [Body.content, Body.content, Body.sizeOnDisk, Body.sizeOnDisk, h.message.body.data,
      h.message.body.size, h.message.body.file]
  rw [Reply.wire, Reply.wire, hc, head, head, h.httpMajor, h.httpMinor, h.code, h.status,
    Message.headerLines, hh, Message.headerLines]

namespace Body

variable {E : Env} {b b' : Body} {fs fs' : Fs}

theorem Like.sizeOnDisk (h : b.Like fs b' fs') : b.sizeOnDisk = b'.sizeOnDisk := by
  rw [Body.sizeOnDisk, Body.sizeOnDisk, h.data, h.size]

theorem Like.content (h : b.Like fs b' fs') : b.content fs = b'.content fs' := by
  rw [Body.content, Body.content, h.data, h.file, h.sizeOnDisk]

theorem Like.whole (h : b.Like fs b' fs') (hb : b.Whole fs) : b'.Whole fs' := by
  rwa [Whole, ← h.sizeOnDisk, ← h.file]

theorem IsEmpty.like (h : b.IsEmpty) (h' : b'.IsEmpty) (fs fs' : Fs) : b.Like fs b' fs' where
  data := h.data.trans h'.data.symm
  size := h.size.trans h'.size.symm
  file := by rw [file, file, if_neg (not_lt.mpr h.fd), if_neg (not_lt.mpr h'.fd)]
  fd := iff_of_false (not_lt.mpr h.fd) (not_lt.mpr h'.fd)

theorem Like.isEmpty (h : b.Like fs b' fs') (hb : b.IsEmpty) : b'.IsEmpty :=
  ⟨h.data ▸ hb.data, h.size ▸ hb.size, not_lt.mp (mt h.fd.mpr (not_lt.mpr hb.fd))⟩

theorem IsEmpty.whole (h : b.IsEmpty) (fs : Fs) : b.Whole fs := by
  rw [Whole, Body.sizeOnDisk, h.size, Nat.zero_sub]
  exact Nat.zero_le _

/-- A body has a file once something did not fit into memory. -/
theorem store_fd (hE : E.Healthy) (b : Body) (fs : Fs) (p : Bytes) :
    0 < (b.store E fs p).1.fd ↔ 0 < b.fd ∨ b.overflow p ≠ [] := by
  rw [store]
  split_ifs with ho
  · exact (or_iff_left (not_not.mpr ho)).symm
  · obtain ⟨b₁, fs₁, hc, hfd, -⟩ := createFile_healthy hE (b.keep p) fs
    rw [spill, hc]
    dsimp only
    refine iff_of_true ?_ (.inr ho)
    cases fs₁.writer b₁.fd <;> exact hfd

/-- A body that has received something, which began empty. -/
def Received (b : Body) (fs : Fs) : Prop := ∃ fs₀, b.Holds fs₀ (b.content fs) fs

theorem IsEmpty.received (h : b.IsEmpty) (fs : Fs) : b.Received fs :=
  ⟨fs, by
    have hh := h.holds fs
    rwa [← hh.content] at hh⟩

theorem Received.store (hE : E.Reliable) (h : b.Received fs) (p : Bytes) :
    (b.store E fs p).1.Received (b.store E fs p).2 ∧
      (b.store E fs p).1.content (b.store E fs p).2 = b.content fs ++ p := by
  obtain ⟨fs₀, h⟩ := h
  obtain ⟨b', fs', hr, hh⟩ := h.step hE.toHealthy (p := p) (hE.fits ..)
  rw [addBody_reliable hE] at hr
  rw [Option.some.inj hr]
  exact ⟨⟨fs₀, by rwa [hh.content]⟩, hh.content⟩

theorem Received.like (h : b.Received fs) (h' : b'.Received fs')
    (hc : b.content fs = b'.content fs') (hfd : 0 < b.fd ↔ 0 < b'.fd) : b.Like fs b' fs' := by
  obtain ⟨fs₀, h⟩ := h
  obtain ⟨fs₁, h'⟩ := h'
  have hv := h.view.trans ((congrArg View.of hc).trans h'.view.symm)
  simp only [view, View.mk.injEq] at hv
  exact ⟨hv.1, hv.2.2.1, hv.2.1, hfd⟩

theorem Like.store (hE : E.Reliable) (h : b.Like fs b' fs') (hb : b.Received fs)
    (hb' : b'.Received fs') (p : Bytes) :
    (b.store E fs p).1.Like (b.store E fs p).2 (b'.store E fs' p).1 (b'.store E fs' p).2 := by
  obtain ⟨hr, hc⟩ := hb.store hE p
  obtain ⟨hr', hc'⟩ := hb'.store hE p
  refine hr.like hr' (by rw [hc, hc', h.content]) ?_
  rw [store_fd hE.toHealthy, store_fd hE.toHealthy, h.fd, overflow, overflow, insertion, insertion,
    h.data]

end Body

/-- A handler whose output is a function of the request, and of the reply it is given. -/
structure Handler.Alone {ω : Type} (handle : Handler ω) : Prop where
  like : ∀ {r r' : Request} {reply reply' : Reply} {fs fs' : Fs} (w w' : ω),
    r.Like fs r' fs' → reply.Like fs reply' fs' →
    let o := handle r reply fs w
    let o' := handle r' reply' fs' w'
    o.1.Like o.2.2.1 o'.1 o'.2.2.1 ∧ o.2.1.Like o.2.2.1 o'.2.1 o'.2.2.1
  whole : ∀ (r : Request) {reply : Reply} (fs : Fs) (w : ω), reply.message.body.IsEmpty →
    let o := handle r reply fs w
    o.2.1.message.body.Whole o.2.2.1

namespace Connection

variable {ω : Type}

/-- Two connections that have received the same since they were between two requests, and written
the same since they had written `ou` and `ov`. -/
structure Alike (ou ov : Bytes) (u v : Objects ω) : Prop where
  mode : u.mode = .request ∧ v.mode = .request
  error : u.error = v.error
  headerKey : u.headerKey = v.headerKey
  headerVal : u.headerVal = v.headerVal
  headerGotval : u.headerGotval = v.headerGotval
  request : u.request.Like u.fs v.request v.fs
  received : u.request.message.body.Received u.fs ∧ v.request.message.body.Received v.fs
  reply : u.reply.Like u.fs v.reply v.fs
  empty : u.reply.message.body.IsEmpty
  out : ∃ w, u.cx.socket.out = ou ++ w ∧ v.cx.socket.out = ov ++ w

variable {ou ov : Bytes} {u v : Objects ω}

theorem verdict_congr {m m' : Message} (h : m.headers = m'.headers) (e : ParseError) :
    Session.verdict m e = Session.verdict m' e := by
  have hg : ∀ k, m.getHeader k = m'.getHeader k := fun k => by
    rw [Message.getHeader, h, Message.getHeader]
  simp only [Session.verdict, hg]

/-- The header that is pending goes into both requests, and both are checked. -/
theorem Alike.saveLastHeader (h : Alike ou ov u v) :
    Alike ou ov u.saveLastHeader v.saveLastHeader := by
  obtain ⟨mode, error, key, val, got, r, rp, fs, cx⟩ := u
  obtain ⟨mode', error', key', val', got', r', rp', fs', cx'⟩ := v
  obtain ⟨⟨hm, hm'⟩, he, hk, hv, hg, hr, hrec, hrp, hem, ho⟩ := h
  dsimp only at hm hm' he hk hv hg hr hrec hrp hem ho
  subst hm hm' he hk hv hg
  have hh := hr.message.headers
  cases got with
  | true =>
    simp only [Session.saveLastHeader, Session.storeHeader, Session.checkHeaders, Session.setMsg,
      Session.msg, if_true]
    refine ⟨⟨rfl, rfl⟩, ?_, rfl, rfl, rfl, ⟨⟨congrArg (·.insert key val) hh, hr.message.data,
      hr.message.body⟩, hr.verb, hr.url, hr.host, hr.queryString, hr.require100⟩, hrec, hrp, hem,
        ho⟩
    exact verdict_congr (congrArg (·.insert key val) hh) error
  | false =>
    simp only [Session.saveLastHeader, Session.storeHeader, Session.checkHeaders,
      Bool.false_eq_true, if_false, if_true]
    refine ⟨⟨rfl, rfl⟩, ?_, rfl, rfl, rfl, hr, hrec, hrp, hem, ho⟩
    exact verdict_congr hh error

theorem Alike.onData {E : Env} (hE : E.Reliable) (h : Alike ou ov u v) (k : Mark) (frag : Bytes) :
    Alike ou ov (u.onData E k frag) (v.onData E k frag) := by
  cases k with
  | url =>
    simp only [Session.onData, Session.addUrlFragment, h.mode.1, h.mode.2, h.error, h.request.url]
    split_ifs
    · exact { h with mode := ⟨rfl, rfl⟩, error := rfl }
    · exact { h with
        mode := ⟨rfl, rfl⟩
        error := rfl
        request := { h.request with url := congrArg (· ++ frag) h.request.url } }
    · exact h
  | headerField =>
    have hs := h.saveLastHeader
    exact { hs with headerKey := congrArg (· ++ frag) hs.headerKey }
  | headerValue => exact { h with
      headerVal := congrArg (· ++ frag) h.headerVal, headerGotval := rfl }
  | body =>
    simp only [Session.onData, Session.addBodyFragment, Session.msg, Session.setMsg, h.mode.1,
      h.mode.2, h.error, Message.addBody_eq hE]
    split_ifs
    · exact { h with
        mode := ⟨rfl, rfl⟩
        error := rfl
        request := { h.request with message := { h.request.message with
          body := h.request.message.body.store hE h.received.1 h.received.2 frag } }
        received := ⟨(h.received.1.store hE frag).1, (h.received.2.store hE frag).1⟩
        reply := { h.reply with message := { h.reply.message with
          body := h.empty.like (h.reply.message.body.isEmpty h.empty) _ _ } } }
    · exact h

/-- The objects are as new ones are, but for the version of the reply. -/
structure Clean (u : Objects ω) : Prop where
  mode : u.mode = .request
  error : u.error = .ok
  headerKey : u.headerKey = []
  headerVal : u.headerVal = []
  headerGotval : u.headerGotval = false
  request : ∃ b : Body, b.IsEmpty ∧ u.request = { Request.new with message := ⟨.empty, [], b⟩ }
  reply : ∃ b : Body, b.IsEmpty ∧ u.reply = { Reply.new with
    message := { Reply.new.message with body := b }
    httpMajor := u.reply.httpMajor
    httpMinor := u.reply.httpMinor }

theorem accepted_clean (fs : Fs) (w : ω) : Clean (accepted fs w).2 :=
  ⟨rfl, rfl, rfl, rfl, rfl, ⟨_, Body.new_isEmpty, rfl⟩, ⟨_, Body.new_isEmpty, rfl⟩⟩

theorem resetAll_clean {u : Objects ω} (h : u.mode = .request) : Clean (resetAll u).2 where
  mode := h
  error := rfl
  headerKey := rfl
  headerVal := rfl
  headerGotval := rfl
  request := ⟨_, u.request.message.body.clear_isEmpty u.fs, rfl⟩
  reply := ⟨_, u.reply.message.body.clear_isEmpty _, by
    have hc : toInt16 200 = 200 := by decide
    simp only [resetAll, Session.reset, Reply.reset, Reply.setStatus, hc]
    rfl⟩

/-- Between two requests nothing but the version of the reply is left of the last one. -/
theorem Clean.alike (hu : Clean u) (hv : Clean v) (hmaj : u.reply.httpMajor = v.reply.httpMajor)
    (hmin : u.reply.httpMinor = v.reply.httpMinor) :
    Alike u.cx.socket.out v.cx.socket.out u v := by
  obtain ⟨b, hb, hr⟩ := hu.request
  obtain ⟨b', hb', hr'⟩ := hv.request
  obtain ⟨c, hc, hp⟩ := hu.reply
  obtain ⟨c', hc', hp'⟩ := hv.reply
  refine ⟨⟨hu.mode, hv.mode⟩, hu.error.trans hv.error.symm, hu.headerKey.trans hv.headerKey.symm,
    hu.headerVal.trans hv.headerVal.symm, hu.headerGotval.trans hv.headerGotval.symm, ?_, ?_, ?_,
      ?_,
    [], (List.append_nil _).symm, (List.append_nil _).symm⟩
  · rw [hr, hr']
    exact ⟨⟨rfl, rfl, hb.like hb' _ _⟩, rfl, rfl, rfl, rfl, rfl⟩
  · rw [hr, hr']
    exact ⟨hb.received _, hb'.received _⟩
  · rw [hp, hp']
    exact ⟨⟨rfl, rfl, hc.like hc' _ _⟩, rfl, rfl, hmaj, hmin⟩
  · rw [hp]
    exact hc

/-- Two connections with the same reply, which is still to be sent. -/
structure Answered (ou ov : Bytes) (u v : Objects ω) : Prop where
  mode : u.mode = .request ∧ v.mode = .request
  request : u.request.Like u.fs v.request v.fs
  reply : u.reply.Like u.fs v.reply v.fs
  whole : u.reply.message.body.Whole u.fs
  out : ∃ w, u.cx.socket.out = ou ++ w ∧ v.cx.socket.out = ov ++ w

theorem processError_like {r r' : Reply} {fs fs' : Fs} (h : r.Like fs r' fs') (e : ParseError) :
    (processError e r).Like fs (processError e r') fs' := by
  cases e <;> exact { h with code := rfl, status := rfl }

theorem processError_message (e : ParseError) (r : Reply) :
    (processError e r).message = r.message := by
  cases e <;> rfl

/-- The handlers are functions of the request. -/
def Server.Alone (S : Server ω) : Prop := ∀ h ∈ S.router.handlers, h.2.Alone

theorem Alike.answer {S : Server ω} (hS : Server.Alone S) (h : Alike ou ov u v) :
    (answer S u = none ∧ answer S v = none) ∨
      ∃ u₁ v₁, answer S u = some u₁ ∧ answer S v = some v₁ ∧ Answered ou ov u₁ v₁ := by
  rw [Connection.answer, Connection.answer, ← h.error]
  split_ifs with he
  · refine .inr ⟨_, _, rfl, rfl, h.mode, h.request, processError_like h.reply _, ?_, h.out⟩
    dsimp only
    rw [processError_message]
    exact h.empty.whole _
  · rw [← h.request.url]
    cases hg : S.router.get u.request.url with
    | none => exact .inl ⟨rfl, rfl⟩
    | some handle =>
      obtain ⟨⟨pre, handle'⟩, hf, rfl⟩ := Option.map_eq_some_iff.mp hg
      have hh := hS _ (List.mem_of_find?_eq_some hf)
      obtain ⟨hreq, hrep⟩ := hh.like u.cx.world v.cx.world h.request h.reply
      exact .inr ⟨_, _, rfl, rfl, h.mode, hreq, hrep, hh.whole u.request u.fs u.cx.world h.empty,
        h.out⟩

theorem Answered.announceClose (h : Answered ou ov u v) :
    Answered ou ov (announceClose u) (announceClose v) :=
  { h with reply := h.reply.addHeader _ _ }

theorem Answered.checkClose (h : Answered ou ov u v) (p : HttpParser) :
    Answered ou ov (checkClose p u) (checkClose p v) := by
  have hclose : ∀ {x y : Objects ω}, Answered ou ov x y → Answered ou ov
      (if asksClose x.request then Connection.announceClose x else x)
      (if asksClose y.request then Connection.announceClose y else y) := by
    intro x y hxy
    have hiff : asksClose x.request ↔ asksClose y.request := by
      rw [asksClose, asksClose, hxy.request.message.getHeader]
    by_cases hc : asksClose x.request
    · rw [if_pos hc, if_pos (hiff.mp hc)]
      exact hxy.announceClose
    · rw [if_neg hc, if_neg (mt hiff.mpr hc)]
      exact hxy
  rw [Connection.checkClose, Connection.checkClose]
  refine hclose ?_
  split_ifs
  · exact Answered.announceClose { h with
      reply := { h.reply with httpMajor := rfl, httpMinor := rfl } }
  · exact h

/-- The end of `process` where everything is sent. -/
theorem conclude_full {S : Server ω} (hW : S.io.Full) {u : Objects ω} (hm : u.mode = .request)
    (hb : u.reply.message.body.Whole u.fs) (g : Option (Request × Fs)) (p : HttpParser) :
    ∃ u', conclude p (respond S g u).1 (respond S g u).2 = (true, .init .request, u') ∧ Clean u' ∧
      u'.reply.httpMajor = u.reply.httpMajor ∧ u'.reply.httpMinor = u.reply.httpMinor ∧
      u'.cx.socket.out = u.cx.socket.out ++ u.reply.wire u.fs ∧ u'.cx.state = u.cx.state ∧
      u'.cx.record = u.cx.record ++ [⟨g, u.reply, u.fs, true⟩] ∧ u'.cx.world = u.cx.world := by
  obtain ⟨s, hs, ho⟩ := send_full hW u.cx.socket hb
  let u₂ : Objects ω := { u with
    reply := u.reply.prepare
    cx := { u.cx with socket := s, record := u.cx.record ++ [⟨g, u.reply, u.fs, true⟩] } }
  have hr : respond S g u = (true, u₂) := by rw [respond, hs]
  rw [hr]
  refine ⟨(resetAll u₂).2, ?_, resetAll_clean hm, rfl, rfl, ho, rfl, rfl, rfl⟩
  have hp : (resetAll u₂).1 = .init .request :=
    congrArg (fun m => HttpParser.init (Session.parserType m)) hm
  rw [conclude, if_pos rfl, ← hp]

/-- The reply is sent to both, and both are clean. -/
theorem Answered.sent {S : Server ω} (hW : S.io.Full) (h : Answered ou ov u v)
    (g g' : Option (Request × Fs)) (p : HttpParser) :
    ∃ u' v', conclude p (respond S g u).1 (respond S g u).2 = (true, .init .request, u') ∧
      conclude p (respond S g' v).1 (respond S g' v).2 = (true, .init .request, v') ∧
      Alike ou ov u' v' := by
  obtain ⟨u', hu, hcu, hmaj, hmin, ho, -⟩ := conclude_full hW h.mode.1 h.whole g p
  obtain ⟨v', hv, hcv, hmaj', hmin', ho', -⟩ :=
    conclude_full hW h.mode.2 (h.reply.message.body.whole h.whole) g' p
  obtain ⟨w, hw, hw'⟩ := h.out
  have ha := hcu.alike hcv (by rw [hmaj, hmaj', h.reply.httpMajor])
    (by rw [hmin, hmin', h.reply.httpMinor])
  refine ⟨u', v', hu, hv, { ha with out := ⟨w ++ u.reply.wire u.fs, ?_, ?_⟩ }⟩
  · rw [ho, hw, List.append_assoc]
  · rw [ho', hw', h.reply.wire, List.append_assoc]

theorem Alike.complete (h : Alike ou ov u v) (p : HttpParser) :
    Alike ou ov (u.complete p) (v.complete p) := by
  have hr : u.request.extractQueryString.Like u.fs v.request.extractQueryString v.fs ∧
      u.request.extractQueryString.message = u.request.message ∧
      v.request.extractQueryString.message = v.request.message := by
    rw [Request.extractQueryString, Request.extractQueryString, h.request.url,
      h.request.queryString]
    split
    · exact ⟨h.request, rfl, rfl⟩
    · exact ⟨{ h.request with url := rfl, queryString := rfl }, rfl, rfl⟩
  rw [Session.complete, Session.complete, h.mode.1, h.mode.2]
  exact { h with
    mode := ⟨rfl, rfl⟩
    request := { hr.1 with verb := congrArg (Session.verbOf p.method).getD hr.1.verb }
    received := by
      dsimp only [Request.setVerb]
      rw [hr.2.1, hr.2.2]
      exact h.received }

/-- The callbacks do to alike connections what is alike. -/
theorem settings_alike {S : Server ω} (hE : S.env.Reliable) (hW : S.io.Full)
    (hS : Server.Alone S) (ou ov : Bytes) :
    (Session.settings S.env (process S)).Related (Session.settings S.env (process S))
      (Alike ou ov) fun _ => False where
  data k frag _ _ h := ⟨rfl, h.onData hE k frag⟩
  headers _ _ _ h := ⟨rfl, h.saveLastHeader⟩
  complete p u v h := by
    have hc := h.complete p
    dsimp only [Session.settings, Session.callback, process]
    obtain ⟨hu, hv⟩ | ⟨u₁, v₁, hu, hv, ha⟩ := hc.answer hS
    · rw [hu, hv]
      trivial
    · obtain ⟨u', v', hsu, hsv, hal⟩ :=
        (ha.checkClose p).sent hW (given (u.complete p)) (given (v.complete p)) p
      rw [hu, hv]
      simp only [Option.map_some, hsu, hsv, if_true]
      exact ⟨rfl, rfl, hal⟩
  spoiled := Settings.keeps_false _

/-- A callback before the end of a message, or the work of `callback` before `process`. -/
def Call (S : Server ω) (u v : Objects ω) : Prop :=
  (∃ k frag, v = u.onData S.env k frag) ∨ v = u.saveLastHeader ∨ ∃ p, v = u.complete p

/-- The objects between two requests, after a history of requests processed with success: new, or
as `process` leaves them. Each request has what `P` says. -/
inductive Between (S : Server ω) (P : HttpParser → Prop) : Objects ω → Prop
  | new (fs : Fs) (w : ω) : Between S P (accepted fs w).2
  | processed {p p' : HttpParser} {u₀ u u' : Objects ω} (before : Between S P u₀)
    (received : Relation.ReflTransGen (Call S) u₀ u) (hp : P p)
    (h : process S p u = some (true, p', u')) : Between S P u'

/-- A message that comes in leaves the mode of the parser and the version of the reply alone. -/
theorem Call.frame {S : Server ω} (h : Call S u v) (hm : u.mode = .request) :
    v.mode = .request ∧ v.reply = u.reply := by
  obtain ⟨k, frag, rfl⟩ | rfl | ⟨p, rfl⟩ := h
  · exact Session.onData_request S.env hm k frag
  · exact Session.saveLastHeader_request hm
  · rw [Session.complete, hm]
    exact ⟨rfl, rfl⟩

theorem Call.frames {S : Server ω} (h : Relation.ReflTransGen (Call S) u v)
    (hm : u.mode = .request) : v.mode = .request ∧ v.reply = u.reply := by
  induction h with
  | refl => exact ⟨hm, rfl⟩
  | tail _ hstep ih =>
    obtain ⟨hv, hr⟩ := hstep.frame ih.1
    exact ⟨hv, hr.trans ih.2⟩

/-- What `process` leaves when it returns true: clean objects, and the version of the reply. -/
theorem process_clean {S : Server ω} {p p' : HttpParser} {u u' : Objects ω}
    (hm : u.mode = .request) (h : process S p u = some (true, p', u')) :
    ∃ u₁, answer S u = some u₁ ∧ Clean u' ∧
      u'.reply.httpMajor = (checkClose p u₁).reply.httpMajor ∧
      u'.reply.httpMinor = (checkClose p u₁).reply.httpMinor := by
  obtain ⟨u₁, ha, hr⟩ := Option.map_eq_some_iff.mp h
  have hmode : (checkClose p u₁).mode = .request :=
    (mode_checkClose p u₁).trans ((answer_frame ha).1.trans hm)
  refine ⟨u₁, ha, ?_⟩
  rw [respond, send] at hr
  generalize sendHeaders S.io (checkClose p u₁).cx.socket (checkClose p u₁).reply.prepare = s at hr
  obtain ⟨_ | _, s⟩ := s
  · exact absurd (congrArg Prod.fst hr) Bool.false_ne_true
  dsimp only at hr
  generalize s.sendBufferedBody S.io (checkClose p u₁).fs
    (checkClose p u₁).reply.prepare.message.body = t at hr
  obtain ⟨_ | _, t⟩ := t
  · exact absurd (congrArg Prod.fst hr) Bool.false_ne_true
  · obtain ⟨-, -, rfl⟩ := Prod.mk.injEq .. ▸ Prod.mk.injEq .. ▸ hr
    exact ⟨resetAll_clean hmode, rfl, rfl⟩

theorem Between.clean {S : Server ω} {P : HttpParser → Prop} (h : Between S P u) : Clean u := by
  induction h with
  | new fs w => exact accepted_clean fs w
  | processed _ hr _ hp ih =>
    obtain ⟨-, -, hc, -⟩ := process_clean (Call.frames hr ih.mode).1 hp
    exact hc

/-- The handlers leave the version of the reply as it is. -/
def Server.LeavesVersion (S : Server ω) : Prop :=
  ∀ h ∈ S.router.handlers, ∀ r reply fs w,
    (h.2 r reply fs w).2.1.httpMajor = reply.httpMajor ∧
      (h.2 r reply fs w).2.1.httpMinor = reply.httpMinor

theorem answer_version {S : Server ω} (hS : Server.LeavesVersion S) {u u₁ : Objects ω}
    (h : answer S u = some u₁) : u₁.reply.httpMajor = u.reply.httpMajor ∧
      u₁.reply.httpMinor = u.reply.httpMinor := by
  rw [answer] at h
  split_ifs at h with he
  · obtain rfl := Option.some.inj h
    have hv : ∀ e r, (processError e r).httpMajor = r.httpMajor ∧
        (processError e r).httpMinor = r.httpMinor := fun e _ => by cases e <;> exact ⟨rfl, rfl⟩
    exact hv _ _
  · obtain ⟨handle, hg, rfl⟩ := Option.map_eq_some_iff.mp h
    obtain ⟨⟨pre, handle'⟩, hf, rfl⟩ := Option.map_eq_some_iff.mp hg
    exact hS _ (List.mem_of_find?_eq_some hf) ..

/-- A version is left behind only by a request of HTTP/1.0. -/
theorem Between.version {S : Server ω} (hS : Server.LeavesVersion S)
    (h : Between S (fun p => ¬ isHttp10 p) u) :
    u.reply.httpMajor = 1 ∧ u.reply.httpMinor = 1 := by
  induction h with
  | new fs w => exact ⟨rfl, rfl⟩
  | @processed p p' u₀ u u' before hr hp h ih =>
    obtain ⟨hm, hrep⟩ := Call.frames hr before.clean.mode
    obtain ⟨u₁, ha, -, hmaj, hmin⟩ := process_clean hm h
    have hc : (checkClose p u₁).reply.httpMajor = u₁.reply.httpMajor ∧
        (checkClose p u₁).reply.httpMinor = u₁.reply.httpMinor := by
      rw [checkClose, if_neg hp]
      split_ifs <;> exact ⟨rfl, rfl⟩
    obtain ⟨hmaj', hmin'⟩ := answer_version hS ha
    rw [hmaj, hmin, hc.1, hc.2, hmaj', hmin', hrep]
    exact ih

/-- What is left of a read from `pos` on, and the reads after it, where a message begins. -/
def onward (S : Server ω) (u : Objects ω) (m : Marks) (skip pos : ℕ) (rest : Bytes)
    (reads : List Bytes) : Option (HttpParser × Objects ω) :=
  (loop (Session.settings S.env (process S)) ⟨.init .request, u, m⟩ skip pos rest).bind fun r =>
    reads.foldlM (add S) r.2

/-- The two connections come to the same end, and write the same from `ou` and `ov` on. -/
def SameOut (ou ov : Bytes) :
    Option (HttpParser × Objects ω) → Option (HttpParser × Objects ω) → Prop
  | some (p, u), some (p', v) => p = p' ∧ ∃ w, u.cx.socket.out = ou ++ w ∧ v.cx.socket.out = ov ++ w
  | none, none => True
  | _, _ => False

theorem reads_alike {S : Server ω} (hE : S.env.Reliable) (hW : S.io.Full) (hS : Server.Alone S)
    (h : Alike ou ov u v) (p : HttpParser) (reads : List Bytes) :
    SameOut ou ov (reads.foldlM (add S) (p, u)) (reads.foldlM (add S) (p, v)) := by
  induction reads generalizing p u v with
  | nil => exact ⟨rfl, h.out⟩
  | cons data reads ih =>
    have hr := execute_rel (p := p) (settings_alike hE hW hS ou ov) (Settings.loopKeeps_false _) h
      data
    rw [List.foldlM_cons, List.foldlM_cons, add, Session.add, add, Session.add]
    dsimp only
    generalize httpParserExecute (Session.settings S.env (process S)) p u data = a at hr
    generalize httpParserExecute (Session.settings S.env (process S)) p v data = b at hr
    rcases a with _ | ⟨n, q, u'⟩ <;> rcases b with _ | ⟨n', q', v'⟩
    · trivial
    · exact hr.elim
    · exact hr.elim
    · obtain ⟨-, rfl, ha⟩ := hr
      exact ih ha q

/-- Two connections with replies of one version write the same for what comes next. -/
theorem onward_alike {S : Server ω} (hE : S.env.Reliable) (hW : S.io.Full) (hS : Server.Alone S)
    (hu : Clean u) (hv : Clean v) (hmaj : u.reply.httpMajor = v.reply.httpMajor)
    (hmin : u.reply.httpMinor = v.reply.httpMinor) (m : Marks) (skip pos : ℕ) (rest : Bytes)
    (reads : List Bytes) : SameOut u.cx.socket.out v.cx.socket.out
      (onward S u m skip pos rest reads) (onward S v m skip pos rest reads) := by
  have ha := hu.alike hv hmaj hmin
  have hr := loop_rel (p := .init .request) (m := m)
    (settings_alike hE hW hS u.cx.socket.out v.cx.socket.out) (Settings.loopKeeps_false _) rest ha
    skip pos
  rw [onward, onward]
  generalize loop _ ⟨.init .request, u, m⟩ skip pos rest = a at hr
  generalize loop _ ⟨.init .request, v, m⟩ skip pos rest = b at hr
  rcases a with _ | ⟨n, q, u'⟩ <;> rcases b with _ | ⟨n', q', v'⟩
  · trivial
  · exact hr.elim
  · exact hr.elim
  · obtain ⟨-, rfl, ha⟩ := hr
    exact reads_alike hE hW hS ha q reads

/-- Two connections are not told apart by the requests processed on them, if none was of HTTP/1.0:
they write the same for what comes next. One of them may be new. -/
theorem unaffected {S : Server ω} (hE : S.env.Reliable) (hW : S.io.Full) (hS : Server.Alone S)
    (hV : Server.LeavesVersion S) (hu : Between S (fun p => ¬ isHttp10 p) u)
    (hv : Between S (fun p => ¬ isHttp10 p) v) (m : Marks) (skip pos : ℕ) (rest : Bytes)
    (reads : List Bytes) : SameOut u.cx.socket.out v.cx.socket.out
      (onward S u m skip pos rest reads) (onward S v m skip pos rest reads) :=
  onward_alike hE hW hS hu.clean hv.clean ((hu.version hV).1.trans (hv.version hV).1.symm)
    ((hu.version hV).2.trans (hv.version hV).2.symm) m skip pos rest reads

theorem keeper_full : (keeper ω).io.Full := ⟨fun _ _ => Int.natCast_pos.mpr, fun _ _ => le_rfl⟩

theorem keeper_alone : Server.Alone (keeper ω) := by
  intro h hm
  obtain rfl := List.mem_singleton.mp hm
  exact ⟨fun _ _ hr hp => ⟨hr, hp.addHeader _ _⟩, fun _ _ fs _ h => h.whole fs⟩

theorem keeper_version : Server.LeavesVersion (keeper ω) := by
  intro h hm r reply fs w
  obtain rfl := List.mem_singleton.mp hm
  exact ⟨rfl, rfl⟩

/-- A request that was refused leaves nothing behind. -/
theorem unaffected_refused : ∃ u : Objects Unit, u.cx.record.length = 1 ∧
    SameOut u.cx.socket.out [] (onward (keeper Unit) u .none 0 0
      (ascii "GET / HTTP/1.1\r\n\r\n") [])
      (onward (keeper Unit) (accepted .new ()).2 .none 0 0
        (ascii "GET / HTTP/1.1\r\n\r\n") []) := by
  let u₀ : Objects Unit := (accepted .new ()).2
  let u₁ := u₀.onData .linux .headerField Message.expect
  let u₂ := u₁.onData .linux .headerValue Message.oneHundredContinue
  have hr : Relation.ReflTransGen (Call (keeper Unit)) u₀ u₂.saveLastHeader :=
    ((Relation.ReflTransGen.single (.inl ⟨.headerField, Message.expect, rfl⟩)).tail
      (.inl ⟨.headerValue, Message.oneHundredContinue, rfl⟩)).tail (.inr (.inl rfl))
  have hok : (process (keeper Unit) (.init .request) u₂.saveLastHeader).map
      (fun r => (r.1, r.2.2.cx.record.length)) = some (true, 1) := by decide +kernel
  obtain ⟨⟨ok, p', u'⟩, hp, h⟩ := Option.map_eq_some_iff.mp hok
  obtain ⟨rfl, hlen⟩ := Prod.mk.injEq .. ▸ h
  exact ⟨u', hlen, unaffected Env.linux_reliable keeper_full keeper_alone keeper_version
    (.processed (.new .new ()) hr (by decide) hp) (.new .new ()) ..⟩

/-- The version of a reply stays for the next one. -/
theorem version_stays :
    ((exec (keeper Unit) [ascii "GET / HTTP/1.0\r\n\r\nGET / HTTP/1.1\r\n\r\n"]
      (accepted .new ())).map fun r => r.2.2.cx.socket.out) = some (
        ascii "HTTP/1.0 200 OK\r\nConnection: Close\r\nContent-Length: 0\r\n\r\n" ++
        ascii "HTTP/1.0 200 OK\r\nConnection: keep-alive\r\nContent-Length: 0\r\n\r\n") ∧
    ((exec (keeper Unit) [ascii "GET / HTTP/1.1\r\n\r\n"]
      (accepted .new ())).map fun r => r.2.2.cx.socket.out) = some (
        ascii "HTTP/1.1 200 OK\r\nConnection: keep-alive\r\nContent-Length: 0\r\n\r\n") := by
  constructor <;> decide +kernel

end Connection

end Stutter
