import Stutter.Interim
import Stutter.Outgoing

namespace Stutter

open Joyent

namespace Reply

/-- The version has numbers of three digits at most. -/
def Versioned (r : Reply) : Prop :=
  (0 ≤ r.httpMajor ∧ r.httpMajor ≤ 999) ∧ 0 ≤ r.httpMinor ∧ r.httpMinor ≤ 999

/-- A reply as a handler is given it. -/
structure Blank (r : Reply) : Prop where
  empty : r.message.body.IsEmpty
  new : r = { Reply.new with
    message := { Reply.new.message with body := r.message.body }
    httpMajor := r.httpMajor
    httpMinor := r.httpMinor }
  versioned : r.Versioned

theorem length_head (r : Reply) : r.head.length = (decimalInt r.httpMajor).length +
    (decimalInt r.httpMinor).length + (decimalInt r.code).length + r.status.length +
      r.prepareHeaders.headerLines.length + 12 := by
  have hhttp : (ascii "HTTP/").length = 5 := rfl
  have hdot : (ascii ".").length = 1 := rfl
  have hspace : (ascii " ").length = 1 := rfl
  have hcrlf : crlf.length = 2 := rfl
  simp only [head, List.length_append, hhttp, hdot, hspace, hcrlf]
  omega

theorem length_decimalInt {i : ℤ} (h : 0 ≤ i ∧ i ≤ 999) : (decimalInt i).length ≤ 3 := by
  have hall : ∀ n < 1000, (decimal n).length ≤ 3 := by decide +kernel
  rw [← Int.toNat_of_nonneg h.1, decimalInt_natCast]
  exact hall _ (by omega)

/-- The headers of a reply that says keep-alive and nothing else. -/
def keptHeaders : Headers := SortedMap.empty.insert Message.connec Message.keepAlive

theorem keptHeaders_writable : Headers.Writable keptHeaders := by
  decide +kernel

variable {r : Reply}

theorem Blank.keep (h : r.Blank) :
    (r.addHeader Message.connec Message.keepAlive).message.headers = keptHeaders ∧
      (r.addHeader Message.connec Message.keepAlive).code = 200 ∧
      (r.addHeader Message.connec Message.keepAlive).status = ascii "OK" := by
  rw [h.new]
  exact ⟨rfl, rfl, rfl⟩

theorem Blank.keep_wellFormed (h : r.Blank) (fs : Fs) :
    (r.addHeader Message.connec Message.keepAlive).WellFormed fs := by
  obtain ⟨hheaders, hcode, hstatus⟩ := h.keep
  have hsize : (r.addHeader Message.connec Message.keepAlive).message.body.size = 0 := h.empty.size
  refine ⟨h.versioned.1, h.versioned.2, ?_, ?_, ?_, .inr ?_, ?_, h.empty.whole fs⟩
  · rw [hcode]
    decide
  · rw [hstatus]
    decide +kernel
  · rw [hheaders]
    exact keptHeaders_writable
  · rw [Message.getHeader, hheaders]
    decide +kernel
  · rw [hsize]
    decide +kernel

theorem Blank.keep_fits (h : r.Blank) (fs : Fs) :
    (r.addHeader Message.connec Message.keepAlive).Fits fs := by
  obtain ⟨hheaders, hcode, hstatus⟩ := h.keep
  have hsize : (r.addHeader Message.connec Message.keepAlive).message.body.size = 0 := h.empty.size
  refine ⟨?_, fun hx => ?_⟩
  · have hzero : decimalInt (toInt32 (0 : ℕ)) = ascii "0" := by decide +kernel
    have hprep : (r.addHeader Message.connec Message.keepAlive).prepareHeaders.headers =
        keptHeaders.insert Message.contentLength (ascii "0") := by
      rw [prepareHeaders, Message.getHeader, hheaders, if_neg (by decide +kernel)]
      change SortedMap.insert _ _ (decimalInt (toInt32 _)) = _
      rw [hheaders, hsize, hzero]
    have hlines : (keptHeaders.insert Message.contentLength (ascii "0")).entries.flatMap
        (fun h => h.1 ++ ascii ": " ++ h.2 ++ crlf) =
          ascii "Connection: keep-alive\r\nContent-Length: 0\r\n" := by
      decide +kernel
    have hmaj : (decimalInt (r.addHeader Message.connec Message.keepAlive).httpMajor).length ≤ 3 :=
      length_decimalInt h.versioned.1
    have hmin : (decimalInt (r.addHeader Message.connec Message.keepAlive).httpMinor).length ≤ 3 :=
      length_decimalInt h.versioned.2
    have hok : (decimalInt 200).length + (ascii "OK").length +
        (ascii "Connection: keep-alive\r\nContent-Length: 0\r\n").length = 48 := by
      decide +kernel
    rw [length_head, hcode, hstatus, Message.headerLines, hprep, hlines, maxHeaderSize]
    omega
  · rw [Message.getHeader, hheaders] at hx
    exact absurd (by decide +kernel) hx

end Reply

namespace Connection

variable {ω : Type} {S : Server ω}

/-- Objects between two requests. -/
structure Waiting (s : HttpParser × Objects ω) : Prop where
  parser : s.1 = .init .request
  clean : Clean s.2
  ready : s.2.cx.state = .readyForData
  versioned : s.2.reply.Versioned

theorem accepted_waiting (fs : Fs) (w : ω) : Waiting (accepted fs w) where
  parser := rfl
  clean := accepted_clean fs w
  ready := rfl
  versioned := (by decide : (0 ≤ (1 : ℤ) ∧ (1 : ℤ) ≤ 999) ∧ 0 ≤ (1 : ℤ) ∧ (1 : ℤ) ≤ 999)

theorem Waiting.blank {s : HttpParser × Objects ω} (h : Waiting s) : s.2.reply.Blank := by
  obtain ⟨b, -, hb⟩ := h.clean.reply
  have hbody : s.2.reply.message.body = b := by rw [hb]
  exact ⟨h.clean.empty, by rw [hbody]; exact hb, h.versioned⟩

/-- A server whose files and writes do not fail, and whose handlers build replies that can be sent
and leave alone what decides over the connection. -/
structure Server.Regular (S : Server ω) : Prop where
  env : S.env.Reliable
  io : S.io.Full
  whole : Server.Whole S
  connection : Server.LeavesConnection S
  version : Server.LeavesVersion S
  replies : ∀ h ∈ S.router.handlers, ∀ (r : Request) (reply : Reply) (fs : Fs) (w : ω),
    reply.Blank → (h.2 r reply fs w).2.1.WellFormed (h.2 r reply fs w).2.2.1 ∧
      (h.2 r reply fs w).2.1.Fits (h.2 r reply fs w).2.2.1

theorem keeper_regular : Server.Regular (keeper ω) where
  env := Env.linux_reliable
  io := keeper_full
  whole := keeper_whole
  connection := keeper_leaves
  version := keeper_version
  replies h hm r reply fs w hb := by
    obtain rfl := List.mem_singleton.mp hm
    exact ⟨hb.keep_wellFormed fs, hb.keep_fits fs⟩

theorem send_reply (W : Strategy) (s : Socket) (fs : Fs) (r : Reply) :
    (send W s fs r).2.1 = r.prepare := by
  unfold send
  dsimp only
  generalize sendHeaders W s r.prepare = x
  obtain ⟨_ | _, s'⟩ := x <;> rfl

theorem process_versioned (hS : Server.LeavesVersion S) {p p' : HttpParser} {u u' : Objects ω}
    {ok : Bool} (h : process S p u = some (ok, p', u')) (hv : u.reply.Versioned) :
    u'.reply.Versioned := by
  obtain ⟨u₁, ha, hr⟩ := Option.map_eq_some_iff.mp h
  obtain ⟨hmaj, hmin⟩ := answer_version hS ha
  have hv₁ : u₁.reply.Versioned := by
    unfold Reply.Versioned at hv ⊢
    rwa [hmaj, hmin]
  have hv₂ : (checkClose p u₁).reply.Versioned := by
    have hten : (u₁.reply.setHttpVersion 1 0).Versioned :=
      (by decide : (0 ≤ (1 : ℤ) ∧ (1 : ℤ) ≤ 999) ∧ 0 ≤ (0 : ℤ) ∧ (0 : ℤ) ≤ 999)
    unfold checkClose
    dsimp only
    split_ifs
    · exact hten
    · exact hten
    · exact hv₁
    · exact hv₁
  obtain ⟨hm, -⟩ := answer_frame ha
  generalize checkClose p u₁ = v at hr hv₂
  rw [respond] at hr
  have hrep := send_reply S.io v.cx.socket v.fs v.reply
  generalize send S.io v.cx.socket v.fs v.reply = x at hr hrep
  obtain ⟨sent, reply, s⟩ := x
  obtain rfl : reply = v.reply.prepare := hrep
  cases sent with
  | false =>
    obtain ⟨-, -, rfl⟩ := Prod.mk.injEq .. ▸ Prod.mk.injEq .. ▸ hr
    exact hv₂
  | true =>
    obtain ⟨-, -, rfl⟩ := Prod.mk.injEq .. ▸ Prod.mk.injEq .. ▸ hr
    exact hv₂

/-- The version stays one that can be written. -/
theorem keeps_versioned (hS : Server.LeavesVersion S) :
    (Session.settings S.env (process S)).Keeps fun u => u.mode = .request ∧ u.reply.Versioned where
  data k frag u hu := by
    obtain ⟨hm, hr⟩ := Session.onData_request S.env hu.1 k frag
    exact ⟨hm, hr.symm ▸ hu.2⟩
  headers p u hu := by
    obtain ⟨hm, hr⟩ := Session.saveLastHeader_request hu.1
    exact ⟨hm, hr.symm ▸ hu.2⟩
  complete {p u r p' u'} hc hu := by
    obtain ⟨⟨ok, q, v⟩, hf, he⟩ := Option.map_eq_some_iff.mp hc
    obtain ⟨-, -, rfl⟩ := Prod.mk.injEq .. ▸ Prod.mk.injEq .. ▸ he
    have hcomp : (u.complete p).mode = .request ∧ (u.complete p).reply = u.reply := by
      rw [Session.complete, hu.1]
      exact ⟨rfl, rfl⟩
    have hv := process_versioned hS hf (hcomp.2.symm ▸ hu.2)
    obtain ⟨u₁, -, hp⟩ := process_spec hf
    have hm := hp.mode.trans hcomp.1
    cases ok <;> exact ⟨hm, hv⟩

/-- A request of the library is handled once, and the reply is written. -/
theorem answered (hS : Server.Regular S) {s : HttpParser × Objects ω} (hs : Waiting s) {r : Request}
    {fs : Fs} (hr : r.WellFormed fs) {handle : Handler ω} (route : S.router.get r.url = some handle)
    {reads : List Bytes} (hne : ∀ d ∈ reads, d ≠ []) (hcut : reads.flatten = r.wire fs) :
    ∃ q fs₁ t, exec S reads s = some (false, t) ∧ r.Carried fs q fs₁ ∧ Waiting t ∧
      let o := handle q s.2.reply fs₁ s.2.cx.world
      o.2.1.WellFormed o.2.2.1 ∧ o.2.1.Fits o.2.2.1 ∧
      t.2.cx.record = s.2.cx.record ++ [⟨some (q, fs₁), o.2.1, o.2.2.1, true⟩] ∧
      t.2.cx.socket.out = s.2.cx.socket.out ++ o.2.1.wire o.2.2.1 ∧ t.2.cx.world = o.2.2.2 := by
  obtain ⟨i, hbytes, hi, hp, hurl, hverb, hheaders, hbody⟩ := hr.incoming
  obtain ⟨p, u⟩ := s
  obtain rfl : p = .init .request := hs.parser
  obtain ⟨q, fs₁, u', his, hreads, hclean, hstate, hrec, hout, hworld⟩ :=
    serve hS.env hS.io hS.whole hS.connection hi hp (hurl ▸ route) hs.clean
  have hready : u'.cx.state = .readyForData := hstate.trans hs.ready
  have hver := hreads.keeps (lawful hS.env) (keeps_versioned hS.version) (Found.init_sound _)
    ⟨hs.clean.mode, hs.versioned⟩
  rw [hbytes, ← hcut] at hreads
  obtain ⟨⟨pre, handle'⟩, hf, rfl⟩ := Option.map_eq_some_iff.mp route
  obtain ⟨hwf, hfits⟩ :=
    hS.replies _ (List.mem_of_find?_eq_some hf) q u.reply fs₁ u.cx.world hs.blank
  refine ⟨q, fs₁, (.init .request, u'), ?_, ⟨?_, his.url.trans hurl, ?_, ?_⟩,
    ⟨rfl, hclean, hready, hver.2⟩, hwf, hfits, hrec, hout, hworld⟩
  · refine exec_of_reads hS.env hreads (Found.init_sound _) hne ?_ ?_
    · rw [hs.ready]
      exact ConnectionState.noConfusion
    · rw [hready]
      rfl
  · exact Option.some.inj (his.verb.symm.trans hverb)
  · exact his.headers.trans hheaders
  · exact his.body.trans hbody

end Connection

namespace Client

variable {E : Env} {W : Strategy} {N : Network} {c c₁ : Client} {s s₁ : System} {r : Request}

/-- A connected client that does not ask first writes its request, and reads nothing meanwhile. -/
theorem ask_plain (hW : W.Full) (hc : connect N { c with done := false } s = (true, c₁, s₁))
    (hb : r.message.body.Whole s.fs) (hnew : r.message.data = [] ∧ r.require100 = false)
    (hexp : ¬ r.Expects) : ∃ s₂ w, c.ask E W N s r =
        some (none, c₁, s₂, (r.setHost c.host).prepare) ∧ s₂.fs = s.fs ∧
      s₂.wires = Function.update s.wires c₁.fd w ∧
      (s.wires c₁.fd).Wrote w ((r.setHost c.host).wire s.fs) := by
  obtain ⟨hwires, hfs, -⟩ := connect_spec hc
  obtain ⟨hbody, hcases⟩ := (r.setHost c.host).prepare_cases
  obtain ⟨hreq, hdata⟩ : (r.setHost c.host).prepare.require100 = false ∧
      (r.setHost c.host).prepare.message.data =
        (r.setHost c.host).head ++ r.message.body.data := by
    obtain ⟨he, -⟩ | ⟨-, hq, hd⟩ := hcases
    · exact absurd he hexp
    · rw [show (r.setHost c.host).message.data = [] from hnew.1] at hd
      exact ⟨hq.trans hnew.2, hd⟩
  generalize hr' : (r.setHost c.host).prepare = r' at hbody hreq hdata ⊢
  obtain ⟨s₂, hh, hfs₂, -⟩ := sendHeaders_full hW c₁ s₁ r'
  obtain ⟨w, hw, hs₂⟩ := sendHeaders_spec hh
  obtain ⟨s₃, hs₃, hfs₃, -⟩ := sendBody_full hW c₁ s₂ r' (by rw [hbody, hfs₂, hfs]; exact hb)
  obtain ⟨w', hw', hs₃'⟩ := sendBody_spec hW.sendfile hs₃
  have hself : s₂.wires c₁.fd = w := by
    rw [hs₂]
    exact Function.update_self ..
  rw [hself, if_neg (by rw [hreq]; exact Bool.false_ne_true), List.nil_append, hbody, hfs₂, hfs]
    at hw'
  have hwrote := hw.trans hw'
  rw [hwires, hdata, List.append_assoc] at hwrote
  have hwait : (if r'.require100 then c₁.waitFor100 E s₂ else some (true, c₁, s₂)) =
      some (true, c₁, s₂) := if_neg (by rw [hreq]; exact Bool.false_ne_true)
  refine ⟨s₃, w', ask_of hr' hc hh hwait hs₃, hfs₃.trans (hfs₂.trans hfs), ?_, hwrote⟩
  rw [hs₃', hs₂]
  change Function.update (Function.update s₁.wires c₁.fd w) c₁.fd w' = _
  rw [Function.update_idem, hwires]

end Client

/-- The clients of one server: their side, the server's side of each socket, and what the
connections of the server share. -/
structure Peers (ω : Type) where
  system : System
  conns : ℤ → HttpParser × Connection.Objects ω
  fs : Fs
  world : ω

namespace Peers

open Connection

variable {ω : Type} {S : Server ω} {E : Env} {W : Strategy}

/-- Nothing was sent yet. -/
def new (fs' fs : Fs) (world : ω) : Peers ω :=
  ⟨.new (fun _ => .new []) fs', fun _ => accepted fs world, fs, world⟩

/-- The server's side of a socket, with what is shared. -/
def enter (x : Peers ω) (fd : ℤ) : HttpParser × Objects ω :=
  ((x.conns fd).1, { (x.conns fd).2 with
    fs := x.fs, cx := { (x.conns fd).2.cx with world := x.world } })

/-- The clients' side when `pieces` come in on a socket. -/
def deliver (x : Peers ω) (fd : ℤ) (pieces : List Bytes) : System :=
  x.system.setWire fd { x.system.wires fd with inbox := pieces }

/-- On every socket the last response was read to its end, and the server waits for a request. -/
structure Idle (x : Peers ω) : Prop where
  unread : ∀ fd, (x.system.wires fd).inbox = []
  waiting : ∀ fd, Waiting (x.conns fd)

theorem new_idle (fs' fs : Fs) (world : ω) : (new fs' fs world).Idle :=
  ⟨fun _ => rfl, fun _ => accepted_waiting fs world⟩

theorem Idle.enter {x : Peers ω} (h : x.Idle) (fd : ℤ) : Waiting (x.enter fd) where
  parser := (h.waiting fd).parser
  clean := { (h.waiting fd).clean with }
  ready := (h.waiting fd).ready
  versioned := (h.waiting fd).versioned

/-- One socket was used, was read to the end, and its connection waits again. -/
theorem Idle.used {x : Peers ω} (hx : x.Idle) {fd : ℤ} {s' : System}
    {t : HttpParser × Objects ω} (hothers : ∀ fd' ≠ fd, s'.wires fd' = x.system.wires fd')
    (hread : (s'.wires fd).inbox = []) (ht : Waiting t) {fs : Fs} {world : ω} :
    Idle ⟨s', Function.update x.conns fd t, fs, world⟩ := by
  refine ⟨fun fd' => ?_, fun fd' => ?_⟩
  · by_cases hne : fd' = fd
    · rw [hne]
      exact hread
    · dsimp only
      rw [hothers fd' hne]
      exact hx.unread fd'
  · dsimp only
    by_cases hne : fd' = fd
    · rw [hne, Function.update_self]
      exact ht
    · rw [Function.update_of_ne hne]
      exact hx.waiting fd'

/-- What a `send` of `r` gives: the reply that the handler makes of this request. -/
def Answers (S : Server ω) (x : Peers ω) (host : Bytes) (r : Request) (reply reply' : Reply)
    (x' : Peers ω) : Prop :=
  ∃ handle q fs₁ blank, S.router.get r.url = some handle ∧
    (r.setHost host).Carried x.system.fs q fs₁ ∧ blank.Blank ∧
    let o := handle q blank fs₁ x.world
    o.2.1.Carried o.2.2.1 reply.message.headers reply' x'.system.fs ∧ x'.world = o.2.2.2

variable {x x' : Peers ω} {c c' : Client} {r : Request} {reply reply' : Reply} {ok : Bool}

theorem wires_deliver (x : Peers ω) (fd : ℤ) (pieces : List Bytes) :
    (x.deliver fd pieces).wires fd = { x.system.wires fd with inbox := pieces } :=
  Function.update_self ..

theorem wires_deliver_ne (x : Peers ω) {fd fd' : ℤ} (h : fd' ≠ fd) (pieces : List Bytes) :
    (x.deliver fd pieces).wires fd' = x.system.wires fd' :=
  Function.update_of_ne h ..

/-- A `send` that does not get a socket changes nothing. -/
theorem Idle.refused {N : Network} {s' : System} {r' : Request} {reads pieces : List Bytes}
    {k t : HttpParser × Objects ω} {halted : Bool} (hx : x.Idle) (hk : Waiting k)
    {c₁ : Client} {s₁ : System}
    (hc : Client.connect N { c with done := false } (x.deliver c'.fd pieces) = (false, c₁, s₁))
    (cut : ∀ d ∈ reads, d ≠ []) (cut' : Pieces pieces)
    (send : c.send E W N (x.deliver c'.fd pieces) r reply = some (ok, c', s', r', reply'))
    (asked : (s'.wires c'.fd).out = (x.system.wires c'.fd).out ++ reads.flatten)
    (served : exec S reads k = some (halted, t))
    (answered : t.2.cx.socket.out = k.2.cx.socket.out ++ pieces.flatten) :
    Idle ⟨s', Function.update x.conns c'.fd t, t.2.fs, t.2.cx.world⟩ ∧ ok = false ∧
      c'.error = .connectionError ∧ reply' = reply ∧ t.2.cx.world = k.2.cx.world := by
  have hnil : ∀ ds : List Bytes, (∀ d ∈ ds, d ≠ []) → ds.flatten = [] → ds = [] := by
    intro ds hds hf
    cases ds with
    | nil => rfl
    | cons d ds => exact absurd (List.append_eq_nil_iff.mp hf).1 (hds d List.mem_cons_self)
  obtain ⟨hwires, -, -⟩ := Client.connect_spec hc
  have hask : c.ask E W N (x.deliver c'.fd pieces) r =
      some (some .connectionError, c₁, s₁, (r.setHost c.host).prepare) := by
    unfold Client.ask
    dsimp only
    rw [hc]
  unfold Client.send at send
  rw [hask, Option.bind_some] at send
  obtain ⟨rfl, hc', rfl, -, rfl⟩ := Prod.mk.injEq .. ▸ Prod.mk.injEq .. ▸ Prod.mk.injEq .. ▸
    Prod.mk.injEq .. ▸ Option.some.inj send
  have hsame : (c₁.releaseSocket s₁).wires = (x.deliver c'.fd pieces).wires := hwires
  rw [hsame, wires_deliver] at asked
  -- nothing was written, so nothing was read
  obtain rfl := hnil reads cut (List.append_right_eq_self.mp asked.symm)
  obtain ⟨-, rfl⟩ := Prod.mk.injEq .. ▸ Option.some.inj served
  obtain rfl := hnil pieces cut'.ne (List.append_right_eq_self.mp answered.symm)
  refine ⟨hx.used (fun fd hfd => ?_) ?_ hk, rfl, hc' ▸ rfl, rfl, rfl⟩
  · rw [hsame, wires_deliver_ne x hfd]
  · rw [hsame, wires_deliver]

theorem not_expects {fs : Fs} (h : (r.setHost c.host).WellFormed fs) : ¬ r.Expects := by
  intro he
  have hnone : r.message.headers.get Message.expect = none := h.expect
  rw [Request.Expects, Message.getHeader, hnone] at he
  exact absurd he (by decide)

/-- A `send` that reads a reply which fits. -/
theorem sent (hE : E.Reliable) (hW : W.Full) {N : Network} {c₁ : Client} {s₁ : System}
    {pieces : List Bytes} (hnew : r.message.data = [] ∧ r.require100 = false)
    (hr : (r.setHost c.host).WellFormed x.system.fs) (hreply : reply.message.body.IsEmpty)
    (hc : Client.connect N { c with done := false } (x.deliver c₁.fd pieces) = (true, c₁, s₁))
    {o : Reply} {fs : Fs} (hwf : o.WellFormed fs) (hfits : o.Fits fs) (cut : Pieces pieces)
    (hpieces : pieces.flatten = o.wire fs) : ∃ c' s' r' reply' w',
      c.send E W N (x.deliver c₁.fd pieces) r reply = some (true, c', s', r', reply') ∧
      c'.fd = c₁.fd ∧ s'.wires = Function.update x.system.wires c₁.fd w' ∧ w'.inbox = [] ∧
      w'.out = (x.system.wires c₁.fd).out ++ (r.setHost c.host).wire x.system.fs ∧
      o.Carried fs reply.message.headers reply' s'.fs := by
  obtain ⟨s₂, w, hask, -, hwires₂, hwrote⟩ :=
    Client.ask_plain (E := E) (r := r) hW hc hr.whole hnew (not_expects hr)
  rw [wires_deliver] at hwrote
  have hself : s₂.wires c₁.fd = w := by rw [hwires₂, Function.update_self]
  obtain ⟨p, u, w', hread, hdrained, hheld⟩ : o.Arrives E fs reply s₂.fs w :=
    (Reply.arrives_of_wire hwf hE hreply (by rw [hwrote.inbox]; exact cut)
      (by rw [hwrote.inbox]; exact hpieces)).mpr hfits
  let s₃ : System := { s₂.setWire c₁.fd w' with fs := u.fs }
  refine ⟨{ c₁ with done := u.cx }, { c₁ with done := u.cx }.releaseSocket s₃,
    (r.setHost c.host).prepare, u.reply, w', ?_, rfl, ?_, hdrained, ?_, hheld⟩
  · unfold Client.send
    rw [hask, Option.bind_some]
    dsimp only
    unfold Client.receive
    rw [hself, hread]
    rfl
  · change Function.update s₂.wires c₁.fd w' = _
    rw [hwires₂]
    unfold deliver System.setWire
    rw [Function.update_idem, Function.update_idem]
  · rw [(Client.readLoop_read hread).out, hwrote.out]
    rfl

end Peers

end Stutter
