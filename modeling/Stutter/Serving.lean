import Stutter.Alike
import Stutter.Incoming

namespace Stutter

open Joyent

namespace Incoming

/-- Neither an answer before the body nor the end of the connection is asked for. -/
structure Plain (i : Incoming) : Prop where
  expect : ∀ l ∈ i.lines, ¬ l.Named Message.expect
  connec : ∀ l ∈ i.lines, l.Named Message.connec → l.value ≠ Message.close

/-- `q` is the request that was written. -/
structure Is (i : Incoming) (q : Request) (fs : Fs) : Prop where
  verb : Session.verbOf i.method = some q.verb
  url : q.url = i.url
  headers : q.message.headers = i.headers
  body : q.message.body.content fs = i.entity.body

theorem WellFormed.accepted {i : Incoming} (h : i.WellFormed) (hp : i.Plain) :
    Session.errorOf i.url i.fields = .ok := by
  refine (Session.errorOf_ok _ _).mpr ⟨h.short, fun es hes => ?_⟩
  obtain ⟨h₀, h₁⟩ := h.upload_le hes
  refine ⟨h₀, h₁, ?_⟩
  obtain hv | ⟨l, hl, hk, -⟩ := get_fields hes Message.expect
  · rw [hv]
    decide
  · exact absurd hk (hp.expect l hl)

theorem verbOf_isSome {m : Method} (h : m.isVerb = true) : ∃ v, Session.verbOf m = some v := by
  simp only [Method.isVerb, List.mem_cons, List.not_mem_nil, or_false, decide_eq_true_eq] at h
  obtain rfl | rfl | rfl | rfl | rfl := h <;> exact ⟨_, rfl⟩

/-- The request that a new parser has read, at its end. -/
theorem WellFormed.delivered {i : Incoming} (h : i.WellFormed) {E : Env} (hE : E.Reliable)
    {χ : Type} {u : Session χ} (hu : u.Fresh) (he : Session.errorOf i.url i.fields = .ok)
    {q : HttpParser} (hq : q.method = i.method) :
    let v := (Session.deliver E u i.fragments).complete q
    v.mode = .request ∧ v.error = .ok ∧ i.Is v.request v.fs ∧ v.reply = u.reply ∧ v.cx = u.cx := by
  obtain ⟨herr, hok⟩ := Session.deliver_eq hE hu i.fragments_called
  rw [url_fragments, lines_fragments] at herr hok
  obtain ⟨body, fs, hd, hb⟩ := hok he
  rw [body_fragments] at hb
  obtain ⟨verb, hv⟩ := verbOf_isSome h.verb
  have hm : (Session.deliver E u i.fragments).mode = .request := by
    rw [hd]
    exact hu.mode
  obtain ⟨ho, hurl, hmsg, hfs⟩ := Session.complete_request hm q
  have hverb : ((Session.deliver E u i.fragments).complete q).request.verb = verb := by
    rw [Session.complete, hm]
    dsimp only [Request.setVerb]
    rw [hq, hv]
    rfl
  refine ⟨?_, ho.trans (herr.trans he), ⟨by rw [hverb]; exact hv, ?_, ?_, ?_⟩, ?_, ?_⟩
  · rw [Session.complete, hm]
  · rw [hurl, hd]
  · rw [hmsg, hd]
    rfl
  · rw [hmsg, hfs, hd]
    exact hb.content
  · rw [Session.complete, hm, hd]
    rfl
  · rw [Session.cx_complete, hd]
    rfl

end Incoming

namespace Connection

variable {ω : Type} {S : Server ω}

theorem process_resets (S : Server ω) : Session.Callback.Resets (process S) := by
  intro p u ok p' u' h
  obtain ⟨u₁, -, hp⟩ := process_spec h
  rw [hp.parser]
  cases ok
  · exact .inl rfl
  · exact .inr ⟨_, rfl⟩

theorem lawful (hE : S.env.Reliable) : (Session.settings S.env (process S)).Lawful
    fun u => u.error ≠ .uriTooLong :=
  Session.lawful hE (process_resets S)

/-- Until `process` is called the callbacks leave the connection alone. -/
theorem lawful_still (hE : S.env.Reliable) (c : Connection ω) :
    (Session.settings S.env (process S)).Lawful fun u => u.error ≠ .uriTooLong ∧ u.cx = c where
  data_ok := (lawful hE).data_ok
  data_append k f g u hf h := (lawful hE).data_append k f g u hf (h.imp id And.left)
  data_whole k f g u hf h := by
    obtain ⟨hg, heq⟩ := (lawful hE).data_whole k f g u hf h.1
    refine ⟨⟨hg, ?_⟩, heq⟩
    exact (Session.cx_onData S.env k f u).trans
      ((Session.cx_onData S.env k (f ++ g) u).symm.trans h.2)
  data_good k f u hk h :=
    ⟨(lawful hE).data_good k f u hk h.1, (Session.cx_onData S.env k f u).trans h.2⟩
  headers_ok := (lawful hE).headers_ok
  headers_eq := (lawful hE).headers_eq
  headers_good p u h := ⟨(lawful hE).headers_good p u h.1, (Session.cx_saveLastHeader u).trans h.2⟩
  complete := (lawful hE).complete

/-- The connection reads the bytes one by one. -/
abbrev Reads (S : Server ω) : HttpParser × Objects ω → Bytes → HttpParser × Objects ω → Prop :=
  Runs (Session.settings S.env (process S)) fun u => u.error ≠ .uriTooLong

/-- The connection reads the bytes of one message, and does nothing else before its end. -/
abbrev Awaits (S : Server ω) (s : HttpParser × Objects ω) (bs : Bytes) (q : HttpParser)
    (v : Objects ω) : Prop :=
  Finishes (Session.settings S.env (process S))
    (fun u => u.error ≠ .uriTooLong ∧ u.cx = s.2.cx) s bs q v

theorem Clean.fresh {u : Objects ω} (h : Clean u) : u.Fresh := by
  obtain ⟨b, hb, hr⟩ := h.request
  exact ⟨h.mode, h.error, h.headerKey, h.headerVal, h.headerGotval, by rw [hr], by rw [hr]; rfl,
    by rw [hr]; exact hb⟩

/-- `exec` over reads of any size, up to a state in which it reads on. -/
theorem exec_of_reads (hE : S.env.Reliable) {s t : HttpParser × Objects ω} {reads : List Bytes}
    (h : Reads S s reads.flatten t) (hs : s.1.Sound) (hne : ∀ d ∈ reads, d ≠ [])
    (hn : s.2.cx.state ≠ .need100Continue) (ht : t.2.cx.state.halts = false) :
    exec S reads s = some (false, t) := by
  induction reads generalizing s with
  | nil =>
    obtain _ | _ := h
    rfl
  | cons d reads ih =>
    obtain ⟨r, h₁, h₂⟩ := h.split
    have hr := h₁.sound (lawful hE) hs
    have hrn : r.2.cx.state ≠ .need100Continue :=
      h₁.keeps (lawful hE) (Session.keeps_cx (P := fun x : Connection ω =>
        x.state ≠ .need100Continue) process_need) hs hn
    have hrh : r.2.cx.state.halts = false := by
      by_contra hc
      have hk := h₂.keeps (lawful hE) (Session.keeps_cx (P := fun x : Connection ω =>
        x.state.halts = true) process_halts) hr (by simpa using hc)
      rw [ht] at hk
      exact Bool.false_ne_true hk
    have hturn : turn S s d = some (false, r) := by
      rw [turn, if_neg (hne d List.mem_cons_self), add, Session.add,
        execute_of_runs (lawful hE) hs (hne d List.mem_cons_self) h₁]
      simp only [Option.map_some, if_neg hrn, hrh]
    rw [exec, hturn]
    exact ih h₂ hr (fun d hd => hne d (List.mem_cons_of_mem _ hd)) hrn

/-- `exec` over reads of any size, up to the end of a message. -/
theorem exec_of_awaits (hE : S.env.Reliable) {s t : HttpParser × Objects ω} {reads : List Bytes}
    {q : HttpParser} {v : Objects ω} (h : Awaits S s reads.flatten q v)
    (hc : Completes (Session.settings S.env (process S)) q v t) (hg : t.2.error ≠ .uriTooLong)
    (hs : s.1.Sound) (hne : ∀ d ∈ reads, d ≠ []) (hst : s.2.cx.state = .readyForData)
    (ht : t.2.cx.state ≠ .need100Continue) : exec S reads s = some (t.2.cx.state.halts, t) := by
  induction reads generalizing s with
  | nil =>
    obtain ⟨ps, ch, -, heq, -⟩ := h
    exact absurd heq.symm (List.append_ne_nil_of_right_ne_nil _ (List.cons_ne_nil _ _))
  | cons d reads ih =>
    have hd := hne d List.mem_cons_self
    rw [exec, turn, if_neg hd, add, Session.add]
    by_cases hr : reads.flatten = []
    · obtain rfl : reads = [] := by
        rcases reads with _ | ⟨d', reads⟩
        · rfl
        · exact absurd (List.append_eq_nil_iff.mp hr).1 (hne d' (by simp))
      rw [List.flatten_cons, List.flatten_nil, List.append_nil] at h
      rw [execute_of_runs (lawful hE) hs hd ((h.mono fun _ => And.left).runs hc hg)]
      simp only [Option.map_some, if_neg ht, Option.bind_some]
      split_ifs with hh
      · rw [hh]
      · rw [exec, Bool.not_eq_true _ |>.mp hh]
    · obtain ⟨r, h₁, h₂⟩ := h.split hr
      obtain ⟨-, hcx⟩ : r.2.error ≠ .uriTooLong ∧ r.2.cx = s.2.cx := by
        obtain _ | ⟨hf, hg', hr'⟩ := h₁
        · exact absurd rfl hd
        · exact hr'.isGood hg'
      have hrs : r.2.cx.state = .readyForData := by rw [hcx, hst]
      rw [execute_of_runs (lawful_still hE s.2.cx) hs hd h₁]
      simp only [Option.map_some, Option.bind_some, hrs, reduceCtorEq, if_false,
        ConnectionState.halts, Bool.false_eq_true]
      exact ih (by rwa [Awaits, hcx]) (h₁.sound (lawful_still hE s.2.cx) hs)
        (fun d hd => hne d (List.mem_cons_of_mem _ hd)) hrs

/-- The file behind the body of a reply has what the body counts on disk, whatever the handler. -/
def Server.Whole (S : Server ω) : Prop :=
  ∀ h ∈ S.router.handlers, ∀ (r : Request) {reply : Reply} (fs : Fs) (w : ω),
    reply.message.body.IsEmpty →
    (h.2 r reply fs w).2.1.message.body.Whole (h.2 r reply fs w).2.2.1

theorem Clean.empty {u : Objects ω} (h : Clean u) : u.reply.message.body.IsEmpty := by
  obtain ⟨b, hb, hr⟩ := h.reply
  rw [hr]
  exact hb

/-- One request is handled once and answered, and the connection is as before. -/
theorem serve (hE : S.env.Reliable) (hW : S.io.Full) (hb : Server.Whole S)
    (hc : Server.LeavesConnection S) {i : Incoming} (hi : i.WellFormed) (hp : i.Plain)
    {handle : Handler ω} (hr : S.router.get i.url = some handle) {u : Objects ω} (hu : Clean u) :
    ∃ q fs u', i.Is q fs ∧ Reads S (.init .request, u) i.bytes (.init .request, u') ∧ Clean u' ∧
      u'.cx.state = u.cx.state ∧
      let o := handle q u.reply fs u.cx.world
      u'.cx.record = u.cx.record ++ [⟨some (q, fs), o.2.1, o.2.2.1, true⟩] ∧
      u'.cx.socket.out = u.cx.socket.out ++ o.2.1.wire o.2.2.1 ∧ u'.cx.world = o.2.2.2 := by
  obtain ⟨p, -, hm, hmaj, hmin, hfin⟩ := hi.finishes rfl (lawful hE) (u := u)
    (by rw [hu.error]; decide) (hi.url_fits hu.fresh (E := S.env))
  obtain ⟨hmode, herr, his, hrep, hcx⟩ := hi.delivered hE hu.fresh (hi.accepted hp)
    (q := p.goto p.newMessage) hm
  generalize hv : (Session.deliver S.env u i.fragments).complete (p.goto p.newMessage) = v
    at hmode herr his hrep hcx
  have hroute : S.router.get v.request.url = some handle := by
    rw [his.url]
    exact hr
  let o := handle v.request v.reply v.fs v.cx.world
  let u₁ : Objects ω := { v with
    request := o.1, reply := o.2.1, fs := o.2.2.1, cx := { v.cx with world := o.2.2.2 } }
  have hans : answer S v = some u₁ := by
    rw [answer, if_neg (not_not.mpr herr), hroute]
    rfl
  have hask : ¬ asksClose v.request := by
    rw [asksClose, Message.getHeader, his.headers]
    obtain hv | ⟨l, hl, hk, hv⟩ := Incoming.get_fields i.fields.prefix_refl Message.connec
    · rw [Incoming.headers, hv]
      decide
    · rw [Incoming.headers, hv]
      exact hp.connec l hl hk
  have hclose : checkClose (p.goto p.newMessage) u₁ = u₁ := by
    refine checkClose_of_not (not_or.mpr ⟨fun h => ?_, ?_⟩)
    · have h0 : p.httpMinor = 0 := h.2
      rw [hmin] at h0
      exact absurd h0 (by decide)
    · rwa [answer_request hc hans]
  obtain ⟨⟨pre, handle'⟩, hf, rfl⟩ := Option.map_eq_some_iff.mp hr
  have hwhole : u₁.reply.message.body.Whole u₁.fs :=
    hb _ (List.mem_of_find?_eq_some hf) _ _ _ (by rw [hrep]; exact hu.empty)
  obtain ⟨u', hcon, hcl, -, -, hout, hst, hrec, hwor⟩ :=
    conclude_full hW (u := u₁) hmode hwhole (given v) (p.goto p.newMessage)
  have hcall : process S (p.goto p.newMessage) v = some (true, .init .request, u') := by
    rw [process, hans, Option.map_some, hclose]
    exact congrArg some hcon
  refine ⟨v.request, v.fs, u', his, hfin.runs ⟨?_, rfl⟩ ?_, hcl, ?_, ?_, ?_, ?_⟩
  · rw [Session.settings]
    dsimp only
    rw [Session.callback, hv, hcall]
    rfl
  · rw [hcl.error]
    decide
  · change u'.cx.state = v.cx.state at hst
    rw [hst, hcx]
  · rw [hrec, given, if_neg (not_not.mpr herr)]
    simp only [u₁, o, hrep, hcx]
  · rw [hout]
    simp only [u₁, o, hrep, hcx]
  · rw [hwor]
    simp only [u₁, o, hrep, hcx]

/-- The requests are handled one by one, each once: `es` are the exchanges that this gives. -/
inductive Served (S : Server ω) : List Incoming → ω → List Exchange → ω → Prop
  | nil (w : ω) : Served S [] w [] w
  | cons {i : Incoming} {is : List Incoming} {w w' : ω} {es : List Exchange} {handle : Handler ω}
    {q : Request} {fs : Fs} (reply : Reply) (route : S.router.get i.url = some handle)
    (received : i.Is q fs) (later : Served S is (handle q reply fs w).2.2.2 es w') :
    Served S (i :: is) w
      (⟨some (q, fs), (handle q reply fs w).2.1, (handle q reply fs w).2.2.1, true⟩ :: es) w'

/-- The bytes of the replies. -/
def written (es : List Exchange) : Bytes := es.flatMap fun e => e.reply.wire e.fs

theorem serve_all (hE : S.env.Reliable) (hW : S.io.Full) (hb : Server.Whole S)
    (hc : Server.LeavesConnection S) {is : List Incoming}
    (hi : ∀ i ∈ is, i.WellFormed ∧ i.Plain ∧ (S.router.get i.url).isSome) {u : Objects ω}
    (hu : Clean u) : ∃ u' es, Reads S (.init .request, u) (is.flatMap Incoming.bytes)
      (.init .request, u') ∧ u'.cx.state = u.cx.state ∧ u'.cx.record = u.cx.record ++ es ∧
      u'.cx.socket.out = u.cx.socket.out ++ written es ∧ Served S is u.cx.world es u'.cx.world := by
  induction is generalizing u with
  | nil => exact ⟨u, [], .nil _, rfl, (List.append_nil _).symm, (List.append_nil _).symm, .nil _⟩
  | cons i is ih =>
    obtain ⟨hwf, hp, hs⟩ := hi i List.mem_cons_self
    obtain ⟨handle, hr⟩ := Option.isSome_iff_exists.mp hs
    obtain ⟨q, fs, u₁, his, h₁, hcl, hst, hrec, hout, hwor⟩ := serve hE hW hb hc hwf hp hr hu
    obtain ⟨u', es, h₂, hst', hrec', hout', hserved⟩ :=
      ih (fun i hm => hi i (List.mem_cons_of_mem _ hm)) hcl
    refine ⟨u', _, h₁.append h₂, hst'.trans hst, ?_, ?_, .cons u.reply hr his (hwor ▸ hserved)⟩
    · rw [hrec', hrec, List.append_assoc]
      rfl
    · rw [hout', hout, List.append_assoc]
      rfl

/-- Requests that follow each other on one connection, in reads of any size: each is handled once
with what it says, the replies are written in the order of the requests, and `exec` reads on. -/
theorem pipelined (hE : S.env.Reliable) (hW : S.io.Full) (hb : Server.Whole S)
    (hc : Server.LeavesConnection S) {is : List Incoming}
    (hi : ∀ i ∈ is, i.WellFormed ∧ i.Plain ∧ (S.router.get i.url).isSome) {reads : List Bytes}
    (hne : ∀ d ∈ reads, d ≠ []) (hcut : reads.flatten = is.flatMap Incoming.bytes) (fs : Fs)
      (w : ω) :
    ∃ u, exec S reads (accepted fs w) = some (false, .init .request, u) ∧
      u.cx.state = .readyForData ∧ Served S is w u.cx.record u.cx.world ∧
      u.cx.socket.out = written u.cx.record := by
  obtain ⟨u, es, hr, hst, hrec, hout, hserved⟩ := serve_all hE hW hb hc hi (accepted_clean fs w)
  have hstate : u.cx.state = .readyForData := hst
  refine ⟨u, exec_of_reads hE (hcut ▸ hr) ⟨rfl, Nat.zero_le _⟩ hne ConnectionState.noConfusion
    (by rw [hstate]; rfl), hstate, ?_, ?_⟩
  · rw [hrec]
    exact hserved
  · rw [hout, hrec]
    rfl

theorem keeper_whole : Server.Whole (keeper ω) :=
  fun h hm r _ fs w hb => (keeper_alone h hm).whole r fs w hb

/-- The length of a body of two bytes. -/
def lengthTwo : HeaderLine := .of Message.contentLength (ascii "2") (by decide +kernel)

/-- A request without a body, and one with two bytes. -/
def twice : List Incoming :=
  [⟨.get, ascii "/", [], .empty⟩, ⟨.post, ascii "/", [lengthTwo], .length (ascii "hi")⟩]

theorem twice_wellFormed : ∀ i ∈ twice, i.WellFormed ∧ i.Plain ∧
    ((keeper Unit).router.get i.url).isSome := by
  intro i hi
  simp only [twice, List.mem_cons, List.not_mem_nil, or_false] at hi
  obtain rfl | rfl := hi
  · exact ⟨⟨by decide, by decide, by decide, by decide,
      ⟨⟨by decide, by decide, by decide⟩, by decide⟩, nofun⟩, ⟨by decide, by decide⟩, by decide⟩
  · refine ⟨⟨by decide, by decide, by decide, by decide, ⟨⟨by decide +kernel, by decide +kernel,
      by decide +kernel⟩, by decide, by decide +kernel, by decide +kernel⟩, fun body h => ?_⟩,
      ⟨by decide +kernel, by decide +kernel⟩, by decide⟩
    obtain rfl := Entity.length.inj h
    decide

/-- The second request begins in the read in which the first ends. -/
theorem pipelined_twice : ∃ u, exec (keeper Unit) [ascii "GET / HT",
    ascii "TP/1.1\r\n\r\nPOST / HTTP/1.1\r\nContent-Length: 2\r\n\r\nh", ascii "i"]
      (accepted .new ()) = some (false, .init .request, u) ∧ u.cx.state = .readyForData ∧
    Served (keeper Unit) twice () u.cx.record u.cx.world ∧
    u.cx.socket.out = written u.cx.record :=
  pipelined Env.linux_reliable keeper_full keeper_whole keeper_leaves twice_wellFormed (by decide)
    (by decide +kernel) .new ()

end Connection

end Stutter
