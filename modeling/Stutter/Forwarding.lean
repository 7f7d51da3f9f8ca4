import Stutter.Relay
import Stutter.Watch

namespace Stutter

open Joyent

/-- A copy of a body has what it has, wherever that is. -/
theorem Body.Received.copy {E : Env} (hE : E.Healthy) {b : Body} {fs : Fs} (h : b.Received fs) :
    (b.copy E fs).1.size = b.size ∧ (b.copy E fs).1.Whole (b.copy E fs).2 ∧
      (b.copy E fs).1.content (b.copy E fs).2 = b.content fs := by
  have hwhole := h.whole
  obtain ⟨fs₀, hdata, hsize, hdisk⟩ := h
  refine ⟨rfl, ?_⟩
  -- a body in memory is copied; one on disk is read through a second descriptor
  obtain ⟨-, hle, -⟩ | ⟨hfd, o, happ, -, -, -⟩ := hdisk
  · have hlen : b.data.length = b.size := by
      rw [congrArg List.length hdata, List.length_take, hsize, min_eq_right hle]
    have hnone : b.sizeOnDisk = 0 := by
      rw [sizeOnDisk, hlen, Nat.sub_self]
    have hnone' : (b.copy E fs).1.sizeOnDisk = 0 := hnone
    refine ⟨?_, ?_⟩
    · rw [Whole, hnone']
      exact Nat.zero_le _
    · rw [content, content, hnone', hnone]
      rfl
  · obtain ⟨hlook, -⟩ := Fs.writer_eq.mp happ.writer
    obtain ⟨fd, ha, hpos, -⟩ := Heap.allocate_healthy hE fs
    have hcopy : b.copy E fs = ({ b with fd := fd, unlink := false },
        { fs with calls := fs.calls + 1, descs := (fd, o) :: fs.descs }) := by
      simp only [Body.copy, Fs.dup, hlook, ha]
    have hfile : (b.copy E fs).1.file (b.copy E fs).2 = b.file fs := by
      rw [hcopy, file, file, if_pos hpos, if_pos hfd, Fs.contents_of hlook]
      exact Fs.contents_of List.lookup_cons_self
    refine ⟨?_, ?_⟩
    · rw [Whole, hfile]
      exact hwhole
    · rw [content, content, hfile]
      rfl

namespace Request

/-- A request as a handler is given it: its body is there, and nothing was written yet. -/
structure Given (q : Request) (fs : Fs) : Prop where
  body : q.message.body.Received fs
  data : q.message.data = []
  asked : q.require100 = false

end Request

namespace Connection

variable {ω : Type} {S : Server ω}

/-- Every request that was given to a handler was given whole, and so is the next one. -/
structure Keeping (u : Objects ω) : Prop where
  mode : u.mode = .request
  next : u.error = .ok → u.request.Given u.fs
  given : ∀ e ∈ u.cx.record, ∀ x, e.handled = some x → x.1.Given x.2

theorem Clean.given {u : Objects ω} (h : Clean u) : u.request.Given u.fs := by
  obtain ⟨b, hb, hq⟩ := h.request
  rw [hq]
  exact ⟨hb.received _, rfl, rfl⟩

theorem Keeping.storeHeader {u : Objects ω} (h : Keeping u) : Keeping u.storeHeader := by
  obtain ⟨mode, error, key, val, got, r, rp, fs, cx⟩ := u
  obtain ⟨hm, hnext, hgiven⟩ := h
  dsimp only at hm hnext hgiven
  subst hm
  rw [Session.storeHeader]
  cases got with
  | true => exact ⟨rfl, fun he => ⟨(hnext he).body, (hnext he).data, (hnext he).asked⟩, hgiven⟩
  | false => exact ⟨rfl, hnext, hgiven⟩

theorem Keeping.saveLastHeader {u : Objects ω} (h : Keeping u) : Keeping u.saveLastHeader := by
  have hs := h.storeHeader
  rw [Session.saveLastHeader, Session.checkHeaders, if_pos hs.mode]
  refine ⟨hs.mode, fun he => ?_, hs.given⟩
  exact hs.next ((Session.verdict_ok _ _).mp he).1

theorem Keeping.onData {E : Env} (hE : E.Reliable) {u : Objects ω} (h : Keeping u) (k : Mark)
    (frag : Bytes) : Keeping (u.onData E k frag) := by
  cases k with
  | url =>
    rw [Session.onData, Session.addUrlFragment]
    split_ifs
    · exact ⟨h.mode, fun he => ParseError.noConfusion he, h.given⟩
    · exact ⟨h.mode, fun he => ⟨(h.next he).body, (h.next he).data, (h.next he).asked⟩, h.given⟩
    · exact h
  | headerField => exact ⟨h.saveLastHeader.mode, h.saveLastHeader.next, h.saveLastHeader.given⟩
  | headerValue => exact ⟨h.mode, h.next, h.given⟩
  | body =>
    simp only [Session.onData, Session.addBodyFragment, Session.msg, Session.setMsg, h.mode,
      Message.addBody_eq hE]
    split_ifs
    · exact ⟨rfl, fun he => ⟨((h.next he).body.store hE frag).1, (h.next he).data,
        (h.next he).asked⟩, h.given⟩
    · exact h

theorem Keeping.complete {u : Objects ω} (h : Keeping u) (p : HttpParser) :
    Keeping (u.complete p) := by
  obtain ⟨he, -, hmsg, hfs⟩ := Session.complete_request h.mode p
  have hasked : (u.complete p).request.require100 = u.request.require100 := by
    rw [Session.complete, h.mode]
    dsimp only [Request.setVerb]
    rw [Request.extractQueryString]
    split <;> rfl
  refine ⟨?_, fun hok => ?_, ?_⟩
  · rw [Session.complete, h.mode]
  · obtain ⟨hbody, hdata, hno⟩ := h.next (he ▸ hok)
    exact ⟨by rw [hmsg, hfs]; exact hbody, by rw [hmsg]; exact hdata, hasked.trans hno⟩
  · rw [Session.cx_complete]
    exact h.given

theorem keeps_given (hE : S.env.Reliable) :
    (Session.settings S.env (process S)).Keeps (Keeping (ω := ω)) where
  data k frag _ h := h.onData hE k frag
  headers _ _ h := h.saveLastHeader
  complete {p u r p' u'} hc h := by
    obtain ⟨⟨ok, q, v⟩, hf, he⟩ := Option.map_eq_some_iff.mp hc
    obtain ⟨-, -, rfl⟩ := Prod.mk.injEq .. ▸ Prod.mk.injEq .. ▸ he
    have hcomp := h.complete p
    obtain ⟨u₁, -, hp⟩ := process_spec hf
    have hrec : ∀ e ∈ v.cx.record, ∀ x, e.handled = some x → x.1.Given x.2 := by
      rw [hp.record]
      intro e he x hx
      obtain he | he := List.mem_append.mp he
      · exact hcomp.given e he x hx
      · obtain rfl := List.mem_singleton.mp he
        have hgiven : given (u.complete p) = some x := hx
        rw [given] at hgiven
        split_ifs at hgiven with hok
        obtain rfl := Option.some.inj hgiven
        exact hcomp.next (not_not.mp hok)
    -- behind a failed `send` the request stays, with the error set
    cases ok with
    | true =>
      obtain ⟨-, -, hclean, -⟩ := process_clean hcomp.mode hf
      exact ⟨hclean.mode, fun _ => hclean.given, hrec⟩
    | false => exact ⟨hp.mode.trans hcomp.mode, fun hok => ParseError.noConfusion hok, hrec⟩

/-- In every run each request that a handler is given is there whole. -/
theorem exec_given (hE : S.env.Reliable) {reads : List Bytes} {s t : HttpParser × Objects ω}
    {halted : Bool} (h : exec S reads s = some (halted, t)) (hs : Keeping s.2) : Keeping t.2 :=
  exec_keeps (keeps_given hE) (fun _ _ _ h => ⟨h.mode, h.next, h.given⟩) h hs

/-- A waiting connection that has kept its requests handles one more, and the handler is given it
whole. -/
theorem answered_given (hS : Server.Regular S) {s t : HttpParser × Objects ω} (hs : Waiting s)
    (hk : Keeping s.2) {r : Request} {fs : Fs} (hr : r.WellFormed fs)
    (route : (S.router.get r.url).isSome) {reads : List Bytes} (hne : ∀ d ∈ reads, d ≠ [])
    (hcut : reads.flatten = r.wire fs) {halted : Bool} (hx : exec S reads s = some (halted, t)) :
    halted = false ∧ Waiting t ∧ ∃ q fs' e, t.2.cx.record = s.2.cx.record ++ [e] ∧
      e.handled = some (q, fs') ∧ r.Carried fs q fs' ∧ q.Given fs' := by
  obtain ⟨handle, hroute⟩ := Option.isSome_iff_exists.mp route
  obtain ⟨q, fs₁, t', hexec, hcarried, hwaiting, -, -, hrec, -, -⟩ :=
    answered hS hs hr hroute hne hcut
  obtain ⟨rfl, rfl⟩ := Prod.mk.injEq .. ▸ Option.some.inj (hx.symm.trans hexec)
  have hmem := List.mem_append_right s.2.cx.record (List.mem_singleton_self
    (⟨some (q, fs₁), (handle q s.2.reply fs₁ s.2.cx.world).2.1,
      (handle q s.2.reply fs₁ s.2.cx.world).2.2.1, true⟩ : Exchange))
  rw [← hrec] at hmem
  exact ⟨rfl, hwaiting, q, fs₁, _, hrec, rfl, hcarried,
    (exec_given hS.env hx hk).given _ hmem (q, fs₁) rfl⟩

end Connection

namespace Request

/-- A request that a handler was given and can send on, whatever the host. -/
structure Forwardable (q : Request) (fs : Fs) : Prop extends q.Given fs where
  url : isUrl q.url = true
  short : q.url.length ≤ MAX_URI_LENGTH
  headers : Headers.Writable q.message.headers
  expect : q.message.headers.get Message.expect = none
  connec : q.message.headers.get Message.connec ≠ some Message.close
  coding : q.message.headers.get Reply.transferEncoding = none
  upgrade : q.message.headers.get Joyent.upgrade = none
  length : ∀ v, q.verb = .get → q.message.headers.get Message.contentLength = some v →
    IsNumeral v q.message.body.size
  bare : q.verb = .get → q.message.headers.get Message.contentLength = none →
    q.message.body.size = 0
  upload : (q.message.body.size : ℤ) ≤ MAX_UPLOAD_SIZE

/-- What a handler sends on: `http::Request fw(req)`, with the host of the client. -/
def onward (E : Env) (q : Request) (fs : Fs) (host : Bytes) : Request × Fs :=
  ((q.copy E fs).1.setHost host, (q.copy E fs).2)

variable {E : Env} {q r : Request} {fs fs' : Fs} {host : Bytes}

theorem Forwardable.onward (hE : E.Healthy) (h : q.Forwardable fs)
    (hhost : Writable (Message.host, host))
    (hlen : (q.onward E fs host).1.head.length ≤ maxHeaderSize) :
    (q.onward E fs host).1.WellFormed (q.onward E fs host).2 := by
  obtain ⟨hsize, hwhole, -⟩ := h.body.copy hE
  have hupload : ((q.message.body.copy E fs).1.size : ℤ) ≤ MAX_UPLOAD_SIZE := by
    rw [hsize]
    exact h.upload
  refine ⟨h.url, h.short, hhost, h.headers, h.expect, h.connec, h.coding, h.upgrade, fun hg => ?_,
    hupload, hwhole, hlen⟩
  have hget : (q.onward E fs host).1.message.headers.get Message.contentLength =
      q.message.headers.get Message.contentLength := rfl
  have hsame : (q.onward E fs host).1.message.body.size = q.message.body.size := hsize
  rw [hget, hsame]
  cases hv : q.message.headers.get Message.contentLength with
  | none => exact h.bare hg hv
  | some v => exact h.length v hg hv

/-- What a well-formed request is handled as can be sent on. -/
theorem Carried.forwardable (hr : r.WellFormed fs) (h : r.Carried fs q fs') (hg : q.Given fs') :
    q.Forwardable fs' := by
  have hget := h.getHeader hr.size_le
  have hother : ∀ key, nocase key ≠ nocase Message.contentLength →
      nocase key ≠ nocase Message.host →
      q.message.headers.get key = r.message.headers.get key := fun key hl hh =>
    (hget key).trans (r.sentHeader_of_ne hl hh)
  have hhost : ¬ nocase Message.contentLength = nocase Message.host := by decide +kernel
  have hlength : q.verb = .get → q.message.headers.get Message.contentLength =
      r.message.headers.get Message.contentLength := fun hv => by
    rw [hget, sentHeader, if_neg fun hx => hx.1 (h.verb ▸ hv), if_neg hhost]
  have hsize : q.message.body.size = r.message.body.size := by
    rw [← hg.body.whole.length_content, h.body, hr.whole.length_content]
  refine { hg with
    url := by rw [h.url]; exact hr.url
    short := by rw [h.url]; exact hr.short
    headers := by rw [h.headers]; exact hr.prepareHeaders_writable
    expect := by rw [hother _ (by decide +kernel) (by decide +kernel)]; exact hr.expect
    connec := by rw [hother _ (by decide +kernel) (by decide +kernel)]; exact hr.connec
    coding := by rw [hother _ (by decide +kernel) (by decide +kernel)]; exact hr.coding
    upgrade := by rw [hother _ (by decide +kernel) (by decide +kernel)]; exact hr.upgrade
    length := fun v hv hc => ?_
    bare := fun hv hc => ?_
    upload := by rw [hsize]; exact hr.upload }
  · have hlen := hr.length (h.verb ▸ hv)
    rw [← hlength hv, hc] at hlen
    rw [hsize]
    exact hlen
  · have hlen := hr.length (h.verb ▸ hv)
    rw [← hlength hv, hc] at hlen
    rw [hsize]
    exact hlen

/-- Two requests that differ in the host and in the length that was announced at most. -/
structure Matches (q : Request) (fs : Fs) (q' : Request) (fs' : Fs) : Prop where
  verb : q'.verb = q.verb
  url : q'.url = q.url
  headers : ∀ key, nocase key ≠ nocase Message.contentLength → nocase key ≠ nocase Message.host →
    q'.message.headers.get key = q.message.headers.get key
  body : q'.message.body.content fs' = q.message.body.content fs

theorem Matches.refl (q : Request) (fs : Fs) : q.Matches fs q fs :=
  ⟨rfl, rfl, fun _ _ _ => rfl, rfl⟩

theorem Matches.trans {q₁ q₂ q₃ : Request} {fs₁ fs₂ fs₃ : Fs} (h : q₁.Matches fs₁ q₂ fs₂)
    (h' : q₂.Matches fs₂ q₃ fs₃) : q₁.Matches fs₁ q₃ fs₃ :=
  ⟨h'.verb.trans h.verb, h'.url.trans h.url,
    fun key hl hh => (h'.headers key hl hh).trans (h.headers key hl hh), h'.body.trans h.body⟩

end Request

namespace Connection

/-- One hop: the handler of a request sends it on, the next server reads what is written in some
cut, and calls a handler with `q'`. -/
inductive Hop (E : Env) : Request × Fs → Request × Fs → Prop
  | mk {ω : Type} {S : Server ω} {s t : HttpParser × Objects ω} {q q' : Request} {fs fs' : Fs}
    {host : Bytes} {reads : List Bytes} {halted : Bool} {es : List Exchange} {e : Exchange}
    (server : Server.Regular S) (waiting : Waiting s) (keeping : Keeping s.2)
    (named : Writable (Message.host, host))
    (short : (q.onward E fs host).1.head.length ≤ maxHeaderSize)
    (route : (S.router.get q.url).isSome) (cut : ∀ d ∈ reads, d ≠ [])
    (wire : reads.flatten = (q.onward E fs host).1.wire (q.onward E fs host).2)
    (run : exec S reads s = some (halted, t)) (record : t.2.cx.record = s.2.cx.record ++ es)
    (mem : e ∈ es) (handled : e.handled = some (q', fs')) : Hop E (q, fs) (q', fs')

theorem Hop.matches {E : Env} (hE : E.Healthy) {x y : Request × Fs} (h : Hop E x y)
    (hx : x.1.Forwardable x.2) : y.1.Forwardable y.2 ∧ x.1.Matches x.2 y.1 y.2 := by
  cases h with
  | @mk ω S s t q q' fs fs' host reads halted es e server waiting keeping named short route cut wire
    run record mem handled =>
  have hwell := hx.onward hE named short
  obtain ⟨-, -, q₁, fs₁, e₁, hrec, he, hcarried, hgiven⟩ :=
    answered_given server waiting keeping hwell route cut wire run
  obtain rfl : es = [e₁] := List.append_cancel_left (record.symm.trans hrec)
  obtain rfl := List.mem_singleton.mp mem
  obtain ⟨rfl, rfl⟩ := Prod.mk.injEq .. ▸ Option.some.inj (handled.symm.trans he)
  obtain ⟨-, -, hcontent⟩ := hx.body.copy hE
  refine ⟨hcarried.forwardable hwell hgiven, hcarried.verb, hcarried.url, fun key hl hh => ?_,
    hcarried.body.trans hcontent⟩
  exact (hcarried.getHeader hwell.size_le key).trans (Request.sentHeader_of_ne _ hl hh)

/-- However many servers send a request on, each to the next, and whatever the cuts: each handler is
given the request that the first one was, but for the host and the length. -/
theorem forwarded {E : Env} (hE : E.Healthy) {x y : Request × Fs}
    (h : Relation.ReflTransGen (Hop E) x y) (hx : x.1.Forwardable x.2) :
    y.1.Forwardable y.2 ∧ x.1.Matches x.2 y.1 y.2 := by
  induction h with
  | refl => exact ⟨hx, .refl ..⟩
  | tail _ hop ih =>
    obtain ⟨hnext, hmatches⟩ := ih
    obtain ⟨hlast, hone⟩ := hop.matches hE hnext
    exact ⟨hlast, hmatches.trans hone⟩

/-- The next server handles what is sent on, whatever the cut. -/
theorem hop_exists {ω : Type} {S : Server ω} {E : Env} (hE : E.Healthy) (hS : Server.Regular S)
    {s : HttpParser × Objects ω} (hs : Waiting s) (hk : Keeping s.2) {q : Request} {fs : Fs}
    (hq : q.Forwardable fs) {host : Bytes} (named : Writable (Message.host, host))
    (short : (q.onward E fs host).1.head.length ≤ maxHeaderSize)
    (route : (S.router.get q.url).isSome) {reads : List Bytes} (cut : ∀ d ∈ reads, d ≠ [])
    (wire : reads.flatten = (q.onward E fs host).1.wire (q.onward E fs host).2) :
    ∃ y, Hop E (q, fs) y := by
  obtain ⟨handle, hroute⟩ := Option.isSome_iff_exists.mp route
  obtain ⟨q', fs', t, hexec, -, -, -, -, hrec, -, -⟩ :=
    answered hS hs (hq.onward hE named short) hroute cut wire
  exact ⟨(q', fs'), .mk hS hs hk named short route cut wire hexec hrec (List.mem_singleton_self _)
    rfl⟩

def postHi : Request := { Request.new with
  verb := .post
  url := ascii "/"
  message := { Message.new with
    headers := SortedMap.empty.insertAll [(ascii "X", ascii "1")]
    body := (Body.new.bufferInMemory (ascii "hi")).2 } }

theorem postHi_forwardable : postHi.Forwardable .new where
  body := ⟨.new, by decide, by decide, .inl ⟨by decide, by decide, rfl⟩⟩
  data := rfl
  asked := rfl
  url := by decide
  short := by decide
  headers := by decide +kernel
  expect := by decide +kernel
  connec := by decide +kernel
  coding := by decide +kernel
  upgrade := by decide +kernel
  length _ h := by cases h
  bare h := by cases h
  upload := by decide +kernel

/-- A request with a body, sent on byte by byte. -/
theorem forwarded_postHi : ∃ y, Hop .linux (postHi, .new) y ∧ y.1.Forwardable y.2 ∧
    postHi.Matches .new y.1 y.2 := by
  have hE := Env.linux_reliable.toHealthy
  have hnamed : Writable (Message.host, ascii "b") := by decide +kernel
  have hkeep : Keeping (accepted .new ()).2 :=
    ⟨rfl, fun _ => (accepted_clean .new ()).given, List.forall_mem_nil _⟩
  obtain ⟨y, hop⟩ := hop_exists hE keeper_regular (accepted_waiting .new ()) hkeep
    postHi_forwardable hnamed (by decide +kernel) rfl
    (Pieces.singles _).ne (Pieces.flatten_singles _)
  exact ⟨y, hop, forwarded hE (.single hop) postHi_forwardable⟩

end Connection

end Stutter
