import Stutter.Finished
import Stutter.Stored
import Stutter.Watch

namespace Stutter

open Joyent

namespace Message

theorem size_addBody (E : Env) (m : Message) (fs : Fs) (p : Bytes) :
    (m.addBody E fs p).1.body.size ≤ m.body.size + p.length := by
  obtain ⟨b, fs', h⟩ := Body.addBody_some (E := E) m.body fs p
  rw [addBody, h]
  exact Body.size_addLoop (Nat.zero_le _) h

end Message

namespace Connection

variable {ω : Type} {S : Server ω}

/-- What comes of uploads, beside a connection: the bytes that the request held when the message
began, those that have come since, whether its headers say that it is too large, the lengths of the
messages before it, and whether all was within the limit or refused. -/
structure Meter where
  kept : ℕ
  size : ℕ
  large : Bool
  sizes : List ℕ
  within : Bool

namespace Meter

def new : Meter := ⟨0, 0, false, [], true⟩

/-- A length out of range is remembered, unless a later check finds one in range with
`Expect: 100-continue`. -/
def exceeds (m : Message) (large : Bool) : Bool :=
  let sz := atol (m.getHeader Message.contentLength)
  if sz < 0 ∨ sz > MAX_UPLOAD_SIZE then true
  else if m.getHeader Message.expect = Message.oneHundredContinue then false
  else large

def headers (u : Objects ω) (m : Meter) : Meter :=
  { m with large := exceeds u.storeHeader.request.message m.large }

def data (k : Mark) (frag : Bytes) (u : Objects ω) (m : Meter) : Meter :=
  match k with
  | .url => { m with large := false }
  | .headerField => m.headers u
  | .headerValue => m
  | .body => { m with
      size := m.size + frag.length
      within := m.within &&
        (((m.kept + m.size + frag.length : ℕ) : ℤ) ≤ MAX_UPLOAD_SIZE || m.large) }

def complete (u : Objects ω) (m : Meter) : Meter where
  kept := u.request.message.body.size
  size := 0
  large := false
  sizes := m.sizes ++ [m.size]
  within := m.within && ((m.size : ℤ) ≤ MAX_UPLOAD_SIZE || m.large)

def ghost : Ghost (Objects ω) Meter := ⟨data, headers, fun _ _ => complete⟩

end Meter

/-- No handler adds to the body of the request it is given. -/
def Server.LeavesBody (S : Server ω) : Prop :=
  ∀ h ∈ S.router.handlers, ∀ r reply fs w,
    (h.2 r reply fs w).1.message.body.size ≤ r.message.body.size

/-- An exchange for a request whose body has `n` bytes keeps the limit. -/
def Exchange.Limited (e : Exchange) (n : ℕ) : Prop :=
  (∀ q fs, e.handled = some (q, fs) → (q.message.body.size : ℤ) ≤ MAX_UPLOAD_SIZE) ∧
    ((n : ℤ) > MAX_UPLOAD_SIZE → e.handled = none ∧ e.reply.code = 413)

/-- What the meter says of its connection. -/
structure Metered (x : Objects ω × Meter) : Prop where
  mode : x.1.mode = .request
  large : x.2.large = true → x.1.error = .bodyTooLarge
  size : x.1.request.message.body.size ≤ x.2.kept + x.2.size
  within : x.2.within = true → (x.1.request.message.body.size : ℤ) ≤ MAX_UPLOAD_SIZE ∧
    List.Forall₂ Exchange.Limited x.1.cx.record x.2.sizes

theorem process_body (hS : Server.LeavesBody S) {p p' : HttpParser} {u u' : Objects ω} {ok : Bool}
    (h : process S p u = some (ok, p', u')) :
    u'.request.message.body.size ≤ u.request.message.body.size := by
  obtain ⟨u₁, ha, hr⟩ := Option.map_eq_some_iff.mp h
  have hle : u₁.request.message.body.size ≤ u.request.message.body.size := by
    rw [answer] at ha
    split_ifs at ha
    · obtain rfl := Option.some.inj ha
      exact le_rfl
    · obtain ⟨handle, hg, rfl⟩ := Option.map_eq_some_iff.mp ha
      obtain ⟨⟨pre, handle'⟩, hf, rfl⟩ := Option.map_eq_some_iff.mp hg
      exact hS _ (List.mem_of_find?_eq_some hf) ..
  generalize hx : respond S (given u) (checkClose p u₁) = x at hr
  obtain ⟨sent, u₂⟩ := x
  have hreq : u₂.request = u₁.request := by
    rw [respond] at hx
    obtain ⟨-, rfl⟩ := Prod.mk.injEq .. ▸ hx
    exact request_checkClose p u₁
  cases sent
  · obtain ⟨-, -, rfl⟩ := Prod.mk.injEq .. ▸ Prod.mk.injEq .. ▸ hr
    rw [← hreq] at hle
    exact hle
  · obtain ⟨-, -, rfl⟩ := Prod.mk.injEq .. ▸ Prod.mk.injEq .. ▸ hr
    exact (le_of_eq (u₂.request.message.body.clear_isEmpty u₂.fs).size).trans (Nat.zero_le _)

/-- A body that is too large is refused so. -/
theorem answer_large {p : HttpParser} {u u₁ : Objects ω} (he : u.error = .bodyTooLarge)
    (h : answer S u = some u₁) : (checkClose p u₁).reply.code = 413 := by
  rw [answer, if_pos (by rw [he]; decide)] at h
  obtain rfl := Option.some.inj h
  rw [code_checkClose, he]
  change toInt16 413 = 413
  decide

theorem exceeds_verdict {m : Message} {e : ParseError} {large : Bool}
    (h : large = true → e = .bodyTooLarge) (hl : Meter.exceeds m large = true) :
    Session.verdict m e = .bodyTooLarge := by
  simp only [Meter.exceeds, Session.verdict] at hl ⊢
  split_ifs at hl ⊢
  · rfl
  · exact h hl

theorem body_storeHeader {u : Objects ω} (hm : u.mode = .request) :
    u.storeHeader.request.message.body = u.request.message.body := by
  rw [Session.storeHeader]
  split_ifs
  · rw [Session.setMsg, Session.msg, hm]
    rfl
  · rfl

namespace Metered

variable {u : Objects ω} {m : Meter}

theorem headers (h : Metered (u, m)) : Metered (u.saveLastHeader, m.headers u) := by
  have hm : u.storeHeader.mode = .request := (Session.mode_storeHeader u).trans h.mode
  have hs : u.saveLastHeader = { u.storeHeader with
      error := Session.verdict u.storeHeader.request.message u.error } := by
    rw [Session.saveLastHeader, Session.checkHeaders, if_pos hm, Session.error_storeHeader]
  have hb := body_storeHeader h.mode
  have hc : u.storeHeader.cx = u.cx := by
    have := Session.cx_saveLastHeader u
    rwa [hs] at this
  rw [hs]
  refine ⟨hm, fun hl => exceeds_verdict h.large hl, ?_, fun hw => ?_⟩
  · change u.storeHeader.request.message.body.size ≤ _
    rw [hb]
    exact h.size
  · change (u.storeHeader.request.message.body.size : ℤ) ≤ _ ∧ _
    rw [hb, hc]
    exact h.within hw

theorem url (h : Metered (u, m)) (frag : Bytes) :
    Metered (u.addUrlFragment frag, { m with large := false }) := by
  rw [Session.addUrlFragment]
  split_ifs <;> exact ⟨h.mode, fun hl => absurd hl Bool.false_ne_true, h.size, h.within⟩

theorem body (h : Metered (u, m)) (E : Env) (frag : Bytes) :
    Metered (u.addBodyFragment E frag, m.data .body frag u) := by
  have hw : (m.data .body frag u).within = true → m.within = true ∧
      (((m.kept + m.size + frag.length : ℕ) : ℤ) ≤ MAX_UPLOAD_SIZE ∨ m.large = true) := by
    simp [Meter.data]
  rw [Session.addBodyFragment]
  split_ifs with he
  · have hsz := Message.size_addBody E u.request.message u.fs frag
    have hu : u.msg = u.request.message := by rw [Session.msg, h.mode]
    have hset : ∀ m', u.setMsg m' = { u with request := { u.request with message := m' } } :=
      fun m' => by rw [Session.setMsg, h.mode]
    have hle := h.size
    rw [hu]
    dsimp only
    rw [hset]
    refine ⟨h.mode, h.large, ?_, fun hin => ?_⟩
    · change (u.request.message.addBody E u.fs frag).1.body.size ≤ m.kept + (m.size + frag.length)
      dsimp only at hle
      omega
    · obtain ⟨hin, hsize | hl⟩ := hw hin
      · refine ⟨le_trans ?_ hsize, (h.within hin).2⟩
        change ((u.request.message.addBody E u.fs frag).1.body.size : ℤ) ≤ _
        dsimp only at hle
        omega
      · exact absurd (h.large hl) he
  · exact ⟨h.mode, h.large, h.size.trans (by simp only [Meter.data]; omega),
      fun hin => h.within (hw hin).1⟩

theorem complete (hS : Server.LeavesBody S) (h : Metered (u, m)) {p p' : HttpParser} {r : ℤ}
    {u' : Objects ω} (hc : Session.callback (process S) p u = some (r, p', u')) :
    Metered (u', m.complete u') := by
  obtain ⟨⟨ok, q, v⟩, hf, he⟩ := Option.map_eq_some_iff.mp hc
  obtain ⟨-, rfl, hv⟩ := Prod.mk.injEq .. ▸ Prod.mk.injEq .. ▸ he
  obtain ⟨herr, -, hmsg, -⟩ := Session.complete_request h.mode p
  have hmode : (u.complete p).mode = .request := by rw [Session.complete, h.mode]
  obtain ⟨u₁, ha, hp⟩ := process_spec hf
  have hsize := process_body hS hf
  rw [hmsg] at hsize
  have hrec := hp.record
  rw [Session.cx_complete] at hrec
  have hsame : u'.mode = v.mode ∧ u'.request = v.request ∧ u'.cx = v.cx := by
    subst hv
    split_ifs <;> exact ⟨rfl, rfl, rfl⟩
  obtain ⟨hm', hr', hc'⟩ := hsame
  refine ⟨(hm'.trans hp.mode).trans hmode, fun hl => absurd hl Bool.false_ne_true,
    le_of_eq (Nat.add_zero _).symm, fun hw => ?_⟩
  obtain ⟨hin, hlim⟩ : m.within = true ∧ ((m.size : ℤ) ≤ MAX_UPLOAD_SIZE ∨ m.large = true) := by
    simpa [Meter.complete] using hw
  obtain ⟨hb, hf₂⟩ := h.within hin
  refine ⟨?_, ?_⟩
  · change (u'.request.message.body.size : ℤ) ≤ _
    rw [hr']
    exact le_trans (by exact_mod_cast hsize) hb
  · change List.Forall₂ _ u'.cx.record (m.sizes ++ [m.size])
    rw [hc', hrec]
    refine List.rel_append hf₂ (.cons ⟨fun q fs hq => ?_, fun hn => ?_⟩ .nil)
    · rw [given] at hq
      split_ifs at hq
      obtain ⟨rfl, -⟩ := Prod.mk.injEq .. ▸ Option.some.inj hq
      rw [hmsg]
      exact hb
    · have he : (u.complete p).error = .bodyTooLarge :=
        herr.trans (h.large (hlim.resolve_left (not_le.mpr hn)))
      exact ⟨by rw [given, if_pos (by rw [he]; decide)], answer_large he ha⟩

end Metered

theorem keeps_metered (hS : Server.LeavesBody S) :
    ((Session.settings S.env (process S)).beside Meter.ghost).Keeps Metered where
  data k frag x h := by
    cases k with
    | url => exact h.url frag
    | headerField =>
      obtain ⟨hm, hl, hs, hw⟩ := h.headers
      exact ⟨hm, hl, hs, hw⟩
    | headerValue => exact ⟨h.mode, h.large, h.size, h.within⟩
    | body => exact h.body S.env frag
  headers p x h := h.headers
  complete hc h := by
    obtain ⟨⟨r, p, u⟩, hf, he⟩ := Option.map_eq_some_iff.mp hc
    obtain ⟨-, -, rfl⟩ := Prod.mk.injEq .. ▸ Prod.mk.injEq .. ▸ he
    exact h.complete hS hf

theorem watched_metered (hS : Server.LeavesBody S) : Watched S Meter.ghost Metered where
  keeps := keeps_metered hS
  aside _ _ _ _ h := ⟨h.mode, h.large, h.size, h.within⟩

/-- In every run whose meter has stayed within the limit: no body that is stored exceeds it, and a
request whose body is longer is refused with 413. -/
theorem upload_limited (hS : Server.LeavesBody S) {reads : List Bytes} {fs : Fs} {w : ω}
    {halted : Bool} {p : HttpParser} {u : Objects ω}
    (h : exec S reads (accepted fs w) = some (halted, p, u))
    (hw : (watch S Meter.ghost reads (accepted fs w) .new).within = true) :
    (u.request.message.body.size : ℤ) ≤ MAX_UPLOAD_SIZE ∧ List.Forall₂ Exchange.Limited u.cx.record
      (watch S Meter.ghost reads (accepted fs w) .new).sizes := by
  have hm : Metered ((accepted fs w).2, Meter.new) :=
    ⟨rfl, fun hl => absurd hl Bool.false_ne_true, le_rfl,
      fun _ => ⟨show (0 : ℤ) ≤ _ by decide, .nil⟩⟩
  exact ((watched_metered hS).exec h hm).within hw

theorem keeper_body : Server.LeavesBody (keeper ω) := by
  intro h hh r reply fs w
  obtain rfl := List.mem_singleton.mp hh
  exact le_rfl

/-- Two uploads, of which the second is too large and still on its way. -/
def uploads : List Bytes :=
  [ascii "PUT / HTTP/1.1\r\nContent-Length: 2\r\n", ascii "\r\nhi",
    ascii "PUT / HTTP/1.1\r\nContent-Length: 2000000\r\n\r\nabc"]

theorem upload_limited_uploads : ∃ p u,
    exec (keeper Unit) uploads (accepted .new ()) = some (false, p, u) ∧
    (u.request.message.body.size : ℤ) ≤ MAX_UPLOAD_SIZE ∧ List.Forall₂ Exchange.Limited u.cx.record
      (watch (keeper Unit) Meter.ghost uploads (accepted .new ()) .new).sizes := by
  have hok : (exec (keeper Unit) uploads (accepted .new ())).map Prod.fst = some false := by
    decide +kernel
  obtain ⟨⟨halted, p, u⟩, h, hf⟩ := Option.map_eq_some_iff.mp hok
  obtain rfl : halted = false := hf
  exact ⟨p, u, h, upload_limited keeper_body h (by decide +kernel)⟩

/-- A chunk with one byte more than the limit. -/
def vastChunk : Chunk where
  line := { ChunkLine.last with
    size := ascii "100001"
    size_ne := by decide
    size_hex := by decide +kernel
    size_lt := by decide +kernel
    short := by decide +kernel }
  data := List.replicate 1048577 0
  length := by
    rw [List.length_replicate]
    decide +kernel
  ne := List.replicate_eq_nil_iff _ |>.not.mpr (by decide)

/-- A chunked upload, whose length no header says. -/
def vast : Incoming where
  method := .put
  url := ascii "/"
  lines := [.of Reply.transferEncoding (ascii "chunked") (by decide +kernel)]
  entity := .chunked [vastChunk] .last

theorem vast_wellFormed : vast.WellFormed where
  verb := by decide
  url := by decide
  short := by decide
  head := by decide
  framed := ⟨⟨by decide +kernel, by decide +kernel, by decide +kernel⟩, by decide,
    by decide +kernel, by decide +kernel⟩
  upload _ hc := by cases hc

/-- The handler is given a body above the limit, and answers it. -/
theorem upload_unlimited : ∃ p u,
    exec (keeper Unit) [vast.bytes] (accepted .new ()) = some (false, p, u) ∧
    ∃ e ∈ u.cx.record, e.reply.code = 200 ∧ ∃ q fs, e.handled = some (q, fs) ∧
      (q.message.body.size : ℤ) > MAX_UPLOAD_SIZE := by
  obtain ⟨q, fs, u, his, hr, -, hst, hrec, -⟩ := serve (S := keeper Unit) Env.linux_reliable
    keeper_full keeper_whole keeper_leaves vast_wellFormed
      ⟨by decide +kernel, by decide +kernel⟩ rfl
    (accepted_clean .new ())
  have hex :
      exec (keeper Unit) [vast.bytes] (accepted .new ()) = some (false, .init .request, u) := by
    refine exec_of_reads Env.linux_reliable (s := accepted .new ()) ?_ ⟨rfl, Nat.zero_le _⟩ ?_
      ConnectionState.noConfusion (by rw [hst]; rfl)
    · rw [List.flatten_cons, List.flatten_nil, List.append_nil]
      exact hr
    · rintro d hd rfl
      have hb := List.mem_singleton.mp hd
      rw [Incoming.bytes, Incoming.head] at hb
      exact absurd (List.append_eq_nil_iff.mp hb.symm).1
        (List.append_ne_nil_of_right_ne_nil _ (by decide))
  refine ⟨_, u, hex, _, by rw [hrec]; exact List.mem_singleton_self _, rfl, q, fs, rfl, ?_⟩
  have hlen : (q.message.body.content fs).length = 1048577 := by
    rw [his.body]
    change (vastChunk.data ++ []).length = _
    rw [List.append_nil]
    exact List.length_replicate
  have hsize : (q.message.body.content fs).length ≤ q.message.body.size := by
    have hs := q.message.body.sized
    rw [Body.content, List.length_append, List.length_take, Body.sizeOnDisk]
    omega
  rw [hlen] at hsize
  rw [MAX_UPLOAD_SIZE]
  omega

end Connection

end Stutter
