import Stutter.Serving

namespace Stutter

open Joyent

namespace Incoming

/-- The request says `Expect: 100-continue`. -/
def Expects (i : Incoming) : Prop :=
  (i.headers.get Message.expect).getD [] = Message.oneHundredContinue

/-- What is recorded as an error, although nothing is wrong. -/
theorem WellFormed.need100Continue {i : Incoming} (h : i.WellFormed) (hx : i.Expects) :
    Session.errorOf i.url i.fields = .need100Continue := by
  obtain ⟨h₀, h₁⟩ := h.upload_le i.fields.prefix_refl
  obtain ⟨e, he⟩ := Session.errorAfter_last .empty
    (if i.url.length ≤ MAX_URI_LENGTH then .ok else .uriTooLong) i.fields
  rw [Session.errorOf, he]
  exact (if_neg (not_or.mpr ⟨not_lt.mpr h₀, not_lt.mpr h₁⟩)).trans (if_pos hx)

end Incoming

namespace Connection

variable {ω : Type} {S : Server ω}

/-- A request that is refused is answered without the handler, and the connection ends. -/
theorem refuse (hW : S.io.Full) {p : HttpParser} {v : Objects ω} (hm : v.mode = .request)
    (he : v.error ≠ .ok) (hb : v.reply.message.body.IsEmpty) :
    ∃ r u', process S p v = some (true, .init .request, u') ∧ Clean u' ∧
      u'.cx.record = v.cx.record ++ [⟨none, r, v.fs, true⟩] ∧
      u'.cx.socket.out = v.cx.socket.out ++ r.wire v.fs ∧ u'.cx.state.halts = true ∧
      r.code = (processError v.error v.reply).code ∧
      (¬ isHttp10 p → r.httpMajor = v.reply.httpMajor ∧ r.httpMinor = v.reply.httpMinor) := by
  classical
  let u₁ : Objects ω := { v with
    reply := processError v.error v.reply, cx := { v.cx with state := .parseError } }
  have hans : answer S v = some u₁ := by rw [answer, if_pos he]
  have hbody : (checkClose p u₁).reply.message.body = v.reply.message.body ∧
      (checkClose p u₁).reply.code = (processError v.error v.reply).code := by
    have hp : u₁.reply.message.body = v.reply.message.body :=
      congrArg Message.body (processError_message ..)
    rw [checkClose]
    split_ifs <;> exact ⟨hp, rfl⟩
  have hver : ¬ isHttp10 p → (checkClose p u₁).reply.httpMajor = v.reply.httpMajor ∧
      (checkClose p u₁).reply.httpMinor = v.reply.httpMinor := by
    intro hv
    have hp : u₁.reply.httpMajor = v.reply.httpMajor ∧
        u₁.reply.httpMinor = v.reply.httpMinor := by
      change (processError v.error v.reply).httpMajor = _ ∧
        (processError v.error v.reply).httpMinor = _
      cases v.error <;> exact ⟨rfl, rfl⟩
    rw [checkClose, if_neg hv]
    split_ifs <;> exact hp
  have hstate : (checkClose p u₁).cx.state.halts = true := by
    rw [checkClose_state]
    split_ifs <;> rfl
  obtain ⟨u', hcon, hcl, -, -, hout, hst, hrec, -⟩ := conclude_full (S := S) hW
    (u := checkClose p u₁) ((mode_checkClose p u₁).trans hm)
    (by rw [hbody.1]; exact hb.whole _) (given v) p
  rw [fs_checkClose, socket_checkClose] at hout
  rw [fs_checkClose, record_checkClose, given, if_pos he] at hrec
  refine ⟨(checkClose p u₁).reply, u', ?_, hcl, hrec, hout, by rw [hst]; exact hstate, hbody.2,
    hver⟩
  rw [process, hans, Option.map_some]
  exact congrArg some hcon

/-- The end of a request that expects an answer before its body. -/
theorem expecting_awaits (hE : S.env.Reliable) (hW : S.io.Full) {i : Incoming} (hi : i.WellFormed)
    (hx : i.Expects) {u : Objects ω} (hu : Clean u) :
    ∃ q v r u', Awaits S (.init .request, u) i.bytes q v ∧
      Completes (Session.settings S.env (process S)) q v (.init .request, u') ∧ Clean u' ∧
      (∃ fs, u'.cx.record = u.cx.record ++ [⟨none, r, fs, true⟩] ∧
        u'.cx.socket.out = u.cx.socket.out ++ r.wire fs) ∧ u'.cx.state.halts = true ∧
      r.code = 400 ∧ r.httpMajor = u.reply.httpMajor ∧ r.httpMinor = u.reply.httpMinor := by
  have hurl : (u.onData S.env .url i.url).error ≠ .uriTooLong := hi.url_fits hu.fresh
  obtain ⟨q, -, -, -, hmin, hfin⟩ := hi.finishes rfl (lawful_still hE u.cx) (u := u)
    ⟨by rw [hu.error]; decide, rfl⟩ ⟨hurl, Session.cx_onData S.env .url i.url u⟩
  have herr := (Session.deliver_eq hE hu.fresh i.fragments_called).1
  rw [Incoming.url_fragments, Incoming.lines_fragments, hi.need100Continue hx] at herr
  have hframe : (Session.deliver S.env u i.fragments).mode = .request ∧
      (Session.deliver S.env u i.fragments).reply = u.reply ∧
      (Session.deliver S.env u i.fragments).cx = u.cx := by
    refine Session.deliver_keeps (P := fun v => v.mode = .request ∧ v.reply = u.reply ∧ v.cx = u.cx)
      (fun v k frag h => ?_) (fun v h => ?_) ⟨hu.mode, rfl, rfl⟩ _
    · obtain ⟨hm, hr⟩ := Session.onData_request S.env h.1 k frag
      exact ⟨hm, hr.trans h.2.1, (Session.cx_onData ..).trans h.2.2⟩
    · obtain ⟨hm, hr⟩ := Session.saveLastHeader_request h.1
      exact ⟨hm, hr.trans h.2.1, (Session.cx_saveLastHeader _).trans h.2.2⟩
  obtain ⟨hmode, hrep, hcx⟩ := hframe
  have hv : ((Session.deliver S.env u i.fragments).complete (q.goto q.newMessage)).mode = .request ∧
      ((Session.deliver S.env u i.fragments).complete (q.goto q.newMessage)).reply = u.reply := by
    rw [Session.complete, hmode]
    exact ⟨rfl, hrep⟩
  have he := (Session.complete_error (Session.deliver S.env u i.fragments)
    (q.goto q.newMessage)).trans herr
  have hc := (Session.cx_complete (Session.deliver S.env u i.fragments)
    (q.goto q.newMessage)).trans hcx
  obtain ⟨r, u', hcall, hcl, hrec, hout, hst, hcode, hver⟩ := refuse hW (p := q.goto q.newMessage)
    hv.1 (by rw [he]; decide) (by rw [hv.2]; exact hu.empty)
  rw [hc] at hrec hout
  rw [hv.2] at hcode hver
  rw [he] at hcode
  obtain ⟨hmaj', hmin'⟩ := hver fun h10 => by
    have h0 : q.httpMinor = 0 := h10.2
    rw [hmin] at h0
    exact absurd h0 (by decide)
  refine ⟨q, _, r, u', hfin, ⟨?_, rfl⟩, hcl, ⟨_, hrec, hout⟩, hst, hcode, hmaj', hmin'⟩
  rw [Session.settings]
  dsimp only
  rw [Session.callback, hcall]
  rfl

/-- The answer to the head of a request whose client withholds the body. -/
def Continued (S : Server ω) (fs : Fs) (w : ω) (i : Incoming) : Prop :=
  ∀ reads : List Bytes, (∀ d ∈ reads, d ≠ []) → reads.flatten = i.head →
    ∃ p u, exec S reads (accepted fs w) = some (false, p, u) ∧
      u.cx.socket.out = ascii "HTTP/1.1 100 Continue" ++ crlf ++ crlf

/-- The request reaches its handler when all of it has come. -/
def Handled (S : Server ω) (fs : Fs) (w : ω) (i : Incoming) : Prop :=
  ∀ reads : List Bytes, (∀ d ∈ reads, d ≠ []) → reads.flatten = i.bytes →
    ∃ halted p u, exec S reads (accepted fs w) = some (halted, p, u) ∧
      ∃ e ∈ u.cx.record, ∃ q fs', e.handled = some (q, fs') ∧ i.Is q fs'

/-- While the body is withheld nothing is written, and `exec` waits for more. -/
theorem withheld (hE : S.env.Reliable) (hW : S.io.Full) {i : Incoming} (hi : i.WellFormed)
    (hx : i.Expects) (hb : i.entity.bytes ≠ []) (fs : Fs) (w : ω) {reads : List Bytes}
    (hne : ∀ d ∈ reads, d ≠ []) (hcut : reads.flatten = i.head) :
    ∃ p u, exec S reads (accepted fs w) = some (false, p, u) ∧ u.cx.socket.out = [] ∧
      u.cx.record = [] := by
  obtain ⟨q, v, -, -, hfin, -⟩ := expecting_awaits hE hW hi hx (accepted_clean fs w)
  obtain ⟨⟨p, u⟩, hr, -⟩ := Finishes.split hfin hb
  obtain ⟨-, hcx⟩ := hr.isGood ⟨by rw [(accepted_clean fs w).error]; decide, rfl⟩
  have hcx' : u.cx = (accepted fs w).2.cx := hcx
  refine ⟨p, u, exec_of_reads hE (t := (p, u)) (by rw [hcut]; exact hr.mono fun _ => And.left)
    ⟨rfl, Nat.zero_le _⟩ hne ConnectionState.noConfusion ?_, ?_, ?_⟩
  · change u.cx.state.halts = false
    rw [hcx']
    rfl
  · rw [hcx']
    rfl
  · rw [hcx']
    rfl

/-- When the whole request has come it is refused, without the handler. -/
theorem expecting_refused (hE : S.env.Reliable) (hW : S.io.Full) {i : Incoming} (hi : i.WellFormed)
    (hx : i.Expects) (fs : Fs) (w : ω) {reads : List Bytes} (hne : ∀ d ∈ reads, d ≠ [])
    (hcut : reads.flatten = i.bytes) :
    ∃ p u r fs', exec S reads (accepted fs w) = some (true, p, u) ∧
      u.cx.record = [⟨none, r, fs', true⟩] ∧ u.cx.socket.out = r.wire fs' ∧ r.code = 400 ∧
      r.httpMajor = 1 ∧ r.httpMinor = 1 := by
  obtain ⟨q, v, r, u', hfin, hc, hcl, ⟨fs', hrec, hout⟩, hst, hcode, hmaj, hmin⟩ :=
    expecting_awaits hE hW hi hx (accepted_clean fs w)
  refine ⟨.init .request, u', r, fs', ?_, hrec, hout, hcode, hmaj, hmin⟩
  have h := exec_of_awaits hE (s := accepted fs w) (by rw [hcut]; exact hfin) hc
    (by rw [hcl.error]; decide) ⟨rfl, Nat.zero_le _⟩ hne rfl
    (by intro h; rw [show u'.cx.state = _ from h] at hst; exact absurd hst (by decide))
  rwa [hst] at h

/-- The handshake never takes place: no request that asks for it is told to go on, and none is
handled. -/
theorem not_continued (hE : S.env.Reliable) (hW : S.io.Full) {i : Incoming} (hi : i.WellFormed)
    (hx : i.Expects) (fs : Fs) (w : ω) : ¬ Continued S fs w i ∧ ¬ Handled S fs w i := by
  have hhead : i.head ≠ [] := by
    rw [Incoming.head]
    exact List.append_ne_nil_of_right_ne_nil _ (List.cons_ne_nil _ _)
  have hbytes : i.bytes ≠ [] := List.append_ne_nil_of_left_ne_nil hhead _
  constructor
  · intro h
    obtain ⟨p, u, hex, hout⟩ := h [i.head] (by simpa using hhead) (by simp)
    by_cases hb : i.entity.bytes = []
    · obtain ⟨p', u', r, fs', hex', -⟩ := expecting_refused hE hW hi hx fs w
        (show ∀ d ∈ [i.head], d ≠ [] by simpa using hhead) (by rw [Incoming.bytes, hb]; simp)
      rw [hex] at hex'
      simp at hex'
    · obtain ⟨p', u', hex', hout', -⟩ := withheld hE hW hi hx hb fs w
        (show ∀ d ∈ [i.head], d ≠ [] by simpa using hhead) (by simp)
      obtain ⟨-, -, rfl⟩ := Prod.mk.injEq .. ▸ Prod.mk.injEq .. ▸
        Option.some.inj (hex.symm.trans hex')
      rw [hout'] at hout
      exact absurd hout (by decide)
  · intro h
    obtain ⟨halted, p, u, hex, e, he, q, fq, hq, -⟩ := h [i.bytes] (by simpa using hbytes) (by simp)
    obtain ⟨p', u', r, fs', hex', hrec, -⟩ := expecting_refused hE hW hi hx fs w
      (show ∀ d ∈ [i.bytes], d ≠ [] by simpa using hbytes) (by simp)
    obtain ⟨-, -, rfl⟩ := Prod.mk.injEq .. ▸ Prod.mk.injEq .. ▸
      Option.some.inj (hex.symm.trans hex')
    rw [hrec] at he
    obtain rfl := List.mem_singleton.mp he
    exact absurd hq (by simp)

/-- An upload of two bytes that waits for the server. -/
def patient : Incoming where
  method := .post
  url := ascii "/"
  lines := [
    .of Message.expect Message.oneHundredContinue (by decide +kernel),
    lengthTwo]
  entity := .length (ascii "hi")

theorem patient_wellFormed : patient.WellFormed where
  verb := by decide
  url := by decide
  short := by decide
  head := by decide
  framed := ⟨⟨by decide +kernel, by decide +kernel, by decide +kernel⟩, by decide,
    by decide +kernel, by decide +kernel⟩
  upload := by
    intro body h
    obtain rfl := Entity.length.inj h
    decide

theorem not_continued_patient : ¬ Continued (keeper Unit) .new () patient ∧
    ¬ Handled (keeper Unit) .new () patient :=
  not_continued Env.linux_reliable keeper_full patient_wellFormed
    (show (patient.headers.get Message.expect).getD [] = _ by decide +kernel) .new ()

/-- The head is not answered, and the whole request is refused. -/
theorem patient_refused :
    ((exec (keeper Unit) [patient.head] (accepted .new ())).map fun r =>
      (r.1, r.2.2.cx.socket.out)) = some (false, []) ∧
    ((exec (keeper Unit) [patient.head, ascii "hi"] (accepted .new ())).map fun r =>
      (r.1, r.2.2.cx.socket.out)) = some (true,
        ascii ("HTTP/1.1 400 Bad request\r\nConnection: keep-alive\r\n" ++
          "Content-Length: 0\r\n\r\n")) := by
  constructor <;> decide +kernel

end Connection

end Stutter
