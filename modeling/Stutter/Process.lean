import Stutter.Connection
import Stutter.Joyent.Keeps

namespace Stutter

open Joyent

namespace Connection

variable {ω : Type}

/-- What makes `process` close the connection, besides an error. -/
def Closes (p : HttpParser) (r : Request) : Prop := isHttp10 p ∨ asksClose r

theorem checkClose_of {p : HttpParser} {u : Objects ω} (h : Closes p u.request) :
    (checkClose p u).cx.state = .shouldClose ∧
      (checkClose p u).reply.message.getHeader Message.connec = Message.close := by
  have hk : ∀ r : Reply, (r.addHeader Message.connec Message.close).message.getHeader
      Message.connec = Message.close := fun r => by
    rw [Reply.addHeader, Message.getHeader_addHeader, if_pos rfl]
  rw [checkClose]
  by_cases ha : asksClose u.request
  · have ha' : asksClose (if isHttp10 p then
        announceClose { u with reply := u.reply.setHttpVersion 1 0 } else u).request := by
      split_ifs <;> exact ha
    rw [if_pos ha']
    exact ⟨rfl, hk _⟩
  · have hv : isHttp10 p := h.resolve_right ha
    rw [if_pos hv, if_neg (by exact ha)]
    exact ⟨rfl, hk _⟩

theorem checkClose_of_not {p : HttpParser} {u : Objects ω} (h : ¬ Closes p u.request) :
    checkClose p u = u := by
  obtain ⟨hv, ha⟩ := not_or.mp h
  rw [checkClose]
  rw [if_neg hv, if_neg ha]

/-- The state in which `process` is with its reply ready, and the reply. -/
theorem checkClose_state (p : HttpParser) (u : Objects ω) [Decidable (Closes p u.request)] :
    (checkClose p u).cx.state = if Closes p u.request then .shouldClose else u.cx.state := by
  split_ifs with h
  · exact (checkClose_of h).1
  · rw [checkClose_of_not h]

@[simp] theorem mode_checkClose (p : HttpParser) (u : Objects ω) :
    (checkClose p u).mode = u.mode := by
  rw [checkClose]
  split_ifs <;> rfl

@[simp] theorem request_checkClose (p : HttpParser) (u : Objects ω) :
    (checkClose p u).request = u.request := by
  rw [checkClose]
  split_ifs <;> rfl

@[simp] theorem fs_checkClose (p : HttpParser) (u : Objects ω) : (checkClose p u).fs = u.fs := by
  rw [checkClose]
  split_ifs <;> rfl

@[simp] theorem socket_checkClose (p : HttpParser) (u : Objects ω) :
    (checkClose p u).cx.socket = u.cx.socket := by
  rw [checkClose]
  split_ifs <;> rfl

@[simp] theorem world_checkClose (p : HttpParser) (u : Objects ω) :
    (checkClose p u).cx.world = u.cx.world := by
  rw [checkClose]
  split_ifs <;> rfl

@[simp] theorem record_checkClose (p : HttpParser) (u : Objects ω) :
    (checkClose p u).cx.record = u.cx.record := by
  rw [checkClose]
  split_ifs <;> rfl

@[simp] theorem code_checkClose (p : HttpParser) (u : Objects ω) :
    (checkClose p u).reply.code = u.reply.code := by
  rw [checkClose]
  split_ifs <;> rfl

/-- The handler is called without the connection itself, and an error reply leaves it be. -/
theorem answer_frame {S : Server ω} {u u₁ : Objects ω} (h : answer S u = some u₁) :
    u₁.mode = u.mode ∧ u₁.cx.socket = u.cx.socket ∧ u₁.cx.record = u.cx.record ∧
      u₁.cx.state = if u.error ≠ .ok then .parseError else u.cx.state := by
  rw [answer] at h
  split_ifs at h ⊢ with he
  · obtain rfl := Option.some.inj h
    exact ⟨rfl, rfl, rfl, rfl⟩
  · obtain ⟨handle, -, rfl⟩ := Option.map_eq_some_iff.mp h
    exact ⟨rfl, rfl, rfl, rfl⟩

/-- What a call of `process` did: `v` are the objects when the reply is sent. -/
structure Processed (S : Server ω) (p : HttpParser) (u v : Objects ω) (ok : Bool)
    (p' : HttpParser) (u' : Objects ω) : Prop where
  sent : (send S.io u.cx.socket v.fs v.reply).1 = ok
  socket : u'.cx.socket = (send S.io u.cx.socket v.fs v.reply).2.2
  record : u'.cx.record = u.cx.record ++ [⟨given u, v.reply, v.fs, ok⟩]
  world : u'.cx.world = v.cx.world
  state : u'.cx.state = if ok then v.cx.state else .ioError
  parser : p' = if ok then .init (Session.parserType u.mode) else p
  mode : u'.mode = u.mode

theorem process_some {S : Server ω} (p : HttpParser) {u u₁ : Objects ω} (h : answer S u = some u₁) :
    ∃ ok p' u', process S p u = some (ok, p', u') := by
  obtain ⟨⟨ok, p', u'⟩, hr⟩ := Option.isSome_iff_exists.mp
    (show (process S p u).isSome by rw [process, h]; rfl)
  exact ⟨ok, p', u', hr⟩

theorem process_spec {S : Server ω} {p p' : HttpParser} {u u' : Objects ω} {ok : Bool}
    (h : process S p u = some (ok, p', u')) :
    ∃ u₁, answer S u = some u₁ ∧ Processed S p u (checkClose p u₁) ok p' u' := by
  obtain ⟨u₁, ha, hr⟩ := Option.map_eq_some_iff.mp h
  obtain ⟨hm, hs, hrec, -⟩ := answer_frame ha
  refine ⟨u₁, ha, ?_⟩
  rw [respond, socket_checkClose, record_checkClose, hs, hrec] at hr
  generalize hsend : send S.io u.cx.socket (checkClose p u₁).fs (checkClose p u₁).reply = s at hr
  obtain ⟨sent, reply, socket⟩ := s
  have hmode : (checkClose p u₁).mode = u.mode := (mode_checkClose p u₁).trans hm
  cases sent with
  | true =>
    obtain ⟨rfl, rfl, rfl⟩ := Prod.mk.injEq .. ▸ Prod.mk.injEq .. ▸ hr
    exact ⟨by rw [hsend], by rw [hsend], rfl, rfl, rfl, by rw [← hmode]; rfl, hmode⟩
  | false =>
    obtain ⟨rfl, rfl, rfl⟩ := Prod.mk.injEq .. ▸ Prod.mk.injEq .. ▸ hr
    exact ⟨by rw [hsend], by rw [hsend], rfl, rfl, rfl, rfl, hmode⟩

end Connection

namespace Session

variable {χ : Type}

@[simp] theorem cx_setMsg (u : Session χ) (m : Message) : (u.setMsg m).cx = u.cx := by
  rw [setMsg]
  cases u.mode <;> rfl

@[simp] theorem cx_saveLastHeader (u : Session χ) : u.saveLastHeader.cx = u.cx := by
  have hs : u.storeHeader.cx = u.cx := by
    rw [storeHeader]
    split_ifs
    · exact cx_setMsg u _
    · rfl
  rw [saveLastHeader, checkHeaders]
  split_ifs <;> exact hs

@[simp] theorem cx_onData (E : Env) (k : Mark) (frag : Bytes) (u : Session χ) :
    (u.onData E k frag).cx = u.cx := by
  cases k with
  | url =>
    rw [onData, addUrlFragment]
    split_ifs <;> rfl
  | headerField => exact cx_saveLastHeader u
  | headerValue => rfl
  | body =>
    rw [onData, addBodyFragment]
    split_ifs
    · exact cx_setMsg u _
    · rfl

@[simp] theorem cx_complete (u : Session χ) (p : HttpParser) : (u.complete p).cx = u.cx := by
  rw [complete]
  cases u.mode <;> rfl

theorem setMsg_request {u : Session χ} (hm : u.mode = .request) (m : Message) :
    (u.setMsg m).mode = .request ∧ (u.setMsg m).reply = u.reply := by
  rw [setMsg, hm]
  exact ⟨rfl, rfl⟩

/-- A parser of requests leaves the reply alone. -/
theorem saveLastHeader_request {u : Session χ} (hm : u.mode = .request) :
    u.saveLastHeader.mode = .request ∧ u.saveLastHeader.reply = u.reply := by
  have hs : u.storeHeader.mode = .request ∧ u.storeHeader.reply = u.reply := by
    rw [storeHeader]
    split_ifs
    · exact setMsg_request hm _
    · exact ⟨hm, rfl⟩
  rw [saveLastHeader, checkHeaders, if_pos hs.1]
  exact hs

theorem onData_request (E : Env) {u : Session χ} (hm : u.mode = .request) (k : Mark)
    (frag : Bytes) : (u.onData E k frag).mode = .request ∧ (u.onData E k frag).reply = u.reply := by
  cases k with
  | url =>
    rw [onData, addUrlFragment]
    split_ifs <;> exact ⟨hm, rfl⟩
  | headerField => exact saveLastHeader_request hm
  | headerValue => exact ⟨hm, rfl⟩
  | body =>
    rw [onData, addBodyFragment]
    split_ifs
    · exact setMsg_request hm _
    · exact ⟨hm, rfl⟩

/-- The callbacks of a parser leave the rest to `m_fun`. -/
theorem keeps_cx {E : Env} {fn : Callback χ} {P : χ → Prop}
    (h : ∀ {p u ok p' u'}, fn p u = some (ok, p', u') → P u.cx → P u'.cx) :
    (settings E fn).Keeps fun u => P u.cx where
  data k frag u hu := by
    change P (u.onData E k frag).cx
    rwa [cx_onData]
  headers p u hu := by
    change P u.saveLastHeader.cx
    rwa [cx_saveLastHeader]
  complete hc hu := by
    obtain ⟨⟨ok, p', u'⟩, hf, he⟩ := Option.map_eq_some_iff.mp hc
    obtain ⟨-, -, rfl⟩ := Prod.mk.injEq .. ▸ Prod.mk.injEq .. ▸ he
    have hp := h hf (by rwa [cx_complete])
    cases ok <;> exact hp

end Session

namespace Connection

variable {ω : Type}

/-- A connection that is to end stays so. -/
theorem process_halts {S : Server ω} {p p' : HttpParser} {u u' : Objects ω} {ok : Bool}
    (h : process S p u = some (ok, p', u')) (hs : u.cx.state.halts = true) :
    u'.cx.state.halts = true := by
  classical
  obtain ⟨u₁, ha, hp⟩ := process_spec h
  rw [hp.state, checkClose_state, (answer_frame ha).2.2.2]
  cases ok with
  | false => rfl
  | true =>
    rw [if_pos rfl]
    split_ifs
    · rfl
    · rfl
    · exact hs

/-- `ST_NEED_100_CONTINUE` is never set. -/
theorem process_need {S : Server ω} {p p' : HttpParser} {u u' : Objects ω} {ok : Bool}
    (h : process S p u = some (ok, p', u')) (hs : u.cx.state ≠ .need100Continue) :
    u'.cx.state ≠ .need100Continue := by
  classical
  obtain ⟨u₁, ha, hp⟩ := process_spec h
  rw [hp.state, checkClose_state, (answer_frame ha).2.2.2]
  cases ok with
  | false => exact ConnectionState.noConfusion
  | true =>
    rw [if_pos rfl]
    split_ifs
    · exact ConnectionState.noConfusion
    · exact ConnectionState.noConfusion
    · exact hs

/-- Whatever is left of the read, `exec` returns after it. -/
def HaltsAfter (S : Server ω) (u : Objects ω) : Prop :=
  ∀ c : Cfg (Objects ω), c.user = u → ∀ skip pos rest,
    ResultAll (fun v => v.cx.state.halts = true)
      (loop (Session.settings S.env (process S)) c skip pos rest)

theorem haltsAfter_iff (S : Server ω) (u : Objects ω) :
    HaltsAfter S u ↔ u.cx.state.halts = true := by
  constructor
  · intro h
    exact h ⟨.init .request, u, .none⟩ rfl 0 0 [] _ _ _ rfl
  · rintro h c rfl skip pos rest
    have hk : (Session.settings S.env (process S)).Keeps fun v => v.cx.state.halts = true :=
      Session.keeps_cx (P := fun x : Connection ω => x.state.halts = true) process_halts
    exact loop_all hk rest h skip pos

end Connection

end Stutter
