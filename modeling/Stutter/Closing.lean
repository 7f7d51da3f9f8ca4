import Stutter.Process

namespace Stutter

open Joyent

/-- The `Connection` header as it is written says `close`, in any case. -/
def Reply.AnnouncesClose (r : Reply) : Prop :=
  (r.prepareHeaders.getHeader Message.connec).map toLower = ascii "close"

instance (r : Reply) : Decidable r.AnnouncesClose := inferInstanceAs (Decidable (_ = _))

/-- `prepare` leaves the other headers alone. -/
theorem Reply.getHeader_prepareHeaders (r : Reply) {k : Bytes}
    (h₁ : nocase k ≠ nocase Reply.transferEncoding)
    (h₂ : nocase k ≠ nocase Message.contentLength) :
    r.prepareHeaders.getHeader k = r.message.getHeader k := by
  rw [prepareHeaders, Message.addHeaderInt, Message.getHeader_addHeader, if_neg h₂]
  split_ifs
  · rw [Message.getHeader, Message.delHeader, SortedMap.get_erase, if_neg h₁, Message.getHeader]
  · rfl

namespace Connection

variable {ω : Type}

theorem announces_iff (r : Reply) : r.AnnouncesClose ↔
    (r.message.getHeader Message.connec).map toLower = ascii "close" := by
  rw [Reply.AnnouncesClose, Reply.getHeader_prepareHeaders r (by decide) (by decide)]

theorem announces_checkClose {p : HttpParser} {u : Objects ω} (h : Closes p u.request) :
    (checkClose p u).reply.AnnouncesClose := by
  rw [announces_iff, (checkClose_of h).2]
  decide

/-- The handlers leave the `Connection` header of the request as the client sent it. -/
def Server.LeavesConnection (S : Server ω) : Prop :=
  ∀ h ∈ S.router.handlers, ∀ r reply fs w,
    (h.2 r reply fs w).1.message.getHeader Message.connec = r.message.getHeader Message.connec

theorem answer_request {S : Server ω} (hS : Server.LeavesConnection S) {u u₁ : Objects ω}
    (h : answer S u = some u₁) : asksClose u₁.request ↔ asksClose u.request := by
  rw [answer] at h
  split_ifs at h with he
  · obtain rfl := Option.some.inj h
    rfl
  · obtain ⟨handle, hg, rfl⟩ := Option.map_eq_some_iff.mp h
    obtain ⟨⟨pre, handle'⟩, hf, rfl⟩ := Option.map_eq_some_iff.mp hg
    rw [asksClose, asksClose, hS _ (List.mem_of_find?_eq_some hf)]

/-- The reply to a request announces the end of the connection, and the connection ends. -/
def EndsWith (S : Server ω) (u u' : Objects ω) : Prop :=
  ∃ e, u'.cx.record = u.cx.record ++ [e] ∧ e.reply.AnnouncesClose ∧ HaltsAfter S u'

/-- A server whose one handler answers with keep-alive and does nothing else. -/
def keeper (ω : Type) : Server ω where
  router := ⟨[([], fun r reply fs w =>
    (r, reply.addHeader Message.connec Message.keepAlive, fs, w))]⟩
  env := .linux
  io := ⟨fun _ n => n, fun _ n => n⟩

theorem keeper_leaves : Server.LeavesConnection (keeper ω) := by
  intro h hm r reply fs w
  obtain rfl := List.mem_singleton.mp hm
  rfl

theorem answer_keeper {u : Objects ω} (he : u.error = .ok) :
    answer (keeper ω) u =
      some { u with reply := u.reply.addHeader Message.connec Message.keepAlive } := by
  rw [answer, if_neg (not_not.mpr he)]
  rfl

/-- The client's wish to close is honoured, whatever the handler, exactly if the request is of
HTTP/1.0 or has the very header `Connection: Close`. -/
theorem close_honoured {p : HttpParser} {u : Objects ω} (he : u.error = .ok) :
    (p.shouldKeepAlive = false → ∀ S : Server ω, Server.LeavesConnection S →
      ∀ ok p' u', process S p u = some (ok, p', u') → EndsWith S u u') ↔
    p.shouldKeepAlive = true ∨ Closes p u.request := by
  constructor
  · intro h
    by_contra hc
    obtain ⟨hk, hc⟩ := not_or.mp hc
    have hans := answer_keeper (ω := ω) he
    obtain ⟨ok, p', u', hp⟩ := process_some p hans
    obtain ⟨e, hrec, ha, -⟩ := h (by simpa using hk) _ keeper_leaves _ _ _ hp
    obtain ⟨u₁, hans', hproc⟩ := process_spec hp
    obtain rfl := Option.some.inj (hans.symm.trans hans')
    rw [hproc.record, checkClose_of_not (by exact hc)] at hrec
    obtain rfl := List.singleton_inj.mp (List.append_cancel_left hrec)
    rw [announces_iff] at ha
    dsimp only at ha
    rw [Reply.addHeader, Message.getHeader_addHeader, if_pos rfl] at ha
    exact absurd ha (by decide)
  · rintro (hk | hc) hk' S hS ok p' u' hp
    · exact absurd hk' (by simp [hk])
    obtain ⟨u₁, hans, hproc⟩ := process_spec hp
    have hcl : Closes p u₁.request := hc.imp id (answer_request hS hans).mpr
    refine ⟨_, hproc.record, announces_checkClose hcl, (haltsAfter_iff S u').mpr ?_⟩
    rw [hproc.state, (checkClose_of hcl).1]
    cases ok <;> rfl

theorem close_honoured_http10 : ∃ ok p' u',
    process (keeper Unit) { HttpParser.init .request with httpMajor := 1 }
      (accepted .new ()).2 = some (ok, p', u') ∧
    EndsWith (keeper Unit) (accepted .new ()).2 u' := by
  obtain ⟨ok, p', u', hp⟩ := process_some (S := keeper Unit)
    { HttpParser.init .request with httpMajor := 1 } (answer_keeper (u := (accepted .new ()).2) rfl)
  exact ⟨ok, p', u', hp,
    (close_honoured rfl).mpr (.inr (.inl ⟨rfl, rfl⟩)) rfl _ keeper_leaves _ _ _ hp⟩

/-- Callbacks that do nothing but note the parser at the end of the last message. -/
def noting : Settings (Option HttpParser) where
  onData _ _ u := (0, u)
  onHeadersComplete _ u := (0, u)
  onMessageComplete p _ := some (0, p, some p)

/-- `Connection: close` is not understood: the reply says keep-alive, and `exec` reads on. -/
theorem close_lowercase :
    ((httpParserExecute noting (.init .request) none
      (ascii "GET / HTTP/1.1\r\nConnection: close\r\n\r\n")).map fun r =>
        r.2.2.map HttpParser.shouldKeepAlive) = some (some false) ∧
    ((exec (keeper Unit) [ascii "GET / HTTP/1.1\r\nConnection: close\r\n\r\n"]
      (accepted .new ())).map fun r => (r.1, r.2.2.cx.socket.out)) = some (false,
        ascii "HTTP/1.1 200 OK\r\nConnection: keep-alive\r\nContent-Length: 0\r\n\r\n") := by
  constructor <;> decide +kernel

/-- What the reply says is what the connection does, exactly if the request closes it, or the reply
says so just when there was an error. -/
theorem said_iff_done {S : Server ω} {p p' : HttpParser} {u u₁ u' : Objects ω}
    (ha : answer S u = some u₁) (h : process S p u = some (true, p', u')) :
    ∃ e, u'.cx.record = u.cx.record ++ [e] ∧
      ((e.reply.AnnouncesClose ↔ HaltsAfter S u') ↔ Closes p u₁.request ∨
        (u₁.reply.AnnouncesClose ↔ u.error ≠ .ok ∨ u.cx.state.halts = true)) := by
  obtain ⟨v, hans, hproc⟩ := process_spec h
  obtain rfl := Option.some.inj (ha.symm.trans hans)
  refine ⟨_, hproc.record, ?_⟩
  rw [haltsAfter_iff, hproc.state, if_pos rfl]
  by_cases hc : Closes p u₁.request
  · rw [(checkClose_of hc).1]
    exact iff_of_true (iff_of_true (announces_checkClose hc) rfl) (.inl hc)
  · have hs : u₁.cx.state.halts = true ↔ u.error ≠ .ok ∨ u.cx.state.halts = true := by
      rw [(answer_frame hans).2.2.2]
      split_ifs with he
      · exact iff_of_true rfl (.inl he)
      · exact (or_iff_right he).symm
    rw [checkClose_of_not hc, or_iff_right hc, hs]

theorem said_iff_done_keeper : ∃ p' u', process (keeper Unit)
    { HttpParser.init .request with httpMajor := 1, httpMinor := 1 } (accepted .new ()).2 =
      some (true, p', u') ∧ ∃ e, u'.cx.record = [e] ∧
        (e.reply.AnnouncesClose ↔ HaltsAfter (keeper Unit) u') := by
  have ha := answer_keeper (u := (accepted .new ()).2) rfl
  have hok : ((process (keeper Unit) { HttpParser.init .request with
      httpMajor := 1, httpMinor := 1 }
      (accepted .new ()).2).map Prod.fst) = some true := by decide +kernel
  obtain ⟨⟨ok, p', u'⟩, hp, rfl⟩ := Option.map_eq_some_iff.mp hok
  obtain ⟨e, hrec, hiff⟩ := said_iff_done ha hp
  refine ⟨p', u', hp, e, hrec, hiff.mpr (.inr (iff_of_false ?_ ?_))⟩
  · rw [announces_iff]
    decide
  · exact not_or.mpr ⟨fun h => h rfl, by decide⟩

/-- A request that is refused: the reply says keep-alive, and `exec` returns. -/
theorem said_not_done :
    ((exec (keeper Unit) [ascii "GET / HTTP/1.1\r\nExpect: 100-continue\r\n\r\n"]
      (accepted .new ())).map fun r => (r.1, r.2.2.cx.socket.out)) = some (true,
        ascii ("HTTP/1.1 400 Bad request\r\nConnection: keep-alive\r\n" ++
          "Content-Length: 0\r\n\r\n")) := by
  decide +kernel

end Connection

end Stutter
