import Stutter.Closing
import Stutter.Exchange
import Stutter.Reads
import Stutter.Untouched

namespace Stutter

open Joyent

namespace Socket

variable {W : Strategy}

/-- However `send_raw` ends, it has written a part from the start. -/
theorem writeLoop_part (W : Strategy) (fuel : ℕ) (s : Socket) (p : Bytes) :
    ∃ sent, (writeLoop W fuel s p).2.out = s.out ++ sent ∧ sent <+: p := by
  induction fuel generalizing s p with
  | zero =>
    refine ⟨[], ?_, List.nil_prefix⟩
    cases p <;> exact (List.append_nil _).symm
  | succ fuel ih =>
    cases p with
    | nil => exact ⟨[], (List.append_nil _).symm, List.nil_prefix⟩
    | cons ch p =>
      rw [writeLoop, write]
      swap
      · simp
      dsimp only
      generalize min (W.write s.turn (ch :: p).length) ((ch :: p).length : ℤ) = n
      by_cases h0 : n ≤ 0
      · rw [if_pos h0, if_neg (not_lt.mpr h0)]
        exact ⟨[], (List.append_nil _).symm, List.nil_prefix⟩
      rw [if_neg h0, if_pos (not_le.mp h0)]
      obtain ⟨sent, hout, rest, hrest⟩ := ih
        { s with turn := s.turn + 1, log := s.log ++ [.wrote ((ch :: p).take n.toNat)] }
        ((ch :: p).drop n.toNat)
      refine ⟨(ch :: p).take n.toNat ++ sent, ?_, rest, ?_⟩
      · rw [hout, out_wrote, List.append_assoc]
      · rw [List.append_assoc, hrest, List.take_append_drop]

/-- Of a part on disk without bytes nothing is sent, whatever `sendfile` does. -/
theorem sendBufferedBody_none (W : Strategy) (s : Socket) {b : Body} {fs : Fs}
    (h : (b.file fs).take b.sizeOnDisk = []) : (s.sendBufferedBody W fs b).2.out = s.out := by
  rw [sendBufferedBody]
  rw [Body.file] at h
  by_cases hfd : b.fd ≤ 0
  · rw [if_pos hfd]
  rw [if_pos (not_le.mp hfd)] at h
  rw [if_neg hfd]
  cases hn : b.sizeOnDisk with
  | zero => rw [sendfileLoop]
  | succ n =>
    rw [hn] at h
    have hnil : fs.contents b.fd = [] := by
      have hlen := congrArg List.length h
      rw [List.length_take, List.length_nil] at hlen
      exact List.eq_nil_of_length_eq_zero (by omega)
    obtain ⟨s', hloop, -, -, hout⟩ := sendfileLoop_behind W
      (show (fs.contents b.fd).length ≤ 0 by rw [hnil]; exact Nat.le_refl 0) (Nat.succ_pos n)
        (n + 1) s
    rw [hloop]
    exact hout

end Socket

namespace Connection

variable {ω : Type} {S : Server ω}

/-- With writes that work, the head and the body of the reply are written, whoever asked. -/
theorem send_out {W : Strategy} (hW : W.Full) (s : Socket) (fs : Fs) (r : Reply) :
    (send W s fs r).2.2.out = s.out ++ r.wire fs := by
  obtain ⟨s₁, h₁, ho₁⟩ := Socket.writeLoop_full hW (p := r.prepare.message.data) le_rfl s
  have ho₂ := (s₁.sendBufferedBody_out hW.sendfile r.message.body fs).out
  rw [send, sendHeaders, h₁]
  dsimp only
  rw [Reply.body_prepare, ho₂, ho₁, Reply.data_prepare, Reply.wire, Body.content]
  simp only [List.append_assoc]

/-- With an empty body nothing but the head is written, whatever the writes do. -/
theorem send_bodiless (W : Strategy) (s : Socket) {fs : Fs} {r : Reply}
    (h : r.message.body.content fs = []) : ∃ sent, (send W s fs r).2.2.out = s.out ++ sent ∧
      sent <+: r.head ∧ ((send W s fs r).1 = true → sent = r.head) := by
  obtain ⟨hdata, hfile⟩ := List.append_eq_nil_iff.mp h
  have hhead : r.prepare.message.data = r.head := by
    rw [Reply.data_prepare, hdata, List.append_nil]
  obtain ⟨sent, hout, hpart⟩ := Socket.writeLoop_part W r.prepare.message.data.length s
    r.prepare.message.data
  rw [send, sendHeaders]
  generalize hx : s.writeLoop W r.prepare.message.data.length r.prepare.message.data = x at hout
  obtain ⟨_ | _, s₁⟩ := x
  · rw [hhead] at hpart
    exact ⟨sent, hout, hpart, fun hf => absurd hf Bool.false_ne_true⟩
  · have hw := (Socket.writeLoop_wrote hx).out
    rw [hhead] at hw
    refine ⟨r.head, ?_, List.prefix_refl _, fun _ => rfl⟩
    dsimp only
    rw [Reply.body_prepare, Socket.sendBufferedBody_none W s₁ hfile, hw]

/-- Of the reply to a HEAD request `process` writes the status line and the headers: no byte behind
them, and all of them if it succeeds. -/
def HeadOnly (S : Server ω) (p : HttpParser) (u : Objects ω) : Prop :=
  u.request.verb = .head → ∀ io ok p' u', process { S with io := io } p u = some (ok, p', u') →
    ∃ e sent, u'.cx.record = u.cx.record ++ [e] ∧ u'.cx.socket.out = u.cx.socket.out ++ sent ∧
      sent <+: e.reply.head ∧ (ok = true → sent = e.reply.head)

theorem body_checkClose (p : HttpParser) (u : Objects ω) :
    (checkClose p u).reply.message.body = u.reply.message.body := by
  rw [checkClose]
  split_ifs <;> rfl

/-- That is so if, and only if, the reply has no body. -/
theorem headOnly_iff (S : Server ω) (p : HttpParser) (u : Objects ω) : HeadOnly S p u ↔
    (u.request.verb = .head → ∀ v, answer S u = some v →
      v.reply.message.body.content v.fs = []) := by
  constructor
  · intro h hverb v hv
    -- a strategy that writes all it is given shows the body
    obtain ⟨io, hio⟩ : ∃ io : Strategy, io.Full :=
      ⟨⟨fun _ n => n, fun _ n => n⟩, fun _ _ => Int.natCast_pos.mpr, fun _ _ => le_rfl⟩
    obtain ⟨ok, p', u', hp⟩ := process_some (S := { S with io := io }) p hv
    obtain ⟨e, sent, hrec, hout, ⟨rest, hpart⟩, -⟩ := h hverb io ok p' u' hp
    obtain ⟨u₁, ha, hproc⟩ := process_spec hp
    obtain rfl := Option.some.inj (hv.symm.trans ha)
    have he : e.reply = (checkClose p v).reply := by
      rw [hproc.record] at hrec
      exact congrArg Exchange.reply (List.singleton_inj.mp (List.append_cancel_left hrec)).symm
    have hsent : sent = (checkClose p v).reply.wire (checkClose p v).fs := by
      rw [hproc.socket] at hout
      rw [send_out hio] at hout
      exact (List.append_cancel_left hout).symm
    rw [hsent, he, Reply.wire, body_checkClose, fs_checkClose, List.append_assoc] at hpart
    have hnil := List.append_cancel_left (hpart.trans (List.append_nil _).symm)
    exact (List.append_eq_nil_iff.mp hnil).1
  · intro h hverb io ok p' u' hp
    obtain ⟨v, hv, hproc⟩ := process_spec hp
    have hnil := h hverb v hv
    rw [← body_checkClose p v, ← fs_checkClose p v] at hnil
    obtain ⟨sent, hout, hpart, hall⟩ := send_bodiless io u.cx.socket hnil
    refine ⟨_, sent, hproc.record, ?_, hpart, fun hok => hall (hproc.sent.trans hok)⟩
    rw [hproc.socket]
    exact hout

end Connection

namespace Head

variable {h : Head} {q : HttpParser} {reads later : List Bytes} {w : Socket}

/-- `http_parser` takes the head, and the message ends with it. -/
def IsWhole (h : Head) (q : HttpParser) : Prop :=
  ∃ g, h.framing q = some g ∧ (q.framed g).atBlank.EndsAtHead

instance (h : Head) (q : HttpParser) : Decidable (h.IsWhole q) :=
  match hf : h.framing q with
  | none => isFalse fun ⟨_, hg, _⟩ => nomatch hf.symm.trans hg
  | some g =>
    if he : (q.framed g).atBlank.EndsAtHead then isTrue ⟨g, hf, he⟩
    else isFalse fun ⟨_, hg, hend⟩ => he (Option.some.inj (hf.symm.trans hg) ▸ hend)

/-- The message ends at the blank line, and nothing behind it is read. -/
theorem Opens.found_whole (hq : h.Opens .response q) (hw : h.IsWhole q) (hp : Pieces reads)
    (hcut : reads.flatten = h.bytes) (hin : w.inbox = reads ++ later) :
    ∃ p f w', Found.readReply w = some (true, p, f, w') ∧ w'.inbox = later := by
  obtain ⟨g, hg, hend⟩ := hw
  obtain ⟨p, f, -, -, hc, hall⟩ := hq.finds hg
  obtain ⟨hex, hbefore⟩ := hall reads hp.ne hcut
  rw [if_pos hend] at hc
  obtain ⟨fuel, w', hin', -, hloop⟩ := Found.readLoop_reads hp hin
    (Nat.lt_succ_self w.unread) hex hbefore
  refine ⟨p, f, w', ?_, hin'⟩
  unfold Found.readReply
  rw [hloop]
  exact Found.readLoop_done (by rw [hc]; exact List.cons_ne_nil _ _) fuel w'

/-- A head that is not the whole message does not end one. -/
theorem Opens.found_waits (hq : h.Opens .response q) (hw : ¬ h.IsWhole q) (hp : Pieces w.inbox)
    (hcut : w.inbox.flatten = h.bytes) {p : HttpParser} {f : Found} {w' : Socket}
    (hr : Found.readReply w = some (true, p, f, w')) : w'.inbox ≠ [] := by
  intro hnil
  have hsound : (HttpParser.init .response).Sound := ⟨rfl, Nat.zero_le _⟩
  obtain ⟨xs, hxs, hex, hcodes⟩ := Found.readLoop_true hp (s := (.init .response, .new)) hr
  rw [hnil, List.append_nil] at hxs
  rw [← hxs] at hex
  cases hf : h.framing q with
  | none =>
    obtain ⟨as, ch, rest, r, hb, hrun, hx⟩ := hq.halts hf
    rw [executeAll_refused Found.lawful hsound hp.ne (hcut.trans hb) hrun hx] at hex
    cases hex
  | some g =>
    obtain ⟨p', f', -, -, hc, hall⟩ := hq.finds hf
    obtain ⟨-, rfl⟩ := Prod.mk.injEq .. ▸ Option.some.inj ((hall _ hp.ne hcut).1.symm.trans hex)
    rw [if_neg fun hend => hw ⟨g, hf, hend⟩] at hc
    exact hcodes hc

end Head

namespace Client

variable {E : Env}

/-- `read_reply` ends as the recorder does, whatever becomes of the body. -/
theorem readReply_tracks (E : Env) (reply : Reply) (fs : Fs) (w : Socket) :
    SameLoop Session.Tracks (readReply E reply fs w) (Found.readReply w) :=
  readLoop_rel (Session.Tracks.related E) (fun h => ⟨h.error, h.cx⟩) (.new reply fs) _ _ w

/-- The response to a HEAD request is complete at its blank line, whatever the cut of its head into
reads and whatever comes then: `read_reply` succeeds, and leaves all that is behind the head. -/
def CompleteAtBlank (E : Env) (h : Head) : Prop :=
  ∀ W N c s r c₁ s₁ r₁ reply reads later, r.verb = .head →
    ask E W N c s r = some (none, c₁, s₁, r₁) → Pieces reads → reads.flatten = h.bytes →
    (s₁.wires c₁.fd).inbox = reads ++ later → ∃ c' s' reply',
      c₁.receive E s₁ reply = some (true, c', s', reply') ∧ (s'.wires c₁.fd).inbox = later

/-- A HEAD request gets to its response, whatever that is. -/
theorem ask_head (E : Env) (inbox : List Bytes) : ∃ W N c s r c₁ s₁ r₁,
    Request.verb r = .head ∧ ask E W N c s r = some (none, c₁, s₁, r₁) ∧
      (s₁.wires c₁.fd).inbox = inbox := by
  obtain ⟨W, hW⟩ : ∃ W : Strategy, W.Full :=
    ⟨⟨fun _ n => n, fun _ n => n⟩, fun _ _ => Int.natCast_pos.mpr, fun _ _ => le_rfl⟩
  let r := ({ Request.new with verb := .head }.setHost (ascii "h")).prepare
  have hasked : r.require100 = false := by decide +kernel
  have hbody : r.message.body.fd ≤ 0 := by decide +kernel
  obtain ⟨c₁, s₁, hconnect⟩ : ∃ c₁ s₁, connect (.reachable 3)
      { new (ascii "h") 80 with done := false } (.new (fun _ => .new inbox) .new) =
        (true, c₁, s₁) := ⟨_, _, rfl⟩
  obtain ⟨w, hsend, -⟩ := Socket.writeLoop_full hW (p := r.message.data) le_rfl (s₁.wires c₁.fd)
  have hinbox : w.inbox = inbox := by
    rw [(Socket.writeLoop_wrote hsend).inbox, (connect_spec hconnect).1]
    rfl
  have hhead : c₁.sendHeaders W s₁ r = (true, s₁.setWire c₁.fd w) := by
    unfold sendHeaders Socket.sendRaw
    rw [hsend]
  have hrest : c₁.sendBody W (s₁.setWire c₁.fd w) r =
      (true, (s₁.setWire c₁.fd w).setWire c₁.fd w) := by
    have hself : (s₁.setWire c₁.fd w).wires c₁.fd = w := Function.update_self ..
    have hnone : w.sendBufferedBody W (s₁.setWire c₁.fd w).fs r.message.body = (true, w) := by
      rw [Socket.sendBufferedBody, if_pos hbody]
    unfold sendBody
    rw [hasked, hself]
    dsimp only
    rw [if_neg Bool.false_ne_true]
    dsimp only
    rw [hnone]
  refine ⟨W, .reachable 3, new (ascii "h") 80, .new (fun _ => .new inbox) .new,
    { Request.new with verb := .head }, c₁, (s₁.setWire c₁.fd w).setWire c₁.fd w, r, rfl, ?_, ?_⟩
  · unfold ask
    dsimp only
    rw [hconnect]
    dsimp only
    rw [show ((new (ascii "h") 80).host) = ascii "h" from rfl, hhead]
    dsimp only
    rw [hasked, if_neg Bool.false_ne_true, Option.map_some]
    dsimp only
    rw [hrest]
    rfl
  · exact (congrArg Socket.inbox (Function.update_self ..)).trans hinbox

/-- That is so if, and only if, `http_parser` ends the message with the head by itself. -/
theorem completeAtBlank_iff (E : Env) {h : Head} {q : HttpParser} (hq : h.Opens .response q) :
    CompleteAtBlank E h ↔ h.IsWhole q := by
  constructor
  · intro hall
    by_contra hw
    have hp := Pieces.singles h.bytes
    have hcut := Pieces.flatten_singles h.bytes
    obtain ⟨W, N, c, s, r, c₁, s₁, r₁, hverb, hask, hin⟩ := ask_head E (h.bytes.map fun b => [b])
    obtain ⟨c', s', reply', hrec, hleft⟩ := hall W N c s r c₁ s₁ r₁ .new _ [] hverb hask hp hcut
      (by rw [hin, List.append_nil])
    obtain ⟨-, p, u, w, hr, -, -, hwires⟩ := receive_spec hrec
    have htracks := readReply_tracks E .new s₁.fs (s₁.wires c₁.fd)
    rw [hr] at htracks
    cases hf : Found.readReply (s₁.wires c₁.fd) with
    | none =>
      rw [hf] at htracks
      exact htracks
    | some x =>
      obtain ⟨ok, p', f, w'⟩ := x
      rw [hf] at htracks
      obtain ⟨rfl, rfl, rfl, -⟩ := htracks
      refine hq.found_waits hw (by rw [hin]; exact hp) (by rw [hin]; exact hcut) hf ?_
      rw [hwires, Function.update_self] at hleft
      exact hleft
  · intro hw W N c s r c₁ s₁ r₁ reply reads later _ _ hp hcut hin
    obtain ⟨p, f, w', hf, hleft⟩ := hq.found_whole hw hp hcut hin
    have htracks := readReply_tracks E reply s₁.fs (s₁.wires c₁.fd)
    rw [hf] at htracks
    unfold receive
    cases hr : readReply E reply s₁.fs (s₁.wires c₁.fd) with
    | none =>
      rw [hr] at htracks
      exact htracks.elim
    | some x =>
      obtain ⟨ok, p', u, w⟩ := x
      rw [hr] at htracks
      obtain ⟨rfl, rfl, rfl, -⟩ := htracks
      exact ⟨_, _, _, rfl, (congrArg Socket.inbox (Function.update_self ..)).trans hleft⟩

end Client

/-- HEAD is framed at both ends, if and only if the reply that is sent has no body and the response
that is received ends with its head by itself: neither end looks at the verb. -/
theorem headFraming_iff {ω : Type} (S : Server ω) (p : HttpParser) (u : Connection.Objects ω)
    (E : Env)
    {h : Head} {q : HttpParser} (hq : h.Opens .response q) :
    Connection.HeadOnly S p u ∧ Client.CompleteAtBlank E h ↔
      (u.request.verb = .head → ∀ v, Connection.answer S u = some v →
        v.reply.message.body.content v.fs = []) ∧ h.IsWhole q :=
  and_congr (Connection.headOnly_iff S p u) (Client.completeAtBlank_iff E hq)

/-- A HEAD request on a new connection. -/
def headRequest : Connection.Objects Unit :=
  { (Connection.accepted .new ()).2 with request := { Request.new with verb := .head } }

/-- A response without a content length, whose code says that it has no body. -/
def noContent : Head := ⟨ascii "HTTP/1.1 204 No Content\r\n", [], true⟩

theorem headFraming_iff_noContent : Connection.HeadOnly (Connection.keeper Unit) (.init .request)
    headRequest ∧ Client.CompleteAtBlank .linux noContent := by
  obtain ⟨q, hq, hw⟩ : ∃ q, noContent.Opens .response q ∧ noContent.IsWhole q :=
    ⟨_, ⟨rfl, rfl, rfl, rfl, by decide +kernel⟩, by decide +kernel⟩
  refine (headFraming_iff (Connection.keeper Unit) (.init .request) headRequest .linux hq).mpr
    ⟨fun _ v hv => ?_, hw⟩
  obtain rfl := Option.some.inj hv
  rfl

/-- A server whose one handler adds a byte to the body. -/
def greeter : Server Unit where
  router := ⟨[([], fun r reply fs w =>
    let (message, fs) := reply.message.addBody .linux fs (ascii "x")
    (r, { reply with message := message }, fs, w))]⟩
  env := .linux
  io := ⟨fun _ n => n, fun _ n => n⟩

/-- A response that announces five bytes. -/
def fiveBytes : Head :=
  ⟨ascii "HTTP/1.1 200 OK\r\n", [Head.five], true⟩

/-- The body is written, and awaited. -/
theorem headFraming_fails : ¬ Connection.HeadOnly greeter (.init .request) headRequest ∧
    (∃ q, fiveBytes.Opens .response q) ∧ ¬ Client.CompleteAtBlank .linux fiveBytes ∧
    ((Connection.exec greeter [ascii "HEAD / HTTP/1.1\r\n\r\n"] (Connection.accepted .new ())).map
      fun r => r.2.2.cx.socket.out) = some (ascii
        "HTTP/1.1 200 OK\r\nConnection: keep-alive\r\nContent-Length: 1\r\n\r\nx") ∧
    (((Client.new (ascii "h") 80).send .linux Client.writing (.reachable 3)
      (.new (fun _ => .new [fiveBytes.bytes]) .new) { Request.new with verb := .head } .new).map
        Prod.fst) = some false := by
  refine ⟨fun h => ?_, ⟨_, rfl, rfl, rfl, rfl, by decide +kernel⟩, fun h => ?_, by decide +kernel,
    by decide +kernel⟩
  · have hbody : (Connection.answer greeter headRequest).map (fun v =>
        v.reply.message.body.content v.fs) = some (ascii "x") := by decide +kernel
    obtain ⟨v, hv, hx⟩ := Option.map_eq_some_iff.mp hbody
    have hnil := (Connection.headOnly_iff greeter (.init .request) headRequest).mp h rfl v hv
    exact absurd (hx.symm.trans hnil) (by decide)
  · obtain ⟨q, hq, hw⟩ : ∃ q, fiveBytes.Opens .response q ∧ ¬ fiveBytes.IsWhole q :=
      ⟨_, ⟨rfl, rfl, rfl, rfl, by decide +kernel⟩, by decide +kernel⟩
    exact hw ((Client.completeAtBlank_iff .linux hq).mp h)

end Stutter
