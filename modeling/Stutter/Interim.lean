import Stutter.Replies
import Stutter.Resending

namespace Stutter

open Joyent

namespace Response

variable {R I : Response} {E : Env} {fs : Fs} {w : Socket} {bs : Bytes}

/-- A response that lets a request go on: `100`, and nothing behind its head. -/
structure Interim (R : Response) : Prop where
  code : R.code = 100
  content : R.content = .none
  upgrade : R.upgrade = false
  short : R.head.bytes.length ≤ maxHeaderSize

theorem Interim.not_toEnd (hI : I.Interim) : ¬ I.content.IsToEnd := by
  rw [hI.content]
  exact id

theorem Interim.taken (hI : I.Interim) : Taken I.content.trailer := by
  rw [hI.content]
  decide +kernel

/-- An interim response that shares its last read with nothing is read, and no more than that. -/
theorem Interim.waits (hE : E.Reliable) (hI : I.Interim) (hp : Pieces w.inbox)
    (hcut : w.inbox.flatten = I.bytes ++ bs) (hs : surplus I.bytes.length w.inbox = []) (fs : Fs) :
    ∃ p u w', Client.readReply E .new fs w = some (true, p, u, w') ∧ u.reply.code = 100 ∧
      u.fs = fs ∧ u.reply.message.body = .new ∧ w'.inbox = behind I.bytes.length w.inbox := by
  obtain ⟨t, he, -, hcodes, hbody, hends⟩ := I.ends hI.short hI.upgrade hI.not_toEnd hI.taken
  obtain ⟨d, more, w', -, hmore, hleft, -, hread⟩ := hends.readReply hp hcut
  obtain rfl := hs.symm.trans hmore
  dsimp only at hread
  rw [Found.loop_end he] at hread
  obtain ⟨u, hr, hu⟩ := Client.readReply_of hE hread .new fs
  rw [hI.content] at hbody
  have hput : (u.reply, u.fs) = t.2.put E .new fs := hu.put
  rw [Found.put, show t.2.body = [] from hbody, Body.store_nil] at hput
  obtain ⟨hreply, hfs⟩ := Prod.mk.injEq .. ▸ hput
  rw [show decide (d.length = d.length + ([] : Bytes).length) = true from decide_eq_true rfl] at hr
  refine ⟨t.1, u, w', hr, ?_, hfs, ?_, hleft.symm⟩
  · rw [hreply]
    dsimp only
    rw [Found.status, hcodes, hI.code]
    rfl
  · rw [hreply]
    rfl

end Response

namespace Client

variable {E : Env} {W : Strategy} {N : Network} {c c₁ : Client} {s s₁ : System} {r : Request}
  {R I : Response} {bs : Bytes}

/-- The wait for an interim response that shares its last read with nothing. -/
theorem waitFor100_interim (hE : E.Reliable) (hI : I.Interim) (hp : Pieces (s.wires c.fd).inbox)
    (hcut : (s.wires c.fd).inbox.flatten = I.bytes ++ bs)
    (hs : surplus I.bytes.length (s.wires c.fd).inbox = []) :
    ∃ c' s', c.waitFor100 E s = some (true, c', s') ∧ c'.fd = c.fd ∧ s'.fs = s.fs ∧
      (s'.wires c.fd).inbox = behind I.bytes.length (s.wires c.fd).inbox := by
  obtain ⟨p, u, w', hr, hcode, hfs, hbody, hleft⟩ := hI.waits hE hp hcut hs s.fs
  unfold waitFor100
  rw [hr]
  have hok : (true && decide (u.reply.code = 100)) = true := decide_eq_true hcode
  refine ⟨{ c with done := u.cx }, _, congrArg some (congrArg (·, { c with done := u.cx }, _) hok),
    rfl, ?_, (congrArg Socket.inbox (Function.update_self ..)).trans hleft⟩
  dsimp only
  rw [hbody, hfs]
  rfl

/-- Headers that are sent whole. -/
theorem sendHeaders_full (hW : W.Full) (c : Client) (s : System) (r : Request) :
    ∃ s', c.sendHeaders W s r = (true, s') ∧ s'.fs = s.fs ∧
      (s'.wires c.fd).inbox = (s.wires c.fd).inbox := by
  obtain ⟨w, hw, -⟩ := Socket.writeLoop_full hW (p := r.message.data) le_rfl (s.wires c.fd)
  refine ⟨s.setWire c.fd w, ?_, rfl, ?_⟩
  · unfold sendHeaders Socket.sendRaw
    rw [hw]
  · exact (congrArg Socket.inbox (Function.update_self ..)).trans (Socket.writeLoop_wrote hw).inbox

/-- A body that is sent whole. -/
theorem sendBody_full (hW : W.Full) (c : Client) (s : System) (r : Request)
    (hb : r.message.body.Whole s.fs) : ∃ s', c.sendBody W s r = (true, s') ∧ s'.fs = s.fs ∧
      (s'.wires c.fd).inbox = (s.wires c.fd).inbox := by
  obtain ⟨w, hw, hin⟩ : ∃ w, (if r.require100 then (s.wires c.fd).sendRaw W r.message.body.data
      else (true, s.wires c.fd)) = (true, w) ∧ w.inbox = (s.wires c.fd).inbox := by
    split_ifs
    · obtain ⟨w, hw, -⟩ := Socket.writeLoop_full hW (p := r.message.body.data) le_rfl (s.wires c.fd)
      exact ⟨w, hw, (Socket.writeLoop_wrote hw).inbox⟩
    · exact ⟨_, rfl, rfl⟩
  obtain ⟨w', hw', -⟩ := w.sendBufferedBody_full hW hb
  refine ⟨s.setWire c.fd w', ?_, rfl, ?_⟩
  · unfold sendBody
    dsimp only
    rw [hw]
    dsimp only
    rw [hw']
  · have hself : (s.setWire c.fd w').wires c.fd = w' := Function.update_self ..
    rw [hself, (Socket.sendBufferedBody_wrote hW.sendfile hw').inbox, hin]

/-- `ask`, when each of its steps succeeds. -/
theorem ask_of {s₂ s₃ s₄ : System} {c₃ : Client} {r' : Request}
    (hr' : (r.setHost c.host).prepare = r')
    (hc : connect N { c with done := false } s = (true, c₁, s₁))
    (hh : c₁.sendHeaders W s₁ r' = (true, s₂))
    (hw : (if r'.require100 then c₁.waitFor100 E s₂ else some (true, c₁, s₂)) =
      some (true, c₃, s₃)) (hb : c₃.sendBody W s₃ r' = (true, s₄)) :
    c.ask E W N s r = some (none, c₃, s₄, r') := by
  unfold ask
  dsimp only
  rw [hr', hc]
  dsimp only
  rw [hh]
  dsimp only
  rw [hw, Option.map_some]
  dsimp only
  rw [Bool.not_true, if_neg Bool.false_ne_true, hb]

/-- A connected client asks; if the server is to be asked first, it answers with `I`. -/
theorem asks (hE : E.Reliable) (hW : W.Full)
    (hc : connect N { c with done := false } s = (true, c₁, s₁)) (hb : r.message.body.Whole s.fs)
    (hp : Pieces (s.wires c₁.fd).inbox) :
    let r' := (r.setHost c.host).prepare
    (r'.require100 = false → ∃ c₂ s₂, c.ask E W N s r = some (none, c₂, s₂, r') ∧
      (s₂.wires c₂.fd).inbox = (s.wires c₁.fd).inbox) ∧
    (r'.require100 = true → ∀ {I : Response} {bs : Bytes}, I.Interim →
      (s.wires c₁.fd).inbox.flatten = I.bytes ++ bs →
      surplus I.bytes.length (s.wires c₁.fd).inbox = [] →
      ∃ c₂ s₂, c.ask E W N s r = some (none, c₂, s₂, r') ∧
        (s₂.wires c₂.fd).inbox = behind I.bytes.length (s.wires c₁.fd).inbox) := by
  dsimp only
  obtain ⟨hwires, hfs, -⟩ := connect_spec hc
  obtain ⟨hbody, -⟩ := (r.setHost c.host).prepare_cases
  generalize hr' : (r.setHost c.host).prepare = r' at hbody ⊢
  obtain ⟨s₂, hh, hfs₂, hin₂⟩ := sendHeaders_full hW c₁ s₁ r'
  rw [hwires] at hin₂
  rw [hfs] at hfs₂
  -- the two cases differ in the wait alone
  have hask : ∀ c₃ s₃,
      (if r'.require100 = true then c₁.waitFor100 E s₂ else some (true, c₁, s₂)) =
        some (true, c₃, s₃) → s₃.fs = s.fs → ∃ s₄, c.ask E W N s r = some (none, c₃, s₄, r') ∧
        (s₄.wires c₃.fd).inbox = (s₃.wires c₃.fd).inbox := by
    intro c₃ s₃ hw hfs₃
    obtain ⟨s₄, hs₄, -, hin⟩ := sendBody_full hW c₃ s₃ r' (by rw [hbody, hfs₃]; exact hb)
    exact ⟨s₄, ask_of hr' hc hh hw hs₄, hin⟩
  constructor
  · intro hno
    obtain ⟨s₄, ha, hin⟩ := hask c₁ s₂ (by rw [hno]; rfl) hfs₂
    exact ⟨c₁, s₄, ha, hin.trans hin₂⟩
  · intro hyes I bs hI hcut hs
    rw [← hin₂] at hp hcut hs
    obtain ⟨c₃, s₃, hw, hfd, hfs₃, hleft⟩ := waitFor100_interim hE hI hp hcut hs
    obtain ⟨s₄, ha, hin⟩ := hask c₃ s₃ (by rw [if_pos hyes]; exact hw) (hfs₃.trans hfs₂)
    refine ⟨c₃, s₄, ha, hin.trans ?_⟩
    rw [hfd, hleft, hin₂]

/-- The wait loses no byte behind the interim response if, and only if, none is in its last read. -/
theorem waited_iff (hE : E.Reliable) (hI : I.Interim) (hp : Pieces (s.wires c.fd).inbox)
    (hcut : (s.wires c.fd).inbox.flatten = I.bytes ++ bs) :
    (∃ c' s', c.waitFor100 E s = some (true, c', s') ∧ (s'.wires c.fd).inbox.flatten = bs) ↔
      surplus I.bytes.length (s.wires c.fd).inbox = [] := by
  obtain ⟨t, -, -, -, -, hends⟩ := I.ends hI.short hI.upgrade hI.not_toEnd hI.taken
  constructor
  · rintro ⟨c', s', hw, hall⟩
    -- the wait takes the read that holds the end, with the surplus
    obtain ⟨d, more, w', -, hmore, -, hbs, hread⟩ := hends.readReply hp hcut
    obtain ⟨-, p, u, w, hr, -, hwires⟩ := waitFor100_spec hw
    have hsame := readReply_found hE .new s.fs (s.wires c.fd)
    rw [hr, hread] at hsame
    generalize loop Found.settings ⟨t.1, t.2, .none⟩ 0 d.length more = x at hsame
    obtain _ | ⟨n, q, f⟩ := x
    · rw [Option.map_none] at hsame
      exact hsame.elim
    rw [Option.map_some] at hsame
    obtain ⟨-, -, rfl, -⟩ := hsame
    rw [hwires, Function.update_self, ← hbs] at hall
    exact hmore.trans (List.append_left_eq_self.mp hall.symm)
  · intro hs
    obtain ⟨c', s', hw, -, -, hleft⟩ := waitFor100_interim hE hI hp hcut hs
    obtain ⟨xs, d, more, ys, -, -, -, hmore, hys, hbs⟩ := surplus_cut hends.ne hcut
    refine ⟨c', s', hw, ?_⟩
    rw [hleft, hys, ← hbs, ← hmore, hs, List.nil_append]

/-- `send` succeeds, and the reply holds the response. -/
def Gets (E : Env) (W : Strategy) (N : Network) (c : Client) (s : System) (r : Request)
    (reply : Reply) (R : Response) : Prop := ∃ c' s' r' reply',
  c.send E W N s r reply = some (true, c', s', r', reply') ∧
    R.Held reply.message.headers reply' s'.fs

/-- Once a client has asked, what counts is what it reads. -/
theorem gets_of_ask {c₂ : Client} {s₂ : System} {r' : Request}
    (h : c.ask E W N s r = some (none, c₂, s₂, r')) {reply : Reply} :
    c.Gets E W N s r reply R ↔ R.ReadFrom E reply s₂.fs (s₂.wires c₂.fd) := by
  constructor
  · rintro ⟨c', s', r'', reply', hsend, hheld⟩
    obtain ⟨c₃, s₃, s₄, hask, hrec, rfl⟩ := send_true hsend
    obtain ⟨-, rfl, rfl, rfl⟩ := Prod.mk.injEq .. ▸ Prod.mk.injEq .. ▸ Prod.mk.injEq .. ▸
      Option.some.inj (h.symm.trans hask)
    obtain ⟨-, p, u, w, hread, rfl, hfs, -⟩ := receive_spec hrec
    refine ⟨p, u, w, hread, ?_⟩
    rw [hfs]
    exact hheld
  · rintro ⟨p, u, w, hread, hheld⟩
    let s₃ : System := { s₂.setWire c₂.fd w with fs := u.fs }
    refine ⟨{ c₂ with done := u.cx }, { c₂ with done := u.cx }.releaseSocket s₃, r', u.reply, ?_,
      hheld⟩
    unfold send
    rw [h, Option.bind_some]
    dsimp only
    unfold receive
    rw [hread]
    rfl

/-- What a connected client gets: the response if the reads are clear of what follows it, from
behind the interim response if the request asks first. -/
theorem gets_iff (hE : E.Reliable) (hW : W.Full)
    (hc : connect N { c with done := false } s = (true, c₁, s₁)) (hb : r.message.body.Whole s.fs)
    {reply : Reply} (hr : reply.message.body.IsEmpty) (hp : Pieces (s.wires c₁.fd).inbox)
    (hend : R.content.IsToEnd → bs = []) :
    let reads := (s.wires c₁.fd).inbox
    let r' := (r.setHost c.host).prepare
    (r'.require100 = false → reads.flatten = R.bytes ++ bs →
      (c.Gets E W N s r reply R ↔ R.Clear reply.message.headers reads)) ∧
    (r'.require100 = true → I.Interim → reads.flatten = I.bytes ++ (R.bytes ++ bs) →
      surplus I.bytes.length reads = [] → (c.Gets E W N s r reply R ↔
        R.Clear reply.message.headers (behind I.bytes.length reads))) := by
  dsimp only
  constructor
  · intro hno hcut
    obtain ⟨c₂, s₂, ha, hin⟩ := (asks hE hW hc hb hp).1 hno
    rw [gets_of_ask ha, ← hin]
    rw [← hin] at hp hcut
    rw [Response.readFrom_iff hE hr hp]
    exact Response.found_iff hp hcut hend
  · intro hyes hI hcut hs
    obtain ⟨c₂, s₂, ha, hin⟩ := (asks hE hW hc hb hp).2 hyes hI hcut hs
    obtain ⟨t, -, -, -, -, hends⟩ := I.ends hI.short hI.upgrade hI.not_toEnd hI.taken
    obtain ⟨xs, d, more, ys, hreads, -, -, hmore, hys, hbs⟩ := surplus_cut hends.ne hcut
    rw [gets_of_ask ha, ← hin]
    have hpieces : Pieces (s₂.wires c₂.fd).inbox := by
      rw [hin, hys]
      rw [hreads] at hp
      exact fun e he => hp e (List.mem_append_right _ (List.mem_cons_of_mem _ he))
    have hflat : (s₂.wires c₂.fd).inbox.flatten = R.bytes ++ bs := by
      rw [hin, hys, ← hbs, ← hmore, hs, List.nil_append]
    rw [Response.readFrom_iff hE hr hpieces]
    exact Response.found_iff hpieces hflat hend

def goOn : Response where
  status := Response.http11 (ascii "100") (ascii "Continue") (by decide +kernel)
  lines := []
  content := .none
  framing := .new
  colon := by decide +kernel
  framed := by decide +kernel
  fits := ⟨rfl, rfl, by decide +kernel⟩

theorem goOn_interim : goOn.Interim := ⟨by decide +kernel, rfl, rfl, by decide +kernel⟩

/-- A request that asks first. -/
def asking : Request := { Request.new with
  message := Request.new.message.addHeader Message.expect Message.oneHundredContinue }

/-- The interim response, and the other behind it in its own reads. -/
def apart : System := .new
  (fun _ => .new [goOn.bytes, Response.greeting.head.bytes, ascii "hello"]) .new

theorem gets_iff_asking : (new (ascii "h") 80).Gets .linux ⟨fun _ n => n, fun _ n => n⟩
    (.reachable 3) apart asking .new Response.greeting := by
  have hfull : Strategy.Full ⟨fun _ n => n, fun _ n => n⟩ :=
    ⟨fun _ _ => Int.natCast_pos.mpr, fun _ _ => le_rfl⟩
  obtain ⟨c₁, s₁, hc⟩ : ∃ c₁ s₁, connect (.reachable 3) { new (ascii "h") 80 with done := false }
      apart = (true, c₁, s₁) := ⟨_, _, rfl⟩
  have hin : (apart.wires c₁.fd).inbox =
      [goOn.bytes, Response.greeting.head.bytes, ascii "hello"] := rfl
  have hbehind : behind goOn.bytes.length [goOn.bytes, Response.greeting.head.bytes,
      ascii "hello"] = [Response.greeting.head.bytes, ascii "hello"] := by decide +kernel
  have hcut : (apart.wires c₁.fd).inbox.flatten =
      goOn.bytes ++ (Response.greeting.bytes ++ []) := by rw [hin]; decide +kernel
  have hbody : asking.message.body.Whole apart.fs := Body.new_isEmpty.whole _
  have hreply : Reply.new.message.body.IsEmpty := Body.new_isEmpty
  have hgets := (gets_iff Env.linux_reliable hfull hc hbody hreply (by rw [hin]; decide +kernel)
    fun _ => rfl).2 (by decide +kernel) goOn_interim hcut (by rw [hin]; decide +kernel)
  rw [hin, hbehind] at hgets
  exact hgets.mpr (Response.greeting_clear _)

/-- A connected client waits, and the response is left. -/
theorem waited_iff_connected : ∃ c s c' s',
    connect (.reachable 3) (new (ascii "h") 80) apart = (true, c, s) ∧ c.fd = 3 ∧
    c.waitFor100 .linux s = some (true, c', s') ∧
    (s'.wires 3).inbox.flatten = Response.greeting.bytes := by
  obtain ⟨c, s, hc, hfd, hs⟩ : ∃ c s, connect (.reachable 3) (new (ascii "h") 80) apart =
      (true, c, s) ∧ c.fd = 3 ∧ s.wires = apart.wires := ⟨_, _, rfl, rfl, rfl⟩
  have hin : (s.wires c.fd).inbox =
      [goOn.bytes, Response.greeting.head.bytes, ascii "hello"] := by rw [hs]; rfl
  have hcut : (s.wires c.fd).inbox.flatten = goOn.bytes ++ Response.greeting.bytes := by
    rw [hin]
    decide +kernel
  obtain ⟨c', s', hw, hleft⟩ := (waited_iff Env.linux_reliable goOn_interim
    (by rw [hin]; decide +kernel) hcut).mpr (by rw [hin]; decide +kernel)
  rw [hfd] at hleft
  exact ⟨c, s, c', s', hc, hfd, hw, hleft⟩

end Client

end Stutter
