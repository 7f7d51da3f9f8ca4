import Stutter.Exchange

namespace Stutter

/-- The bytes that a request is on the wire: the head, then all of the body. -/
def Request.wire (r : Request) (fs : Fs) : Bytes := r.head ++ r.message.body.content fs

namespace Request

@[simp] theorem body_prepareHeaders (r : Request) : r.prepareHeaders.body = r.message.body := by
  rw [prepareHeaders]
  split_ifs <;> rfl

/-- The request asks the server first. -/
def Expects (r : Request) : Prop := r.message.getHeader Message.expect = Message.oneHundredContinue

theorem head_ne (r : Request) : r.head ≠ [] := by
  rw [head]
  exact List.append_ne_nil_of_right_ne_nil _ (by decide)

theorem expect_prepareHeaders (r : Request) :
    r.prepareHeaders.getHeader Message.expect = r.message.getHeader Message.expect := by
  have hh : ¬ nocase Message.expect = nocase Message.host := by decide +kernel
  have hc : ¬ nocase Message.expect = nocase Message.contentLength := by decide +kernel
  rw [prepareHeaders]
  split_ifs
  · rw [Message.addHeaderInt, Message.getHeader_addHeader, if_neg hc, Message.getHeader_addHeader,
      if_neg hh]
  · rw [Message.getHeader_addHeader, if_neg hh]

/-- What `prepare` does: the head is put behind what is in the buffer. -/
theorem prepare_cases (r : Request) :
    r.prepare.message.body = r.message.body ∧
    (r.Expects ∧ r.prepare.require100 = true ∧
        r.prepare.message.data = r.message.data ++ r.head ∨
      ¬ r.Expects ∧ r.prepare.require100 = r.require100 ∧
        r.prepare.message.data = r.message.data ++ r.head ++ r.message.body.data) := by
  have he := r.expect_prepareHeaders
  have hb := r.body_prepareHeaders
  unfold prepare
  by_cases h : r.Expects
  · have hif : ({ r.prepareHeaders with data := r.message.data ++ r.head } : Message).getHeader
        Message.expect = Message.oneHundredContinue := he.trans h
    dsimp only
    rw [if_pos hif]
    exact ⟨hb, .inl ⟨h, rfl, rfl⟩⟩
  · have hif : ¬ ({ r.prepareHeaders with data := r.message.data ++ r.head } : Message).getHeader
        Message.expect = Message.oneHundredContinue := fun hx => h (he.symm.trans hx)
    dsimp only
    rw [if_neg hif]
    refine ⟨hb, .inr ⟨h, rfl, ?_⟩⟩
    rw [hb]

/-- What a sequence of calls makes of a new request, and whether it was ever prepared. -/
inductive Reached : Bool → Request → Prop
  | new : Reached false .new
  | setUrl {used r} (h : Reached used r) (url : Bytes) : Reached used (r.setUrl url)
  | setVerb {used r} (h : Reached used r) (v : Verb) : Reached used (r.setVerb v)
  | addHeader {used r} (h : Reached used r) (key val : Bytes) :
    Reached used { r with message := r.message.addHeader key val }
  | delHeader {used r} (h : Reached used r) (key : Bytes) :
    Reached used { r with message := r.message.delHeader key }
  | addBody {used r} (h : Reached used r) (E : Env) (fs : Fs) (p : Bytes) :
    Reached used { r with message := (r.message.addBody E fs p).1 }
  | prepare {used r} (h : Reached used r) : Reached true r.prepare
  | send {used r} (h : Reached used r) {E : Env} {W : Strategy} {N : Network} {c c' : Client}
    {s s' : System} {r' : Request} {reply reply' : Reply} {ok : Bool}
    (hs : c.send E W N s r reply = some (ok, c', s', r', reply')) : Reached true r'

end Request

namespace Client

variable {E : Env} {W : Strategy} {N : Network} {c c' : Client} {s s' : System} {r r' : Request}

/-- `prepare` is the first thing `send` does, and it leaves the request so. -/
theorem send_request {reply reply' : Reply} {ok : Bool}
    (h : c.send E W N s r reply = some (ok, c', s', r', reply')) :
    r' = (r.setHost c.host).prepare := by
  have hask : ∀ {e c₁ s₁ r₁}, c.ask E W N s r = some (e, c₁, s₁, r₁) →
      r₁ = (r.setHost c.host).prepare := by
    intro e c₁ s₁ r₁ ha
    rw [ask] at ha
    dsimp only at ha
    generalize (r.setHost c.host).prepare = q at ha
    generalize connect N { c with done := false } s = x at ha
    obtain ⟨_ | _, c₂, s₂⟩ := x <;> dsimp only at ha
    · exact (congrArg (·.2.2.2) (Option.some.inj ha)).symm
    generalize c₂.sendHeaders W s₂ q = y at ha
    obtain ⟨_ | _, s₃⟩ := y <;> dsimp only at ha
    · exact (congrArg (·.2.2.2) (Option.some.inj ha)).symm
    obtain ⟨⟨ok, c₄, s₄⟩, -, hr⟩ := Option.map_eq_some_iff.mp ha
    cases ok with
    | false => exact (congrArg (·.2.2.2) hr).symm
    | true =>
      dsimp only at hr
      generalize c₄.sendBody W s₄ q = z at hr
      obtain ⟨_ | _, s₅⟩ := z <;> exact (congrArg (·.2.2.2) hr).symm
  obtain ⟨⟨e, c₁, s₁, r₁⟩, ha, hr⟩ := Option.bind_eq_some_iff.mp h
  obtain rfl := hask ha
  cases e with
  | some e => exact (congrArg (·.2.2.2.1) (Option.some.inj hr)).symm
  | none =>
    obtain ⟨⟨ok', c₂, s₂, reply₂⟩, -, he⟩ := Option.map_eq_some_iff.mp hr
    cases ok' <;> exact (congrArg (·.2.2.2.1) he).symm

end Client

namespace Request

/-- The buffer is empty, and no server is to be asked, exactly as long as it is not prepared. -/
theorem Reached.buffer {used : Bool} {r : Request} (h : Reached used r) :
    (used = true → r.message.data ≠ []) ∧
      (used = false → r.message.data = [] ∧ r.require100 = false) := by
  have hprep : ∀ r : Request, r.prepare.message.data ≠ [] := by
    intro r
    obtain ⟨-, ⟨-, -, hd⟩ | ⟨-, -, hd⟩⟩ := r.prepare_cases <;> rw [hd]
    · exact List.append_ne_nil_of_right_ne_nil _ r.head_ne
    · exact List.append_ne_nil_of_left_ne_nil (List.append_ne_nil_of_right_ne_nil _ r.head_ne) _
  induction h with
  | new => exact ⟨fun hp => (by cases hp), fun _ => ⟨rfl, rfl⟩⟩
  | setUrl _ _ ih | setVerb _ _ ih | addHeader _ _ _ ih | delHeader _ _ ih => exact ih
  | @addBody _ r _ E fs p ih =>
    have hd : (r.message.addBody E fs p).1.data = r.message.data := by
      unfold Message.addBody
      split <;> rfl
    dsimp only
    rw [hd]
    exact ih
  | prepare => exact ⟨fun _ => hprep _, fun hp => by cases hp⟩
  | send _ hs =>
    rw [Client.send_request hs]
    exact ⟨fun _ => hprep _, fun hp => by cases hp⟩

end Request

namespace Client

/-- What a successful `send` of `r` has to do on its socket: the request is written once, and if it
asks the server first, no byte of the body is written before a 100 response is read. -/
structure Sends (E : Env) (w w' : Socket) (r : Request) (fs : Fs) : Prop where
  once : w'.out = w.out ++ r.wire fs
  waits : r.Expects → ∃ w₁ w₂ fs₁ p u, w.log <+: w₁.log ∧ w₁.out = w.out ++ r.head ∧
    readReply E .new fs₁ w₁ = some (true, p, u, w₂) ∧ u.reply.code = 100 ∧ w₂.out = w₁.out ∧
    w₂.log <+: w'.log

variable {E : Env} {W : Strategy} {N : Network} {c c' : Client} {s s' : System} {r r' : Request}

/-- What a successful `send` does on its socket. -/
theorem send_writes (hW : ∀ turn (n : ℕ), (n : ℤ) ≤ W.sendfile turn n) (hs : s.fs.Made)
    {reply reply' : Reply} (h : c.send E W N s r reply = some (true, c', s', r', reply')) :
    r' = (r.setHost c.host).prepare ∧ ∃ w₁ w₂ w₃, (s.wires c'.fd).Wrote w₁ r'.message.data ∧
      (if r'.require100 = true then ∃ p u, readReply E .new s.fs w₁ = some (true, p, u, w₂) ∧
        u.reply.code = 100 else w₂ = w₁) ∧
      w₂.Wrote w₃ ((if r'.require100 = true then r'.message.body.data else []) ++
        (r'.message.body.file s.fs).take r'.message.body.sizeOnDisk) ∧
      w₃.Read (s'.wires c'.fd) := by
  obtain ⟨c₃, s₄, s₅, ha, hrec, rfl⟩ := send_true h
  obtain ⟨hr', c₁, s₁, s₂, s₃, hc, hh, hw, hb⟩ := ask_none ha
  obtain ⟨hwires, hfs, -⟩ := connect_spec hc
  obtain ⟨w₁, hw₁, rfl⟩ := sendHeaders_spec hh
  have hwait : c₃.fd = c₁.fd ∧ ∃ w₂, s₃.wires c₁.fd = w₂ ∧
      (0 < r'.message.body.fd → s.fs.Same s₃.fs r'.message.body.fd) ∧
      if r'.require100 = true then ∃ p u, readReply E .new s.fs w₁ = some (true, p, u, w₂) ∧
        u.reply.code = 100 else w₂ = w₁ := by
    split_ifs at hw ⊢
    · obtain ⟨hfd, p, u, w, hread, hcode, hw'⟩ := waitFor100_spec hw
      have hsame := fun hp : 0 < r'.message.body.fd =>
        waitFor100_same (by rw [← hfs] at hs; exact hs) hw hp
      rw [← hfs]
      refine ⟨hfd, w, by rw [hw', Function.update_self], hsame, p, u, ?_, hcode⟩
      have hfst : (s₁.setWire c₁.fd w₁).fs = s₁.fs := rfl
      have hself : (s₁.setWire c₁.fd w₁).wires c₁.fd = w₁ := Function.update_self ..
      rwa [hfst, hself] at hread
    · obtain ⟨-, rfl, rfl⟩ := Prod.mk.injEq .. ▸ Prod.mk.injEq .. ▸ Option.some.inj hw
      exact ⟨rfl, w₁, Function.update_self .., fun _ => hfs ▸ .refl .., rfl⟩
  obtain ⟨hfd, w₂, hw₂, hsame, hif⟩ := hwait
  obtain ⟨w₃, hw₃, rfl⟩ := sendBody_spec hW hb
  obtain ⟨hfd', p, u, w₄, hread, -, -, hw₄⟩ := receive_spec hrec
  have hself : (s₃.setWire c₃.fd w₃).wires c₃.fd = w₃ := Function.update_self ..
  rw [hself] at hread
  refine ⟨hr', w₁, w₂, w₃, ?_, hif, ?_, ?_⟩
  · rw [hfd', hfd, ← hwires]
    exact hw₁
  · rw [hfd, hw₂, Body.file_kept hsame] at hw₃
    exact hw₃
  · have hend : (c'.releaseSocket s₅).wires c'.fd = w₄ := by
      rw [hfd']
      change s₅.wires c₃.fd = w₄
      rw [hw₄, Function.update_self]
    rw [hend]
    exact readLoop_read hread

/-- A `send` that succeeds sends its request, and nothing else, exactly if the request was never
prepared before. -/
theorem sends_iff (hW : ∀ turn (n : ℕ), (n : ℤ) ≤ W.sendfile turn n) (hs : s.fs.Made) {used : Bool}
    (hr : r.Reached used) {reply reply' : Reply}
    (h : c.send E W N s r reply = some (true, c', s', r', reply')) :
    Sends E (s.wires c'.fd) (s'.wires c'.fd) (r.setHost c.host) s.fs ↔ used = false := by
  obtain ⟨rfl, w₁, w₂, w₃, hw₁, hif, hw₃, hread⟩ := send_writes hW hs h
  obtain ⟨hused, hfresh⟩ := hr.buffer
  obtain ⟨hbody, hcases⟩ := (r.setHost c.host).prepare_cases
  have hw₂ : w₁.Read w₂ := by
    split_ifs at hif
    · obtain ⟨p, u, hr, -⟩ := hif
      exact readLoop_read hr
    · rw [hif]
      exact ⟨List.prefix_refl _, rfl⟩
  have hout : (s'.wires c'.fd).out = (s.wires c'.fd).out ++
      ((r.setHost c.host).prepare.message.data ++
        ((if (r.setHost c.host).prepare.require100 = true then r.message.body.data else []) ++
          (r.message.body.file s.fs).take r.message.body.sizeOnDisk)) := by
    rw [hread.out, hw₃.out, hw₂.out, hw₁.out, List.append_assoc, hbody]
    rfl
  have hwire : (r.setHost c.host).wire s.fs = (r.setHost c.host).head ++ (r.message.body.data ++
      (r.message.body.file s.fs).take r.message.body.sizeOnDisk) := rfl
  constructor
  · intro hsends
    -- what is left in the buffer is sent as well
    by_contra hne
    have hdata := List.length_pos_iff.mpr (hused (Bool.eq_true_of_not_eq_false hne))
    have hlen := congrArg List.length (hsends.once.symm.trans hout)
    obtain ⟨-, hq, hd⟩ | ⟨-, -, hd⟩ := hcases
    · rw [hwire, hd, if_pos hq] at hlen
      simp only [List.length_append, Request.setHost] at hlen
      omega
    · rw [hwire, hd] at hlen
      simp only [List.length_append, Request.setHost] at hlen
      omega
  · intro hnew
    obtain ⟨hdata, hreq⟩ := hfresh hnew
    have hnil : (r.setHost c.host).message.data = [] := hdata
    have hreq : (r.setHost c.host).require100 = false := hreq
    obtain ⟨he, hq, hd⟩ | ⟨he, hq, hd⟩ := hcases
    · rw [hnil, List.nil_append] at hd
      rw [if_pos hq] at hif
      obtain ⟨p, u, hr, hcode⟩ := hif
      refine ⟨?_, fun _ => ⟨w₁, w₂, s.fs, p, u, hw₁.log, ?_, hr, hcode, hw₂.out, ?_⟩⟩
      · rw [hout, hwire, hd, if_pos hq]
      · rw [hw₁.out, hd]
      · exact hw₃.log.trans hread.log
    · rw [hnil, List.nil_append] at hd
      refine ⟨?_, fun hx => absurd hx he⟩
      rw [hout, hwire, hd, hq, hreq, if_neg Bool.false_ne_true, List.nil_append, List.append_assoc]
      rfl

/-- A response to every `send`. -/
def answering : System :=
  .new (fun _ => .new [ascii "HTTP/1.1 200 OK\r\nContent-Length: 0\r\n\r\n"]) .new

/-- A new request is sent once. -/
theorem sends_iff_new : ∃ c' s' r' reply',
    (new (ascii "h") 80).send .linux ⟨fun _ n => n, fun _ n => n⟩
      (.reachable 3) answering .new .new =
      some (true, c', s', r', reply') ∧
    Sends .linux (answering.wires c'.fd) (s'.wires c'.fd)
      (Request.new.setHost (ascii "h")) .new := by
  have hok : ((new (ascii "h") 80).send .linux ⟨fun _ n => n, fun _ n => n⟩ (.reachable 3) answering
      .new .new).map Prod.fst = some true := by
    decide +kernel
  obtain ⟨⟨ok, c', s', r', reply'⟩, h, hf⟩ := Option.map_eq_some_iff.mp hok
  obtain rfl : ok = true := hf
  exact ⟨c', s', r', reply', h, (sends_iff (fun _ _ => le_rfl) Fs.new_made .new h).mpr rfl⟩

/-- The second `send` of a request writes the first one again. -/
theorem send_again : ∃ r c' s' r' reply', Request.Reached true r ∧
    (new (ascii "h") 80).send .linux ⟨fun _ n => n, fun _ n => n⟩ (.reachable 3) answering r .new =
      some (true, c', s', r', reply') ∧
    ¬ Sends .linux (answering.wires c'.fd) (s'.wires c'.fd) (r.setHost (ascii "h")) .new := by
  have hok : ((new (ascii "h") 80).send .linux ⟨fun _ n => n, fun _ n => n⟩ (.reachable 3) answering
      .new .new).bind (fun x => ((new (ascii "h") 80).send .linux ⟨fun _ n => n, fun _ n => n⟩
        (.reachable 3) answering x.2.2.2.1 .new).map fun y =>
          (y.1, decide ((y.2.2.1.wires y.2.1.fd).out = (answering.wires y.2.1.fd).out ++
            (x.2.2.2.1.setHost (ascii "h")).wire .new))) = some (true, false) := by
    decide +kernel
  obtain ⟨⟨ok, c₁, s₁, r, reply₁⟩, h₁, h₂⟩ := Option.bind_eq_some_iff.mp hok
  obtain ⟨⟨ok', c', s', r', reply'⟩, h, hf⟩ := Option.map_eq_some_iff.mp h₂
  obtain ⟨rfl, hne⟩ := Prod.mk.injEq .. ▸ hf
  exact ⟨r, c', s', r', reply', .send .new h₁, h, fun hs => of_decide_eq_false hne hs.once⟩

end Client

end Stutter
