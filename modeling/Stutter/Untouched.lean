import Stutter.Found
import Stutter.Temporary

namespace Stutter

open Joyent

namespace Body

variable {E : Env}

/-- The memory is full, and the file is not open for writing. -/
def Refuses (b : Body) (fs : Fs) : Prop :=
  b.data.length = MAX_BUFFER_SIZE ∧ 0 < b.fd ∧ fs.writer b.fd = none

/-- What is stored shows, unless it is refused. -/
theorem store_view (hE : E.Healthy) (b : Body) (fs : Fs) (p : Bytes) :
    (b.store E fs p).1.view (b.store E fs p).2 = b.view fs ↔ p = [] ∨ b.Refuses fs := by
  obtain rfl | hp := eq_or_ne p []
  · rw [store_nil]
    exact iff_of_true rfl (.inl rfl)
  have hpos := List.length_pos_iff.mpr hp
  rw [or_iff_right hp]
  by_cases hfull : b.data.length = MAX_BUFFER_SIZE
  · obtain ⟨hk, ho⟩ := keep_full hfull p
    rw [store, ho, if_neg hp, hk]
    obtain ⟨b', fs', hc, hfd, -, hsize, hnew, hold⟩ := createFile_healthy hE b fs
    rw [spill, hc]
    by_cases hb : 0 < b.fd
    · obtain ⟨rfl, rfl⟩ := hold hb
      cases hw : fs'.writer b'.fd with
      | none => simp only [hw, Refuses, hfull, hb, and_self]
      | some o =>
        simp only [hw]
        refine iff_of_false (fun hv => ?_) fun hr => absurd hr.2.2 (by rw [hw]; simp)
        have hs := congrArg View.size hv
        simp only [view, grow_size] at hs
        omega
    · simp only [(hnew (not_lt.mp hb)).appends.writer]
      refine iff_of_false (fun hv => ?_) fun hr => hb hr.2.1
      have hs := congrArg View.size hv
      simp only [view, grow_size, hsize] at hs
      omega
  · refine iff_of_false (fun hv => ?_) fun hr => hfull hr.1
    have hi : 0 < b.insertion p := by
      have hlt := lt_of_le_of_ne b.bounded hfull
      rw [insertion_eq]
      omega
    have hdata : (b.store E fs p).1.data = (b.keep p).data := by
      rw [store]
      split_ifs with ho
      · rfl
      · obtain ⟨b', fs', hc, -, hd, -⟩ := createFile_healthy hE (b.keep p) fs
        rw [spill, hc]
        cases hw : fs'.writer b'.fd <;> simp only [hw, grow_data, hd]
    have hl := congrArg (fun v => v.memory.length) hv
    simp only [view, hdata, keep_data, length_insertion] at hl
    omega

end Body

/-- A reply that is as it was: its status, its headers and its body. -/
structure Reply.Kept (r : Reply) (fs : Fs) (r' : Reply) (fs' : Fs) : Prop where
  code : r'.code = r.code
  status : r'.status = r.status
  headers : ∀ k, r'.message.headers.get k = r.message.headers.get k
  body : r'.message.body.view fs' = r.message.body.view fs

/-- What was found leaves a reply as it was: no header line changes a header, no byte of a body is
taken, and a message that ends has the code of the reply, which has no text to lose. -/
structure Found.Leaves (f : Found) (r : Reply) (fs : Fs) : Prop where
  headers : ∀ k, (r.message.headers.insertAll f.fields).get k = r.message.headers.get k
  body : f.body = [] ∨ r.message.body.Refuses fs
  codes : ∀ n, f.codes.getLast? = some n → toInt16 n = r.code ∧ r.status = []

theorem Body.view_same {fs fs' : Fs} {b : Body} (h : 0 < b.fd → fs.Same fs' b.fd) :
    b.view fs' = b.view fs := by
  rw [view, file_kept h]
  rfl

theorem Body.refuses_same {fs fs' : Fs} {b : Body} (h : 0 < b.fd → fs.Same fs' b.fd) :
    b.Refuses fs' ↔ b.Refuses fs := by
  have hw : 0 < b.fd → fs'.writer b.fd = fs.writer b.fd := by
    intro hp
    rw [Fs.writer, Fs.writer, (h hp).lookup]
    cases hl : fs.descs.lookup b.fd with
    | none => rfl
    | some o => rw [Option.filter_some, Option.filter_some, (h hp).opened o hl]
  constructor
  · rintro ⟨hd, hp, hn⟩
    exact ⟨hd, hp, hw hp ▸ hn⟩
  · rintro ⟨hd, hp, hn⟩
    exact ⟨hd, hp, (hw hp).trans hn⟩

/-- The reply behind what was found. -/
theorem Found.put_kept {E : Env} (hE : E.Healthy) (r : Reply) (fs : Fs) (f : Found) :
    r.Kept fs (f.put E r fs).1 (f.put E r fs).2 ↔ f.Leaves r fs := by
  have hb := r.message.body.store_view hE fs f.body
  constructor
  · rintro ⟨hc, hs, hh, hv⟩
    refine ⟨hh, hb.mp hv, fun n hn => ?_⟩
    simp only [put, status, hn] at hc hs
    exact ⟨hc, hs.symm⟩
  · rintro ⟨hh, hbody, hcodes⟩
    have hst : f.status r = (r.code, r.status) := by
      rw [status]
      cases hn : f.codes.getLast? with
      | none => rfl
      | some n =>
        obtain ⟨hc, hs⟩ := hcodes n hn
        simp only [hc, hs]
    exact ⟨congrArg Prod.fst hst, congrArg Prod.snd hst, hh, hb.mpr hbody⟩

namespace Client

variable {E : Env} {W : Strategy} {N : Network} {c c' c₁ : Client} {s s' s₁ : System}
  {r r' r₁ : Request} {reply reply' : Reply}

theorem fs_connect (N : Network) (c : Client) (s : System) : (c.connect N s).2.2.fs = s.fs := by
  rw [connect]
  generalize (c.pool s).get N c.fd s.sockets = x
  rfl

theorem fs_sendHeaders (W : Strategy) (c : Client) (s : System) (r : Request) :
    (c.sendHeaders W s r).2.fs = s.fs := by
  rw [sendHeaders]
  generalize (s.wires c.fd).sendRaw W r.message.data = x
  rfl

theorem fs_sendBody (W : Strategy) (c : Client) (s : System) (r : Request) :
    (c.sendBody W s r).2.fs = s.fs := by
  rw [sendBody]
  dsimp only
  generalize (if r.require100 then (s.wires c.fd).sendRaw W r.message.body.data
    else (true, s.wires c.fd)) = x
  obtain ⟨_ | _, w⟩ := x
  · rfl
  · dsimp only
    generalize w.sendBufferedBody W s.fs r.message.body = y
    rfl

theorem same_ask (hs : s.fs.Made) {e : Option ClientError}
    (h : c.ask E W N s r = some (e, c', s', r')) {fd : ℤ} (hp : 0 < fd) : s.fs.Same s'.fs fd := by
  rw [ask] at h
  dsimp only at h
  have hc := fs_connect N { c with done := false } s
  generalize connect N { c with done := false } s = x at h hc
  obtain ⟨_ | _, c₁, s₁⟩ := x <;> dsimp only at h hc
  · obtain ⟨-, -, rfl, -⟩ :=
      Prod.mk.injEq .. ▸ Prod.mk.injEq .. ▸ Prod.mk.injEq .. ▸ Option.some.inj h
    rw [hc]
    exact .refl _ fd
  have hh := fs_sendHeaders W c₁ s₁ (r.setHost c.host).prepare
  generalize c₁.sendHeaders W s₁ (r.setHost c.host).prepare = y at h hh
  obtain ⟨_ | _, s₂⟩ := y <;> dsimp only at h hh
  · obtain ⟨-, -, rfl, -⟩ :=
      Prod.mk.injEq .. ▸ Prod.mk.injEq .. ▸ Prod.mk.injEq .. ▸ Option.some.inj h
    rw [hh, hc]
    exact .refl _ fd
  obtain ⟨⟨ok, c₃, s₃⟩, hw, hr⟩ := Option.map_eq_some_iff.mp h
  have hsame : s.fs.Same s₃.fs fd := by
    rw [← hc, ← hh]
    split_ifs at hw
    · exact waitFor100_same (by rwa [hh, hc]) hw hp
    · obtain ⟨-, -, rfl⟩ := Prod.mk.injEq .. ▸ Prod.mk.injEq .. ▸ Option.some.inj hw
      exact .refl _ fd
  cases ok with
  | false =>
    obtain ⟨-, -, rfl, -⟩ := Prod.mk.injEq .. ▸ Prod.mk.injEq .. ▸ Prod.mk.injEq .. ▸ hr
    exact hsame
  | true =>
    have hb := fs_sendBody W c₃ s₃ (r.setHost c.host).prepare
    dsimp only at hr
    generalize c₃.sendBody W s₃ (r.setHost c.host).prepare = z at hr hb
    obtain ⟨_ | _, s₄⟩ := z <;>
      obtain ⟨-, -, rfl, -⟩ := Prod.mk.injEq .. ▸ Prod.mk.injEq .. ▸ Prod.mk.injEq .. ▸ hr <;>
      rwa [← hb] at hsame

/-- A `send` that fails leaves the reply as it was exactly if it fails before the response, or what
`http_parser` has found of the response by then leaves it so. -/
theorem send_kept_iff (hE : E.Reliable) (hs : s.fs.Made)
    (h : c.send E W N s r reply = some (false, c', s', r', reply')) :
    reply.Kept s.fs reply' s'.fs ↔ ∀ c₁ s₁ r₁, c.ask E W N s r = some (none, c₁, s₁, r₁) →
      ∀ x, Found.readReply (s₁.wires c₁.fd) = some x → x.2.2.1.Leaves reply s.fs := by
  obtain ⟨⟨e, c₁, s₁, r₁⟩, ha, hr⟩ := Option.bind_eq_some_iff.mp h
  have hsame := fun hp : 0 < reply.message.body.fd => same_ask hs ha hp
  rw [ha]
  cases e with
  | some e =>
    obtain ⟨-, -, rfl, -, rfl⟩ := Prod.mk.injEq .. ▸ Prod.mk.injEq .. ▸ Prod.mk.injEq .. ▸
      Prod.mk.injEq .. ▸ Option.some.inj hr
    refine iff_of_true ⟨rfl, rfl, fun _ => rfl, ?_⟩ fun _ _ _ he => ?_
    · exact Body.view_same hsame
    · cases congrArg Prod.fst (Option.some.inj he)
  | none =>
    obtain ⟨⟨ok, c₂, s₂, reply₂⟩, hrec, he⟩ := Option.map_eq_some_iff.mp hr
    obtain ⟨⟨ok', p, u, w⟩, hread, hx⟩ := Option.map_eq_some_iff.mp hrec
    obtain ⟨rfl, rfl, rfl, rfl⟩ := Prod.mk.injEq .. ▸ Prod.mk.injEq .. ▸ Prod.mk.injEq .. ▸ hx
    have hf := readReply_found hE reply s₁.fs (s₁.wires c₁.fd)
    rw [hread] at hf
    cases ok' with
    | true => exact Bool.noConfusion (congrArg Prod.fst he)
    | false =>
      obtain ⟨-, -, rfl, -, rfl⟩ := Prod.mk.injEq .. ▸ Prod.mk.injEq .. ▸ Prod.mk.injEq .. ▸
        Prod.mk.injEq .. ▸ he
      cases hfound : Found.readReply (s₁.wires c₁.fd) with
      | none =>
        rw [hfound] at hf
        exact hf.elim
      | some x =>
        obtain ⟨_, _, f, _⟩ := x
        rw [hfound] at hf
        obtain ⟨-, -, -, hu⟩ := hf
        have hkept := f.put_kept hE.toHealthy reply s₁.fs
        rw [← hu.reply_eq, ← hu.fs_eq] at hkept
        have hv := Body.view_same hsame
        constructor
        · rintro ⟨hc, hst, hh, hb⟩ _ _ _ ha' y hy
          obtain ⟨-, rfl, rfl, -⟩ := Prod.mk.injEq .. ▸ Prod.mk.injEq .. ▸ Prod.mk.injEq .. ▸
            Option.some.inj ha'
          rw [hfound] at hy
          obtain rfl := Option.some.inj hy
          have hl := hkept.mp ⟨hc, hst, hh, hb.trans hv.symm⟩
          exact ⟨hl.headers, hl.body.imp_right (Body.refuses_same hsame).mp, hl.codes⟩
        · intro hall
          have hl := hall _ _ _ rfl _ hfound
          obtain ⟨hc, hst, hh, hb⟩ := hkept.mpr
            ⟨hl.headers, hl.body.imp_right (Body.refuses_same hsame).mpr, hl.codes⟩
          exact ⟨hc, hst, hh, hb.trans hv⟩

/-- A strategy that writes all it is given. -/
def writing : Strategy := ⟨fun _ n => n, fun _ n => n⟩

/-- A response that breaks off in its head. -/
def cutShort : System := .new (fun _ => .new [ascii "HTTP/1.1 404 Not Found\r\nX: 1\r\nY"]) .new

theorem send_kept_iff_cutShort : ∃ c' s' r' reply',
    (new (ascii "h") 80).send .linux writing (.reachable 3) cutShort .new .new =
      some (false, c', s', r', reply') ∧
    (Reply.new.Kept .new reply' s'.fs ↔ ∀ c₁ s₁ r₁,
      (new (ascii "h") 80).ask .linux writing (.reachable 3) cutShort .new =
        some (none, c₁, s₁, r₁) →
      ∀ x, Found.readReply (s₁.wires c₁.fd) = some x → x.2.2.1.Leaves .new .new) := by
  have hok : ((new (ascii "h") 80).send .linux writing (.reachable 3) cutShort .new .new).map
      Prod.fst = some false := by
    decide +kernel
  obtain ⟨⟨ok, c', s', r', reply'⟩, h, hf⟩ := Option.map_eq_some_iff.mp hok
  obtain rfl : ok = false := hf
  exact ⟨c', s', r', reply', h, send_kept_iff Env.linux_reliable Fs.new_made h⟩

/-- The header that came whole is in the reply. -/
theorem send_leaves_header : Reply.new.message.headers.get (ascii "X") = none ∧
    ((new (ascii "h") 80).send .linux writing (.reachable 3) cutShort .new .new).map
      (fun x => (x.1, x.2.2.2.2.message.headers.get (ascii "X"))) =
      some (false, some (ascii "1")) := by
  constructor <;> decide +kernel

end Client

end Stutter
