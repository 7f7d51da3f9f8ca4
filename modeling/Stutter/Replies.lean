import Stutter.Responses

namespace Stutter

open Joyent

namespace Found

theorem body_save (f : Found) : f.save.body = f.body := by
  rw [save]
  split_ifs <;> rfl

/-- Behind lines with a colon no name is left over. -/
theorem between_head {ls : List HeadLine} (h : ∀ l ∈ ls, l.pieces ≠ []) {f : Found}
    (hf : f.save.Between) : (settings.head ls f).save.Between := by
  induction ls generalizing f with
  | nil => exact hf
  | cons l ls ih =>
    refine ih (fun r hr => h r (List.mem_cons_of_mem _ hr)) ?_
    change (settings.headLine l f).save.Between
    rw [Settings.headLine, pieces_found, decide_eq_true (h l List.mem_cons_self), Bool.or_true]
    exact ⟨⟨rfl, rfl⟩, rfl⟩

theorem body_head (ls : List HeadLine) (f : Found) : (settings.head ls f).body = f.body := by
  induction ls generalizing f with
  | nil => rfl
  | cons l ls ih =>
    have hl : (settings.headLine l f).body = f.save.body := by
      unfold Settings.headLine
      rw [pieces_found]
      rfl
    exact (ih _).trans (hl.trans (body_save f))

theorem body_lines (ls : List HeaderLine) (f : Found) : (settings.lines ls f).body = f.body := by
  induction ls generalizing f with
  | nil => rfl
  | cons l ls ih =>
    have hl : (settings.line l f).body = f.save.body := rfl
    exact (ih _).trans (hl.trans (body_save f))

theorem codes_lines (ls : List HeaderLine) (f : Found) : (settings.lines ls f).codes = f.codes := by
  induction ls generalizing f with
  | nil => rfl
  | cons l ls ih =>
    have hl : (settings.line l f).codes = f.save.codes := rfl
    exact (ih _).trans (hl.trans (codes_save f))

theorem bodyData_found (body : Bytes) (f : Found) :
    settings.bodyData body f = { f with body := f.body ++ body } := by
  rw [Settings.bodyData]
  split_ifs with h
  · rw [h, List.append_nil]
  · rfl

end Found

/-- What the recorder reads is read into the reply. -/
theorem Client.readReply_of {E : Env} (hE : E.Reliable) {w w' : Socket} {ok : Bool} {p : HttpParser}
    {f : Found} (h : Found.readReply w = some (ok, p, f, w')) (reply : Reply) (fs : Fs) :
    ∃ u, readReply E reply fs w = some (ok, p, u, w') ∧ u.Finds E reply fs f := by
  have hsame := readReply_found hE reply fs w
  rw [h] at hsame
  cases hr : readReply E reply fs w with
  | none =>
    rw [hr] at hsame
    exact hsame.elim
  | some r =>
    obtain ⟨ok', p', u, w₁⟩ := r
    rw [hr] at hsame
    obtain ⟨rfl, rfl, rfl, hu⟩ := hsame
    exact ⟨u, rfl, hu⟩

/-- The body that is received is the one that is found. -/
theorem Client.content_of_finds {E : Env} (hE : E.Reliable) {reply : Reply} {fs : Fs}
    (hr : reply.message.body.IsEmpty) {u : Session Bool} {f : Found} (hu : u.Finds E reply fs f) :
    u.reply.message.body.content u.fs = f.body := by
  rw [hu.reply_eq, hu.fs_eq, Found.put]
  have h := ((hr.received fs).store hE f.body).2
  rw [(hr.holds fs).content, List.nil_append] at h
  exact h

/-- What is read into the reply is what the recorder reads. -/
theorem Client.found_of {E : Env} (hE : E.Reliable) {reply : Reply} {fs : Fs} {w w' : Socket}
    {ok : Bool} {p : HttpParser} {u : Session Bool}
    (h : readReply E reply fs w = some (ok, p, u, w')) :
    ∃ f, Found.readReply w = some (ok, p, f, w') ∧ u.Finds E reply fs f := by
  have hsame := readReply_found hE reply fs w
  rw [h] at hsame
  cases hr : Found.readReply w with
  | none =>
    rw [hr] at hsame
    exact hsame.elim
  | some r =>
    obtain ⟨ok', p', f, w₁⟩ := r
    rw [hr] at hsame
    obtain ⟨rfl, rfl, rfl, hu⟩ := hsame
    exact ⟨f, rfl, hu⟩

namespace Response

variable {R : Response}

/-- What is found in the head: its lines. -/
theorem found_head (R : Response) : (Found.settings.headers (Found.settings.head R.lines .new)) =
    { (Found.settings.head R.lines .new).save with
      fields := own R.lines, body := [], codes := [] } := by
  have hf : (Found.settings.head R.lines .new).save.fields =
      Found.new.save.fields ++ filed Found.new.save.key R.lines := Found.head_found rfl
  have hn : Found.new.save.fields ++ filed Found.new.save.key R.lines = filed [] R.lines := rfl
  rw [hn, filed_lines] at hf
  have hb : (Found.settings.head R.lines .new).save.body = [] :=
    (Found.body_save _).trans (Found.body_head ..)
  have hc : (Found.settings.head R.lines .new).save.codes = [] :=
    (Found.codes_save _).trans (Found.codes_head ..)
  change (Found.settings.head R.lines .new).save = _
  rw [← hf, ← hb, ← hc]

/-- The lines of the trailer but the last are found as well. -/
def fields (R : Response) : List (Bytes × Bytes) :=
  own R.lines ++ (R.content.trailer.map fun l => (l.name, l.value)).dropLast

/-- A response with an end of its own ends there. -/
theorem ends (R : Response) (hlen : R.head.bytes.length ≤ maxHeaderSize) (hup : R.upgrade = false)
    (hend : ¬ R.content.IsToEnd) (ht : Taken R.content.trailer) : ∃ t : HttpParser × Found,
      t.1.httpErrno = .ok ∧ t.2.fields = R.fields ∧ t.2.codes = [R.code] ∧
      t.2.body = R.content.body ∧
      Found.Ends R.bytes fun pos more => loop Found.settings ⟨t.1, t.2, .none⟩ 0 pos more := by
  obtain ⟨q, hcode, hq, ps, ch, r, hb, hr, hfeed⟩ :=
    R.finishes Found.silent (u := .new) rfl hlen hup hend ht
  rw [found_head, Found.bodyData_found] at hfeed
  generalize hv : Found.settings.lines _ _ = v at hfeed
  obtain ⟨⟨hval, hgot⟩, hk⟩ := Found.between_head (f := .new) R.pieces_ne ⟨⟨rfl, rfl⟩, rfl⟩
  have hc : Completes Found.settings q v
      (q.goto q.newMessage, { v with codes := v.codes ++ [q.statusCode] }) := ⟨rfl, hq⟩
  have hvc : v.codes = [] := by
    rw [← hv]
    exact Found.codes_lines ..
  refine ⟨(q.goto q.newMessage, { v with codes := v.codes ++ [q.statusCode] }), hq, ?_, ?_, ?_, ?_⟩
  rotate_left 3
  · rw [hb]
    exact Found.ends_of_runs hr (hfeed _ hc)
      (List.append_ne_nil_of_right_ne_nil _ (List.cons_ne_nil _ _)) (newMessage_mark q).1
      (newMessage_mark q).2
  · dsimp only
    rw [← hv]
    refine (Found.fields_lines (by exact ⟨hval, hgot⟩) R.content.trailer).trans ?_
    dsimp only
    rw [hk, Found.following_nil]
    rfl
  · dsimp only
    rw [hvc, hcode]
    rfl
  · dsimp only
    rw [← hv, Found.body_lines]
    rfl

/-- One that asks for another protocol ends with its head, behind which the buffer is left. -/
theorem head_ends (R : Response) (hlen : R.head.bytes.length ≤ maxHeaderSize)
    (hup : R.upgrade = true) : ∃ t : HttpParser × Found, t.2.fields = own R.lines ∧
      t.2.codes = [R.code] ∧ t.2.body = [] ∧
      Found.Ends R.head.bytes fun pos _ => some (pos, t) := by
  obtain ⟨as, r, hb, hr, he, hg, -, -, hcode, hn, hs⟩ := (R.opens hlen).reads (R.framing_eq hlen)
  obtain ⟨htr, hsk⟩ := R.framing_flags
  have hflags : r.flags = R.framing.flags := congrArg Framing.flags hg
  have hblank : r.atBlank.upgrade = true := by
    unfold HttpParser.atBlank
    dsimp only
    rw [hflags, show R.framing.flags.upgrade = true from hup, Bool.true_or]
  have hc : (Found.settings.head R.lines .new).codes = [] := Found.codes_head ..
  obtain ⟨t, hfields, hbody, -, -, hcodes, hl⟩ := Found.headEnd_found
    (f := Found.settings.head R.lines .new) he hs (hflags ▸ htr) (hflags ▸ hsk) hn
  rw [if_pos (show r.atBlank.EndsAtHead from .inl hblank), hc, hcode, List.nil_append] at hcodes
  rw [hblank] at hl
  refine ⟨t, hfields.trans ?_, hcodes, hbody.trans (Found.body_head ..), ?_⟩
  · exact (Found.head_found (f := .new) rfl).trans R.filed_lines
  · have hsilent := Found.runs_silent hr (Found.init_sound .response) hc
    have hends := Found.ends_of_head (b := true) hsilent
      (by obtain hs | hs | hs := hs <;> rw [hs] <;> rfl)
      (by obtain hs | hs | hs := hs <;> rw [hs] <;> rfl)
      (by rw [hcodes]; exact List.cons_ne_nil _ _) hl
    rw [← hb] at hends
    exact hends

/-- `read_reply` succeeds, and the reply holds the response. -/
def ReadFrom (E : Env) (reply : Reply) (fs : Fs) (w : Socket) (R : Response) : Prop :=
  ∃ p u w', Client.readReply E reply fs w = some (true, p, u, w') ∧
    R.Held reply.message.headers u.reply u.fs

/-- What is found is the response, and nothing else is filed over the headers `h`. -/
structure Says (R : Response) (h : Headers) (f : Found) : Prop where
  code : ∃ n, f.codes.getLast? = some n ∧ toInt16 n = R.code
  headers : h.insertAll f.fields = h.insertAll (own R.lines)
  body : f.body = R.content.body

/-- In one buffer with some bytes behind it the response is still what is found. -/
def Undisturbed (R : Response) (h : Headers) (more : Bytes) : Prop := ∃ p f,
  httpParserExecute Found.settings (.init .response) .new (R.bytes ++ more) =
    some ((R.bytes ++ more).length, p, f) ∧ R.Says h f

/-- What the reads must be like: the head is short enough, the response has an end of its own, a
trailer is one that `http_parser` takes, and what follows the end in the read that holds it neither
is refused nor changes what was found. A response that asks for another protocol has no content, and
nothing follows its head there. -/
def Clear (R : Response) (h : Headers) (reads : List Bytes) : Prop :=
  R.head.bytes.length ≤ maxHeaderSize ∧
    if R.upgrade then R.content.body = [] ∧ surplus R.head.bytes.length reads = []
    else ¬ R.content.IsToEnd ∧ Taken R.content.trailer ∧
      R.Undisturbed h (surplus R.bytes.length reads)

variable {E : Env} {reply : Reply} {fs : Fs} {w : Socket}

theorem held_iff (hE : E.Reliable) (hr : reply.message.body.IsEmpty) {u : Session Bool} {f : Found}
    (hu : u.Finds E reply fs f) (hc : f.codes ≠ []) :
    R.Held reply.message.headers u.reply u.fs ↔ R.Says reply.message.headers f := by
  obtain ⟨n, hn⟩ : ∃ n, f.codes.getLast? = some n := by
    cases hl : f.codes.getLast? with
    | none => exact absurd (List.getLast?_eq_none_iff.mp hl) hc
    | some n => exact ⟨n, rfl⟩
  have hcode : u.reply.code = toInt16 n := by
    rw [hu.reply_eq, Found.put, Found.status, hn]
  have hheaders : u.reply.message.headers = reply.message.headers.insertAll f.fields := by
    rw [hu.reply_eq, Found.put]
  have hbody := Client.content_of_finds hE hr hu
  constructor
  · rintro ⟨h₁, h₂, h₃⟩
    exact ⟨⟨n, hn, hcode.symm.trans h₁⟩, hheaders.symm.trans h₂, hbody.symm.trans h₃⟩
  · rintro ⟨⟨m, hm, h₁⟩, h₂, h₃⟩
    obtain rfl := Option.some.inj (hn.symm.trans hm)
    exact ⟨hcode.trans h₁, hheaders.trans h₂, hbody.trans h₃⟩

theorem readFrom_iff (hE : E.Reliable) (hr : reply.message.body.IsEmpty) (hp : Pieces w.inbox) :
    R.ReadFrom E reply fs w ↔ ∃ p f w', Found.readReply w = some (true, p, f, w') ∧
      R.Says reply.message.headers f := by
  constructor
  · rintro ⟨p, u, w', hread, h⟩
    obtain ⟨f, hf, hu⟩ := Client.found_of hE hread
    obtain ⟨-, -, -, hc⟩ := Found.readLoop_true hp (s := (.init .response, .new)) hf
    exact ⟨p, f, w', hf, (held_iff hE hr hu hc).mp h⟩
  · rintro ⟨p, f, w', hf, h⟩
    obtain ⟨u, hread, hu⟩ := Client.readReply_of hE hf reply fs
    obtain ⟨-, -, -, hc⟩ := Found.readLoop_true hp (s := (.init .response, .new)) hf
    exact ⟨p, u, w', hread, (held_iff hE hr hu hc).mpr h⟩

/-- Behind the response `http_parser` goes on from where it left off. -/
theorem undisturbed_iff {t : HttpParser × Found} {h : Headers}
    (ht : Found.Ends R.bytes fun pos more => loop Found.settings ⟨t.1, t.2, .none⟩ 0 pos more)
    (pos : ℕ) (more : Bytes) : R.Undisturbed h more ↔ ∃ p f,
      loop Found.settings ⟨t.1, t.2, .none⟩ 0 pos more = some (pos + more.length, p, f) ∧
        R.Says h f := by
  obtain ⟨s, hs, hx⟩ := ht.read [] R.bytes ht.ne rfl
  obtain _ | _ := hs
  unfold Undisturbed
  rw [hx, List.length_append]
  exact exists_congr fun p => exists_congr fun f => and_congr_left fun _ => loop_all_iff

/-- A response that asks for another protocol, read to the end of its head. -/
theorem upgrade_iff (hlen : R.head.bytes.length ≤ maxHeaderSize) (hup : R.upgrade = true)
    (hp : Pieces w.inbox) {h : Headers} {bs : Bytes}
    (hcut : w.inbox.flatten = R.head.bytes ++ bs) :
    (∃ p f w', Found.readReply w = some (true, p, f, w') ∧ R.Says h f) ↔
      R.content.body = [] ∧ surplus R.head.bytes.length w.inbox = [] := by
  obtain ⟨t, hfields, hcodes, hbody, hends⟩ := R.head_ends hlen hup
  obtain ⟨d, more, w', hd, hs, -, -, hread⟩ := hends.readReply hp hcut
  rw [hread, hs]
  constructor
  · rintro ⟨p, f, w₁, he, hsaid⟩
    obtain ⟨hok, rfl, rfl, rfl⟩ := Prod.mk.injEq .. ▸ Prod.mk.injEq .. ▸ Prod.mk.injEq .. ▸
      Option.some.inj he
    have hn := of_decide_eq_true hok
    exact ⟨hsaid.body.symm.trans hbody, List.eq_nil_of_length_eq_zero (by omega)⟩
  · rintro ⟨hb, rfl⟩
    have hok : decide (d.length = d.length + ([] : Bytes).length) = true := decide_eq_true rfl
    refine ⟨t.1, t.2, w', congrArg some (congrArg (·, t.1, t.2, w') hok), ⟨R.code, ?_,
      R.toInt16_code⟩, by rw [hfields], hbody.trans hb.symm⟩
    rw [hcodes, List.getLast?_singleton]

/-- A response with an end of its own, read to there. -/
theorem own_end_iff (hlen : R.head.bytes.length ≤ maxHeaderSize) (hup : R.upgrade = false)
    (hend : ¬ R.content.IsToEnd) (ht : Taken R.content.trailer) (hp : Pieces w.inbox) {h : Headers}
    {bs : Bytes} (hcut : w.inbox.flatten = R.bytes ++ bs) :
    (∃ p f w', Found.readReply w = some (true, p, f, w') ∧ R.Says h f) ↔
      R.Undisturbed h (surplus R.bytes.length w.inbox) := by
  obtain ⟨t, -, -, -, -, hends⟩ := R.ends hlen hup hend ht
  obtain ⟨d, more, w', hd, hs, -, -, hread⟩ := hends.readReply hp hcut
  rw [hread, hs, undisturbed_iff hends d.length more]
  constructor
  · rintro ⟨p, f, w₁, he, hsaid⟩
    obtain ⟨⟨n, q, g⟩, hl, he⟩ := Option.map_eq_some_iff.mp he
    obtain ⟨hok, rfl, rfl, rfl⟩ := Prod.mk.injEq .. ▸ Prod.mk.injEq .. ▸ Prod.mk.injEq .. ▸ he
    rw [of_decide_eq_true hok] at hl
    exact ⟨q, g, hl, hsaid⟩
  · rintro ⟨p, f, hl, hsaid⟩
    rw [hl]
    exact ⟨p, f, w', congrArg some (congrArg (·, p, f, w') (decide_eq_true rfl)), hsaid⟩

/-- With nothing behind it, what counts is the trailer. -/
theorem undisturbed_nil (hlen : R.head.bytes.length ≤ maxHeaderSize) (hup : R.upgrade = false)
    (hend : ¬ R.content.IsToEnd) (ht : Taken R.content.trailer) {h : Headers} :
    R.Undisturbed h [] ↔ h.insertAll R.fields = h.insertAll (own R.lines) := by
  obtain ⟨t, he, hfields, hcodes, hbody, hends⟩ := R.ends hlen hup hend ht
  rw [undisturbed_iff hends 0, Found.loop_end he]
  constructor
  · rintro ⟨p, f, hf, hsaid⟩
    obtain ⟨-, rfl, rfl⟩ := Prod.mk.injEq .. ▸ Prod.mk.injEq .. ▸ Option.some.inj hf
    exact hfields ▸ hsaid.headers
  · intro hh
    refine ⟨t.1, t.2, rfl, ⟨R.code, ?_, R.toInt16_code⟩, hfields ▸ hh, hbody⟩
    rw [hcodes, List.getLast?_singleton]

/-- What is found is the response exactly where the reads are clear of what follows it. -/
theorem found_iff (hp : Pieces w.inbox) {h : Headers} {bs : Bytes}
    (hcut : w.inbox.flatten = R.bytes ++ bs) (hend : R.content.IsToEnd → bs = []) :
    (∃ p f w', Found.readReply w = some (true, p, f, w') ∧ R.Says h f) ↔ R.Clear h w.inbox := by
  have hhead : w.inbox.flatten = R.head.bytes ++ (R.content.bytes ++ bs) := by
    rw [hcut, Response.bytes, List.append_assoc]
  unfold Clear
  by_cases hlen : R.head.bytes.length ≤ maxHeaderSize
  swap
  · refine iff_of_false ?_ fun h => hlen h.1
    rintro ⟨p, f, w', h, -⟩
    exact Found.readReply_halts (R.head_halts Found.silent (u := .new) rfl (not_le.mp hlen)) hp
      hhead h
  rw [and_iff_right hlen]
  -- the parser leaves the buffer behind a head that asks for another protocol
  by_cases hup : R.upgrade = true
  · rw [if_pos hup]
    exact upgrade_iff hlen hup hp hhead
  rw [if_neg hup]
  have hup' : R.upgrade = false := by simpa using hup
  by_cases hto : R.content.IsToEnd
  · refine iff_of_false ?_ fun h => h.1 hto
    rintro ⟨p, f, w', h, -⟩
    obtain ⟨t, ht⟩ := R.toEnd_runs Found.silent (u := .new) rfl hlen hup' hto
    rw [hend hto, List.append_nil] at hcut
    rw [← hcut] at ht
    exact Found.readReply_silent ht hp h
  rw [and_iff_right hto]
  by_cases htaken : Taken R.content.trailer
  · rw [and_iff_right htaken]
    exact own_end_iff hlen hup' hto htaken hp hcut
  · refine iff_of_false ?_ fun h => htaken h.1
    rintro ⟨p, f, w', h, -⟩
    exact Found.readReply_halts (R.trailer_halts Found.silent (u := .new) rfl hlen hup' htaken) hp
      hcut h

/-- For every response, whatever follows it and whatever the cut: `read_reply` gives that response
if, and only if, the reads are clear of what follows. -/
theorem read_iff (hE : E.Reliable) (hr : reply.message.body.IsEmpty) (hp : Pieces w.inbox)
    {bs : Bytes} (hcut : w.inbox.flatten = R.bytes ++ bs) (hend : R.content.IsToEnd → bs = []) :
    R.ReadFrom E reply fs w ↔ R.Clear reply.message.headers w.inbox := by
  rw [readFrom_iff hE hr hp]
  exact found_iff hp hcut hend

def one : Number := ⟨ascii "1", by decide +kernel, by decide +kernel, by decide +kernel⟩

def http11 (code text : Bytes) (h : code ≠ [] ∧ (∀ c ∈ code, isNum c = true) ∧
    numeral code ≤ 999 ∧ ∀ c ∈ text, c ≠ CR ∧ c ≠ LF) : StatusLine :=
  ⟨one, one, ⟨code, h.1, h.2.1, h.2.2.1⟩, text, h.2.2.2⟩

def greeting : Response where
  status := http11 (ascii "200") (ascii "OK") (by decide +kernel)
  lines := [Head.five]
  content := .length (ascii "hello")
  framing := ⟨.none, 5⟩
  colon := by decide +kernel
  framed := by decide +kernel
  fits := ⟨rfl, rfl, by decide +kernel⟩

theorem greeting_clear (h : Headers) : greeting.Clear h [greeting.head.bytes, ascii "hello"] := by
  have hs : surplus greeting.bytes.length [greeting.head.bytes, ascii "hello"] = [] := by
    decide +kernel
  refine ⟨by decide +kernel, ?_⟩
  rw [if_neg (by decide +kernel), hs]
  refine ⟨id, by decide +kernel, ?_⟩
  exact (undisturbed_nil (R := greeting) (by decide +kernel) rfl id (by decide +kernel)).mpr rfl

theorem read_iff_greeting : greeting.ReadFrom .linux .new .new
    (.new [greeting.head.bytes, ascii "hello"]) :=
  have hcut : (Socket.new [greeting.head.bytes, ascii "hello"]).inbox.flatten =
      greeting.bytes ++ [] := by decide +kernel
  (read_iff Env.linux_reliable Body.new_isEmpty (by decide +kernel) hcut fun _ => rfl).mpr
    (greeting_clear _)

end Response

end Stutter
