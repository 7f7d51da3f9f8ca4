import Stutter.Joyent.Ghost
import Stutter.Joyent.HeadLine
import Stutter.Trailers

namespace Stutter

open Joyent

namespace Joyent

/-- The content length that frames the body, once the head is read. -/
def HttpParser.usedLength (p : HttpParser) : ℕ :=
  if p.state = .bodyIdentity then p.contentLength else 0

/-- The content length that the lines of a head give to a request. -/
def Framing.bodyLength (f : Framing) (m : Method) : ℕ :=
  if m = .connect ∨ f.flags.upgrade = true ∨ f.flags.chunked = true ∨ f.contentLength = ULLONG_MAX
  then 0 else f.contentLength

/-- The message ends with its head. -/
def HttpParser.EndsAtHead (p : HttpParser) : Prop :=
  p.upgrade = true ∨ p.flags.chunked = false ∧ (p.contentLength = 0 ∨
    p.contentLength = ULLONG_MAX ∧ (p.type = .request ∨ p.messageNeedsEof = false))

/-- The parser when the head is over. -/
def HttpParser.atBlank (p : HttpParser) : HttpParser :=
  { p with upgrade := p.flags.upgrade || p.method = .connect }

instance (p : HttpParser) : Decidable p.EndsAtHead := inferInstanceAs (Decidable (_ ∨ _))

theorem newMessage_ne (p : HttpParser) : p.newMessage ≠ .bodyIdentity := by
  unfold HttpParser.newMessage
  split_ifs <;> decide

end Joyent

namespace Found

theorem complete_found {p : HttpParser} (he : p.httpErrno = .ok) (f : Found) (er : ℕ)
    (go : Cfg Found → Flow Found) : completeMessage settings er ⟨p, f, .none⟩ go =
      go ⟨p.goto p.newMessage, { f with codes := f.codes ++ [p.statusCode] }, .none⟩ := by
  have hg : (p.goto p.newMessage).httpErrno = .ok := he
  simp only [completeMessage, callbackMessageComplete, Cfg.goto, hg, ne_eq, not_true_eq_false,
    if_false, settings]
  rfl

theorem codes_save (f : Found) : f.save.codes = f.codes := by
  rw [save]
  split_ifs <;> rfl

theorem usedLength_complete (p : HttpParser) : (p.goto p.newMessage).usedLength = 0 :=
  if_neg (newMessage_ne p)

/-- Without a fragment there is nothing to do at the end of the buffer. -/
theorem loop_end {p : HttpParser} (he : p.httpErrno = .ok) (f : Found) (pos : ℕ) :
    loop settings ⟨p, f, .none⟩ 0 pos [] = some (pos, p, f) := by
  have hn : ∀ k (go : Cfg Found → Flow Found),
      callbackData settings k [] 0 ⟨p, f, .none⟩ go = go ⟨p, f, .none⟩ :=
    fun k _ => callbackData_none he (Marks.get_none k)
  change leftover settings pos ⟨p, f, .none⟩ = _
  simp only [leftover, hn, Marks.count_none]
  rfl

/-- Where the parser and the recorder stand when the head of a message is over, and what becomes of
the rest of the buffer: none of it is read if the connection is upgraded. -/
structure Ended (p : HttpParser) (f : Found) (flow : Flow Found) (t : HttpParser × Found) :
    Prop where
  fields : t.2.fields = f.fields
  body : t.2.body = f.body
  errno : t.1.httpErrno = .ok
  used : t.1.usedLength = (if p.upgrade = true ∨ p.flags.chunked = true ∨
    p.contentLength = ULLONG_MAX then 0 else p.contentLength)
  codes : t.2.codes = (if p.EndsAtHead then f.codes ++ [p.statusCode] else f.codes)
  rest : ∀ pos more, flow.andThen settings pos LF more =
    if p.upgrade = true then some (pos + 1, t) else loop settings ⟨t.1, t.2, .none⟩ 0 (pos + 1) more

/-- The end of a head: whether a length frames the body, and whether the message is complete. -/
theorem headersDone_found {p : HttpParser} {f : Found} (he : p.httpErrno = .ok)
    (hk : p.flags.skipbody = false) :
    ∃ t, Ended p f (headersDone settings ⟨p, f, .none⟩ LF) t := by
  let q : HttpParser := { p with nread := 0 }
  have hq : q.httpErrno = .ok := he
  let g : Found := { f with codes := f.codes ++ [q.statusCode] }
  have hdone : (p.upgrade = true ∨ p.flags.chunked = true ∨ p.contentLength = ULLONG_MAX) ∨
      p.contentLength = 0 → ¬ p.upgrade = true → p.EndsAtHead →
      ∃ t, Ended p f (completeMessage settings 1 ⟨q, f, .none⟩ (.next · 0)) t := by
    intro hz hup hend
    rw [complete_found hq]
    refine ⟨(q.goto q.newMessage, g), rfl, rfl, hq, (usedLength_complete q).trans ?_,
      (if_pos hend).symm, fun pos more => (if_neg hup).symm⟩
    obtain h | h := hz
    · rw [if_pos h]
    · rw [h]
      split_ifs <;> rfl
  have hnext : ∀ s, ¬ p.upgrade = true → ¬ p.EndsAtHead →
      (if s = .bodyIdentity then p.contentLength else 0) = (if p.upgrade = true ∨
        p.flags.chunked = true ∨ p.contentLength = ULLONG_MAX then 0 else p.contentLength) →
      ∃ t, Ended p f (Flow.next ⟨q.goto s, f, .none⟩ 0) t :=
    fun s hup hend hlen => ⟨(q.goto s, f), rfl, rfl, hq, hlen, (if_neg hend).symm,
      fun pos more => (if_neg hup).symm⟩
  unfold headersDone
  rw [if_neg (not_not.mpr rfl)]
  dsimp only
  by_cases hup : p.upgrade = true
  · have hend : p.EndsAtHead := .inl hup
    rw [if_pos hup, complete_found hq]
    exact ⟨(q.goto q.newMessage, g), rfl, rfl, hq,
      (usedLength_complete q).trans (if_pos (.inl hup)).symm, (if_pos hend).symm,
      fun pos more => (if_pos hup).symm⟩
  rw [if_neg hup, if_neg (show ¬ p.flags.skipbody = true by rw [hk]; decide)]
  by_cases hc : p.flags.chunked = true
  · rw [if_pos hc]
    exact hnext .chunkSizeStart hup (fun h => h.elim hup fun h => by simp [hc] at h)
      (if_pos (.inr (.inl hc))).symm
  rw [if_neg hc]
  have hc' : p.flags.chunked = false := by simpa using hc
  by_cases hz : p.contentLength = 0
  · rw [if_pos hz]
    exact hdone (.inr hz) hup (.inr ⟨hc', .inl hz⟩)
  rw [if_neg hz]
  by_cases hm : p.contentLength = ULLONG_MAX
  · have hlen : p.upgrade = true ∨ p.flags.chunked = true ∨ p.contentLength = ULLONG_MAX :=
      .inr (.inr hm)
    rw [if_neg (not_not.mpr hm)]
    have heof : (p.type = .request ∨ (!q.messageNeedsEof) = true) ↔
        (p.type = .request ∨ p.messageNeedsEof = false) :=
      or_congr_right (Bool.not_eq_true' p.messageNeedsEof).to_iff
    by_cases ht : p.type = .request ∨ p.messageNeedsEof = false
    · rw [if_pos (heof.mpr ht)]
      exact hdone (.inl hlen) hup (.inr ⟨hc', .inr ⟨hm, ht⟩⟩)
    · rw [if_neg fun h => ht (heof.mp h)]
      exact hnext .bodyIdentityEof hup
        (fun h => ht ((h.resolve_left hup).2.resolve_left hz).2) (if_pos hlen).symm
  · have hlen : ¬ (p.upgrade = true ∨ p.flags.chunked = true ∨ p.contentLength = ULLONG_MAX) :=
      not_or.mpr ⟨hup, not_or.mpr ⟨hc, hm⟩⟩
    rw [if_pos hm]
    exact hnext .bodyIdentity hup (fun h => hm ((h.resolve_left hup).2.resolve_left hz).1)
      (if_neg hlen).symm

/-- The blank line, up to its last byte, and the end of the head behind it. -/
theorem headEnd_found {p : HttpParser} {f : Found} (he : p.httpErrno = .ok)
    (hs : p.state = .headerFieldStart ∨ p.state = .headerValueLws ∨ p.state = .headersAlmostDone)
    (ht : p.flags.trailing = false) (hk : p.flags.skipbody = false)
    (hn : p.nread + 1 ≤ maxHeaderSize) : ∃ t : HttpParser × Found, t.2.fields = f.save.fields ∧
      t.2.body = f.body ∧ t.1.httpErrno = .ok ∧
      t.1.usedLength = p.framing.bodyLength p.method ∧
      t.2.codes = (if p.atBlank.EndsAtHead then f.codes ++ [p.statusCode] else f.codes) ∧
      ∀ pos more, loop settings ⟨p, f, .none⟩ 0 pos (LF :: more) =
        if p.atBlank.upgrade = true then some (pos + 1, t)
        else loop settings ⟨t.1, t.2, .none⟩ 0 (pos + 1) more := by
  have hpar : p.state.parsingHeader = true := by
    obtain hs | hs | hs := hs <;> rw [hs] <;> rfl
  have hbulk : p.state.bulk = false := by
    obtain hs | hs | hs := hs <;> rw [hs] <;> rfl
  have hle : ¬ p.nread + 1 > maxHeaderSize := not_lt.mpr hn
  have hturn : turn settings ⟨p, f, .none⟩ LF [] = headersDone settings ⟨{ p with
      nread := p.nread + 1, state := .headersDone
      upgrade := p.flags.upgrade || p.method = .connect }, f.save, .none⟩ LF := by
    have hb : ¬ (LF = SP ∨ LF = HT) := by decide
    have hc : LF ≠ CR := by decide
    simp only [turn, Cfg.countByte, hpar, Bool.not_true, Bool.false_eq_true, if_false, hle]
    obtain hs | hs | hs := hs <;>
      simp only [exec, hs, headerValueLws, headerFieldStart, headersAlmostDone, hb, hc, if_false,
        if_true, ne_eq, not_true_eq_false, Cfg.goto, HttpParser.goto, ht, Bool.false_eq_true] <;>
      simp only [settings, he, not_true_eq_false, if_true, if_false] <;> rfl
  obtain ⟨t, hd⟩ := headersDone_found (f := f.save) (p := { p with
    nread := p.nread + 1, state := .headersDone
    upgrade := p.flags.upgrade || p.method = .connect }) he hk
  have hbody : f.save.body = f.body := by
    rw [save]
    split_ifs <;> rfl
  refine ⟨t, hd.fields, hd.body.trans hbody, hd.errno, hd.used.trans ?_, hd.codes.trans ?_,
    fun pos more => ?_⟩
  · simp only [Framing.bodyLength, HttpParser.framing, Bool.or_eq_true, decide_eq_true_eq]
    congr 1
    rw [or_assoc, or_left_comm]
  · rw [codes_save]
    rfl
  · rw [loop_eq_andThen, turn_rest _ _ _ _ hbulk, hturn]
    exact hd.rest pos more

end Found

/-- The lines that have a value. -/
def own (ls : List HeadLine) : List (Bytes × Bytes) :=
  (ls.filter fun l => l.pieces ≠ []).map fun l => (l.name, l.value)

/-- What is filed for the lines, if `key` is left over from before. -/
def filed : Bytes → List HeadLine → List (Bytes × Bytes)
  | _, [] => []
  | key, l :: ls =>
    if l.pieces = [] then filed (key ++ l.name) ls else (key ++ l.name, l.value) :: filed [] ls

/-- No line has a value behind one that has none. -/
def Attached (ls : List HeadLine) : Prop :=
  ls.Pairwise fun l r => l.pieces = [] → r.pieces = []

instance (ls : List HeadLine) : Decidable (Attached ls) := by
  unfold Attached
  infer_instance

/-- Each value comes under the name of its own line, exactly if no name is left over before it. -/
theorem filed_eq_own (key : Bytes) (ls : List HeadLine) : filed key ls = own ls ↔
    (key ≠ [] → ∀ l ∈ ls, l.pieces = []) ∧ Attached ls := by
  induction ls generalizing key with
  | nil => exact iff_of_true rfl ⟨fun _ _ h => absurd h List.not_mem_nil, List.Pairwise.nil⟩
  | cons l ls ih =>
    rw [filed, Attached, List.pairwise_cons]
    by_cases hp : l.pieces = []
    · have hown : own (l :: ls) = own ls := by simp [own, hp]
      have hne : key ++ l.name ≠ [] := List.append_ne_nil_of_right_ne_nil _ l.name_ne
      rw [if_pos hp, hown, ih]
      constructor
      · intro h
        refine ⟨fun _ => ?_, fun r hr _ => h.1 hne r hr, h.2⟩
        exact List.forall_mem_cons.mpr ⟨hp, h.1 hne⟩
      · intro h
        exact ⟨fun _ r hr => h.2.1 r hr hp, h.2.2⟩
    · have hown : own (l :: ls) = (l.name, l.value) :: own ls := by simp [own, hp]
      rw [if_neg hp, hown, List.cons.injEq, ih, Prod.mk.injEq]
      constructor
      · intro h
        have hk : key = [] := by
          have hlen := congrArg List.length h.1.1
          rw [List.length_append] at hlen
          exact List.eq_nil_of_length_eq_zero (by omega)
        exact ⟨fun hne => absurd hk hne, fun r _ hl => absurd hl hp, h.2.2⟩
      · intro h
        have hk : key = [] := by
          by_contra hne
          exact hp (h.1 hne l List.mem_cons_self)
        subst hk
        exact ⟨⟨rfl, rfl⟩, fun hne => absurd rfl hne, h.2.2⟩

namespace Found

theorem pieces_found (qs : List Piece) (f : Found) : settings.pieces qs f = { f with
    val := f.val ++ (qs.map Piece.text).flatten, gotval := f.gotval || decide (qs ≠ []) } := by
  induction qs generalizing f with
  | nil => simp [Settings.pieces]
  | cons q qs ih =>
    change settings.pieces qs { f with val := f.val ++ q.text, gotval := true } = _
    rw [ih]
    simp [List.append_assoc]

/-- What is found in the lines of a head. -/
theorem head_found {ls : List HeadLine} {f : Found} (hv : f.save.val = []) :
    (settings.head ls f).save.fields = f.save.fields ++ filed f.save.key ls := by
  induction ls generalizing f with
  | nil => exact (List.append_nil _).symm
  | cons l ls ih =>
    have hl : settings.headLine l f = { f.save with
        key := f.save.key ++ l.name, val := f.save.val ++ l.value
        gotval := decide (l.pieces ≠ []) } := by
      have hg : (settings.data .headerField l.name f).gotval = false := gotval_save f
      rw [Settings.headLine, pieces_found, hg, Bool.false_or]
      rfl
    change (settings.head ls (settings.headLine l f)).save.fields = _
    rw [hl, filed]
    rw [hv, List.nil_append]
    by_cases hp : l.pieces = []
    · have hval : l.value = [] := by rw [HeadLine.value, hp]; rfl
      have hs := save_of_not (f := { f.save with
        key := f.save.key ++ l.name, val := l.value, gotval := false }) rfl
      rw [if_pos hp, decide_eq_false (not_not.mpr hp), ih (by rw [hs]; exact hval), hs]
    · rw [if_neg hp, decide_eq_true hp, ih rfl]
      exact List.append_assoc ..

theorem codes_head (ls : List HeadLine) (f : Found) : (settings.head ls f).codes = f.codes := by
  induction ls generalizing f with
  | nil => rfl
  | cons l ls ih =>
    have hl : (settings.headLine l f).codes = f.save.codes := by
      unfold Settings.headLine
      rw [pieces_found]
      rfl
    exact (ih _).trans (hl.trans (codes_save f))

/-- Codes that were found are not lost. -/
theorem keeps_codes : settings.Keeps fun f => f.codes ≠ [] where
  data k frag f hf := by
    cases k with
    | headerField =>
      change f.save.codes ≠ []
      rwa [codes_save]
    | url | headerValue | body => exact hf
  headers p f hf := by
    change f.save.codes ≠ []
    rwa [codes_save]
  complete hc hf := by
    obtain ⟨-, -, rfl⟩ := Prod.mk.injEq .. ▸ Prod.mk.injEq .. ▸ Option.some.inj hc
    exact List.append_ne_nil_of_left_ne_nil hf _

theorem codes_of_runs {s t : HttpParser × Found} {bs : Bytes}
    (h : Runs settings (fun _ => True) s bs t) (hs : s.1.Sound) (ht : t.2.codes = []) :
    s.2.codes = [] := by
  by_contra hne
  exact h.keeps lawful keeps_codes hs hne ht

end Found

namespace Session

end Session

/-- The head of a request: its first line, the header lines, and how the blank line ends. -/
structure Head where
  line : Bytes
  lines : List HeadLine
  cr : Bool

namespace Head

def bytes (h : Head) : Bytes := h.line ++ (h.lines.flatMap HeadLine.bytes ++ eol h.cr)

/-- `http_parser` takes the first line of a message of type `t`, and is in `p` behind it. -/
structure Opens (h : Head) (t : ParserType) (p : HttpParser) : Prop where
  read : httpParserExecute Found.settings (.init t) .new h.line = some (h.line.length, p, .new)
  errno : p.httpErrno = .ok
  state : p.state = .headerFieldStart
  framing : p.framing = .new
  short : p.nread ≤ maxHeaderSize

/-- The framing of a head that `http_parser` accepts behind `p`. -/
def framing (h : Head) (p : HttpParser) : Option Framing :=
  if p.nread + (h.lines.flatMap HeadLine.bytes ++ eol h.cr).length ≤ maxHeaderSize then
    Framing.new.head h.lines
  else none

variable {h : Head} {t : ParserType} {p : HttpParser}

theorem Opens.runs (hp : h.Opens t p) :
    Runs Found.settings (fun _ => True) (.init t, .new) h.line (p, .new) := by
  have hne : h.line ≠ [] := by
    intro hnil
    have hex := hp.read
    have hs := hp.state
    rw [hnil] at hex
    cases t <;>
    · obtain ⟨-, rfl, -⟩ := Prod.mk.injEq .. ▸ Prod.mk.injEq .. ▸ Option.some.inj hex
      cases hs
  refine runs_of_execute Found.lawful (fun _ => trivial) (s := (.init t, .new))
    (t := (p, .new)) ⟨rfl, Nat.zero_le _⟩ hne hp.read hp.errno fun q v _ hq => ?_
  have hcodes := congrArg (fun r => r.2.2.codes) (Option.some.inj hq)
  exact List.append_ne_nil_of_right_ne_nil _ (List.cons_ne_nil _ _) hcodes

/-- A head that is not accepted halts. -/
theorem Opens.halts (hp : h.Opens t p) (hf : h.framing p = none) :
    Halts Found.settings (fun _ => True) (.init t, .new) h.bytes := by
  apply Halts.behind hp.runs
  unfold Head.framing at hf
  by_cases hhead : Framing.new.head h.lines = none
  · rw [← hp.framing] at hhead
    have hst := head_stumbles Found.lawful (u := Found.new) trivial (.inl hp.state) hp.errno hhead
    exact (hst.append (eol h.cr)).halts hp.short
  · obtain ⟨g, hg⟩ := Option.ne_none_iff_exists'.mp hhead
    rw [hg] at hf
    rw [← hp.framing] at hg
    obtain ⟨s, h', i, hs, hst, -⟩ := head_strides Found.lawful (u := Found.new) trivial
      (.inl hp.state) hp.errno hg
    refine hst.halts_blank trivial hs h.cr hp.short ?_
    split_ifs at hf with hlen
    exact not_le.mp hlen

/-- An accepted head is read up to the last line feed. -/
theorem Opens.reads (hp : h.Opens t p) {g : Framing} (hf : h.framing p = some g) :
    ∃ as r, h.bytes = as ++ [LF] ∧
      Runs Found.settings (fun _ => True) (.init t, .new) as
        (r, Found.settings.head h.lines .new) ∧
      r.httpErrno = .ok ∧ r.framing = g ∧ r.method = p.method ∧ r.type = p.type ∧
      r.statusCode = p.statusCode ∧ r.nread + 1 ≤ maxHeaderSize ∧
      (r.state = .headerFieldStart ∨ r.state = .headerValueLws ∨ r.state = .headersAlmostDone) := by
  unfold Head.framing at hf
  split_ifs at hf with hlen
  rw [← hp.framing] at hf
  obtain ⟨s, h', i, hs, hst, -⟩ := head_strides Found.lawful (u := Found.new) trivial
    (.inl hp.state) hp.errno hf
  rw [List.length_append] at hlen
  have hr := hp.runs.append (hst.runs (Nat.le_trans (by dsimp only; omega) hlen))
  unfold bytes
  cases hcr : h.cr with
  | false =>
    have hl : (eol false).length = 1 := rfl
    rw [hcr, hl] at hlen
    refine ⟨_, _, (List.append_assoc ..).symm, hr, hp.errno, rfl, rfl, rfl, rfl, ?_,
      hs.imp_right .inl⟩
    dsimp only
    omega
  | true =>
    have hl : (eol true).length = 2 := rfl
    rw [hcr, hl] at hlen
    have hfeed := feed_headersCr (S := Found.settings) (u := Found.settings.head h.lines .new)
      (p := { p with
        nread := p.nread + (h.lines.flatMap HeadLine.bytes).length, state := s, flags := g.flags
        contentLength := g.contentLength, headerState := h', index := i }) hs
      (by dsimp only; omega)
    refine ⟨_, _, ?_, hr.append (.one hfeed trivial), hp.errno, rfl, rfl, rfl, rfl, ?_,
      .inr (.inr rfl)⟩
    · simp only [List.append_assoc]
      rfl
    · dsimp only
      omega

theorem endsAtHead_congr {q r : HttpParser} (hf : q.framing = r.framing) (hm : q.method = r.method)
    (ht : q.type = r.type) (hs : q.statusCode = r.statusCode) :
    q.atBlank.EndsAtHead ↔ r.atBlank.EndsAtHead := by
  obtain ⟨hflags, hlen⟩ := Framing.mk.inj hf
  unfold HttpParser.atBlank HttpParser.EndsAtHead HttpParser.messageNeedsEof
  dsimp only
  rw [hflags, hlen, hm, ht, hs]

/-- What is found in a head that is accepted, whatever the cut, and that no message ends before. -/
theorem Opens.finds (hp : h.Opens t p) {g : Framing} (hf : h.framing p = some g) :
    ∃ q f, f.fields = filed [] h.lines ∧ q.usedLength = g.bodyLength p.method ∧
      f.codes = (if (p.framed g).atBlank.EndsAtHead then [p.statusCode] else []) ∧
      ∀ reads : List Bytes, (∀ d ∈ reads, d ≠ []) → reads.flatten = h.bytes →
        executeAll Found.settings reads (.init t, .new) = some (q, f) ∧
        ∀ xs ys, reads = xs ++ ys → ys ≠ [] → ∃ s, executeAll Found.settings xs (.init t, .new) =
          some s ∧ s.2.codes = [] := by
  obtain ⟨as, r, hb, hr, he, hg, hm, ht, hsc, hn, hs⟩ := hp.reads hf
  have hflags : g.flags.trailing = false ∧ g.flags.skipbody = false := by
    unfold Head.framing at hf
    split_ifs at hf
    exact head_flags hf
  have hgf : r.flags = g.flags := congrArg Framing.flags hg
  have hcodes : (Found.settings.head h.lines .new).codes = [] := Found.codes_head h.lines .new
  have hsound : (HttpParser.init t).Sound := ⟨rfl, Nat.zero_le _⟩
  obtain ⟨⟨q, f⟩, hfound, -, hq, hu, hc, hmore⟩ := Found.headEnd_found
    (f := Found.settings.head h.lines .new) he
    hs (hgf ▸ hflags.1) (hgf ▸ hflags.2) hn
  have hl : ∀ pos, loop Found.settings ⟨r, Found.settings.head h.lines .new, .none⟩ 0 pos [LF] =
      some (pos + 1, q, f) := by
    intro pos
    rw [hmore, Found.loop_end hq, ite_self]
  refine ⟨q, f, ?_, by rw [← hm, ← hg]; exact hu, ?_, fun reads hne hcut => ⟨?_, ?_⟩⟩
  · exact hfound.trans (Found.head_found (f := .new) rfl)
  · rw [hcodes, hsc] at hc
    rw [hc]
    exact if_congr (endsAtHead_congr (r := p.framed g) hg hm ht hsc) rfl rfl
  · refine executeAll_last Found.lawful hsound hne (hcut.trans hb) hr ?_ ?_ hl
    · obtain hs | hs | hs := hs <;> rw [hs] <;> rfl
    · obtain hs | hs | hs := hs <;> rw [hs] <;> rfl
  · rintro xs ys rfl hys
    obtain ⟨bs, hbs⟩ : xs.flatten <+: as := by
      have hlast : ys.flatten ≠ [] := by
        obtain ⟨d, ys, rfl⟩ := List.exists_cons_of_ne_nil hys
        exact List.append_ne_nil_of_left_ne_nil (hne d (by simp)) _
      have hcut' : xs.flatten ++ ys.flatten = as ++ [LF] := by
        rw [← List.flatten_append, hcut, hb]
      refine List.prefix_of_prefix_length_le ⟨_, hcut'⟩ (List.prefix_append as [LF]) ?_
      have hlen := congrArg List.length hcut'
      have hpos := List.length_pos_of_ne_nil hlast
      simp only [List.length_append, List.length_cons, List.length_nil] at hlen
      omega
    rw [← hbs] at hr
    obtain ⟨s, h₁, h₂⟩ := hr.split
    refine ⟨s, executeAll_of_runs Found.lawful hsound
      (fun d hd => hne d (List.mem_append_left _ hd)) h₁, ?_⟩
    exact Found.codes_of_runs h₂ (h₁.sound Found.lawful hsound) hcodes

/-- A line with a colon. -/
def valued (name value : Bytes) (h : name ≠ [] ∧ (∀ c ∈ name, token c ≠ 0) ∧
    (∀ c ∈ value, c ≠ CR ∧ c ≠ LF) ∧ ∀ c ∈ value.head?, isBlank c = false) : HeadLine :=
  .ofLine (.of name value h)

/-- A line without a colon. -/
def bare (name : Bytes) (h : name ≠ [] ∧ ∀ c ∈ name, token c ≠ 0) : HeadLine :=
  ⟨name, none, true, [], h.1, h.2, HeadLine.unfolded, fun _ h => absurd rfl h, nofun⟩

/-- A length. -/
def five : HeadLine := valued Message.contentLength (ascii "5") (by decide +kernel)

end Head

end Stutter
