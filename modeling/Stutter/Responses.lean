import Stutter.Alike
import Stutter.Surplus

namespace Stutter

open Joyent

/-- A response with such a code has no content unless a length or chunks frame it. -/
def Bodiless (code : ℕ) : Prop := code / 100 = 1 ∨ code = 204 ∨ code = 304

instance (code : ℕ) : Decidable (Bodiless code) := inferInstanceAs (Decidable (_ ∨ _))

/-- What follows the head of a response. -/
inductive Content where
  | none
  | length (body : Bytes)
  | chunked (chunks : List Chunk) (last : ChunkLine) (trailer : List HeaderLine)
  | toEnd (body : Bytes)

namespace Content

def bytes : Content → Bytes
  | .none => []
  | .length body | .toEnd body => body
  | .chunked cs last ls =>
    cs.flatMap Chunk.bytes ++ last.bytes ++ (ls.flatMap HeaderLine.bytes ++ crlf)

def body : Content → Bytes
  | .none => []
  | .length body | .toEnd body => body
  | .chunked cs _ _ => cs.flatMap Chunk.data

/-- The content is framed as the code and the header lines say. -/
def Fits (code : ℕ) (f : Framing) : Content → Prop
  | .none => f.flags.chunked = false ∧ f.contentLength = ULLONG_MAX ∧ Bodiless code
  | .length body =>
    f.flags.chunked = false ∧ f.contentLength = body.length ∧ body.length < ULLONG_MAX
  | .chunked _ last _ => f.flags.chunked = true ∧ hexNumeral last.size = 0
  | .toEnd _ => f.flags.chunked = false ∧ f.contentLength = ULLONG_MAX ∧ ¬ Bodiless code

/-- The lines behind the last chunk. -/
def trailer : Content → List HeaderLine
  | .chunked _ _ ls => ls
  | _ => []

/-- All that the stream holds belongs to the content. -/
def IsToEnd : Content → Prop
  | .toEnd _ => True
  | _ => False

instance (c : Content) : Decidable c.IsToEnd := by
  cases c <;> unfold IsToEnd <;> infer_instance

end Content

/-- A complete response, with any header lines. -/
structure Response where
  status : StatusLine
  lines : List HeadLine
  content : Content
  framing : Framing
  colon : ∀ l ∈ lines, l.first ≠ none
  framed : Framing.new.head lines = some framing
  fits : content.Fits (numeral status.code.digits) framing

namespace Response

def code (R : Response) : ℕ := numeral R.status.code.digits

def head (R : Response) : Head := ⟨R.status.bytes, R.lines, true⟩

def bytes (R : Response) : Bytes := R.head.bytes ++ R.content.bytes

/-- The response asks for another protocol. -/
def upgrade (R : Response) : Bool := R.framing.flags.upgrade

/-- The reply `r` holds the code, the headers and the body of the response, over the headers `h`,
and nothing else. -/
structure Held (R : Response) (h : Headers) (r : Reply) (fs : Fs) : Prop where
  code : r.code = R.code
  headers : r.message.headers = h.insertAll (own R.lines)
  body : r.message.body.content fs = R.content.body

variable {σ : Type} {S : Settings σ} {good : σ → Prop} {R : Response}

/-- The parser behind the status line. -/
def start (R : Response) : HttpParser :=
  { HttpParser.init .response with
    nread := R.status.bytes.length, state := .headerFieldStart, contentLength := ULLONG_MAX
    httpMajor := numeral R.status.major.digits, httpMinor := numeral R.status.minor.digits
    statusCode := R.code }

theorem status_strides (R : Response) {u : σ} (hg : good u) :
    Strides S good (.init .response, u) R.status.bytes (R.start, u) := by
  have h := statusLine_strides (S := S) (p := .init .response) hg rfl rfl R.status
  refine h.cast ?_
  have hz : (HttpParser.init .response).nread + R.status.bytes.length = R.status.bytes.length :=
    Nat.zero_add _
  rw [hz]
  rfl

theorem head_ne (R : Response) : R.head.bytes ≠ [] :=
  List.append_ne_nil_of_right_ne_nil _ (List.append_ne_nil_of_right_ne_nil _ (List.cons_ne_nil _ _))

theorem bytes_ne (R : Response) : R.bytes ≠ [] := List.append_ne_nil_of_left_ne_nil R.head_ne _

theorem head_bytes (R : Response) :
    R.head.bytes = R.status.bytes ++ R.lines.flatMap HeadLine.bytes ++ crlf :=
  (List.append_assoc ..).symm

/-- The head up to the blank line. -/
theorem head_strides (hS : S.Lawful good) (R : Response) {u : σ} (hg : good u) :
    ∃ s h i, (s = .headerFieldStart ∨ s = .headerValueLws) ∧
      Strides S good (.init .response, u) (R.status.bytes ++ R.lines.flatMap HeadLine.bytes)
        ({ R.start with
          nread := R.status.bytes.length + (R.lines.flatMap HeadLine.bytes).length, state := s
          flags := R.framing.flags, contentLength := R.framing.contentLength
          headerState := h, index := i }, S.head R.lines u) ∧ good (S.head R.lines u) := by
  obtain ⟨s, h, i, hs, hst, hg'⟩ := Joyent.head_strides hS (p := R.start) hg (.inl rfl) rfl R.framed
  exact ⟨s, h, i, hs, (R.status_strides hg).append hst, hg'⟩

/-- A head that is too long is not read to its end. -/
theorem head_halts (hS : S.Lawful good) (R : Response) {u : σ} (hg : good u)
    (hlen : maxHeaderSize < R.head.bytes.length) :
    Halts S good (.init .response, u) R.head.bytes := by
  obtain ⟨s, h, i, hs, hst, hg'⟩ := R.head_strides hS hg
  have hz : (HttpParser.init .response).nread = 0 := rfl
  rw [head_bytes] at hlen ⊢
  refine hst.halts_blank hg' hs true (Nat.zero_le _) ?_
  rw [hz, Nat.zero_add]
  exact hlen

/-- `http_parser` takes the first line of a head that is short enough. -/
theorem opens (R : Response) (hlen : R.head.bytes.length ≤ maxHeaderSize) :
    R.head.Opens .response R.start := by
  have hle : R.status.bytes.length ≤ maxHeaderSize := by
    rw [head_bytes, List.length_append, List.length_append] at hlen
    omega
  have hz : (HttpParser.init .response).nread + R.status.bytes.length = R.status.bytes.length :=
    Nat.zero_add _
  have hne : R.status.bytes ≠ [] := List.append_ne_nil_of_right_ne_nil _ (by decide)
  have hst : Strides Found.settings (fun _ => True) (.init .response, Found.new) R.status.bytes
      (R.start, Found.new) := R.status_strides trivial
  exact ⟨execute_of_runs Found.lawful (Found.init_sound .response) hne
    (hst.runs (by rw [hz]; exact hle)), rfl, rfl, rfl, hle⟩

theorem framing_eq (R : Response) (hlen : R.head.bytes.length ≤ maxHeaderSize) :
    R.head.framing R.start = some R.framing := by
  unfold Head.bytes at hlen
  rw [List.length_append] at hlen
  exact (if_pos hlen).trans R.framed

theorem pieces_ne (R : Response) : ∀ l ∈ R.lines, l.pieces ≠ [] := by
  intro l hl
  obtain ⟨q, hq⟩ := Option.ne_none_iff_exists'.mp (R.colon l hl)
  rw [HeadLine.pieces, hq]
  exact List.cons_ne_nil _ _

/-- What is found in the head is its lines. -/
theorem filed_lines (R : Response) : filed [] R.lines = own R.lines := by
  refine (filed_eq_own [] R.lines).mpr ⟨fun h => absurd rfl h, ?_⟩
  refine List.pairwise_iff_forall_sublist.mpr fun {a b} hab hp => ?_
  exact absurd hp (R.pieces_ne a (hab.subset List.mem_cons_self))

theorem code_le (R : Response) : R.code ≤ 999 := R.status.code.le

theorem toInt16_code (R : Response) : toInt16 R.code = R.code := by
  have h := R.code_le
  unfold toInt16
  exact Int.bmod_eq_of_le (by omega) (by omega)

end Response

theorem taken_nil : Taken [] := by decide +kernel

namespace Content

variable {σ : Type} {S : Settings σ} {good : σ → Prop} {c : Content}

/-- The blank line, and what `s_headers_done` makes of the head. -/
theorem blank_runs (hS : S.Lawful good) {p q : HttpParser} {u : σ} (hg : good u)
    (hs : p.state = .headerFieldStart ∨ p.state = .headerValueLws) (he : p.httpErrno = .ok)
    (ht : p.flags.trailing = false) (hn : p.nread + 2 ≤ maxHeaderSize)
    (hd : (headersDone S ⟨{ p with
      nread := p.nread + 2, state := .headersDone
      upgrade := p.flags.upgrade || p.method = .connect }, S.headers u, .none⟩ LF).flushed S LF =
        some (q, S.headers u)) : Runs S good (p, u) crlf (q, S.headers u) := by
  have hgh : good (S.headers u) := hS.headers_good _ _ hg
  have h₁ := feed_headersCr (S := S) (u := u) hs (by omega)
  have h₂ := feed_headersEnd hS (p := { p with
    nread := p.nread + 1, state := .headersAlmostDone }) (u := u) rfl he ht hn
  exact .cons h₁ hg (.one (h₂.trans hd) hgh)

/-- Without a length and without chunks, the code says if there is content. -/
theorem needsEof_iff {p : HttpParser} (hty : p.type = .response) (hk : p.flags.skipbody = false)
    (hc : p.flags.chunked = false) (hl : p.contentLength = ULLONG_MAX) :
    p.messageNeedsEof = true ↔ ¬ Bodiless p.statusCode := by
  have hreq : ¬ p.type = .request := by rw [hty]; decide
  have hframed : ¬ (p.flags.chunked = true ∨ p.contentLength ≠ ULLONG_MAX) := by
    rw [hc, hl]
    decide
  unfold HttpParser.messageNeedsEof Bodiless
  rw [if_neg hreq, if_neg hframed, hk]
  simp only [Bool.false_eq_true, or_false]
  split_ifs with h
  · exact iff_of_false id (not_not.mpr h)
  · exact iff_of_true rfl h

/-- The blank line and the chunks, up to the trailer. -/
theorem chunked_runs (hS : S.Lawful good) {p : HttpParser} {u : σ} (hg : good u)
    (hs : p.state = .headerFieldStart ∨ p.state = .headerValueLws) (he : p.httpErrno = .ok)
    (ht : p.flags.trailing = false) (hk : p.flags.skipbody = false)
    (hup : p.flags.upgrade = false) (hm : p.method ≠ .connect) (hn : p.nread + 2 ≤ maxHeaderSize)
    (hc : p.flags.chunked = true) (cs : List Chunk) {last : ChunkLine}
    (hz : hexNumeral last.size = 0) : Runs S good (p, u)
      (crlf ++ (cs.flatMap Chunk.bytes ++ last.bytes)) ({ p with
        nread := 0, state := .headerFieldStart, upgrade := false, contentLength := 0
        flags.trailing := true }, S.bodyData (cs.flatMap Chunk.data) (S.headers u)) := by
  have hgh : good (S.headers u) := hS.headers_good _ _ hg
  have hmd : decide (p.method = .connect) = false := decide_eq_false hm
  let p₁ : HttpParser := { p with nread := 0, state := .chunkSizeStart, upgrade := false }
  have hblank : Runs S good (p, u) crlf (p₁, S.headers u) := by
    refine blank_runs hS hg hs he ht hn ?_
    simp only [headersDone, hup, hmd, Bool.or_self, hk, hc, ne_eq, not_true_eq_false, if_false,
      Bool.false_eq_true, if_true]
    rfl
  obtain ⟨n, hr₁⟩ := chunks_runs hS hgh (p := p₁) rfl he hc rfl
  have hgb := bodyData_good hS (cs.flatMap Chunk.data) hgh
  have hr₂ := chunkLine_runs (S := S) hgb (p := { p₁ with contentLength := n }) last rfl hc rfl
  rw [if_pos hz] at hr₂
  exact hblank.append (hr₁.append hr₂)

/-- A trailer that `http_parser` does not take halts. -/
theorem halts (hS : S.Lawful good) {p : HttpParser} {u : σ} (hg : good u)
    (hs : p.state = .headerFieldStart ∨ p.state = .headerValueLws) (he : p.httpErrno = .ok)
    (ht : p.flags.trailing = false) (hk : p.flags.skipbody = false)
    (hup : p.flags.upgrade = false) (hm : p.method ≠ .connect)
    (hn : p.nread + 2 ≤ maxHeaderSize) (hf : c.Fits p.statusCode p.framing)
    (htaken : ¬ Taken c.trailer) : Halts S good (p, u) (crlf ++ c.bytes) := by
  cases c with
  | chunked cs last ls =>
    obtain ⟨hc, hz⟩ := hf
    have hr := chunked_runs hS hg hs he ht hk hup hm hn hc cs hz
    have hh := Halts.behind hr (trailer_halts hS
      (bodyData_good hS (cs.flatMap Chunk.data) (hS.headers_good _ _ hg)) rfl he rfl htaken)
    rw [List.append_assoc] at hh
    exact hh
  | none | length | toEnd => exact absurd taken_nil htaken

/-- The blank line and the content behind it, if its end is not that of the stream. -/
theorem finishes (hS : S.Lawful good) {p : HttpParser} {u : σ} (hg : good u)
    (hs : p.state = .headerFieldStart ∨ p.state = .headerValueLws) (he : p.httpErrno = .ok)
    (ht : p.flags.trailing = false) (hk : p.flags.skipbody = false)
    (hup : p.flags.upgrade = false) (hm : p.method ≠ .connect) (hty : p.type = .response)
    (hn : p.nread + 2 ≤ maxHeaderSize) (hf : c.Fits p.statusCode p.framing) (hend : ¬ c.IsToEnd)
    (htaken : Taken c.trailer) :
    ∃ q, q.statusCode = p.statusCode ∧ q.httpErrno = .ok ∧ Finishes S good (p, u) (crlf ++ c.bytes)
      q (S.lines c.trailer (S.bodyData c.body (S.headers u))) := by
  cases c with
  | none =>
    obtain ⟨hc, hl, hcode⟩ := hf
    have hne : p.messageNeedsEof = false :=
      Bool.eq_false_iff.mpr fun hx => (needsEof_iff hty hk hc hl).mp hx hcode
    obtain ⟨q, hq, hfin⟩ := entity_finishes hS (e := .empty) hg hs he ht hk hup hm hn ⟨hc, hl, hne⟩
    exact ⟨q, hq.statusCode, hq.errno.trans he, hfin⟩
  | length body =>
    obtain ⟨q, hq, hfin⟩ := entity_finishes hS (e := .length body) hg hs he ht hk hup hm hn hf
    exact ⟨q, hq.statusCode, hq.errno.trans he, hfin⟩
  | chunked cs last ls =>
    obtain ⟨hc, hz⟩ := hf
    have hgh : good (S.headers u) := hS.headers_good _ _ hg
    have hgb := bodyData_good hS (cs.flatMap Chunk.data) hgh
    let trailing : HttpParser := { p with
      nread := 0, state := .headerFieldStart, upgrade := false, contentLength := 0
      flags.trailing := true }
    have hs' : trailing.state = .headerFieldStart := rfl
    obtain ⟨q, hcode, hq, hfin⟩ := trailer_finishes hS hgb hs' he rfl rfl htaken
    have hall := Finishes.behind (chunked_runs hS hg hs he ht hk hup hm hn hc cs hz) hfin
    rw [List.append_assoc] at hall
    exact ⟨q, hcode, hq, hall⟩
  | toEnd body => exact absurd trivial hend

/-- A body without an end of its own never ends. -/
theorem body_runs (hS : S.Lawful good) {p : HttpParser} {u : σ} {body : Bytes} (hg : good u)
    (hs : p.state = .bodyIdentityEof) : ∃ v, Runs S good (p, u) body (p, v) := by
  induction body generalizing u with
  | nil => exact ⟨u, .nil _⟩
  | cons ch body ih =>
    have hgc : good (S.data .body [ch] u) := hS.data_good _ _ _ (by decide) hg
    have h₁ : feed S (p, u) ch = some (p, S.data .body [ch] u) := by
      rw [feed_of_body (by rw [hs]; rfl)]
      simp only [exec, hs, entryMarks, Cfg.mark, Marks.mark_none]
      rfl
    obtain ⟨v, hv⟩ := ih hgc
    exact ⟨v, .cons h₁ hgc hv⟩

/-- The blank line and all that is behind it, if there is no other end. -/
theorem toEnd_runs (hS : S.Lawful good) {p : HttpParser} {u : σ} (hg : good u)
    (hs : p.state = .headerFieldStart ∨ p.state = .headerValueLws) (he : p.httpErrno = .ok)
    (ht : p.flags.trailing = false) (hk : p.flags.skipbody = false)
    (hup : p.flags.upgrade = false) (hm : p.method ≠ .connect) (hty : p.type = .response)
    (hn : p.nread + 2 ≤ maxHeaderSize) (hf : c.Fits p.statusCode p.framing) (hend : c.IsToEnd) :
    ∃ t, Runs S good (p, u) (crlf ++ c.bytes) t := by
  cases c with
  | toEnd body =>
    obtain ⟨hc, hl, hcode⟩ := hf
    have hc : p.flags.chunked = false := hc
    have hl : p.contentLength = ULLONG_MAX := hl
    have hmd : decide (p.method = .connect) = false := decide_eq_false hm
    have hz : ¬ p.contentLength = 0 := by rw [hl]; decide
    -- `s_headers_done` asks for the end of the stream before it moves on to the body
    let q : HttpParser := { p with nread := 0, state := .bodyIdentityEof, upgrade := false }
    let r : HttpParser := { p with nread := 0, state := .headersDone, upgrade := false }
    have hne : r.messageNeedsEof = true := (needsEof_iff hty hk hc hl).mpr hcode
    have hnot : ¬ (p.type = .request ∨ (!r.messageNeedsEof) = true) :=
      not_or.mpr ⟨by rw [hty]; decide, by rw [hne]; decide⟩
    have hblank : Runs S good (p, u) crlf (q, S.headers u) := by
      refine blank_runs hS hg hs he ht hn ?_
      simp only [headersDone, hup, hmd, Bool.or_self, hk, hc, ne_eq, not_true_eq_false, if_false,
        Bool.false_eq_true, if_neg hz, if_neg (not_not.mpr hl)]
      rw [if_neg (by exact hnot)]
      rfl
    obtain ⟨v, hv⟩ : ∃ v, Runs S good (q, S.headers u) body (q, v) :=
      body_runs hS (hS.headers_good _ _ hg) rfl
    exact ⟨_, hblank.append hv⟩
  | none | length | chunked => exact hend.elim

end Content

namespace Response

variable {σ : Type} {S : Settings σ} {good : σ → Prop} {R : Response}

theorem framing_flags (R : Response) :
    R.framing.flags.trailing = false ∧ R.framing.flags.skipbody = false := head_flags R.framed

theorem bytes_eq (R : Response) : R.bytes =
    R.status.bytes ++ R.lines.flatMap HeadLine.bytes ++ (crlf ++ R.content.bytes) := by
  rw [bytes, head_bytes, List.append_assoc]

/-- The lines of the head are read, and the blank line still fits. -/
theorem head_runs (hS : S.Lawful good) (R : Response) {u : σ} (hg : good u)
    (hlen : R.head.bytes.length ≤ maxHeaderSize) :
    ∃ p : HttpParser, (p.state = .headerFieldStart ∨ p.state = .headerValueLws) ∧
      p.httpErrno = .ok ∧ p.framing = R.framing ∧ p.method = .delete ∧ p.type = .response ∧
      p.statusCode = R.code ∧ p.nread + 2 ≤ maxHeaderSize ∧ good (S.head R.lines u) ∧
      Runs S good (.init .response, u) (R.status.bytes ++ R.lines.flatMap HeadLine.bytes)
        (p, S.head R.lines u) := by
  obtain ⟨s, h, i, hs, hst, hg'⟩ := R.head_strides hS hg
  have hz : (HttpParser.init .response).nread = 0 := rfl
  rw [head_bytes, List.length_append, List.length_append] at hlen
  have hl : crlf.length = 2 := rfl
  refine ⟨_, hs, rfl, rfl, rfl, rfl, rfl, ?_, hg', hst.runs ?_⟩
  · dsimp only
    omega
  · rw [hz, List.length_append]
    omega

/-- A response with an end of its own is read to its end. -/
theorem finishes (hS : S.Lawful good) (R : Response) {u : σ} (hg : good u)
    (hlen : R.head.bytes.length ≤ maxHeaderSize) (hup : R.upgrade = false)
    (hend : ¬ R.content.IsToEnd) (ht : Taken R.content.trailer) :
    ∃ q, q.statusCode = R.code ∧ q.httpErrno = .ok ∧
      Finishes S good (.init .response, u) R.bytes q
        (S.lines R.content.trailer (S.bodyData R.content.body (S.headers (S.head R.lines u)))) := by
  obtain ⟨p, hs, he, hf, hm, hty, hcode, hn, hg', hr⟩ := R.head_runs hS hg hlen
  have hflags : p.flags = R.framing.flags := congrArg Framing.flags hf
  obtain ⟨htr, hsk⟩ := R.framing_flags
  obtain ⟨q, hqc, hq, hfin⟩ := Content.finishes hS (c := R.content) hg' hs he (hflags ▸ htr)
    (hflags ▸ hsk) (hflags ▸ hup) (by rw [hm]; decide) hty hn (by rw [hcode, hf]; exact R.fits) hend
    ht
  rw [bytes_eq]
  exact ⟨q, hqc.trans hcode, hq, .behind hr hfin⟩

/-- Nor is one whose trailer is not taken. -/
theorem trailer_halts (hS : S.Lawful good) (R : Response) {u : σ} (hg : good u)
    (hlen : R.head.bytes.length ≤ maxHeaderSize) (hup : R.upgrade = false)
    (ht : ¬ Taken R.content.trailer) : Halts S good (.init .response, u) R.bytes := by
  obtain ⟨p, hs, he, hf, hm, -, hcode, hn, hg', hr⟩ := R.head_runs hS hg hlen
  have hflags : p.flags = R.framing.flags := congrArg Framing.flags hf
  obtain ⟨htr, hsk⟩ := R.framing_flags
  rw [bytes_eq]
  exact .behind hr (Content.halts hS hg' hs he (hflags ▸ htr) (hflags ▸ hsk) (hflags ▸ hup)
    (by rw [hm]; decide) hn (by rw [hcode, hf]; exact R.fits) ht)

/-- A response that ends with the stream has no other end. -/
theorem toEnd_runs (hS : S.Lawful good) (R : Response) {u : σ} (hg : good u)
    (hlen : R.head.bytes.length ≤ maxHeaderSize) (hup : R.upgrade = false)
    (hend : R.content.IsToEnd) : ∃ t, Runs S good (.init .response, u) R.bytes t := by
  obtain ⟨p, hs, he, hf, hm, hty, hcode, hn, hg', hr⟩ := R.head_runs hS hg hlen
  have hflags : p.flags = R.framing.flags := congrArg Framing.flags hf
  obtain ⟨htr, hsk⟩ := R.framing_flags
  obtain ⟨t, ht⟩ := Content.toEnd_runs hS (c := R.content) hg' hs he (hflags ▸ htr) (hflags ▸ hsk)
    (hflags ▸ hup) (by rw [hm]; decide) hty hn (by rw [hcode, hf]; exact R.fits) hend
  rw [bytes_eq]
  exact ⟨t, hr.append ht⟩

end Response

end Stutter
