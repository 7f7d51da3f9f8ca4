import Stutter.Joyent.Body
import Stutter.Joyent.Line

namespace Stutter.Joyent

variable {σ : Type} {S : Settings σ} {good : σ → Prop}

/-- What follows the head of a message. -/
inductive Entity where
  | empty
  | length (body : Bytes)
  | chunked (cs : List Chunk) (last : ChunkLine)

def Entity.bytes : Entity → Bytes
  | .empty => []
  | .length body => body
  | .chunked cs last => cs.flatMap Chunk.bytes ++ last.bytes ++ crlf

def Entity.body : Entity → Bytes
  | .empty => []
  | .length body => body
  | .chunked cs _ => cs.flatMap Chunk.data

/-- The entity is framed as the head `p` says, and not by the end of the stream. -/
def Entity.Fits (p : HttpParser) : Entity → Prop
  | .empty => p.flags.chunked = false ∧ p.contentLength = ULLONG_MAX ∧ p.messageNeedsEof = false
  | .length body =>
    p.flags.chunked = false ∧ p.contentLength = body.length ∧ body.length < ULLONG_MAX
  | .chunked _ last => p.flags.chunked = true ∧ hexNumeral last.size = 0

/-- A parser whose head is `p`, at the end of its message. -/
structure HttpParser.Ends (p q : HttpParser) : Prop where
  type : q.type = p.type
  method : q.method = p.method
  httpMajor : q.httpMajor = p.httpMajor
  httpMinor : q.httpMinor = p.httpMinor
  statusCode : q.statusCode = p.statusCode
  errno : q.httpErrno = p.httpErrno
  keepAlive : q.flags.connectionKeepAlive = p.flags.connectionKeepAlive
  close : q.flags.connectionClose = p.flags.connectionClose
  needsEof : q.messageNeedsEof = p.messageNeedsEof

/-- A body that is framed leaves the need for the end of the stream to what else the head says. -/
theorem messageNeedsEof_framed {p q : HttpParser} (ht : q.type = p.type)
    (hc : q.statusCode = p.statusCode) (hk : q.flags.skipbody = p.flags.skipbody)
    (hq : q.flags.chunked = true ∨ q.contentLength ≠ ULLONG_MAX)
    (hp : p.flags.chunked = true ∨ p.contentLength ≠ ULLONG_MAX) :
    q.messageNeedsEof = p.messageNeedsEof := by
  simp only [HttpParser.messageNeedsEof, ht, hc, hk, if_pos hq, if_pos hp]

theorem feed_headersEnd (hS : S.Lawful good) {p : HttpParser} {u : σ}
    (hs : p.state = .headersAlmostDone) (he : p.httpErrno = .ok) (ht : p.flags.trailing = false)
    (hn : p.nread + 1 ≤ maxHeaderSize) : feed S (p, u) LF = (headersDone S ⟨{ p with
      nread := p.nread + 1, state := .headersDone
      upgrade := p.flags.upgrade || p.method = .connect }, S.headers u, .none⟩
        LF).flushed S LF := by
  rw [feed_of_stride (by rw [hs]; rfl) hn]
  simp only [stride, exec, hs, headersAlmostDone, ht, ne_eq, not_true_eq_false, if_false,
    Bool.false_eq_true, hS.headers_ok, if_true, he, entryMarks]
  rw [hS.headers_eq _ (.init .both)]
  rfl

theorem feed_headersCr {p : HttpParser} {u : σ}
    (hs : p.state = .headerFieldStart ∨ p.state = .headerValueLws)
    (hn : p.nread + 1 ≤ maxHeaderSize) : feed S (p, u) CR =
      some ({ p with nread := p.nread + 1, state := .headersAlmostDone }, u) := by
  have hb : ¬ (CR = SP ∨ CR = HT) := by decide
  obtain hs | hs := hs <;> rw [feed_of_stride (by rw [hs]; rfl) hn] <;>
    simp only [stride, exec, hs, headerValueLws, hb, headerFieldStart, if_true, if_false] <;> rfl

/-- The blank line and the entity behind it. -/
theorem entity_finishes (hS : S.Lawful good) {p : HttpParser} {u : σ} {e : Entity} (hg : good u)
    (hs : p.state = .headerFieldStart ∨ p.state = .headerValueLws) (he : p.httpErrno = .ok)
    (ht : p.flags.trailing = false) (hk : p.flags.skipbody = false)
    (hup : p.flags.upgrade = false) (hm : p.method ≠ .connect)
    (hn : p.nread + 2 ≤ maxHeaderSize) (hf : e.Fits p) :
    ∃ q, p.Ends q ∧
      Finishes S good (p, u) (crlf ++ e.bytes) q (S.bodyData e.body (S.headers u)) := by
  have hgh : good (S.headers u) := hS.headers_good _ _ hg
  have hzu : (0 : ℕ) ≠ ULLONG_MAX := by decide
  have hm₁ : 0 + 1 ≤ maxHeaderSize := by decide
  have hm₂ : 1 + 1 ≤ maxHeaderSize := by decide
  have h₁ := feed_headersCr (S := S) (u := u) hs (by omega)
  have h₂ := feed_headersEnd hS (p := { p with
    nread := p.nread + 1, state := .headersAlmostDone }) (u := u) rfl he ht hn
  have hmd : decide (p.method = .connect) = false := decide_eq_false hm
  simp only [headersDone, hup, hmd, Bool.or_self, hk, ne_eq, not_true_eq_false, if_false,
    Bool.false_eq_true] at h₂
  have hcr : Runs S good (p, u) [CR]
      ({ p with nread := p.nread + 1, state := .headersAlmostDone }, u) := .one h₁ hg
  cases e with
  | empty =>
    obtain ⟨hc, hl, hne⟩ := hf
    let q : HttpParser := { p with nread := 0, state := .headersDone, upgrade := false }
    have hnot : (p.type = .request ∨ (!q.messageNeedsEof) = true) := .inr (by
      rw [show q.messageNeedsEof = p.messageNeedsEof from rfl, hne]; rfl)
    have hz : ¬ p.contentLength = 0 := by rw [hl]; decide
    refine ⟨q, ⟨rfl, rfl, rfl, rfl, rfl, rfl, rfl, rfl, rfl⟩, ?_⟩
    change Finishes S good (p, u) ([CR] ++ [LF]) q _
    refine .behind hcr (.one fun t hc' => h₂.trans ?_)
    rw [if_neg (by rw [hc]; decide), if_neg hz, if_neg (not_not.mpr hl), if_pos hnot]
    exact congrArg (Flow.flushed S LF) (completeMessage_next (by exact he) (by exact hc'))
  | length body =>
    obtain ⟨hc, hl, hlt⟩ := hf
    rw [if_neg (by rw [hc]; decide)] at h₂
    obtain rfl | hne := eq_or_ne body []
    · let q : HttpParser := { p with nread := 0, state := .headersDone, upgrade := false }
      refine ⟨q, ⟨rfl, rfl, rfl, rfl, rfl, rfl, rfl, rfl, rfl⟩, ?_⟩
      change Finishes S good (p, u) ([CR] ++ [LF]) q _
      refine .behind hcr (.one fun t hc' => h₂.trans ?_)
      rw [if_pos (by exact hl)]
      exact congrArg (Flow.flushed S LF) (completeMessage_next (by exact he) (by exact hc'))
    · have hz : ¬ p.contentLength = 0 := by
        rw [hl]
        exact fun h => hne (List.eq_nil_of_length_eq_zero h)
      have hlu : p.contentLength ≠ ULLONG_MAX := hl ▸ hlt.ne
      let q : HttpParser := { p with
        nread := 0, state := .messageDone, upgrade := false, contentLength := 0 }
      have hq : q.messageNeedsEof = p.messageNeedsEof :=
        messageNeedsEof_framed rfl rfl rfl (.inr hzu) (.inr hlu)
      refine ⟨q, ⟨rfl, rfl, rfl, rfl, rfl, rfl, rfl, rfl, hq⟩, .behind (hcr.append (.one ?_ hgh))
        (identity_finishes hS hgh (p := { p with
          nread := 0, state := .bodyIdentity, upgrade := false }) rfl he hl hlt hne)⟩
      rw [h₂, if_neg hz, if_pos hlu]
      rfl
  | chunked cs last =>
    obtain ⟨hc, hz⟩ := hf
    rw [if_pos hc] at h₂
    let p₁ : HttpParser := { p with nread := 0, state := .chunkSizeStart, upgrade := false }
    obtain ⟨n, hr₁⟩ := chunks_runs hS hgh (p := p₁) rfl he hc rfl
    have hgb := bodyData_good hS (cs.flatMap Chunk.data) hgh
    have hr₂ := chunkLine_runs (S := S) hgb (p := { p₁ with contentLength := n }) last rfl hc rfl
    rw [if_pos hz] at hr₂
    let q : HttpParser := { p₁ with
      nread := 2, state := .headersAlmostDone, contentLength := 0, flags.trailing := true }
    have hq : q.messageNeedsEof = p.messageNeedsEof :=
      messageNeedsEof_framed rfl rfl rfl (.inl hc) (.inl hc)
    have hlf : Runs S good ({ p with nread := p.nread + 1, state := .headersAlmostDone }, u) [LF]
        (p₁, S.headers u) := .one (h₂.trans rfl) hgh
    refine ⟨q, ⟨rfl, rfl, rfl, rfl, rfl, rfl, rfl, rfl, hq⟩,
      .behind (hcr.append hlf) (.behind (hr₁.append hr₂) (.behind (.one
        (feed_headersCr (.inl rfl) hm₁) hgb) (.one fun t hc' => ?_)))⟩
    rw [feed_of_stride rfl hm₂]
    simp only [stride, exec, headersAlmostDone, ne_eq, not_true_eq_false, if_false, if_true]
    exact congrArg (Flow.flushed S LF) (completeMessage_next (by exact he) hc')

end Stutter.Joyent
