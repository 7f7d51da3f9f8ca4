import Stutter.Joyent.Entity
import Stutter.Joyent.StatusLine

namespace Stutter.Joyent

variable {σ : Type} {S : Settings σ} {good : σ → Prop}

theorem piece_flags {f g : Framing} {k : HeaderState} {value : Bytes}
    (h : f.piece k value = some g) :
    g.flags.trailing = f.flags.trailing ∧ g.flags.skipbody = f.flags.skipbody := by
  unfold Framing.piece at h
  by_cases hv : value = []
  · rw [if_pos hv] at h
    obtain rfl := Option.some.inj h
    exact ⟨rfl, rfl⟩
  rw [if_neg hv] at h
  cases k
  case contentLength =>
    obtain ⟨n, -, rfl⟩ := Option.map_eq_some_iff.mp h
    exact ⟨rfl, rfl⟩
  case connection | transferEncoding =>
    dsimp only at h
    split_ifs at h <;> obtain rfl := Option.some.inj h <;> exact ⟨rfl, rfl⟩
  all_goals
    obtain rfl := Option.some.inj h
    exact ⟨rfl, rfl⟩

theorem line_flags {f g : Framing} {name value : Bytes} (h : f.line name value = some g) :
    g.flags.trailing = f.flags.trailing ∧ g.flags.skipbody = f.flags.skipbody :=
  piece_flags h

theorem lines_flags {ls : List HeaderLine} {f g : Framing} (h : f.lines ls = some g) :
    g.flags.trailing = f.flags.trailing ∧ g.flags.skipbody = f.flags.skipbody := by
  induction ls generalizing f with
  | nil =>
    obtain rfl := Option.some.inj h
    exact ⟨rfl, rfl⟩
  | cons l ls ih =>
    rw [Framing.lines, List.foldlM_cons] at h
    obtain ⟨f₁, h₁, h₂⟩ := Option.bind_eq_some_iff.mp h
    obtain ⟨ht, hk⟩ := line_flags h₁
    obtain ⟨ht', hk'⟩ := ih h₂
    exact ⟨ht'.trans ht, hk'.trans hk⟩

/-- The parser at the blank line, by what the header lines say. -/
def HttpParser.framed (p : HttpParser) (f : Framing) : HttpParser :=
  { p with flags := f.flags, contentLength := f.contentLength }

/-- A whole message behind its start line. -/
theorem message_finishes (hS : S.Lawful good) {p p₁ : HttpParser} {u u₁ : σ} {line : Bytes}
    {ls : List HeaderLine} {f : Framing} {e : Entity} (h : Strides S good (p, u) line (p₁, u₁))
    (hg : good u₁) (hs : p₁.state = .headerFieldStart) (he : p₁.httpErrno = .ok)
    (ht : p₁.flags.trailing = false) (hk : p₁.flags.skipbody = false)
    (hf : p₁.framing.lines ls = some f) (hup : f.flags.upgrade = false)
    (hm : p₁.method ≠ .connect)
    (hn : p.nread + (line ++ ls.flatMap HeaderLine.bytes ++ crlf).length ≤ maxHeaderSize)
    (hfit : e.Fits (p₁.framed f)) : ∃ q, (p₁.framed f).Ends q ∧
      Finishes S good (p, u) (line ++ ls.flatMap HeaderLine.bytes ++ (crlf ++ e.bytes)) q
        (S.bodyData e.body (S.headers (S.lines ls u₁))) := by
  obtain ⟨s, h', i, hs', h₂, hg₂⟩ := lines_strides hS hg (.inl hs) he hf
  obtain ⟨ht', hk'⟩ := lines_flags hf
  have hnr := h.nread
  simp only [crlf, List.length_append, List.length_cons, List.length_nil] at hn hnr
  have hr := (h.append h₂).runs (by simp only [List.length_append]; omega)
  obtain ⟨q, hq, hfin⟩ := entity_finishes hS (p := { p₁ with
    nread := p₁.nread + (ls.flatMap HeaderLine.bytes).length, state := s, flags := f.flags
    contentLength := f.contentLength, headerState := h', index := i }) (e := e) hg₂ hs' he
    (ht'.trans ht) (hk'.trans hk) hup hm (by dsimp only; omega) (by
      cases e <;> exact hfit)
  exact ⟨q, ⟨hq.type, hq.method, hq.httpMajor, hq.httpMinor, hq.statusCode, hq.errno, hq.keepAlive,
    hq.close, hq.needsEof⟩, .behind hr hfin⟩

/-- The head of a request of HTTP/1.1, up to the blank line. -/
def requestHead (m : Method) (url : Bytes) (ls : List HeaderLine) : Bytes :=
  requestLine m url ++ ls.flatMap HeaderLine.bytes

/-- What the header lines of a new message start from. -/
def Framing.new : Framing := ⟨.none, ULLONG_MAX⟩

theorem request_finishes (hS : S.Lawful good) {p : HttpParser} {u : σ} {m : Method} {url : Bytes}
    {ls : List HeaderLine} {f : Framing} {e : Entity} (hgu : good u) (hs : p.state = .startReq)
    (he : p.httpErrno = .ok) (hm : m.isVerb = true) (hu : isUrl url = true)
    (hg : good (S.data .url url u)) (hf : Framing.new.lines ls = some f)
    (hup : f.flags.upgrade = false)
    (hn : p.nread + (requestHead m url ls ++ crlf).length ≤ maxHeaderSize)
    (hfit : e.Fits (p.framed f)) :
    ∃ q, q.type = p.type ∧ q.method = m ∧ q.httpMajor = 1 ∧ q.httpMinor = 1 ∧
      Finishes S good (p, u) (requestHead m url ls ++ (crlf ++ e.bytes)) q
        (S.bodyData e.body (S.headers (S.lines ls (S.data .url url u)))) := by
  obtain ⟨i, h₁⟩ := requestLine_strides hS hgu hs he hm hu hg
  have hne : m ≠ .connect := by rintro rfl; exact absurd hm (by decide)
  obtain ⟨q, hq, hfin⟩ := message_finishes hS h₁ hg rfl he rfl rfl hf hup hne hn (e := e) (by
    cases e <;> exact hfit)
  exact ⟨q, hq.type, hq.method, hq.httpMajor, hq.httpMinor, hfin⟩

end Stutter.Joyent
