import Stutter.Joyent.Stride

namespace Stutter.Joyent

variable {σ : Type} {S : Settings σ} {good : σ → Prop}

theorem Runs.one {s t : HttpParser × σ} {ch : UInt8} (h : feed S s ch = some t) (hg : good t.2) :
    Runs S good s [ch] t := .cons h hg (.nil _)

theorem Runs.cast {s t r : HttpParser × σ} {bs : Bytes} (h : Runs S good s bs t) (hr : t = r) :
    Runs S good s bs r := hr ▸ h

theorem Runs.mono {good' : σ → Prop} (hg : ∀ u, good u → good' u) {s t : HttpParser × σ}
    {bs : Bytes} (h : Runs S good s bs t) : Runs S good' s bs t := by
  induction h with
  | nil s => exact .nil s
  | cons hf hgt _ ih => exact .cons hf (hg _ hgt) ih

theorem Runs.isGood {s t : HttpParser × σ} {bs : Bytes} (h : Runs S good s bs t) (hs : good s.2) :
    good t.2 := by
  induction h with
  | nil s => exact hs
  | cons _ hg _ ih => exact ih hg

/-- The body bytes, delivered one after the other. -/
def Settings.bodyData (S : Settings σ) (body : Bytes) (u : σ) : σ :=
  if body = [] then u else S.data .body body u

theorem bodyData_append (hS : S.Lawful good) (f g : Bytes) (u : σ) :
    S.bodyData (f ++ g) u = S.bodyData g (S.bodyData f u) := by
  obtain rfl | hf := eq_or_ne f []
  · rfl
  obtain rfl | hg := eq_or_ne g []
  · simp [Settings.bodyData]
  · simp only [Settings.bodyData, hf, hg, List.append_eq_nil_iff, and_self, if_false]
    exact hS.data_append _ _ _ _ hf (.inl rfl)

theorem bodyData_good (hS : S.Lawful good) (body : Bytes) {u : σ} (hg : good u) :
    good (S.bodyData body u) := by
  rw [Settings.bodyData]
  split_ifs
  · exact hg
  · exact hS.data_good _ _ _ (by decide) hg

/-- `message_complete` leaves a parser without an error. -/
structure Completes (S : Settings σ) (p : HttpParser) (u : σ) (t : HttpParser × σ) : Prop where
  call : S.onMessageComplete (p.goto p.newMessage) u = some (0, t)
  errno : t.1.httpErrno = .ok

/-- The bytes are read one by one, with a good user state before the last, which completes the
message: `q` and `v` are what `message_complete` gets. -/
def Finishes (S : Settings σ) (good : σ → Prop) (s : HttpParser × σ) (bs : Bytes) (q : HttpParser)
    (v : σ) : Prop :=
  ∃ ps ch r, bs = ps ++ [ch] ∧ Runs S good s ps r ∧ ∀ t, Completes S q v t → feed S r ch = some t

theorem Finishes.one {s : HttpParser × σ} {ch : UInt8} {q : HttpParser} {v : σ}
    (h : ∀ t, Completes S q v t → feed S s ch = some t) : Finishes S good s [ch] q v :=
  ⟨[], ch, s, rfl, .nil s, h⟩

theorem Finishes.behind {s r : HttpParser × σ} {as bs : Bytes} {q : HttpParser} {v : σ}
    (h₁ : Runs S good s as r) (h₂ : Finishes S good r bs q v) :
    Finishes S good s (as ++ bs) q v := by
  obtain ⟨ps, ch, r', rfl, hr, hf⟩ := h₂
  exact ⟨as ++ ps, ch, r', (List.append_assoc ..).symm, h₁.append hr, hf⟩

theorem Finishes.runs {s t : HttpParser × σ} {bs : Bytes} {q : HttpParser} {v : σ}
    (h : Finishes S good s bs q v) (hc : Completes S q v t) (hg : good t.2) :
    Runs S good s bs t := by
  obtain ⟨ps, ch, r, rfl, hr, hf⟩ := h
  exact hr.append (.one (hf t hc) hg)

theorem Finishes.mono {good' : σ → Prop} (hg : ∀ u, good u → good' u) {s : HttpParser × σ}
    {bs : Bytes} {q : HttpParser} {v : σ} (h : Finishes S good s bs q v) :
    Finishes S good' s bs q v := by
  obtain ⟨ps, ch, r, rfl, hr, hf⟩ := h
  exact ⟨ps, ch, r, rfl, hr.mono hg, hf⟩

/-- Before its end the message is read in part. -/
theorem Finishes.split {s : HttpParser × σ} {as bs : Bytes} {q : HttpParser} {v : σ}
    (h : Finishes S good s (as ++ bs) q v) (hne : bs ≠ []) :
    ∃ r, Runs S good s as r ∧ Finishes S good r bs q v := by
  obtain ⟨ps, ch, r, heq, hr, hf⟩ := h
  obtain ⟨cs, c, rfl⟩ := List.eq_nil_or_concat bs |>.resolve_left hne
  rw [List.concat_eq_append, ← List.append_assoc] at heq
  obtain ⟨rfl, hc⟩ := List.append_inj' heq rfl
  obtain rfl := List.singleton_inj.mp hc
  obtain ⟨t, h₁, h₂⟩ := hr.split
  exact ⟨t, h₁, cs, c, r, List.concat_eq_append .., h₂, hf⟩

theorem completeMessage_next {p : HttpParser} {u : σ} {t : HttpParser × σ} {m : Marks} {er : ℕ}
    (he : p.httpErrno = .ok) (h : Completes S p u t) :
    completeMessage S er ⟨p, u, m⟩ (.next · 0) = .next ⟨t.1, t.2, m⟩ 0 := by
  have hg : (p.goto p.newMessage).httpErrno = .ok := he
  simp only [completeMessage, callbackMessageComplete, Cfg.goto, hg, h.call, ne_eq,
    not_true_eq_false, if_false, h.errno]

theorem feed_of_body {s : HttpParser × σ} (h : s.1.state.parsingHeader = false) (ch : UInt8) :
    feed S s ch = (exec S ⟨s.1, s.2, entryMarks s.1.state⟩ ch []).flushed S ch := by
  simp only [feed, turn, h, Bool.not_false, if_true]

theorem feed_bodyIdentity (hS : S.Lawful good) {p : HttpParser} {u : σ} {n : ℕ} (ch : UInt8)
    (hs : p.state = .bodyIdentity) (he : p.httpErrno = .ok) (hn : p.contentLength = n + 2)
    (hlt : n + 2 < ULLONG_MAX) : feed S (p, u) ch = some ({ p with contentLength := n + 1 },
      S.data .body [ch] u) := by
  have h0 : ¬ (n + 2 = 0 ∨ n + 2 = ULLONG_MAX) := by omega
  have h1 : ¬ n + 2 = 1 := by omega
  rw [feed_of_body (by rw [hs]; rfl)]
  simp only [exec, hs, entryMarks]
  rw [bodyIdentity_single hS he _ _ (Marks.mark_none _), hn, if_neg h0, if_neg h1, ← hs]
  rfl

theorem feed_bodyEnd (hS : S.Lawful good) {p : HttpParser} {u : σ} {t : HttpParser × σ}
    (ch : UInt8) (hs : p.state = .bodyIdentity) (he : p.httpErrno = .ok) (hn : p.contentLength = 1)
    (h : Completes S { p with contentLength := 0, state := .messageDone }
      (S.data .body [ch] u) t) : feed S (p, u) ch = some t := by
  have h0 : ¬ (1 = 0 ∨ 1 = ULLONG_MAX) := by decide
  rw [feed_of_body (by rw [hs]; rfl)]
  simp only [exec, hs, entryMarks]
  rw [bodyIdentity_single hS he _ _ (Marks.mark_none _), hn, if_neg h0, if_pos rfl]
  exact congrArg (Flow.flushed S ch) (completeMessage_next (by exact he) h)

/-- A body framed by its length. -/
theorem identity_finishes (hS : S.Lawful good) {body : Bytes} {p : HttpParser} {u : σ}
    (hg : good u) (hs : p.state = .bodyIdentity) (he : p.httpErrno = .ok)
    (hn : p.contentLength = body.length) (hlt : body.length < ULLONG_MAX) (hne : body ≠ []) :
    Finishes S good (p, u) body { p with contentLength := 0, state := .messageDone }
      (S.bodyData body u) := by
  induction body generalizing p u with
  | nil => exact absurd rfl hne
  | cons c body ih =>
    obtain _ | ⟨b, body⟩ := body
    · refine .one fun t h => feed_bodyEnd hS c hs he hn ?_
      simpa [Settings.bodyData] using h
    · have hgc : good (S.data .body [c] u) := hS.data_good _ _ _ (by decide) hg
      have h := ih (p := { p with contentLength := body.length + 1 }) hgc hs he rfl
        (by simp at hlt ⊢; omega) (List.cons_ne_nil _ _)
      have ha := bodyData_append hS [c] (b :: body) u
      rw [List.singleton_append] at ha
      rw [ha]
      exact .behind (.one (feed_bodyIdentity hS c hs he hn hlt) hgc) h

/-- The number that hexadecimal digits spell, behind the digits of `v`. -/
def hexNumeralFrom (v : ℕ) (ds : Bytes) : ℕ := ds.foldl (fun v c => v * 16 + (unhex c).toNat) v

def hexNumeral (ds : Bytes) : ℕ := hexNumeralFrom 0 ds

theorem le_hexNumeralFrom (v : ℕ) (ds : Bytes) : v ≤ hexNumeralFrom v ds := by
  induction ds generalizing v with
  | nil => exact le_rfl
  | cons c ds ih => exact le_trans (by omega) (ih (v * 16 + (unhex c).toNat))

/-- The line before a chunk: its size, and extensions of it. -/
structure ChunkLine where
  size : Bytes
  ext : Bytes
  size_ne : size ≠ []
  size_hex : ∀ c ∈ size, unhex c ≠ -1
  size_lt : hexNumeral size < ULLONG_MAX
  ext_head : ∀ c ∈ ext.head?, c = ';'.toUInt8 ∨ c = SP
  ext_line : ∀ c ∈ ext, c ≠ CR
  short : (size ++ ext ++ crlf).length ≤ maxHeaderSize

def ChunkLine.bytes (l : ChunkLine) : Bytes := l.size ++ l.ext ++ crlf

/-- The line `0` behind the chunks. -/
def ChunkLine.last : ChunkLine :=
  ⟨ascii "0", [], by decide, by decide +kernel, by decide +kernel, nofun, nofun, by decide +kernel⟩

theorem pushDigit_eq {p : HttpParser} {d : ℕ} (h : p.contentLength * 16 + d < ULLONG_MAX) :
    pushDigit p 16 d = .ok { p with contentLength := p.contentLength * 16 + d } := by
  have hu : ULLONG_MAX = 2 ^ 64 - 1 := rfl
  have h₁ : p.contentLength * 16 % 2 ^ 64 = p.contentLength * 16 := Nat.mod_eq_of_lt (by omega)
  have h₂ : (p.contentLength * 16 + d) % 2 ^ 64 = p.contentLength * 16 + d :=
    Nat.mod_eq_of_lt (by omega)
  simp only [pushDigit, h₁, h₂]
  rw [if_neg (by omega)]

theorem hex_strides {p : HttpParser} {u : σ} (hg : good u) {ds : Bytes}
    (hs : p.state = .chunkSize) (hc : p.flags.chunked = true) (hd : ∀ c ∈ ds, unhex c ≠ -1)
    (hlt : hexNumeralFrom p.contentLength ds < ULLONG_MAX) :
    Strides S good (p, u) ds ({ p with
      nread := p.nread + ds.length, contentLength := hexNumeralFrom p.contentLength ds }, u) := by
  induction ds generalizing p with
  | nil => exact .nil _
  | cons c ds ih =>
    have hcr : c ≠ CR := fun h => hd c (by simp) (by rw [h]; decide)
    have hle := le_hexNumeralFrom (p.contentLength * 16 + (unhex c).toNat) ds
    have h₁ : stride S (p, u) c = some ({ p with
        nread := p.nread + 1, contentLength := p.contentLength * 16 + (unhex c).toNat }, u) := by
      simp only [stride, hs, exec, chunkSize, hc, Bool.not_true, Bool.false_eq_true, if_false, hcr,
        hd c (by simp)]
      rw [pushDigit_eq (by exact lt_of_le_of_lt hle hlt)]
      rfl
    have h := ih (p := { p with
      nread := p.nread + 1, contentLength := p.contentLength * 16 + (unhex c).toNat }) hs hc
      (fun c hm => hd c (List.mem_cons_of_mem _ hm)) hlt
    refine .cons (by rw [hs]; rfl) h₁ rfl hg (h.cast ?_)
    rw [List.length_cons, Nat.add_assoc p.nread, Nat.add_comm 1]
    rfl

theorem params_strides {p : HttpParser} {u : σ} (hg : good u) {ext : Bytes}
    (hs : p.state = .chunkParameters) (hc : p.flags.chunked = true) (he : ∀ c ∈ ext, c ≠ CR) :
    Strides S good (p, u) (ext ++ [CR]) ({ p with
      nread := p.nread + ext.length + 1, state := .chunkSizeAlmostDone }, u) := by
  induction ext generalizing p with
  | nil =>
    refine .cons (by rw [hs]; rfl) ?_ rfl hg (.nil _)
    simp only [stride, hs, exec, chunkParameters, hc, Bool.not_true, Bool.false_eq_true, if_false,
      if_true]
    rfl
  | cons c ext ih =>
    have h₁ : stride S (p, u) c = some ({ p with nread := p.nread + 1 }, u) := by
      simp only [stride, hs, exec, chunkParameters, hc, Bool.not_true, Bool.false_eq_true, if_false,
        he c (by simp)]
      rfl
    have h := ih (p := { p with nread := p.nread + 1 }) hs hc
      fun c hm => he c (List.mem_cons_of_mem _ hm)
    refine .cons (by rw [hs]; rfl) h₁ rfl hg (h.cast ?_)
    rw [List.length_cons, Nat.add_assoc p.nread 1, Nat.add_comm 1]

/-- The line before a chunk, up to its last byte. -/
theorem chunkLine_strides {p : HttpParser} {u : σ} (hg : good u) (l : ChunkLine)
    (hs : p.state = .chunkSizeStart) (hc : p.flags.chunked = true) (hn : p.nread = 0) :
    Strides S good (p, u) (l.size ++ l.ext ++ [CR]) ({ p with
      nread := (l.size ++ l.ext ++ [CR]).length, state := .chunkSizeAlmostDone
      contentLength := hexNumeral l.size }, u) := by
  obtain ⟨c, ds, hl⟩ := List.exists_cons_of_ne_nil l.size_ne
  have hcd : ∀ d ∈ c :: ds, unhex d ≠ -1 := hl ▸ l.size_hex
  have hv : hexNumeral l.size = hexNumeralFrom (unhex c).toNat ds := by
    rw [hl, hexNumeral, hexNumeralFrom, List.foldl_cons, Nat.zero_mul, Nat.zero_add]
    rfl
  have h₁ : stride S (p, u) c = some ({ p with
      nread := 1, contentLength := (unhex c).toNat, state := .chunkSize }, u) := by
    simp only [stride, hs, exec, chunkSizeStart, hn, hc, hcd c (by simp)]
    rfl
  have h₂ := hex_strides (S := S) hg (p := { p with
    nread := 1, contentLength := (unhex c).toNat, state := .chunkSize }) rfl hc
    (fun d hd => hcd d (List.mem_cons_of_mem _ hd)) (hv ▸ l.size_lt)
  have h₃ : Strides S good ({ p with
      nread := 1 + ds.length, contentLength := hexNumeral l.size, state := .chunkSize }, u)
      (l.ext ++ [CR]) ({ p with
        nread := 1 + ds.length + l.ext.length + 1, state := .chunkSizeAlmostDone
        contentLength := hexNumeral l.size }, u) := by
    cases hext : l.ext with
    | nil =>
      refine .cons rfl ?_ rfl hg (.nil _)
      simp only [stride, exec, chunkSize, hc, Bool.not_true, Bool.false_eq_true, if_false, if_true]
      rfl
    | cons e ext =>
      have he : e = ';'.toUInt8 ∨ e = SP := l.ext_head e (by rw [hext]; rfl)
      have hcr : e ≠ CR := l.ext_line e (by rw [hext]; simp)
      have hx : unhex e = -1 := by obtain rfl | rfl := he <;> decide
      have h := params_strides (S := S) hg (p := { p with
        nread := 1 + ds.length + 1, contentLength := hexNumeral l.size, state := .chunkParameters })
        rfl hc (fun c hm => l.ext_line c (by rw [hext]; exact List.mem_cons_of_mem _ hm))
      refine .cons rfl ?_ rfl hg (h.cast ?_)
      · simp only [stride, exec, chunkSize, hc, Bool.not_true, Bool.false_eq_true, if_false, hcr,
          hx, if_true, he]
        rfl
      · rw [List.length_cons, Nat.add_comm ext.length, ← Nat.add_assoc]
  rw [← hv] at h₂
  rw [List.append_assoc, hl, List.cons_append]
  refine .cons (by rw [hs]; rfl) h₁ (by rw [hn]) hg ((h₂.append h₃).cast ?_)
  simp only [List.length_cons, List.length_append, List.length_nil, hl]
  congr 2
  omega

/-- The line before a chunk leads to its data, or behind the last chunk to the trailer. -/
theorem chunkLine_runs {p : HttpParser} {u : σ} (hg : good u) (l : ChunkLine)
    (hs : p.state = .chunkSizeStart) (hc : p.flags.chunked = true) (hn : p.nread = 0) :
    Runs S good (p, u) l.bytes (if hexNumeral l.size = 0
      then ({ p with nread := 0, contentLength := 0, flags.trailing := true
                     state := .headerFieldStart }, u)
      else ({ p with
        nread := 0, contentLength := hexNumeral l.size, state := .chunkData }, u)) := by
  have hlen : (l.size ++ l.ext ++ [CR]).length + 1 ≤ maxHeaderSize := by
    have := l.short
    simp only [crlf, List.length_append, List.length_cons, List.length_nil] at this ⊢
    omega
  have h₁ := (chunkLine_strides (S := S) hg l hs hc hn).runs (by rw [hn]; omega)
  have hb : l.bytes = l.size ++ l.ext ++ [CR] ++ [LF] := by
    simp [ChunkLine.bytes, crlf]
  rw [hb]
  refine h₁.append (.one ?_ (by split_ifs <;> exact hg))
  rw [feed_of_stride rfl hlen]
  simp only [stride, exec, chunkSizeAlmostDone, hc, Bool.not_true, Bool.false_eq_true, if_false,
    ne_eq, not_true_eq_false]
  split_ifs with h0
  · rw [h0]
    rfl
  · rfl

theorem chunkData_runs (hS : S.Lawful good) {data : Bytes} {p : HttpParser} {u : σ} (hg : good u)
    (hs : p.state = .chunkData) (hc : p.flags.chunked = true) (hn : p.contentLength = data.length)
    (hlt : data.length < ULLONG_MAX) (hne : data ≠ []) :
    Runs S good (p, u) data ({ p with contentLength := 0, state := .chunkDataAlmostDone },
      S.bodyData data u) := by
  induction data generalizing p u with
  | nil => exact absurd rfl hne
  | cons c data ih =>
    have hgc : good (S.data .body [c] u) := hS.data_good _ _ _ (by decide) hg
    have h₁ : feed S (p, u) c = some (if p.contentLength = 1
        then { p with contentLength := 0, state := .chunkDataAlmostDone }
        else { p with contentLength := p.contentLength - 1 }, S.data .body [c] u) := by
      have h0 : ¬ (p.contentLength = 0 ∨ p.contentLength = ULLONG_MAX) := by
        rw [hn]
        simp at hlt ⊢
        omega
      rw [feed_of_body (by rw [hs]; rfl)]
      simp only [exec, hs, entryMarks]
      rw [chunkData_single _ _ _ (Marks.mark_none _), if_neg h0]
      simp only [hc, Bool.not_true, Bool.false_eq_true, if_false, ← hs]
      rfl
    obtain _ | ⟨b, data⟩ := data
    · refine .one (h₁.trans ?_) hgc
      have hn1 : p.contentLength = 1 := hn
      rw [if_pos hn1]
      rfl
    · rw [if_neg (by rw [hn]; simp)] at h₁
      have ha := bodyData_append hS [c] (b :: data) u
      rw [List.singleton_append] at ha
      rw [ha]
      exact .cons h₁ hgc (ih (p := { p with contentLength := p.contentLength - 1 }) hgc hs hc
        (by rw [hn]; simp) (by simp at hlt ⊢; omega) (List.cons_ne_nil _ _))

theorem chunkEnd_runs {p : HttpParser} {u : σ} (hg : good u) (hs : p.state = .chunkDataAlmostDone)
    (he : p.httpErrno = .ok) (hc : p.flags.chunked = true) (hn : p.contentLength = 0) :
    Runs S good (p, u) crlf ({ p with nread := 0, state := .chunkSizeStart }, u) := by
  have h₁ : feed S (p, u) CR = some ({ p with state := .chunkDataDone }, u) := by
    rw [feed_of_body (by rw [hs]; rfl)]
    simp only [exec, hs, chunkDataAlmostDone, hc, hn, Bool.not_true, Bool.false_eq_true, ne_eq,
      not_true_eq_false, or_self, if_false]
    rw [callbackData_none (by exact he) rfl]
    simp only [Cfg.goto, HttpParser.goto, hn]
    rfl
  refine .cons h₁ hg (.one ?_ hg)
  rw [feed_of_body rfl]
  simp only [exec, chunkDataDone, hc, Bool.not_true, Bool.false_eq_true, ne_eq,
    not_true_eq_false, if_false]
  rfl

/-- A chunk: its line, and as many bytes as it says. -/
structure Chunk where
  line : ChunkLine
  data : Bytes
  length : hexNumeral line.size = data.length
  ne : data ≠ []

def Chunk.bytes (c : Chunk) : Bytes := c.line.bytes ++ c.data ++ crlf

theorem chunk_runs (hS : S.Lawful good) {p : HttpParser} {u : σ} (hg : good u) (c : Chunk)
    (hs : p.state = .chunkSizeStart) (he : p.httpErrno = .ok) (hc : p.flags.chunked = true)
    (hn : p.nread = 0) :
    Runs S good (p, u) c.bytes ({ p with contentLength := 0 }, S.bodyData c.data u) := by
  have hpos : ¬ hexNumeral c.line.size = 0 := by
    rw [c.length]
    exact fun h => c.ne (List.eq_nil_of_length_eq_zero h)
  have h₁ := chunkLine_runs (S := S) hg c.line hs hc hn
  rw [if_neg hpos] at h₁
  have h₂ := chunkData_runs hS hg (p := { p with
    nread := 0, contentLength := hexNumeral c.line.size, state := .chunkData }) rfl hc c.length
    (c.length ▸ c.line.size_lt) c.ne
  have h₃ := chunkEnd_runs (S := S) (p := { p with
    nread := 0, contentLength := 0, state := .chunkDataAlmostDone }) (bodyData_good hS c.data hg)
    rfl he hc rfl
  refine ((h₁.append h₂).append h₃).cast ?_
  rw [← hn, ← hs]

theorem chunks_runs (hS : S.Lawful good) {cs : List Chunk} {p : HttpParser} {u : σ} (hg : good u)
    (hs : p.state = .chunkSizeStart) (he : p.httpErrno = .ok) (hc : p.flags.chunked = true)
    (hn : p.nread = 0) : ∃ n, Runs S good (p, u) (cs.flatMap Chunk.bytes)
      ({ p with contentLength := n }, S.bodyData (cs.flatMap Chunk.data) u) := by
  induction cs generalizing p u with
  | nil => exact ⟨p.contentLength, .nil _⟩
  | cons c cs ih =>
    have h₁ := chunk_runs hS hg c hs he hc hn
    obtain ⟨n, h₂⟩ := ih (p := { p with contentLength := 0 })
      (bodyData_good hS c.data hg) hs he hc hn
    refine ⟨n, ?_⟩
    rw [List.flatMap_cons, List.flatMap_cons, bodyData_append hS]
    exact h₁.append h₂

end Stutter.Joyent
