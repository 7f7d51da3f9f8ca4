import Stutter.Joyent.Cuts
import Stutter.Joyent.Wire

namespace Stutter.Joyent

variable {σ : Type} {S : Settings σ} {good : σ → Prop}

/-- The line gives a length that `http_parser` does not take. -/
def HeaderLine.Refused (l : HeaderLine) : Prop :=
  HeaderState.ofName l.name = .contentLength ∧ l.value ≠ [] ∧ lengthOf l.value = none

instance (l : HeaderLine) : Decidable l.Refused := inferInstanceAs (Decidable (_ ∧ _))

/-- `http_parser` takes the lines and the blank line behind them. -/
def Taken (ls : List HeaderLine) : Prop :=
  (∀ l ∈ ls, ¬ l.Refused) ∧ (ls.flatMap HeaderLine.bytes ++ crlf).length ≤ maxHeaderSize

instance (ls : List HeaderLine) : Decidable (Taken ls) := inferInstanceAs (Decidable (_ ∧ _))

theorem piece_none {f : Framing} {k : HeaderState} {value : Bytes} (h : f.piece k value = none) :
    k = .contentLength ∧ value ≠ [] ∧ lengthOf value = none := by
  unfold Framing.piece at h
  by_cases hv : value = []
  · rw [if_pos hv] at h
    cases h
  rw [if_neg hv] at h
  cases k with
  | contentLength => exact ⟨rfl, hv, Option.map_eq_none_iff.mp h⟩
  | connection | transferEncoding =>
    dsimp only at h
    split_ifs at h
  | _ => cases h

theorem line_some {l : HeaderLine} (h : ¬ l.Refused) (f : Framing) :
    ∃ g, f.line l.name l.value = some g := by
  apply Option.ne_none_iff_exists'.mp
  intro hn
  exact h (piece_none (f := f) hn)

theorem lines_some {ls : List HeaderLine} (h : ∀ l ∈ ls, ¬ l.Refused) (f : Framing) :
    ∃ g, f.lines ls = some g := by
  induction ls generalizing f with
  | nil => exact ⟨f, rfl⟩
  | cons l ls ih =>
    obtain ⟨g, hg⟩ := line_some (h l List.mem_cons_self) f
    obtain ⟨g', hg'⟩ := ih (fun l hl => h l (List.mem_cons_of_mem _ hl)) g
    refine ⟨g', ?_⟩
    rw [Framing.lines, List.foldlM_cons, hg]
    exact hg'

/-- In a head the bytes are counted; one too many is refused. -/
theorem refuses_overflow {p : HttpParser} (hh : p.state.parsingHeader = true)
    (hn : maxHeaderSize ≤ p.nread) (ch : UInt8) : Refuses p ch := by
  intro σ S c pos rest hc
  subst hc
  obtain ⟨p, u, h, -⟩ := loop_overflow (S := S) hh hn pos ch rest
  exact ⟨_, h⟩

theorem refuses_of_fail {p : HttpParser} {ch : UInt8} (hh : p.state.parsingHeader = true)
    (h : ∀ {σ : Type} (S : Settings σ) (c : Cfg σ) (rest : Bytes),
      c.parser = { p with nread := p.nread + 1 } → ∃ d e, exec S c ch rest = .fail d e) :
    Refuses p ch := by
  intro σ S c pos rest hc
  subst hc
  obtain ⟨d, e, hd⟩ := h S c.countByte rest rfl
  rw [loop_eq_andThen, turn, hh]
  split_ifs with h₁ h₂
  · exact absurd h₁ (by decide)
  · exact ⟨_, rfl⟩
  · rw [hd]
    exact ⟨_, rfl⟩

/-- Some byte behind a part that is read is refused. -/
def Halts (S : Settings σ) (good : σ → Prop) (s : HttpParser × σ) (bs : Bytes) : Prop :=
  ∃ as ch rest t, bs = as ++ ch :: rest ∧ Runs S good s as t ∧ Refuses t.1 ch

theorem Halts.behind {s t : HttpParser × σ} {as bs : Bytes} (h : Runs S good s as t)
    (hb : Halts S good t bs) : Halts S good s (as ++ bs) := by
  obtain ⟨cs, ch, rest, r, rfl, hr, hx⟩ := hb
  exact ⟨as ++ cs, ch, rest, r, (List.append_assoc ..).symm, h.append hr, hx⟩

/-- A head that is too long halts. -/
theorem Strides.halts {s t : HttpParser × σ} {bs : Bytes} (h : Strides S good s bs t)
    (hle : s.1.nread ≤ maxHeaderSize) (hn : maxHeaderSize < s.1.nread + bs.length) (more : Bytes) :
    Halts S good s (bs ++ more) := by
  obtain ⟨as, ch, rest, rfl, has⟩ : ∃ as ch rest, bs = as ++ ch :: rest ∧
      s.1.nread + as.length = maxHeaderSize := by
    obtain ⟨k, hk⟩ : ∃ k, s.1.nread + k = maxHeaderSize := ⟨_, Nat.add_sub_of_le hle⟩
    have hlt : k < bs.length := by omega
    refine ⟨bs.take k, bs[k], bs.drop (k + 1), ?_, by rw [List.length_take]; omega⟩
    rw [← List.drop_eq_getElem_cons hlt, List.take_append_drop]
  obtain ⟨r, h₁, h₂⟩ := h.split
  obtain _ | ⟨hh, -, -, -, -⟩ := h₂
  refine ⟨as, ch, rest ++ more, r, by simp, h₁.runs has.le, refuses_overflow hh ?_ ch⟩
  rw [h₁.nread]
  exact has.ge

/-- Behind counted bytes some byte is refused. -/
def Stumbles (S : Settings σ) (good : σ → Prop) (s : HttpParser × σ) (bs : Bytes) : Prop :=
  ∃ as ch rest t, bs = as ++ ch :: rest ∧ Strides S good s as t ∧ Refuses t.1 ch

theorem Stumbles.at {s : HttpParser × σ} {ch : UInt8} (h : Refuses s.1 ch) (rest : Bytes) :
    Stumbles S good s (ch :: rest) := ⟨[], ch, rest, s, rfl, .nil s, h⟩

theorem Stumbles.behind {s t : HttpParser × σ} {as bs : Bytes} (h : Strides S good s as t)
    (hb : Stumbles S good t bs) : Stumbles S good s (as ++ bs) := by
  obtain ⟨cs, ch, rest, r, rfl, hst, hx⟩ := hb
  exact ⟨as ++ cs, ch, rest, r, (List.append_assoc ..).symm, h.append hst, hx⟩

theorem Stumbles.append {s : HttpParser × σ} {bs : Bytes} (h : Stumbles S good s bs)
    (more : Bytes) : Stumbles S good s (bs ++ more) := by
  obtain ⟨as, ch, rest, r, rfl, hst, hx⟩ := h
  exact ⟨as, ch, rest ++ more, r, by simp, hst, hx⟩

/-- They halt, be it that there are too many of them. -/
theorem Stumbles.halts {s : HttpParser × σ} {bs : Bytes} (h : Stumbles S good s bs)
    (hle : s.1.nread ≤ maxHeaderSize) : Halts S good s bs := by
  obtain ⟨as, ch, rest, r, rfl, hst, hx⟩ := h
  by_cases hn : s.1.nread + as.length ≤ maxHeaderSize
  · exact ⟨as, ch, rest, r, rfl, hst.runs hn, hx⟩
  · exact hst.halts hle (by omega) _

/-- A head that gets too long halts, be it at the blank line. -/
theorem Strides.halts_blank {s t : HttpParser × σ} {bs : Bytes} (h : Strides S good s bs t)
    (hg : good t.2) (ht : t.1.state = .headerFieldStart ∨ t.1.state = .headerValueLws) (cr : Bool)
    (hle : s.1.nread ≤ maxHeaderSize) (hn : maxHeaderSize < s.1.nread + (bs ++ eol cr).length) :
    Halts S good s (bs ++ eol cr) := by
  have hpar : t.1.state.parsingHeader = true := by obtain ht | ht := ht <;> rw [ht] <;> rfl
  have hnr := h.nread
  by_cases hfit : s.1.nread + bs.length < maxHeaderSize
  · cases cr with
    | false =>
      have hl : (eol false).length = 1 := rfl
      rw [List.length_append, hl] at hn
      omega
    | true =>
      -- only the last byte is too much
      have hl : (eol true).length = 2 := rfl
      rw [List.length_append, hl] at hn
      have hcr := feed_headersCr (S := S) (u := t.2) ht (by omega)
      refine ⟨bs ++ [CR], LF, [], _, by rw [List.append_assoc]; rfl,
        (h.runs (by omega)).append (.one hcr hg), refuses_overflow rfl ?_ _⟩
      dsimp only
      omega
  · obtain ⟨c, rest, heol⟩ : ∃ c rest, eol cr = c :: rest := by
      cases cr <;> exact ⟨_, _, rfl⟩
    rw [heol]
    exact (Stumbles.behind h (.at (refuses_overflow hpar (by omega) c) rest)).halts hle

theorem refuses_valueFirst {p : HttpParser} {ch : UInt8} (hs : p.state = .headerValueStart)
    (hh : p.headerState = .contentLength) (hb : isBlank ch = false) (hc : ch ≠ CR ∧ ch ≠ LF)
    (hd : isNum ch = false) : Refuses p ch := by
  have hb : ¬ (ch = SP ∨ ch = HT) := by simpa [isBlank] using hb
  apply refuses_of_fail (parsingHeader_of hs rfl)
  intro σ S c rest hp
  simp only [exec, hp, hs, headerValueStart, hb, hc.1, hc.2, if_false, Cfg.mark, headerValueFirst,
    hh, hd, Bool.not_false, if_true]
  exact ⟨_, _, rfl⟩

theorem refuses_valueNext {p : HttpParser} {ch : UInt8} (hs : p.state = .headerValue)
    (hh : p.headerState = .contentLength) (hc : ch ≠ CR ∧ ch ≠ LF) (hsp : ch ≠ SP)
    (hd : isNum ch = true → (p.contentLength * 10 % 2 ^ 64 + digit ch) % 2 ^ 64 < p.contentLength ∨
      (p.contentLength * 10 % 2 ^ 64 + digit ch) % 2 ^ 64 = ULLONG_MAX) : Refuses p ch := by
  apply refuses_of_fail (parsingHeader_of hs rfl)
  intro σ S c rest hp
  simp only [exec, hp, hs, headerValue, hc.1, hc.2, if_false, headerValueNext, hh, hsp]
  cases hn : isNum ch with
  | false => exact ⟨_, _, rfl⟩
  | true =>
    simp only [Bool.not_true, Bool.false_eq_true, if_false, pushDigit, if_pos (hd hn)]
    exact ⟨_, _, rfl⟩

/-- A length that is not taken, behind its first digits. -/
theorem length_refused (hS : S.Lawful good) {u : σ} (hg : good u) {rest : Bytes} :
    ∀ {p : HttpParser} {f : Bytes}, f ≠ [] → p.state = .headerValue →
      p.headerState = .contentLength → (∀ c ∈ rest, c ≠ CR ∧ c ≠ LF) →
      lengthFrom p.contentLength rest = none →
      Stumbles S good (p, S.data .headerValue f u) rest := by
  induction rest with
  | nil =>
    intro p f _ _ _ _ hn
    cases hn
  | cons c rest ih =>
    intro p f hne hs hh hc hn
    have hgc : good (S.data .headerValue [c] (S.data .headerValue f u)) :=
      hS.data_good _ _ _ (by decide) (hS.data_good _ _ _ (by decide) hg)
    -- a byte that leaves the length `m` leaves the refusal to the rest
    have key : ∀ m, lengthFrom m rest = none →
        headerValueNext { p with nread := p.nread + 1 } c =
          .ok { p with nread := p.nread + 1, contentLength := m } →
        Stumbles S good (p, S.data .headerValue f u) (c :: rest) := by
      intro m hm hq
      have hst := ih (f := f ++ [c]) (p := { p with nread := p.nread + 1, contentLength := m })
        (by simp) hs hh (fun c hm => hc c (List.mem_cons_of_mem _ hm)) hm
      rw [← hS.append hne _ hgc] at hst
      have hone : Strides S good (p, S.data .headerValue f u) [c] _ :=
        .cons (parsingHeader_of hs rfl) (stride_valueNext hs (hc c (by simp)) hq) rfl hgc (.nil _)
      exact .behind hone hst
    rw [lengthFrom] at hn
    by_cases hsp : c = SP
    · rw [if_pos hsp] at hn
      exact key _ hn (by simp only [headerValueNext, hh, hsp, if_true])
    rw [if_neg hsp] at hn
    cases hd : isNum c with
    | false =>
      refine .at (refuses_valueNext hs hh (hc c (by simp)) hsp fun h => ?_) rest
      rw [hd] at h
      cases h
    | true =>
      simp only [hd, Bool.not_true, Bool.false_eq_true, if_false] at hn
      split_ifs at hn with ho
      · exact .at (refuses_valueNext hs hh (hc c (by simp)) hsp fun _ => ho) rest
      · exact key _ hn (by
          simp only [headerValueNext, hh, hsp, hd, Bool.not_true, Bool.false_eq_true, if_false,
            pushDigit, ho])

theorem value_refused (hS : S.Lawful good) {p : HttpParser} {u : σ} (hg : good u)
    (hs : p.state = .headerValueStart) (hh : p.headerState = .contentLength) {value : Bytes}
    (hne : value ≠ []) (hv : ∀ c ∈ value, c ≠ CR ∧ c ≠ LF)
    (hb : ∀ c ∈ value.head?, isBlank c = false) (hn : lengthOf value = none) :
    Stumbles S good (p, u) value := by
  obtain ⟨c, rest, rfl⟩ := List.exists_cons_of_ne_nil hne
  have hc := hv c (by simp)
  have hcb := hb c rfl
  rw [lengthOf] at hn
  cases hd : isNum c with
  | false => exact .at (refuses_valueFirst hs hh hcb hc hd) rest
  | true =>
    rw [if_pos hd] at hn
    have hq : headerValueFirst { p with
        nread := p.nread + 1, state := .headerValue, index := 0 } c =
        .ok { p with nread := p.nread + 1, state := .headerValue, index := 0,
                     contentLength := digit c } := by
      simp only [headerValueFirst, hh, hd, Bool.not_true, Bool.false_eq_true, if_false]
    have hst := length_refused hS hg (f := [c]) (p := { p with
      nread := p.nread + 1, state := .headerValue, index := 0, contentLength := digit c })
      (by simp) rfl hh (fun c hm => hv c (List.mem_cons_of_mem _ hm)) hn
    have hone : Strides S good (p, u) [c] _ :=
      .cons (parsingHeader_of hs rfl) (stride_valueFirst hs hcb hc hq) rfl
        (hS.data_good _ _ _ (by decide) hg) (.nil _)
    exact .behind hone hst

/-- A refused line, up to the byte that is refused. -/
theorem line_refused (hS : S.Lawful good) {p : HttpParser} {u : σ} (hg : good u)
    (hs : p.state = .headerFieldStart ∨ p.state = .headerValueLws) (he : p.httpErrno = .ok)
    {l : HeaderLine} (hl : l.Refused) : Stumbles S good (p, u) l.bytes := by
  obtain ⟨hk, hv, hn⟩ := hl
  have hgn : good (S.data .headerField l.name u) := hS.data_good _ _ _ (by decide) hg
  obtain ⟨h, i, hi, hname, h₁⟩ := name_strides hS hg hs l.name_ne l.name_token
  have h₂ := colon_strides hS hg (p := { p with
    nread := p.nread + l.name.length, state := .headerField, headerState := h, index := i })
    rfl he l.name_ne
  have h₃ := blanks_strides hgn (p := { p with
    nread := p.nread + l.name.length + 1
    state := .headerValueStart
    headerState := h
    index := i })
    rfl l.blanks_blank (S := S)
  rw [hk, name_nil hi] at hname
  exact .behind ((h₁.append h₂).append h₃) ((value_refused hS hgn rfl (known_contentLength.mp hname)
    hv l.value_line l.value_head hn).append crlf)

/-- Where the lines are not taken, they halt. -/
theorem trailer_halts (hS : S.Lawful good) {ls : List HeaderLine} {p : HttpParser} {u : σ}
    (hg : good u) (hs : p.state = .headerFieldStart) (he : p.httpErrno = .ok) (hn : p.nread = 0)
    (h : ¬ Taken ls) : Halts S good (p, u) (ls.flatMap HeaderLine.bytes ++ crlf) := by
  have hle : p.nread ≤ maxHeaderSize := hn ▸ Nat.zero_le _
  by_cases hall : ∀ l ∈ ls, ¬ l.Refused
  · -- each line would be taken, but together they are too long
    have hlen : maxHeaderSize < (ls.flatMap HeaderLine.bytes).length + 2 := by
      have hlt := not_le.mp fun hle => h ⟨hall, hle⟩
      rwa [List.length_append] at hlt
    obtain ⟨f, hf⟩ := lines_some hall p.framing
    obtain ⟨s, h', i, hs', hst, hg'⟩ := lines_strides hS hg (.inl hs) he hf
    refine hst.halts_blank hg' hs' true hle ?_
    rw [hn, Nat.zero_add, List.length_append]
    exact hlen
  · -- the lines before the first that is refused are read
    push Not at hall
    obtain ⟨l, hl, hx⟩ := hall
    have hsome : (ls.find? fun l => decide l.Refused).isSome = true :=
      List.find?_isSome.mpr ⟨l, hl, decide_eq_true hx⟩
    obtain ⟨l, hfind⟩ := Option.isSome_iff_exists.mp hsome
    obtain ⟨hx, pre, post, rfl, hpre⟩ := List.find?_eq_some_iff_append.mp hfind
    have hx : l.Refused := of_decide_eq_true hx
    have hpre : ∀ l ∈ pre, ¬ l.Refused := fun l hl => by simpa using hpre l hl
    obtain ⟨f, hf⟩ := lines_some hpre p.framing
    obtain ⟨s, h', i, hs', hst, hg'⟩ := lines_strides hS hg (.inl hs) he hf
    have hl := line_refused hS hg' (p := { p with
      nread := p.nread + (pre.flatMap HeaderLine.bytes).length, state := s, flags := f.flags
      contentLength := f.contentLength, headerState := h', index := i }) hs' he hx
    have hh := (Stumbles.behind hst hl).append (post.flatMap HeaderLine.bytes ++ crlf)
    rw [List.flatMap_append, List.flatMap_cons]
    simpa using hh.halts hle

/-- Where they are taken, their end is the end of the message, without another callback. -/
theorem trailer_finishes (hS : S.Lawful good) {ls : List HeaderLine} {p : HttpParser} {u : σ}
    (hg : good u) (hs : p.state = .headerFieldStart) (he : p.httpErrno = .ok) (hn : p.nread = 0)
    (ht : p.flags.trailing = true) (h : Taken ls) :
    ∃ q, q.statusCode = p.statusCode ∧ q.httpErrno = .ok ∧
      Finishes S good (p, u) (ls.flatMap HeaderLine.bytes ++ crlf) q (S.lines ls u) := by
  obtain ⟨hall, hlen⟩ := h
  rw [List.length_append] at hlen
  obtain ⟨f, hf⟩ := lines_some hall p.framing
  obtain ⟨s, h', i, hs', hst, hg'⟩ := lines_strides hS hg (.inl hs) he hf
  have htr : f.flags.trailing = true := (lines_flags hf).1.trans ht
  have hl2 : crlf.length = 2 := rfl
  have hr := hst.runs (by dsimp only; omega)
  have hcr := feed_headersCr (S := S) (u := S.lines ls u) (p := { p with
    nread := p.nread + (ls.flatMap HeaderLine.bytes).length, state := s, flags := f.flags
    contentLength := f.contentLength, headerState := h', index := i }) hs' (by dsimp only; omega)
  have hcr' := Runs.one hcr hg'
  refine ⟨{ p with
    nread := p.nread + (ls.flatMap HeaderLine.bytes).length + 1 + 1, state := .headersAlmostDone
    flags := f.flags, contentLength := f.contentLength, headerState := h', index := i }, rfl, he,
    .behind hr (.behind hcr' (.one fun t hc => ?_))⟩
  rw [feed_of_stride rfl (by dsimp only; omega)]
  simp only [stride, exec, headersAlmostDone, htr, ne_eq, not_true_eq_false, if_false, if_true]
  exact congrArg (Flow.flushed S LF) (completeMessage_next (by exact he) hc)

end Stutter.Joyent
