import Stutter.Joyent.Keyword
import Stutter.Joyent.Stride

namespace Stutter.Joyent

variable {σ : Type} {S : Settings σ} {good : σ → Prop}

theorem token_ne {ch : UInt8} (h : token ch ≠ 0) :
    ch ≠ CR ∧ ch ≠ LF ∧ ch ≠ SP ∧ ch ≠ HT ∧ ch ≠ ':'.toUInt8 := by
  refine ⟨?_, ?_, ?_, ?_, ?_⟩ <;> rintro rfl <;> exact h (by decide)

theorem stride_headerFieldStart {p : HttpParser} {u : σ} {ch : UInt8}
    (hs : p.state = .headerFieldStart ∨ p.state = .headerValueLws) (hc : token ch ≠ 0) :
    stride S (p, u) ch = some ({ p with
      nread := p.nread + 1, index := 0, state := .headerField
      headerState := headerNameStart (token ch) }, S.data .headerField [ch] u) := by
  obtain ⟨h₁, h₂, h₃, h₄, -⟩ := token_ne hc
  obtain hs | hs := hs <;>
    simp only [stride, hs, exec, headerValueLws, headerFieldStart, h₁, h₂, h₃, h₄, hc, or_self,
      if_false, Cfg.goto, HttpParser.goto, Cfg.mark, entryMarks, Marks.mark_none, Flow.flushed,
      Cfg.push, Marks.push_single, flush_single, List.nil_append] <;> rfl

theorem stride_headerField {p q : HttpParser} {u : σ} {ch : UInt8} (hs : p.state = .headerField)
    (hc : token ch ≠ 0)
    (hq : headerNameNext { p with nread := p.nread + 1 } ch (token ch) = .ok q) :
    stride S (p, u) ch = some (q, S.data .headerField [ch] u) := by
  simp only [hs] at hq
  simp only [stride, hs, exec, headerField, ne_eq, hc, not_false_eq_true, if_true, Cfg.lift, hq,
    Flow.flushed, entryMarks_eq, State.mark, Cfg.push, Marks.push_single, flush_single,
    List.nil_append]
  rfl

theorem stride_colon (hS : S.Lawful good) {p : HttpParser} {u : σ} (hs : p.state = .headerField)
    (he : p.httpErrno = .ok) : stride S (p, u) ':'.toUInt8 = some ({ p with
      nread := p.nread + 1, state := .headerValueStart }, S.data .headerField [] u) := by
  have hc : token ':'.toUInt8 = 0 := by decide
  simp only [stride, hs, exec, headerField, hc, ne_eq, not_true_eq_false, if_false, if_true,
    Cfg.goto, HttpParser.goto, entryMarks_eq, State.mark]
  rw [callbackData_single hS]
  · rfl
  · exact he

theorem stride_blank {p : HttpParser} {u : σ} {ch : UInt8} (hs : p.state = .headerValueStart)
    (hc : isBlank ch = true) :
    stride S (p, u) ch = some ({ p with nread := p.nread + 1 }, u) := by
  have hc : ch = SP ∨ ch = HT := by simpa [isBlank] using hc
  simp only [stride, hs, exec, headerValueStart, hc, if_true, Flow.flushed]
  simp only [entryMarks_eq, State.mark]
  rfl

theorem stride_valueFirst {p q : HttpParser} {u : σ} {ch : UInt8}
    (hs : p.state = .headerValueStart) (hb : isBlank ch = false) (hc : ch ≠ CR ∧ ch ≠ LF)
    (hq : headerValueFirst { p with
      nread := p.nread + 1, state := .headerValue, index := 0 } ch = .ok q) :
    stride S (p, u) ch = some (q, S.data .headerValue [ch] u) := by
  have hb : ¬ (ch = SP ∨ ch = HT) := by simpa [isBlank] using hb
  simp only [stride, hs, exec, headerValueStart, hb, hc.1, hc.2, if_false, Cfg.mark, entryMarks,
    Marks.mark_none, Cfg.lift, hq, Flow.flushed, Cfg.push, Marks.push_single, flush_single,
    List.nil_append]
  rfl

theorem stride_valueEmpty (hS : S.Lawful good) {p : HttpParser} {u : σ}
    (hs : p.state = .headerValueStart) (he : p.httpErrno = .ok) :
    stride S (p, u) CR = some ({ p with
      nread := p.nread + 1, index := 0, headerState := .general, state := .headerAlmostDone },
      S.data .headerValue [] u) := by
  have hb : ¬ (CR = SP ∨ CR = HT) := by decide
  simp only [stride, hs, exec, headerValueStart, hb, if_false, if_true, Cfg.mark, entryMarks,
    Marks.mark_none]
  rw [callbackData_single hS]
  · rfl
  · exact he

theorem stride_valueNext {p q : HttpParser} {u : σ} {ch : UInt8} (hs : p.state = .headerValue)
    (hc : ch ≠ CR ∧ ch ≠ LF)
    (hq : headerValueNext { p with nread := p.nread + 1 } ch = .ok q) :
    stride S (p, u) ch = some (q, S.data .headerValue [ch] u) := by
  simp only [hs] at hq
  simp only [stride, hs, exec, headerValue, hc.1, hc.2, if_false, Cfg.lift, hq, Flow.flushed,
    entryMarks_eq, State.mark, Cfg.push, Marks.push_single, flush_single, List.nil_append]
  rfl

theorem stride_valueEnd (hS : S.Lawful good) {p : HttpParser} {u : σ} (hs : p.state = .headerValue)
    (he : p.httpErrno = .ok) : stride S (p, u) CR = some ({ p with
      nread := p.nread + 1, state := .headerAlmostDone }, S.data .headerValue [] u) := by
  simp only [stride, hs, exec, headerValue, if_true, Cfg.goto, HttpParser.goto, entryMarks_eq,
    State.mark]
  rw [callbackData_single hS]
  · rfl
  · exact he

theorem stride_lineEnd {p : HttpParser} {u : σ} (hs : p.state = .headerAlmostDone) :
    stride S (p, u) LF = some ({ p with
      nread := p.nread + 1, state := .headerValueLws
      flags := p.flags.settle p.headerState }, u) := by
  simp only [stride, hs, exec]
  rw [headerAlmostDone_lf]
  simp only [Cfg.lift, Flow.flushed, entryMarks_eq, State.mark]
  rfl

/-- A value that ends with a bare line feed: the byte is read twice. -/
theorem stride_valueFeed (hS : S.Lawful good) {p : HttpParser} {u : σ} (hs : p.state = .headerValue)
    (he : p.httpErrno = .ok) : stride S (p, u) LF = some ({ p with
      nread := p.nread + 1, state := .headerValueLws
      flags := p.flags.settle p.headerState }, S.data .headerValue [] u) := by
  have hc : LF ≠ CR := by decide
  simp only [stride, hs, exec, headerValue, hc, if_true, if_false, Cfg.goto, HttpParser.goto,
    entryMarks_eq, State.mark]
  rw [callbackData_single hS]
  · rw [headerAlmostDone_lf]
    rfl
  · exact he

/-- No value, and a bare line feed: the line cannot be continued. -/
theorem stride_emptyFeed (hS : S.Lawful good) {p : HttpParser} {u : σ}
    (hs : p.state = .headerValueStart) (he : p.httpErrno = .ok) :
    stride S (p, u) LF = some ({ p with
      nread := p.nread + 1, index := 0, state := .headerFieldStart },
      S.data .headerValue [] u) := by
  have hb : ¬ (LF = SP ∨ LF = HT) := by decide
  have hc : LF ≠ CR := by decide
  simp only [stride, hs, exec, headerValueStart, hb, hc, if_false, if_true, Cfg.goto,
    HttpParser.goto, Cfg.mark, entryMarks, Marks.mark_none]
  rw [callbackData_single hS]
  · rfl
  · exact he

theorem parsingHeader_of {p : HttpParser} {s : State} (h : p.state = s)
    (hs : s.parsingHeader = true) : p.state.parsingHeader = true := h ▸ hs

/-- The rest of a name, behind the fragment `f`. -/
theorem name_rest (hS : S.Lawful good) {u : σ} (hg : good u) {rest : Bytes} :
    ∀ {p : HttpParser} {f : Bytes}, f ≠ [] → p.state = .headerField →
      p.headerState.InName p.index → (∀ c ∈ rest, token c ≠ 0) →
      ∃ h i, h.InName i ∧ h.name i [] = p.headerState.name p.index (rest.map token) ∧
        Strides S good (p, S.data .headerField f u) rest ({ p with
          nread := p.nread + rest.length, headerState := h, index := i },
          S.data .headerField (f ++ rest) u) := by
  induction rest with
  | nil =>
    intro p f _ _ hi _
    exact ⟨p.headerState, p.index, hi, rfl, by rw [List.append_nil]; exact .nil _⟩
  | cons c rest ih =>
    intro p f hne hs hi hc
    have hgood : ∀ g, good (S.data .headerField g u) :=
      fun g => hS.data_good _ g u (by decide) hg
    obtain ⟨q, hq, hqp, hqi, hqn⟩ :=
      headerNameNext_name (p := { p with nread := p.nread + 1 }) (hc c (by simp)) hi
    have hqs : q.state = .headerField := by rw [hqp]; exact hs
    obtain ⟨h, i, hhi, hhn, hst⟩ := ih (f := f ++ [c]) (by simp) hqs hqi
      fun c hm => hc c (List.mem_cons_of_mem _ hm)
    refine ⟨h, i, hhi, by rw [hhn, hqn]; rfl, ?_⟩
    have hgc : good (S.data .headerField [c] (S.data .headerField f u)) :=
      hS.data_good _ _ _ (by decide) (hgood f)
    refine .cons (parsingHeader_of hs rfl) (stride_headerField hs (hc c (by simp)) hq)
      (by rw [hqp]) hgc ?_
    rw [hS.append hne _ hgc]
    have : ({ p with nread := p.nread + (c :: rest).length, headerState := h, index := i } :
        HttpParser) = { q with nread := q.nread + rest.length, headerState := h, index := i } := by
      rw [hqp, List.length_cons, Nat.add_assoc, Nat.add_comm 1]
    rw [this, List.append_cons f c rest]
    exact hst

theorem name_strides (hS : S.Lawful good) {p : HttpParser} {u : σ} (hg : good u)
    (hs : p.state = .headerFieldStart ∨ p.state = .headerValueLws) {name : Bytes}
    (hne : name ≠ []) (hc : ∀ c ∈ name, token c ≠ 0) :
    ∃ h i, h.InName i ∧ h.name i [] = .ofName name ∧ Strides S good (p, u) name ({ p with
      nread := p.nread + name.length, state := .headerField, headerState := h, index := i },
      S.data .headerField name u) := by
  obtain _ | ⟨c, rest⟩ := name
  · exact absurd rfl hne
  obtain ⟨h, i, hi, hn, hst⟩ := name_rest hS hg
    (p := { p with nread := p.nread + 1, index := 0, state := .headerField
                   headerState := headerNameStart (token c) })
    (List.cons_ne_nil c []) rfl (headerNameStart_inName _)
    fun c hm => hc c (List.mem_cons_of_mem _ hm)
  refine ⟨h, i, hi, hn.trans (headerNameStart_name c rest), ?_⟩
  refine .cons (by obtain hs | hs := hs <;> exact parsingHeader_of hs rfl)
    (stride_headerFieldStart hs (hc c (by simp))) rfl (hS.data_good _ _ _ (by decide) hg) ?_
  rw [List.length_cons, Nat.add_comm rest.length, ← Nat.add_assoc]
  exact hst

theorem colon_strides (hS : S.Lawful good) {p : HttpParser} {u : σ} (hg : good u)
    (hs : p.state = .headerField) (he : p.httpErrno = .ok) {name : Bytes} (hne : name ≠ []) :
    Strides S good (p, S.data .headerField name u) [':'.toUInt8] ({ p with
      nread := p.nread + 1, state := .headerValueStart }, S.data .headerField name u) := by
  have hgc : good (S.data .headerField [] (S.data .headerField name u)) :=
    hS.data_good _ _ _ (by decide) (hS.data_good _ _ _ (by decide) hg)
  have h := hS.append hne [] hgc
  rw [List.append_nil] at h
  have := stride_colon (u := S.data .headerField name u) hS hs he
  rw [h] at this hgc
  exact .cons (parsingHeader_of hs rfl) this rfl hgc (.nil _)

theorem blanks_strides {p : HttpParser} {u : σ} (hg : good u) {blanks : Bytes}
    (hs : p.state = .headerValueStart) (hb : ∀ c ∈ blanks, isBlank c = true) :
    Strides S good (p, u) blanks ({ p with nread := p.nread + blanks.length }, u) := by
  induction blanks generalizing p with
  | nil => exact .nil _
  | cons c rest ih =>
    have h := ih (p := { p with nread := p.nread + 1 }) hs
      fun c hm => hb c (List.mem_cons_of_mem _ hm)
    rw [List.length_cons, Nat.add_comm rest.length, ← Nat.add_assoc]
    exact .cons (parsingHeader_of hs rfl) (stride_blank hs (hb c (by simp))) rfl hg h

/-- The rest of a value that is no length, behind the fragment `f`. -/
theorem value_rest (hS : S.Lawful good) {u : σ} (hg : good u) {rest : Bytes} :
    ∀ {p : HttpParser} {f : Bytes}, f ≠ [] → p.state = .headerValue →
      p.headerState.InValue p.index → (∀ c ∈ rest, c ≠ CR ∧ c ≠ LF) →
      ∃ h i, h.InValue i ∧ h.value i [] = p.headerState.value p.index rest ∧
        Strides S good (p, S.data .headerValue f u) rest ({ p with
          nread := p.nread + rest.length, headerState := h, index := i },
          S.data .headerValue (f ++ rest) u) := by
  induction rest with
  | nil =>
    intro p f _ _ hi _
    exact ⟨p.headerState, p.index, hi, rfl, by rw [List.append_nil]; exact .nil _⟩
  | cons c rest ih =>
    intro p f hne hs hi hc
    have hgood : ∀ g, good (S.data .headerValue g u) :=
      fun g => hS.data_good _ g u (by decide) hg
    obtain ⟨q, hq, hqp, hqi, hqn⟩ :=
      headerValueNext_value (p := { p with nread := p.nread + 1 }) c hi
    have hqs : q.state = .headerValue := by rw [hqp]; exact hs
    obtain ⟨h, i, hhi, hhn, hst⟩ := ih (f := f ++ [c]) (by simp) hqs hqi
      fun c hm => hc c (List.mem_cons_of_mem _ hm)
    refine ⟨h, i, hhi, by rw [hhn, hqn], ?_⟩
    have hgc : good (S.data .headerValue [c] (S.data .headerValue f u)) :=
      hS.data_good _ _ _ (by decide) (hgood f)
    refine .cons (parsingHeader_of hs rfl) (stride_valueNext hs (hc c (by simp)) hq)
      (by rw [hqp]) hgc ?_
    rw [hS.append hne _ hgc]
    have : ({ p with nread := p.nread + (c :: rest).length, headerState := h, index := i } :
        HttpParser) = { q with nread := q.nread + rest.length, headerState := h, index := i } := by
      rw [hqp, List.length_cons, Nat.add_assoc, Nat.add_comm 1]
    rw [this, List.append_cons f c rest]
    exact hst

/-- The rest of a length, behind the fragment `f`. -/
theorem length_rest (hS : S.Lawful good) {u : σ} (hg : good u) {n : ℕ} {rest : Bytes} :
    ∀ {p : HttpParser} {f : Bytes}, f ≠ [] → p.state = .headerValue →
      p.headerState = .contentLength → (∀ c ∈ rest, c ≠ CR ∧ c ≠ LF) →
      lengthFrom p.contentLength rest = some n →
      Strides S good (p, S.data .headerValue f u) rest ({ p with
        nread := p.nread + rest.length, contentLength := n },
          S.data .headerValue (f ++ rest) u) := by
  induction rest with
  | nil =>
    intro p f _ _ _ _ hn
    obtain rfl := Option.some.inj hn
    rw [List.append_nil]
    exact .nil _
  | cons c rest ih =>
    intro p f hne hs hh hc hn
    have hgc : good (S.data .headerValue [c] (S.data .headerValue f u)) :=
      hS.data_good _ _ _ (by decide) (hS.data_good _ _ _ (by decide) hg)
    have key : ∀ m, lengthFrom m rest = some n →
        headerValueNext { p with nread := p.nread + 1 } c =
          .ok { p with nread := p.nread + 1, contentLength := m } →
        Strides S good (p, S.data .headerValue f u) (c :: rest) ({ p with
          nread := p.nread + (c :: rest).length, contentLength := n },
          S.data .headerValue (f ++ c :: rest) u) := by
      intro m hm hq
      refine .cons (parsingHeader_of hs rfl) (stride_valueNext hs (hc c (by simp)) hq) rfl hgc ?_
      rw [hS.append hne _ hgc, List.append_cons f c rest, List.length_cons,
        Nat.add_comm rest.length, ← Nat.add_assoc]
      exact ih (p := { p with nread := p.nread + 1, contentLength := m }) (by simp) hs hh
        (fun c hm => hc c (List.mem_cons_of_mem _ hm)) hm
    rw [lengthFrom] at hn
    by_cases hsp : c = SP
    · rw [if_pos hsp] at hn
      exact key _ hn (by simp only [headerValueNext, hh, hsp, if_true])
    by_cases hd : isNum c = true
    · simp only [hsp, hd, Bool.not_true, Bool.false_eq_true, if_false] at hn
      split_ifs at hn with ho
      exact key _ hn (by
        simp only [headerValueNext, hh, hsp, hd, Bool.not_true, Bool.false_eq_true, if_false,
          pushDigit, ho])
    · simp [hsp, hd] at hn

/-- The end of a line: a bare line feed is taken as well. -/
def eol (cr : Bool) : Bytes := if cr then crlf else [LF]

theorem valueEnd_strides (hS : S.Lawful good) {p : HttpParser} {u : σ} (hg : good u)
    (hs : p.state = .headerValue) (he : p.httpErrno = .ok) {value : Bytes} (hne : value ≠ [])
    (cr : Bool) : Strides S good (p, S.data .headerValue value u) (eol cr)
      ({ p with
        nread := p.nread + (eol cr).length, state := .headerValueLws
        flags := p.flags.settle p.headerState }, S.data .headerValue value u) := by
  have hgv : good (S.data .headerValue value u) := hS.data_good _ _ _ (by decide) hg
  have hgc : good (S.data .headerValue [] (S.data .headerValue value u)) :=
    hS.data_good _ _ _ (by decide) hgv
  have h := hS.append hne [] hgc
  rw [List.append_nil] at h
  cases cr with
  | true =>
    have hcr := stride_valueEnd (u := S.data .headerValue value u) hS hs he
    rw [h] at hcr
    exact .cons (parsingHeader_of hs rfl) hcr rfl hgv
      (.cons rfl (stride_lineEnd rfl) rfl hgv (.nil _))
  | false =>
    have hlf := stride_valueFeed (u := S.data .headerValue value u) hS hs he
    rw [h] at hlf
    exact .cons (parsingHeader_of hs rfl) hlf rfl hgv (.nil _)

/-- What one piece of a value adds, if `header_state` is `k` before it; `none` if it is refused. -/
def Framing.piece (f : Framing) (k : HeaderState) (value : Bytes) : Option Framing :=
  if value = [] then some f
  else match k with
  | .connection =>
    if isWord (ascii "keep-alive") value then some { f with flags.connectionKeepAlive := true }
    else if isWord (ascii "close") value then some { f with flags.connectionClose := true }
    else some f
  | .transferEncoding =>
    if isWord (ascii "chunked") value then some { f with flags.chunked := true } else some f
  | .contentLength => (lengthOf value).map fun n => { f with contentLength := n }
  | .upgrade => some { f with flags.upgrade := true }
  | _ => some f

theorem Framing.line_eq (f : Framing) (name value : Bytes) :
    f.line name value = f.piece (.ofName name) value := rfl

/-- What `header_state` stands for behind a piece: a length may be given again. -/
def HeaderState.behind (k : HeaderState) (value : Bytes) : HeaderState :=
  if k = .contentLength ∧ value ≠ [] then .contentLength else .general

theorem known_contentLength {h : HeaderState} :
    h.known = .contentLength ↔ h = .contentLength := by
  cases h <;> decide

theorem known_inValue {h : HeaderState} {i : ℕ} (hi : h.InValue i) : h.known = .general := by
  cases h <;> first | rfl | exact absurd hi id

/-- A piece of a value and the end of its line. -/
theorem piece_strides (hS : S.Lawful good) {p : HttpParser} {f : Framing} {u : σ} (hg : good u)
    (hs : p.state = .headerValueStart) (he : p.httpErrno = .ok) {value : Bytes}
    (hv : ∀ c ∈ value, c ≠ CR ∧ c ≠ LF) (hb : ∀ c ∈ value.head?, isBlank c = false) (cr : Bool)
    (hf : p.framing.piece p.headerState.known value = some f) :
    ∃ s h i, Strides S good (p, u) (value ++ eol cr) ({ p with
      nread := p.nread + (value ++ eol cr).length, state := s
      flags := f.flags, contentLength := f.contentLength
      headerState := h, index := i }, S.data .headerValue value u) ∧
      (s = .headerFieldStart ∧ value = [] ∧ cr = false ∨
        s = .headerValueLws ∧ h.known = p.headerState.known.behind value) := by
  have hgv : ∀ v, good (S.data .headerValue v u) := fun v => hS.data_good _ _ _ (by decide) hg
  obtain _ | ⟨c, rest⟩ := value
  · unfold Framing.piece at hf
    rw [if_pos rfl] at hf
    obtain rfl := Option.some.inj hf
    cases cr with
    | true =>
      exact ⟨_, _, _, .cons (parsingHeader_of hs rfl) (stride_valueEmpty hS hs he) rfl (hgv [])
        (.cons rfl (stride_lineEnd rfl) rfl (hgv []) (.nil _)),
        .inr ⟨rfl, by simp [HeaderState.behind, HeaderState.known]⟩⟩
    | false =>
      exact ⟨_, _, _, .cons (parsingHeader_of hs rfl) (stride_emptyFeed hS hs he) rfl (hgv [])
        (.nil _), .inl ⟨rfl, rfl, rfl⟩⟩
  have hc := hv c (by simp)
  have hr : ∀ c ∈ rest, c ≠ CR ∧ c ≠ LF := fun c hm => hv c (List.mem_cons_of_mem _ hm)
  have hcb := hb c (by simp)
  unfold Framing.piece at hf
  rw [if_neg (List.cons_ne_nil _ _)] at hf
  rw [List.cons_append]
  by_cases hl : p.headerState = .contentLength
  · rw [hl] at hf
    obtain ⟨n, hn, rfl⟩ := Option.map_eq_some_iff.mp hf
    rw [lengthOf] at hn
    split_ifs at hn with hd
    have hq₁ : headerValueFirst { p with
        nread := p.nread + 1, state := .headerValue, index := 0 } c =
        .ok { p with nread := p.nread + 1, state := .headerValue, index := 0,
                     contentLength := digit c } := by
      simp only [headerValueFirst, hl, hd, Bool.not_true, Bool.false_eq_true, if_false]
    have h₁ := length_rest hS hg (p := { p with
      nread := p.nread + 1, state := .headerValue, index := 0, contentLength := digit c })
      (List.cons_ne_nil c []) rfl hl hr hn
    have h₂ := valueEnd_strides hS hg (p := { p with
      nread := p.nread + 1 + rest.length, state := .headerValue, index := 0, contentLength := n })
      rfl he (List.cons_ne_nil c rest) cr
    refine ⟨_, p.headerState, 0, .cons (parsingHeader_of hs rfl)
      (stride_valueFirst hs hcb hc hq₁) rfl (hgv _) ?_, .inr ⟨rfl, ?_⟩⟩
    · refine (h₁.append h₂).cast ?_
      simp only [hl, Flags.settle, List.length_cons, List.length_append]
      congr 2
      omega
    · rw [hl]
      exact (if_pos ⟨rfl, List.cons_ne_nil _ _⟩).symm
  · obtain ⟨q₁, hq₁, hqp, hqf, hqi, hqv⟩ := headerValueFirst_value (p := { p with
      nread := p.nread + 1, state := .headerValue, index := 0 }) rfl hl
    have hqs : q₁.state = .headerValue := by rw [hqp]
    have hqe : q₁.httpErrno = .ok := by rw [hqp]; exact he
    obtain ⟨h, i, hhi, hhv, h₁⟩ := value_rest hS hg (List.cons_ne_nil c []) hqs hqi hr
    have h₂ := valueEnd_strides hS hg (p := { q₁ with
      nread := q₁.nread + rest.length, headerState := h, index := i }) hqs hqe
      (List.cons_ne_nil c rest) cr
    refine ⟨_, h, i, .cons (parsingHeader_of hs rfl)
      (stride_valueFirst hs hcb hc hq₁) (by rw [hqp]) (hgv _) ?_, .inr ⟨rfl, ?_⟩⟩
    swap
    · rw [known_inValue hhi]
      exact (if_neg fun hc => hl (known_contentLength.mp hc.1)).symm
    refine (h₁.append h₂).cast ?_
    have hqn : q₁.nread = p.nread + 1 := by rw [hqp]
    have hlen : q₁.nread + rest.length + (eol cr).length =
        p.nread + (c :: (rest ++ eol cr)).length := by
      simp only [hqn, List.length_cons, List.length_append]
      omega
    have hset : q₁.flags.settle h = f.flags ∧ f.contentLength = p.contentLength := by
      rw [← settle_value hhi, hhv, hqv, hqf]
      cases hk : p.headerState <;> simp only [hk, HeaderState.known] at hf
      case contentLength => exact absurd hk hl
      case connection | transferEncoding =>
        simp only [reduceCtorEq, if_false]
        split_ifs at hf ⊢ <;> obtain rfl := Option.some.inj hf <;> exact ⟨rfl, rfl⟩
      all_goals
        obtain rfl := Option.some.inj hf
        exact ⟨rfl, rfl⟩
    rw [hlen, hset.1, hset.2, hqp]

/-- A value and the end of its line. -/
theorem value_strides (hS : S.Lawful good) {p : HttpParser} {f : Framing} {u : σ} (hg : good u)
    (hs : p.state = .headerValueStart) (he : p.httpErrno = .ok) {name value : Bytes}
    (hi : p.headerState.InName p.index) (hn : p.headerState.name p.index [] = .ofName name)
    (hv : ∀ c ∈ value, c ≠ CR ∧ c ≠ LF) (hb : ∀ c ∈ value.head?, isBlank c = false)
    (hf : p.framing.line name value = some f) :
    ∃ h i, Strides S good (p, u) (value ++ crlf) ({ p with
      nread := p.nread + (value ++ crlf).length, state := .headerValueLws
      flags := f.flags, contentLength := f.contentLength
      headerState := h, index := i }, S.data .headerValue value u) := by
  rw [Framing.line_eq, ← hn, name_nil hi] at hf
  obtain ⟨s, h, i, hst, ⟨-, -, hcr⟩ | ⟨rfl, -⟩⟩ := piece_strides hS hg hs he hv hb true hf
  · cases hcr
  · exact ⟨h, i, hst⟩

/-- A header line, as it is sent: blanks may stand before the value, and none begins it. -/
structure HeaderLine where
  name : Bytes
  blanks : Bytes
  value : Bytes
  name_ne : name ≠ []
  name_token : ∀ c ∈ name, token c ≠ 0
  blanks_blank : ∀ c ∈ blanks, isBlank c = true
  value_line : ∀ c ∈ value, c ≠ CR ∧ c ≠ LF
  value_head : ∀ c ∈ value.head?, isBlank c = false

def HeaderLine.bytes (l : HeaderLine) : Bytes :=
  l.name ++ [':'.toUInt8] ++ l.blanks ++ (l.value ++ crlf)

/-- The user state after the callbacks of a header line. -/
def Settings.line (S : Settings σ) (l : HeaderLine) (u : σ) : σ :=
  S.data .headerValue l.value (S.data .headerField l.name u)

theorem line_strides (hS : S.Lawful good) {p : HttpParser} {f : Framing} {u : σ} (hg : good u)
    (hs : p.state = .headerFieldStart ∨ p.state = .headerValueLws) (he : p.httpErrno = .ok)
    (l : HeaderLine) (hf : p.framing.line l.name l.value = some f) :
    ∃ h i, Strides S good (p, u) l.bytes ({ p with
      nread := p.nread + l.bytes.length, state := .headerValueLws
      flags := f.flags, contentLength := f.contentLength
      headerState := h, index := i }, S.line l u) := by
  have hgn : good (S.data .headerField l.name u) := hS.data_good _ _ _ (by decide) hg
  obtain ⟨h, i, hi, hn, h₁⟩ := name_strides hS hg hs l.name_ne l.name_token
  have h₂ := colon_strides hS hg (p := { p with
    nread := p.nread + l.name.length, state := .headerField, headerState := h, index := i })
    rfl he l.name_ne
  have h₃ := blanks_strides hgn (p := { p with
    nread := p.nread + l.name.length + 1
    state := .headerValueStart
    headerState := h
    index := i })
    rfl l.blanks_blank (S := S)
  obtain ⟨h', i', h₄⟩ := value_strides hS hgn (p := { p with
    nread := p.nread + l.name.length + 1 + l.blanks.length, state := .headerValueStart
    headerState := h, index := i }) rfl he hi hn l.value_line l.value_head hf
  refine ⟨h', i', (((h₁.append h₂).append h₃).append h₄).cast ?_⟩
  simp only [HeaderLine.bytes, List.length_append, List.length_singleton, Settings.line,
    Nat.add_assoc]

/-- The framing that the lines of a head give. -/
def Framing.lines (f : Framing) (ls : List HeaderLine) : Option Framing :=
  ls.foldlM (fun f l => f.line l.name l.value) f

def Settings.lines (S : Settings σ) (ls : List HeaderLine) (u : σ) : σ :=
  ls.foldl (fun u l => S.line l u) u

theorem lines_good (hS : S.Lawful good) {u : σ} (hg : good u) (l : HeaderLine) :
    good (S.line l u) :=
  hS.data_good _ _ _ (by decide) (hS.data_good _ _ _ (by decide) hg)

theorem lines_strides (hS : S.Lawful good) {ls : List HeaderLine} {p : HttpParser} {f : Framing}
    {u : σ} (hg : good u) (hs : p.state = .headerFieldStart ∨ p.state = .headerValueLws)
    (he : p.httpErrno = .ok) (hf : p.framing.lines ls = some f) :
    ∃ s h i, (s = .headerFieldStart ∨ s = .headerValueLws) ∧
      Strides S good (p, u) (ls.flatMap HeaderLine.bytes) ({ p with
        nread := p.nread + (ls.flatMap HeaderLine.bytes).length, state := s
        flags := f.flags, contentLength := f.contentLength
        headerState := h, index := i }, S.lines ls u) ∧ good (S.lines ls u) := by
  induction ls generalizing p u with
  | nil =>
    obtain rfl := Option.some.inj hf
    exact ⟨p.state, p.headerState, p.index, hs, .nil _, hg⟩
  | cons l ls ih =>
    rw [Framing.lines, List.foldlM_cons] at hf
    obtain ⟨f₁, hf₁, hf₂⟩ := Option.bind_eq_some_iff.mp hf
    obtain ⟨h, i, h₁⟩ := line_strides hS hg hs he l hf₁
    obtain ⟨s, h', i', hs', h₂, hg₂⟩ := ih (p := { p with
      nread := p.nread + l.bytes.length, state := .headerValueLws
      flags := f₁.flags, contentLength := f₁.contentLength
      headerState := h, index := i }) (lines_good hS hg l) (.inr rfl) he hf₂
    refine ⟨s, h', i', hs', (h₁.append h₂).cast ?_, hg₂⟩
    simp only [List.flatMap_cons, List.length_append, Nat.add_assoc]
    rfl

end Stutter.Joyent
