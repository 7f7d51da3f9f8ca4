import Stutter.Joyent.Line

namespace Stutter.Joyent

variable {σ : Type} {S : Settings σ} {good : σ → Prop}

/-- A byte that no callback sees. -/
theorem Strides.one {p q : HttpParser} {u : σ} {ch : UInt8} (hg : good u)
    (hh : p.state.parsingHeader = true) (h : stride S (p, u) ch = some (q, u))
    (hn : q.nread = p.nread + 1) : Strides S good (p, u) [ch] (q, u) :=
  .cons hh h hn hg (.nil _)

theorem Method.string_all (m : Method) : m.string.all (fun c => c ≠ 0 && c ≠ SP) = true := by
  cases m <;> decide +kernel

theorem Method.string_ne (m : Method) : ∀ c ∈ m.string, c ≠ 0 ∧ c ≠ SP := fun c hc => by
  simpa using List.all_eq_true.mp m.string_all c hc

/-- The rest of a method's name and the space behind it. -/
theorem method_rest {u : σ} (hg : good u) {m : Method} {rest : Bytes} :
    ∀ {p : HttpParser}, p.state = .reqMethod → p.method = m → m.string.drop p.index = rest →
      p.index ≤ m.string.length → Strides S good (p, u) (rest ++ [SP]) ({ p with
        nread := p.nread + rest.length + 1, state := .reqSpacesBeforeUrl
        index := m.string.length + 1 }, u) := by
  induction rest with
  | nil =>
    intro p hs hm hr hi
    have hi : p.index = m.string.length := le_antisymm hi (List.drop_eq_nil_iff.mp hr)
    have hz : m.string.getD m.string.length 0 = 0 := List.getD_eq_default _ _ le_rfl
    have hsp : SP ≠ 0 := by decide
    refine .one hg (parsingHeader_of hs rfl) ?_ rfl
    simp only [stride, hs, exec, reqMethod, hm, hz, hsp, if_false, and_self, if_true, Cfg.lift,
      Flow.flushed, HttpParser.goto, entryMarks, hi]
    rfl
  | cons c rest ih =>
    intro p hs hm hr hi
    have hlt : p.index < m.string.length := by
      by_contra hge
      rw [List.drop_eq_nil_of_le (not_lt.mp hge)] at hr
      cases hr
    obtain ⟨hc, hr⟩ := (cons_eq_drop hlt).mp hr.symm
    have hne := m.string_ne c (by
      rw [hc, List.getD_eq_getElem _ _ hlt]
      exact List.getElem_mem hlt)
    have h := ih (p := { p with nread := p.nread + 1, index := p.index + 1 }) hs hm hr.symm hlt
    refine .cons (parsingHeader_of hs rfl) ?_ rfl hg (h.cast ?_)
    · simp only [stride, hs, exec, reqMethod, hm, ← hc, hne.1, hne.2, false_and, if_false, if_true,
        Cfg.lift, Flow.flushed, entryMarks]
      rfl
    · rw [List.length_cons, Nat.add_assoc p.nread 1, Nat.add_comm 1]

/-- The method of a verb of `http::Request`. -/
def Method.isVerb (m : Method) : Bool := m ∈ [Method.get, .post, .put, .head, .delete]

theorem method_strides {p : HttpParser} {u : σ} (hg : good u) (hs : p.state = .startReq)
    (he : p.httpErrno = .ok) {m : Method} (hm : m.isVerb = true) : ∃ i,
    Strides S good (p, u) (m.string ++ [SP]) ({ p with
      nread := p.nread + m.string.length + 1, state := .reqSpacesBeforeUrl, method := m
      flags := .none, contentLength := ULLONG_MAX, index := i }, u) := by
  have h₁ : ∀ c q, startReq { p with nread := p.nread + 1 } c = .ok q → q.state.mark = none →
      stride S (p, u) c = some (q, u) := by
    intro c q hq hk
    simp only [hs, he] at hq
    simp only [stride, hs, exec, notifyMessageBegin, he, ne_eq, not_true_eq_false, if_false, hq,
      Cfg.lift, Flow.flushed, entryMarks]
    rfl
  have h₂ : ∀ m c, m.string = c :: m.string.drop 1 → 1 ≤ m.string.length →
      startReq { p with nread := p.nread + 1 } c = .ok { p with
        nread := p.nread + 1, flags := .none, contentLength := ULLONG_MAX, method := m
        index := 1, state := .reqMethod } →
      Strides S good (p, u) (m.string ++ [SP]) ({ p with
        nread := p.nread + m.string.length + 1, state := .reqSpacesBeforeUrl, method := m
        flags := .none, contentLength := ULLONG_MAX, index := m.string.length + 1 }, u) := by
    intro m c hm hl hq
    have h := method_rest (S := S) hg (p := { p with
      nread := p.nread + 1, flags := .none, contentLength := ULLONG_MAX, method := m
      index := 1, state := .reqMethod }) rfl rfl rfl hl
    have hb : m.string ++ [SP] = c :: (m.string.drop 1 ++ [SP]) := by
      rw [← List.cons_append, ← hm]
    rw [hb]
    refine .cons (parsingHeader_of hs rfl) (h₁ _ _ hq rfl) rfl hg (h.cast ?_)
    simp only [List.length_drop]
    congr 2
    omega
  have hput : stride S ({ p with
      nread := p.nread + 1, state := .reqMethod, method := .post, flags := .none
      contentLength := ULLONG_MAX, index := 1 }, u) 'U'.toUInt8 = some ({ p with
        nread := p.nread + 1 + 1, state := .reqMethod, method := .put, flags := .none
        contentLength := ULLONG_MAX, index := 2 }, u) := rfl
  refine ⟨m.string.length + 1, ?_⟩
  simp only [Method.isVerb, List.mem_cons, List.not_mem_nil, or_false, decide_eq_true_eq] at hm
  obtain rfl | rfl | rfl | rfl | rfl := hm
  case inr.inr.inl =>
    have hm : Method.put.string = 'P'.toUInt8 :: 'U'.toUInt8 :: Method.put.string.drop 2 :=
      by decide
    rw [hm, List.cons_append, List.cons_append]
    exact .cons (parsingHeader_of hs rfl) (h₁ _ _ rfl rfl) rfl hg (.cons rfl hput rfl hg
      (method_rest hg rfl rfl rfl (Nat.le_of_ble_eq_true rfl)))
  all_goals exact h₂ _ _ rfl (by decide) rfl

/-- The states of a URL that a space may end. -/
def State.urlEnd : State → Bool
  | .reqServer | .reqServerWithAt | .reqPath | .reqQueryStringStart | .reqQueryString
  | .reqFragmentStart | .reqFragment => true
  | _ => false

/-- Whether `http_parser` accepts a URL behind a method other than `CONNECT`. -/
def isUrl (url : Bytes) : Bool := (url.foldl parseUrlChar .reqSpacesBeforeUrl).urlEnd

theorem parseUrlChar_dead (url : Bytes) : url.foldl parseUrlChar .dead = .dead := by
  induction url with
  | nil => rfl
  | cons c url ih =>
    have hc : parseUrlChar .dead c = .dead := by
      rw [parseUrlChar]
      · split_ifs <;> rfl
      all_goals simp
    rw [List.foldl_cons, hc, ih]

theorem parseUrlChar_ne {s : State} {ch : UInt8} (h : parseUrlChar s ch ≠ .dead) :
    ch ≠ SP ∧ ch ≠ CR ∧ ch ≠ LF := by
  refine ⟨?_, ?_, ?_⟩ <;> rintro rfl <;> exact h (by simp [parseUrlChar])

theorem url_first {p : HttpParser} {u : σ} {ch : UInt8} (hs : p.state = .reqSpacesBeforeUrl)
    (hm : p.method ≠ .connect) (hc : parseUrlChar .reqSpacesBeforeUrl ch ≠ .dead) :
    stride S (p, u) ch = some ({ p with
      nread := p.nread + 1, state := parseUrlChar .reqSpacesBeforeUrl ch },
      S.data .url [ch] u) := by
  simp only [stride, hs, exec, urlFirst, (parseUrlChar_ne hc).1, if_false, Cfg.mark, hm, Cfg.goto,
    HttpParser.goto, hc, entryMarks, Marks.mark_none, Flow.flushed, Cfg.push, Marks.push_single,
    flush_single, List.nil_append]
  rfl

theorem url_next {p : HttpParser} {u : σ} {ch : UInt8} (hk : p.state.mark = some .url)
    (hc : parseUrlChar p.state ch ≠ .dead) :
    stride S (p, u) ch = some ({ p with
      nread := p.nread + 1, state := parseUrlChar p.state ch }, S.data .url [ch] u) := by
  obtain ⟨h₁, h₂, h₃⟩ := parseUrlChar_ne hc
  rw [stride, entryMarks_eq, hk]
  cases hs : p.state <;> rw [hs] at hk hc <;> simp only [State.mark, reduceCtorEq] at hk
  case headerField | headerValue => cases hk
  all_goals
    simp only [hs, exec, urlSchema, urlRest, h₁, h₂, h₃, or_self, if_false, Cfg.goto,
      HttpParser.goto, hc, Flow.flushed, Cfg.push, Marks.push_single, flush_single, List.nil_append]
    rfl

theorem url_end (hS : S.Lawful good) {p : HttpParser} {u : σ} (hu : p.state.urlEnd = true)
    (he : p.httpErrno = .ok) : stride S (p, u) SP = some ({ p with
      nread := p.nread + 1, state := .reqHttpStart }, S.data .url [] u) := by
  cases hs : p.state <;> rw [hs] at hu <;> simp only [State.urlEnd, Bool.false_eq_true] at hu
  all_goals
    simp only [stride, hs, exec, urlRest, if_true, Cfg.goto, HttpParser.goto, entryMarks_eq,
      State.mark]
    rw [callbackData_single hS]
    · rfl
    · exact he

/-- The rest of a URL, behind the fragment `f`. -/
theorem url_rest (hS : S.Lawful good) {u : σ} {rest : Bytes} :
    ∀ {p : HttpParser} {f : Bytes}, f ≠ [] → p.state.mark = some .url →
      (rest.foldl parseUrlChar p.state).urlEnd = true → good (S.data .url (f ++ rest) u) →
      Strides S good (p, S.data .url f u) rest ({ p with
        nread := p.nread + rest.length, state := rest.foldl parseUrlChar p.state },
        S.data .url (f ++ rest) u) := by
  induction rest with
  | nil =>
    intro p f _ _ _ _
    rw [List.append_nil]
    exact .nil _
  | cons c rest ih =>
    intro p f hne hk hu hg
    have hd : parseUrlChar p.state c ≠ .dead := fun h => by
      rw [List.foldl_cons, h, parseUrlChar_dead] at hu
      cases hu
    rw [List.append_cons f c rest] at hg ⊢
    obtain ⟨hgc, -⟩ := hS.data_whole _ _ _ _ (by simp) hg
    obtain ⟨-, hw⟩ := hS.data_whole _ _ _ _ hne hgc
    have h := ih (p := { p with nread := p.nread + 1, state := parseUrlChar p.state c })
      (f := f ++ [c]) (by simp) ((parseUrlChar_mark _ _).resolve_left hd) hu hg
    rw [List.length_cons, Nat.add_comm rest.length, ← Nat.add_assoc]
    refine .cons (by revert hk; cases p.state <;> exact fun h => by first | rfl | cases h)
      (url_next hk hd) rfl ?_ ?_
    · rwa [Settings.data, Settings.data, ← hw]
    · rwa [Settings.data, Settings.data, ← hw]

/-- A URL and the space behind it. -/
theorem url_strides (hS : S.Lawful good) {p : HttpParser} {u : σ}
    (hs : p.state = .reqSpacesBeforeUrl) (hm : p.method ≠ .connect) (he : p.httpErrno = .ok)
    {url : Bytes} (hu : isUrl url = true) (hg : good (S.data .url url u)) :
    Strides S good (p, u) (url ++ [SP]) ({ p with
      nread := p.nread + url.length + 1, state := .reqHttpStart }, S.data .url url u) := by
  obtain _ | ⟨c, rest⟩ := url
  · cases hu
  have hd : parseUrlChar .reqSpacesBeforeUrl c ≠ .dead := fun h => by
    rw [isUrl, List.foldl_cons, h, parseUrlChar_dead] at hu
    cases hu
  obtain ⟨hgc, -⟩ := hS.data_whole _ [c] rest _ (by simp) hg
  have h₁ := url_rest hS (p := { p with
    nread := p.nread + 1, state := parseUrlChar .reqSpacesBeforeUrl c })
    (List.cons_ne_nil c []) ((parseUrlChar_mark _ _).resolve_left hd) hu hg
  have h₂ : Strides S good ({ p with
      nread := p.nread + 1 + rest.length
      state := rest.foldl parseUrlChar (parseUrlChar .reqSpacesBeforeUrl c) },
      S.data .url (c :: rest) u) [SP] ({ p with
        nread := p.nread + 1 + rest.length + 1, state := .reqHttpStart },
        S.data .url (c :: rest) u) := by
    obtain ⟨-, hw⟩ := hS.data_whole .url (c :: rest) [] u (List.cons_ne_nil c rest)
      (by rwa [List.append_nil])
    rw [List.append_nil] at hw
    refine .cons ?_ ((url_end hS (by exact hu) (by exact he)).trans ?_) rfl hg (.nil _)
    · rw [isUrl, List.foldl_cons] at hu
      revert hu
      cases List.foldl parseUrlChar (parseUrlChar .reqSpacesBeforeUrl c) rest <;>
        exact fun h => by first | rfl | cases h
    · rw [Settings.data, Settings.data, ← hw]
  refine .cons (parsingHeader_of hs rfl) (url_first hs hm hd) rfl hgc ((h₁.append h₂).cast ?_)
  rw [List.length_cons, Nat.add_assoc p.nread 1, Nat.add_comm 1]

/-- ` HTTP/1.1` and the end of a request line. -/
def httpVersion : Bytes := ascii "HTTP/1.1" ++ crlf

theorem httpVersion_strides {p : HttpParser} {u : σ} (hg : good u) (hs : p.state = .reqHttpStart) :
    Strides S good (p, u) httpVersion ({ p with
      nread := p.nread + httpVersion.length, state := .headerFieldStart
      httpMajor := 1, httpMinor := 1 }, u) := by
  have h₁ : stride S (p, u) 'H'.toUInt8 =
      some ({ p with nread := p.nread + 1, state := .reqHttpH }, u) := by
    simp only [stride, hs, exec]
    rfl
  exact .cons (parsingHeader_of hs rfl) h₁ rfl hg <| .cons rfl rfl rfl hg <| .cons rfl rfl rfl hg <|
    .cons rfl rfl rfl hg <| .cons rfl rfl rfl hg <| .cons rfl rfl rfl hg <| .cons rfl rfl rfl hg <|
    .cons rfl rfl rfl hg <| .cons rfl rfl rfl hg <| .cons rfl rfl rfl hg <| .nil _

/-- A request line of HTTP/1.1. -/
def requestLine (m : Method) (url : Bytes) : Bytes :=
  m.string ++ [SP] ++ (url ++ [SP]) ++ httpVersion

theorem requestLine_strides (hS : S.Lawful good) {p : HttpParser} {u : σ} (hgu : good u)
    (hs : p.state = .startReq) (he : p.httpErrno = .ok) {m : Method} (hm : m.isVerb = true)
    {url : Bytes} (hu : isUrl url = true) (hg : good (S.data .url url u)) : ∃ i,
    Strides S good (p, u) (requestLine m url) ({ p with
      nread := p.nread + (requestLine m url).length, state := .headerFieldStart
      flags := .none, contentLength := ULLONG_MAX, method := m, httpMajor := 1, httpMinor := 1
      index := i }, S.data .url url u) := by
  obtain ⟨i, h₁⟩ := method_strides (S := S) hgu hs he hm
  have hne : m ≠ .connect := by rintro rfl; exact absurd hm (by decide)
  have h₂ := url_strides hS (p := { p with
    nread := p.nread + m.string.length + 1, state := .reqSpacesBeforeUrl, method := m
    flags := .none, contentLength := ULLONG_MAX, index := i }) rfl hne he hu hg
  have h₃ := httpVersion_strides (S := S) (p := { p with
    nread := p.nread + m.string.length + 1 + url.length + 1, state := .reqHttpStart, method := m
    flags := .none, contentLength := ULLONG_MAX, index := i }) hg rfl
  refine ⟨i, ((h₁.append h₂).append h₃).cast ?_⟩
  simp only [requestLine, List.length_append, List.length_singleton]
  congr 2
  omega

end Stutter.Joyent
