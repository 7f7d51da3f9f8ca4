import Stutter.Joyent.Trailer

namespace Stutter.Joyent

variable {σ : Type} {S : Settings σ} {good : σ → Prop}

/-- A part of a value, up to the end of its line. -/
structure Piece where
  blanks : Bytes
  text : Bytes
  cr : Bool
  blanks_blank : ∀ c ∈ blanks, isBlank c = true
  text_line : ∀ c ∈ text, c ≠ CR ∧ c ≠ LF
  text_head : ∀ c ∈ text.head?, isBlank c = false

def Piece.bytes (q : Piece) : Bytes := q.blanks ++ (q.text ++ eol q.cr)

/-- The line can be continued: not behind an early bare line feed. -/
def Piece.Open (q : Piece) : Prop := q.text = [] → q.cr = true

/-- A header line with or without a colon, and the lines that continue it. -/
structure HeadLine where
  name : Bytes
  first : Option Piece
  /-- how the line ends if it has no colon -/
  cr : Bool
  more : List Piece
  name_ne : name ≠ []
  name_token : ∀ c ∈ name, token c ≠ 0
  more_blanks : ∀ q ∈ more, q.blanks ≠ []
  bare : first = none → more ≠ [] → cr = true
  joined : ∀ q ∈ (first.toList ++ more).dropLast, q.Open

namespace HeadLine

/-- The parts of the value, which are handed over one by one. -/
def pieces (l : HeadLine) : List Piece := l.first.toList ++ l.more

/-- The line up to the first part of its value. -/
def start (l : HeadLine) : Bytes :=
  match l.first with
  | none => l.name ++ eol l.cr
  | some _ => l.name ++ [':'.toUInt8]

def bytes (l : HeadLine) : Bytes := l.start ++ l.pieces.flatMap Piece.bytes

theorem unfolded : ∀ q ∈ ([] : List Piece), q.blanks ≠ [] := List.forall_mem_nil _

/-- A line that is not folded. -/
def ofLine (l : HeaderLine) : HeadLine :=
  ⟨l.name, some ⟨l.blanks, l.value, true, l.blanks_blank, l.value_line, l.value_head⟩, true, [],
    l.name_ne, l.name_token, unfolded, nofun, nofun⟩

/-- The value, unfolded. -/
def value (l : HeadLine) : Bytes := (l.pieces.map Piece.text).flatten

end HeadLine

/-- What the pieces of a value add. -/
def Framing.pieces (f : Framing) : HeaderState → List Piece → Option Framing
  | _, [] => some f
  | k, q :: qs => (f.piece k q.text).bind fun g => g.pieces (k.behind q.text) qs

/-- What the lines of a head say of the body. -/
def Framing.head (f : Framing) (ls : List HeadLine) : Option Framing :=
  ls.foldlM (fun f l => f.pieces (.ofName l.name) l.pieces) f

/-- The callbacks of the parts of a value, and of a line. -/
def Settings.pieces (S : Settings σ) (qs : List Piece) (u : σ) : σ :=
  qs.foldl (fun u q => S.data .headerValue q.text u) u

def Settings.headLine (S : Settings σ) (l : HeadLine) (u : σ) : σ :=
  S.pieces l.pieces (S.data .headerField l.name u)

def Settings.head (S : Settings σ) (ls : List HeadLine) (u : σ) : σ :=
  ls.foldl (fun u l => S.headLine l u) u

theorem pieces_good (hS : S.Lawful good) (qs : List Piece) {u : σ} (hg : good u) :
    good (S.pieces qs u) := by
  induction qs generalizing u with
  | nil => exact hg
  | cons q qs ih => exact ih (hS.data_good _ _ _ (by decide) hg)

theorem stride_nameEnd (hS : S.Lawful good) {p : HttpParser} {u : σ} (hs : p.state = .headerField)
    (he : p.httpErrno = .ok) : stride S (p, u) CR = some ({ p with
      nread := p.nread + 1, state := .headerAlmostDone }, S.data .headerField [] u) := by
  have hc : token CR = 0 := by decide
  have hn : CR ≠ ':'.toUInt8 := by decide
  simp only [stride, hs, exec, headerField, hc, hn, ne_eq, not_true_eq_false, if_false, if_true,
    Cfg.goto, HttpParser.goto, entryMarks_eq, State.mark]
  rw [callbackData_single hS]
  · rfl
  · exact he

theorem stride_nameFeed (hS : S.Lawful good) {p : HttpParser} {u : σ} (hs : p.state = .headerField)
    (he : p.httpErrno = .ok) : stride S (p, u) LF = some ({ p with
      nread := p.nread + 1, state := .headerFieldStart }, S.data .headerField [] u) := by
  have hc : token LF = 0 := by decide
  have hn : LF ≠ ':'.toUInt8 := by decide
  have hr : LF ≠ CR := by decide
  simp only [stride, hs, exec, headerField, hc, hn, hr, ne_eq, not_true_eq_false, if_false, if_true,
    Cfg.goto, HttpParser.goto, entryMarks_eq, State.mark]
  rw [callbackData_single hS]
  · rfl
  · exact he

/-- A blank at the start of a line continues the one before. -/
theorem stride_fold {p : HttpParser} {u : σ} {ch : UInt8} (hs : p.state = .headerValueLws)
    (hc : isBlank ch = true) : stride S (p, u) ch = some ({ p with
      nread := p.nread + 1, state := .headerValueStart }, u) := by
  have hc : ch = SP ∨ ch = HT := by simpa [isBlank] using hc
  simp only [stride, hs, exec, headerValueLws, hc, if_true, Flow.flushed, Cfg.goto,
    HttpParser.goto]
  simp only [entryMarks_eq, State.mark]
  rfl

/-- A line that continues another, up to its text. -/
theorem fold_strides {p : HttpParser} {u : σ} (hg : good u) (hs : p.state = .headerValueLws)
    {blanks : Bytes} (hne : blanks ≠ []) (hb : ∀ c ∈ blanks, isBlank c = true) :
    Strides S good (p, u) blanks ({ p with
      nread := p.nread + blanks.length, state := .headerValueStart }, u) := by
  obtain ⟨c, rest, rfl⟩ := List.exists_cons_of_ne_nil hne
  refine .cons (parsingHeader_of hs rfl) (stride_fold hs (hb c List.mem_cons_self)) rfl hg ?_
  have h := blanks_strides (S := S) hg (p := { p with
    nread := p.nread + 1, state := .headerValueStart }) rfl
    fun c hm => hb c (List.mem_cons_of_mem _ hm)
  refine h.cast ?_
  rw [List.length_cons, Nat.add_comm rest.length, ← Nat.add_assoc]

/-- A value behind its first blanks, with the lines that continue it. -/
theorem pieces_strides (hS : S.Lawful good) {q : Piece} {qs : List Piece} {p : HttpParser}
    {f : Framing} {u : σ} (hg : good u) (hs : p.state = .headerValueStart) (he : p.httpErrno = .ok)
    (hb : ∀ q ∈ qs, q.blanks ≠ []) (hopen : ∀ r ∈ (q :: qs).dropLast, r.Open)
    (hf : p.framing.pieces p.headerState.known (q :: qs) = some f) :
    ∃ s h i, (s = .headerFieldStart ∨ s = .headerValueLws) ∧
      Strides S good (p, u) (q.text ++ eol q.cr ++ qs.flatMap Piece.bytes) ({ p with
        nread := p.nread + (q.text ++ eol q.cr ++ qs.flatMap Piece.bytes).length, state := s
        flags := f.flags, contentLength := f.contentLength
        headerState := h, index := i }, S.pieces (q :: qs) u) := by
  induction qs generalizing q p u with
  | nil =>
    obtain ⟨g, hf₁, hf₂⟩ := Option.bind_eq_some_iff.mp hf
    obtain rfl := Option.some.inj hf₂
    obtain ⟨s, h, i, hst, hend⟩ := piece_strides hS hg hs he q.text_line q.text_head q.cr hf₁
    refine ⟨s, h, i, hend.imp And.left And.left, ?_⟩
    rw [List.flatMap_nil, List.append_nil]
    exact hst
  | cons r qs ih =>
    obtain ⟨g, hf₁, hf₂⟩ := Option.bind_eq_some_iff.mp hf
    obtain ⟨s, h, i, h₁, hend⟩ := piece_strides hS hg hs he q.text_line q.text_head q.cr hf₁
    have hgq : good (S.data .headerValue q.text u) := hS.data_good _ _ _ (by decide) hg
    rw [List.dropLast_cons_of_ne_nil (List.cons_ne_nil _ _)] at hopen
    obtain ⟨-, htext, hcr⟩ | ⟨rfl, hk⟩ := hend
    · rw [hopen q List.mem_cons_self htext] at hcr
      cases hcr
    have h₂ := fold_strides (S := S) hgq (p := { p with
      nread := p.nread + (q.text ++ eol q.cr).length, state := .headerValueLws, flags := g.flags
      contentLength := g.contentLength, headerState := h, index := i }) rfl
      (hb r List.mem_cons_self) r.blanks_blank
    obtain ⟨s', h', i', hs', h₃⟩ := ih (q := r) (p := { p with
      nread := p.nread + (q.text ++ eol q.cr).length + r.blanks.length, state := .headerValueStart
      flags := g.flags, contentLength := g.contentLength, headerState := h, index := i }) hgq rfl he
      (fun r hr => hb r (List.mem_cons_of_mem _ hr))
      (fun r hr => hopen r (List.mem_cons_of_mem _ hr)) (hk ▸ hf₂)
    have hbytes : q.text ++ eol q.cr ++ (r.blanks ++
      (r.text ++ eol r.cr ++ qs.flatMap Piece.bytes)) =
        q.text ++ eol q.cr ++ (r :: qs).flatMap Piece.bytes := by
      simp only [List.flatMap_cons, Piece.bytes, List.append_assoc]
    refine ⟨s', h', i', hs', (h₁.append (h₂.append h₃)).cast' hbytes ?_⟩
    rw [← hbytes]
    simp only [List.length_append, Nat.add_assoc]
    rfl

/-- A name without a colon, and the end of the line. -/
theorem bare_strides (hS : S.Lawful good) {p : HttpParser} {u : σ} (hg : good u)
    (hs : p.state = .headerField) (he : p.httpErrno = .ok) (hi : p.headerState.InName p.index)
    {name : Bytes} (hne : name ≠ []) (cr : Bool) :
    Strides S good (p, S.data .headerField name u) (eol cr) ({ p with
      nread := p.nread + (eol cr).length
      state := if cr then .headerValueLws else .headerFieldStart },
      S.data .headerField name u) := by
  have hgn : good (S.data .headerField name u) := hS.data_good _ _ _ (by decide) hg
  have hgc : good (S.data .headerField [] (S.data .headerField name u)) :=
    hS.data_good _ _ _ (by decide) hgn
  have h := hS.append hne [] hgc
  rw [List.append_nil] at h
  cases cr with
  | true =>
    have hcr := stride_nameEnd (u := S.data .headerField name u) hS hs he
    rw [h] at hcr
    have hset : p.flags.settle p.headerState = p.flags := by
      cases hp : p.headerState <;> rw [hp] at hi <;> first | rfl | exact absurd hi id
    have hlf := stride_lineEnd (S := S) (u := S.data .headerField name u) (p := { p with
      nread := p.nread + 1, state := .headerAlmostDone }) rfl
    rw [hset] at hlf
    exact .cons (parsingHeader_of hs rfl) hcr rfl hgn (.cons rfl hlf rfl hgn (.nil _))
  | false =>
    have hlf := stride_nameFeed (u := S.data .headerField name u) hS hs he
    rw [h] at hlf
    exact .cons (parsingHeader_of hs rfl) hlf rfl hgn (.nil _)

/-- A header line up to the text of its value. -/
theorem headLine_start (hS : S.Lawful good) {p : HttpParser} {u : σ} (hg : good u)
    (hs : p.state = .headerFieldStart ∨ p.state = .headerValueLws) (he : p.httpErrno = .ok)
    {l : HeadLine} {q : Piece} {qs : List Piece} (hp : l.pieces = q :: qs) :
    ∃ as h i, l.bytes = as ++ (q.text ++ eol q.cr ++ qs.flatMap Piece.bytes) ∧
      h.known = .ofName l.name ∧ (∀ r ∈ qs, r.blanks ≠ []) ∧
      Strides S good (p, u) as ({ p with
        nread := p.nread + as.length, state := .headerValueStart, headerState := h, index := i },
        S.data .headerField l.name u) := by
  have hgn : good (S.data .headerField l.name u) := hS.data_good _ _ _ (by decide) hg
  obtain ⟨h, i, hi, hn, h₁⟩ := name_strides hS hg hs l.name_ne l.name_token
  rw [name_nil hi] at hn
  have hblanks := l.more_blanks
  cases hfirst : l.first with
  | none =>
    have hmore : l.more = q :: qs := by rwa [HeadLine.pieces, hfirst] at hp
    have hcr := l.bare hfirst (by rw [hmore]; exact List.cons_ne_nil _ _)
    rw [hmore] at hblanks
    have h₂ := bare_strides hS hg (p := { p with
      nread := p.nread + l.name.length, state := .headerField, headerState := h, index := i })
      rfl he hi l.name_ne true
    have h₃ := fold_strides (S := S) hgn (p := { p with
      nread := p.nread + l.name.length + crlf.length, state := .headerValueLws
      headerState := h, index := i }) rfl (hblanks q List.mem_cons_self) q.blanks_blank
    refine ⟨l.name ++ crlf ++ q.blanks, h, i, ?_, hn,
      fun r hr => hblanks r (List.mem_cons_of_mem _ hr), ((h₁.append h₂).append h₃).cast ?_⟩
    · rw [HeadLine.bytes, HeadLine.start, hp, hfirst, hcr]
      simp only [List.flatMap_cons, Piece.bytes, List.append_assoc]
      rfl
    · simp only [List.length_append, Nat.add_assoc]
  | some q' =>
    obtain ⟨rfl, rfl⟩ : q' = q ∧ l.more = qs := by
      rw [HeadLine.pieces, hfirst] at hp
      exact List.cons.inj hp
    have h₂ := colon_strides hS hg (p := { p with
      nread := p.nread + l.name.length, state := .headerField, headerState := h, index := i })
      rfl he l.name_ne
    have h₃ := blanks_strides hgn (p := { p with
      nread := p.nread + l.name.length + 1, state := .headerValueStart, headerState := h
      index := i }) rfl q'.blanks_blank (S := S)
    refine ⟨l.name ++ [':'.toUInt8] ++ q'.blanks, h, i, ?_, hn, hblanks,
      ((h₁.append h₂).append h₃).cast ?_⟩
    · rw [HeadLine.bytes, HeadLine.start, hp, hfirst]
      simp only [List.flatMap_cons, Piece.bytes, List.append_assoc]
    · simp only [List.length_append, List.length_singleton, Nat.add_assoc]

/-- A header line with all that continues it. -/
theorem headLine_strides (hS : S.Lawful good) {p : HttpParser} {f : Framing} {u : σ} (hg : good u)
    (hs : p.state = .headerFieldStart ∨ p.state = .headerValueLws) (he : p.httpErrno = .ok)
    (l : HeadLine) (hf : p.framing.pieces (.ofName l.name) l.pieces = some f) :
    ∃ s h i, (s = .headerFieldStart ∨ s = .headerValueLws) ∧
      Strides S good (p, u) l.bytes ({ p with
        nread := p.nread + l.bytes.length, state := s
        flags := f.flags, contentLength := f.contentLength
        headerState := h, index := i }, S.headLine l u) := by
  cases hp : l.pieces with
  | nil =>
    rw [hp] at hf
    obtain rfl := Option.some.inj hf
    obtain ⟨h, i, hi, -, h₁⟩ := name_strides hS hg hs l.name_ne l.name_token
    have h₂ := bare_strides hS hg (p := { p with
      nread := p.nread + l.name.length, state := .headerField, headerState := h, index := i })
      rfl he hi l.name_ne l.cr
    have hfirst : l.first = none := by
      cases hf : l.first with
      | none => rfl
      | some q => simp [HeadLine.pieces, hf] at hp
    have hb : l.bytes = l.name ++ eol l.cr := by
      rw [HeadLine.bytes, HeadLine.start, hp, hfirst, List.flatMap_nil, List.append_nil]
    refine ⟨if l.cr then .headerValueLws else .headerFieldStart, h, i, ?_,
      (h₁.append h₂).cast' hb.symm ?_⟩
    · cases l.cr
      · exact .inl rfl
      · exact .inr rfl
    · rw [hb, Settings.headLine, hp]
      simp only [List.length_append, Nat.add_assoc]
      rfl
  | cons q qs =>
    have hgn : good (S.data .headerField l.name u) := hS.data_good _ _ _ (by decide) hg
    obtain ⟨as, h, i, hb, hk, hblanks, h₁⟩ := headLine_start hS hg hs he hp
    have hjoined := l.joined
    change ∀ r ∈ l.pieces.dropLast, r.Open at hjoined
    rw [hp] at hjoined hf
    obtain ⟨s, h', i', hs', h₂⟩ := pieces_strides hS hgn (p := { p with
      nread := p.nread + as.length, state := .headerValueStart, headerState := h, index := i })
      rfl he hblanks hjoined (hk ▸ hf)
    refine ⟨s, h', i', hs', (h₁.append h₂).cast' hb.symm ?_⟩
    rw [hb, Settings.headLine, hp]
    simp only [List.length_append, Nat.add_assoc]

theorem piece_stumbles (hS : S.Lawful good) {q : Piece} {p : HttpParser} {u : σ} (hg : good u)
    (hs : p.state = .headerValueStart) (hf : p.framing.piece p.headerState.known q.text = none)
    (more : Bytes) : Stumbles S good (p, u) (q.text ++ eol q.cr ++ more) := by
  obtain ⟨hk, hne, hn⟩ := piece_none hf
  have h := value_refused hS hg hs (known_contentLength.mp hk) hne q.text_line q.text_head hn
  exact (h.append (eol q.cr)).append more

theorem pieces_flags {f g : Framing} {k : HeaderState} {qs : List Piece}
    (h : f.pieces k qs = some g) :
    g.flags.trailing = f.flags.trailing ∧ g.flags.skipbody = f.flags.skipbody := by
  induction qs generalizing f k with
  | nil =>
    obtain rfl := Option.some.inj h
    exact ⟨rfl, rfl⟩
  | cons q qs ih =>
    obtain ⟨f₁, h₁, h₂⟩ := Option.bind_eq_some_iff.mp h
    obtain ⟨ht, hk⟩ := piece_flags h₁
    obtain ⟨ht', hk'⟩ := ih h₂
    exact ⟨ht'.trans ht, hk'.trans hk⟩

theorem head_flags {ls : List HeadLine} {f g : Framing} (h : f.head ls = some g) :
    g.flags.trailing = f.flags.trailing ∧ g.flags.skipbody = f.flags.skipbody := by
  induction ls generalizing f with
  | nil =>
    obtain rfl := Option.some.inj h
    exact ⟨rfl, rfl⟩
  | cons l ls ih =>
    rw [Framing.head, List.foldlM_cons] at h
    obtain ⟨f₁, h₁, h₂⟩ := Option.bind_eq_some_iff.mp h
    obtain ⟨ht, hk⟩ := pieces_flags h₁
    obtain ⟨ht', hk'⟩ := ih h₂
    exact ⟨ht'.trans ht, hk'.trans hk⟩

/-- Where a length is refused, the value stumbles. -/
theorem pieces_stumble (hS : S.Lawful good) {q : Piece} {qs : List Piece} {p : HttpParser} {u : σ}
    (hg : good u) (hs : p.state = .headerValueStart) (he : p.httpErrno = .ok)
    (hb : ∀ q ∈ qs, q.blanks ≠ []) (hopen : ∀ r ∈ (q :: qs).dropLast, r.Open)
    (hf : p.framing.pieces p.headerState.known (q :: qs) = none) :
    Stumbles S good (p, u) (q.text ++ eol q.cr ++ qs.flatMap Piece.bytes) := by
  induction qs generalizing q p u with
  | nil =>
    refine piece_stumbles hS hg hs ?_ _
    rw [Framing.pieces] at hf
    cases hf₁ : p.framing.piece p.headerState.known q.text with
    | none => rfl
    | some g =>
      rw [hf₁] at hf
      cases hf
  | cons r qs ih =>
    rw [Framing.pieces] at hf
    cases hf₁ : p.framing.piece p.headerState.known q.text with
    | none => exact piece_stumbles hS hg hs hf₁ _
    | some g =>
      rw [hf₁, Option.bind_some] at hf
      rw [List.dropLast_cons_of_ne_nil (List.cons_ne_nil _ _)] at hopen
      obtain ⟨s, h, i, h₁, hend⟩ := piece_strides hS hg hs he q.text_line q.text_head q.cr hf₁
      have hgq : good (S.data .headerValue q.text u) := hS.data_good _ _ _ (by decide) hg
      obtain ⟨-, htext, hcr⟩ | ⟨rfl, hk⟩ := hend
      · rw [hopen q List.mem_cons_self htext] at hcr
        cases hcr
      have h₂ := fold_strides (S := S) hgq (p := { p with
        nread := p.nread + (q.text ++ eol q.cr).length, state := .headerValueLws, flags := g.flags
        contentLength := g.contentLength, headerState := h, index := i }) rfl
        (hb r List.mem_cons_self) r.blanks_blank
      have h₃ := ih (q := r) (p := { p with
        nread := p.nread + (q.text ++ eol q.cr).length + r.blanks.length, state := .headerValueStart
        flags := g.flags, contentLength := g.contentLength, headerState := h, index := i }) hgq rfl
        he (fun r hr => hb r (List.mem_cons_of_mem _ hr))
        (fun r hr => hopen r (List.mem_cons_of_mem _ hr)) (hk ▸ hf)
      rw [List.flatMap_cons, Piece.bytes, List.append_assoc r.blanks]
      exact .behind h₁ (.behind h₂ h₃)

theorem headLine_stumbles (hS : S.Lawful good) {p : HttpParser} {u : σ} (hg : good u)
    (hs : p.state = .headerFieldStart ∨ p.state = .headerValueLws) (he : p.httpErrno = .ok)
    (l : HeadLine) (hf : p.framing.pieces (.ofName l.name) l.pieces = none) :
    Stumbles S good (p, u) l.bytes := by
  cases hp : l.pieces with
  | nil =>
    rw [hp] at hf
    cases hf
  | cons q qs =>
    have hgn : good (S.data .headerField l.name u) := hS.data_good _ _ _ (by decide) hg
    obtain ⟨as, h, i, hb, hk, hblanks, h₁⟩ := headLine_start hS hg hs he hp
    have hjoined := l.joined
    change ∀ r ∈ l.pieces.dropLast, r.Open at hjoined
    rw [hp] at hjoined hf
    rw [hb]
    exact .behind h₁ (pieces_stumble hS hgn rfl he hblanks hjoined (hk ▸ hf))

theorem headLine_good (hS : S.Lawful good) (l : HeadLine) {u : σ} (hg : good u) :
    good (S.headLine l u) :=
  pieces_good hS _ (hS.data_good _ _ _ (by decide) hg)

/-- The lines of a head are read, if each length is taken. -/
theorem head_strides (hS : S.Lawful good) {ls : List HeadLine} {p : HttpParser} {f : Framing}
    {u : σ} (hg : good u) (hs : p.state = .headerFieldStart ∨ p.state = .headerValueLws)
    (he : p.httpErrno = .ok) (hf : p.framing.head ls = some f) :
    ∃ s h i, (s = .headerFieldStart ∨ s = .headerValueLws) ∧
      Strides S good (p, u) (ls.flatMap HeadLine.bytes) ({ p with
        nread := p.nread + (ls.flatMap HeadLine.bytes).length, state := s
        flags := f.flags, contentLength := f.contentLength
        headerState := h, index := i }, S.head ls u) ∧ good (S.head ls u) := by
  induction ls generalizing p u with
  | nil =>
    obtain rfl := Option.some.inj hf
    exact ⟨p.state, p.headerState, p.index, hs, .nil _, hg⟩
  | cons l ls ih =>
    rw [Framing.head, List.foldlM_cons] at hf
    obtain ⟨f₁, hf₁, hf₂⟩ := Option.bind_eq_some_iff.mp hf
    obtain ⟨s, h, i, hs₁, h₁⟩ := headLine_strides hS hg hs he l hf₁
    obtain ⟨s', h', i', hs', h₂, hg₂⟩ := ih (p := { p with
      nread := p.nread + l.bytes.length, state := s
      flags := f₁.flags, contentLength := f₁.contentLength
      headerState := h, index := i }) (headLine_good hS l hg) hs₁ he hf₂
    refine ⟨s', h', i', hs', (h₁.append h₂).cast ?_, hg₂⟩
    simp only [List.flatMap_cons, List.length_append, Nat.add_assoc]
    rfl

theorem head_stumbles (hS : S.Lawful good) {ls : List HeadLine} {p : HttpParser} {u : σ}
    (hg : good u) (hs : p.state = .headerFieldStart ∨ p.state = .headerValueLws)
    (he : p.httpErrno = .ok) (hf : p.framing.head ls = none) :
    Stumbles S good (p, u) (ls.flatMap HeadLine.bytes) := by
  induction ls generalizing p u with
  | nil => cases hf
  | cons l ls ih =>
    rw [Framing.head, List.foldlM_cons] at hf
    rw [List.flatMap_cons]
    cases hf₁ : p.framing.pieces (.ofName l.name) l.pieces with
    | none => exact (headLine_stumbles hS hg hs he l hf₁).append _
    | some f₁ =>
      rw [hf₁] at hf
      obtain ⟨s, h, i, hs₁, h₁⟩ := headLine_strides hS hg hs he l hf₁
      exact .behind h₁ (ih (p := { p with
        nread := p.nread + l.bytes.length, state := s
        flags := f₁.flags, contentLength := f₁.contentLength
        headerState := h, index := i }) (headLine_good hS l hg) hs₁ he hf)

end Stutter.Joyent
