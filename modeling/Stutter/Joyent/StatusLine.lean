import Stutter.Decimal
import Stutter.Joyent.StartLine

namespace Stutter.Joyent

variable {σ : Type} {S : Settings σ} {good : σ → Prop}

/-- A version or status number. -/
structure Number where
  digits : Bytes
  ne : digits ≠ []
  num : ∀ c ∈ digits, isNum c = true
  le : numeral digits ≤ 999

/-- The digits of a number behind the first, in a state that holds the value so far. -/
theorem digits_strides {P : ℕ → ℕ → HttpParser} {u : σ} (hg : good u)
    (hh : ∀ n v, (P n v).state.parsingHeader = true) (hn : ∀ n v, (P n v).nread = n)
    (hstep : ∀ n v c, isNum c = true → v * 10 + digit c ≤ 999 →
      stride S (P n v, u) c = some (P (n + 1) (v * 10 + digit c), u))
    {ds : Bytes} {n v : ℕ} (hd : ∀ c ∈ ds, isNum c = true) (hle : numeralFrom v ds ≤ 999) :
    Strides S good (P n v, u) ds (P (n + ds.length) (numeralFrom v ds), u) := by
  induction ds generalizing n v with
  | nil => exact .nil _
  | cons c ds ih =>
    have h := ih (n := n + 1) (v := v * 10 + digit c) (fun c hc => hd c (List.mem_cons_of_mem _ hc))
      hle
    rw [List.length_cons, Nat.add_comm ds.length, ← Nat.add_assoc]
    exact .cons (hh n v) (hstep n v c (hd c (by simp)) ((le_numeralFrom _ ds).trans hle))
      (by rw [hn, hn]) hg h

theorem isNum_ne {c : UInt8} (h : isNum c = true) :
    c ≠ '.'.toUInt8 ∧ c ≠ SP ∧ c ≠ CR ∧ c ≠ LF ∧ ¬ (c < '0'.toUInt8 ∨ '9'.toUInt8 < c) := by
  have h' := h
  simp only [isNum, Bool.and_eq_true, decide_eq_true_eq] at h'
  refine ⟨?_, ?_, ?_, ?_, by simpa using h'⟩ <;> rintro rfl <;> exact absurd h (by decide)

/-- A number in the three states that read one, with the byte that ends it. -/
theorem number_strides {P : ℕ → ℕ → HttpParser} {s q : HttpParser} {n : ℕ} {u : σ} (hg : good u)
    (hs : s.state.parsingHeader = true) (hsn : s.nread = n)
    (hh : ∀ n v, (P n v).state.parsingHeader = true) (hn : ∀ n v, (P n v).nread = n)
    (hfirst : ∀ c, isNum c = true → stride S (s, u) c = some (P (n + 1) (digit c), u))
    (hstep : ∀ n v c, isNum c = true → v * 10 + digit c ≤ 999 →
      stride S (P n v, u) c = some (P (n + 1) (v * 10 + digit c), u))
    (d : Number) {e : UInt8}
    (hlast : stride S (P (n + d.digits.length) (numeral d.digits), u) e = some (q, u))
    (hq : q.nread = n + d.digits.length + 1) :
    Strides S good (s, u) (d.digits ++ [e]) (q, u) := by
  rcases d with ⟨_ | ⟨c, ds⟩, hne, hnum, hle⟩
  · exact absurd rfl hne
  have hv : numeral (c :: ds) = numeralFrom (digit c) ds := by
    rw [numeral, numeralFrom, List.foldl_cons, Nat.zero_mul, Nat.zero_add]
    rfl
  have h := digits_strides (S := S) hg hh hn hstep (n := n + 1) (v := digit c)
    (fun c hc => hnum c (List.mem_cons_of_mem _ hc)) (hv ▸ hle)
  simp only [List.length_cons, hv] at hlast hq
  rw [show n + 1 + ds.length = n + (ds.length + 1) by omega] at h
  exact .cons hs (hfirst c (hnum c (by simp))) (by rw [hn, hsn]) hg
    (h.append (.one hg (hh _ _) hlast (by rw [hq, hn])))

/-- A status line. -/
structure StatusLine where
  major : Number
  minor : Number
  code : Number
  text : Bytes
  text_line : ∀ c ∈ text, c ≠ CR ∧ c ≠ LF

def StatusLine.bytes (l : StatusLine) : Bytes :=
  ascii "HTTP/" ++ (l.major.digits ++ ['.'.toUInt8]) ++ (l.minor.digits ++ [SP]) ++
    (l.code.digits ++ [SP]) ++ l.text ++ crlf

theorem protocol_strides {p : HttpParser} {u : σ} (hg : good u) (hs : p.state = .startRes)
    (he : p.httpErrno = .ok) : Strides S good (p, u) (ascii "HTTP/") ({ p with
      nread := p.nread + 5, state := .resFirstHttpMajor, flags := .none
      contentLength := ULLONG_MAX }, u) := by
  have h₁ : stride S (p, u) 'H'.toUInt8 = some ({ p with
      nread := p.nread + 1, state := .resH, flags := .none, contentLength := ULLONG_MAX }, u) := by
    simp only [stride, hs, exec, notifyMessageBegin, he, ne_eq, not_true_eq_false, if_false]
    rfl
  exact .cons (parsingHeader_of hs rfl) h₁ rfl hg <| .cons rfl rfl rfl hg <| .cons rfl rfl rfl hg <|
    .cons rfl rfl rfl hg <| .cons rfl rfl rfl hg <| .nil _

theorem text_strides {p : HttpParser} {u : σ} (hg : good u) (hs : p.state = .resStatus)
    {text : Bytes} (ht : ∀ c ∈ text, c ≠ CR ∧ c ≠ LF) : Strides S good (p, u) (text ++ crlf)
      ({ p with
      nread := p.nread + text.length + 2, state := .headerFieldStart }, u) := by
  induction text generalizing p with
  | nil =>
    have h₁ : stride S (p, u) CR =
        some ({ p with nread := p.nread + 1, state := .resLineAlmostDone }, u) := by
      simp only [stride, hs, exec]
      rfl
    exact .cons (parsingHeader_of hs rfl) h₁ rfl hg (.cons rfl rfl rfl hg (.nil _))
  | cons c text ih =>
    obtain ⟨hc, hc'⟩ := ht c (by simp)
    have h₁ : stride S (p, u) c = some ({ p with nread := p.nread + 1 }, u) := by
      simp only [stride, hs, exec, hc, hc', if_false]
      rfl
    have h := ih (p := { p with nread := p.nread + 1 }) hs
      fun c hm => ht c (List.mem_cons_of_mem _ hm)
    refine .cons (parsingHeader_of hs rfl) h₁ rfl hg (h.cast ?_)
    simp only [List.length_cons]
    congr 2
    omega

theorem statusLine_strides {p : HttpParser} {u : σ} (hg : good u) (hs : p.state = .startRes)
    (he : p.httpErrno = .ok) (l : StatusLine) : Strides S good (p, u) l.bytes ({ p with
      nread := p.nread + l.bytes.length, state := .headerFieldStart, flags := .none
      contentLength := ULLONG_MAX, httpMajor := numeral l.major.digits
      httpMinor := numeral l.minor.digits, statusCode := numeral l.code.digits }, u) := by
  let q : HttpParser := { p with flags := .none, contentLength := ULLONG_MAX }
  have h₁ := protocol_strides (S := S) hg hs he
  have h₂ : Strides S good ({ q with nread := p.nread + 5, state := .resFirstHttpMajor }, u)
      (l.major.digits ++ ['.'.toUInt8]) ({ q with
        nread := p.nread + 5 + l.major.digits.length + 1, state := .resFirstHttpMinor
        httpMajor := numeral l.major.digits }, u) :=
    number_strides hg (n := p.nread + 5) rfl rfl
      (P := fun n v => { q with nread := n, state := .resHttpMajor, httpMajor := v })
      (fun _ _ => rfl) (fun _ _ => rfl)
      (fun c hc => by
        simp only [stride, exec, firstMajor, (isNum_ne hc).2.2.2.2, if_false]
        rfl)
      (fun n v c hc hv => by
        simp only [stride, exec, httpMajor, (isNum_ne hc).1, hc, Bool.not_true, Bool.false_eq_true,
          if_false, not_lt.mpr hv]
        rfl)
      l.major rfl rfl
  have h₃ : Strides S good ({ q with
        nread := p.nread + 5 + l.major.digits.length + 1, state := .resFirstHttpMinor
        httpMajor := numeral l.major.digits }, u) (l.minor.digits ++ [SP]) ({ q with
        nread := p.nread + 5 + l.major.digits.length + 1 + l.minor.digits.length + 1
        state := .resFirstStatusCode, httpMajor := numeral l.major.digits
        httpMinor := numeral l.minor.digits }, u) :=
    number_strides hg (n := p.nread + 5 + l.major.digits.length + 1) rfl rfl
      (P := fun n v => { q with
        nread := n, state := .resHttpMinor, httpMajor := numeral l.major.digits, httpMinor := v })
      (fun _ _ => rfl) (fun _ _ => rfl)
      (fun c hc => by
        simp only [stride, exec, firstMinor, hc, Bool.not_true, Bool.false_eq_true, if_false]
        rfl)
      (fun n v c hc hv => by
        simp only [stride, exec, httpMinor, (isNum_ne hc).2.1, hc, Bool.not_true,
          Bool.false_eq_true, if_false, not_lt.mpr hv]
        rfl)
      l.minor rfl rfl
  have h₄ : Strides S good ({ q with
        nread := p.nread + 5 + l.major.digits.length + 1 + l.minor.digits.length + 1
        state := .resFirstStatusCode, httpMajor := numeral l.major.digits
        httpMinor := numeral l.minor.digits }, u) (l.code.digits ++ [SP]) ({ q with
        nread := p.nread + 5 + l.major.digits.length + 1 + l.minor.digits.length + 1 +
          l.code.digits.length + 1
        state := .resStatus, httpMajor := numeral l.major.digits
        httpMinor := numeral l.minor.digits, statusCode := numeral l.code.digits }, u) :=
    number_strides hg (n := p.nread + 5 + l.major.digits.length + 1 + l.minor.digits.length + 1)
      rfl rfl
      (P := fun n v => { q with
        nread := n, state := .resStatusCode, httpMajor := numeral l.major.digits
        httpMinor := numeral l.minor.digits, statusCode := v })
      (fun _ _ => rfl) (fun _ _ => rfl)
      (fun c hc => by
        simp only [stride, exec, hc, Bool.not_true, Bool.false_eq_true, if_false]
        rfl)
      (fun n v c hc hv => by
        simp only [stride, exec, resStatusCode, hc, Bool.not_true, Bool.false_eq_true, if_false,
          not_lt.mpr hv]
        rfl)
      l.code rfl rfl
  have h₅ := text_strides (S := S) (p := { q with
    nread := p.nread + 5 + l.major.digits.length + 1 + l.minor.digits.length + 1 +
      l.code.digits.length + 1
    state := .resStatus, httpMajor := numeral l.major.digits
    httpMinor := numeral l.minor.digits, statusCode := numeral l.code.digits }) hg rfl l.text_line
  refine ((((h₁.append h₂).append h₃).append h₄).append h₅).cast' ?_ ?_
  · simp only [StatusLine.bytes, List.append_assoc]
  · have hl : (ascii "HTTP/").length = 5 := by decide
    simp only [StatusLine.bytes, List.length_append, hl, crlf,
      List.length_cons, List.length_nil]
    congr 2
    omega

end Stutter.Joyent
