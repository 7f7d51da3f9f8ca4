import Stutter.Joyent.Bytewise
import Stutter.Joyent.Sound

namespace Stutter.Joyent

variable {σ : Type}

/-- The user state once the fragments of all marks are delivered. -/
def Cfg.flush (S : Settings σ) (c : Cfg σ) : σ :=
  [Mark.headerField, .headerValue, .url, .body].foldl (fun u k =>
    match c.marks.get k with
    | none => u
    | some frag => (S.onData k frag u).2) c.user

theorem flush_none (S : Settings σ) (p : HttpParser) (u : σ) :
    Cfg.flush S ⟨p, u, .none⟩ = u := rfl

theorem flush_single (S : Settings σ) (p : HttpParser) (u : σ) (k : Mark) (frag : Bytes) :
    Cfg.flush S ⟨p, u, .single k frag⟩ = (S.onData k frag u).2 := by cases k <;> rfl

/-- A turn that goes on, and the flush after its byte. -/
def Flow.flushed (S : Settings σ) (ch : UInt8) : Flow σ → Option (HttpParser × σ)
  | .next c _ => some (c.parser, (c.push [ch]).flush S)
  | _ => none

/-- The parser and the user state after one byte that is read alone. -/
def feed (S : Settings σ) (s : HttpParser × σ) (ch : UInt8) : Option (HttpParser × σ) :=
  (turn S ⟨s.1, s.2, entryMarks s.1.state⟩ ch []).flushed S ch

/-- The bytes are read one by one, with a good user state after each. -/
inductive Runs (S : Settings σ) (good : σ → Prop) :
    HttpParser × σ → Bytes → HttpParser × σ → Prop
  | nil (s) : Runs S good s [] s
  | cons {s t r ch bs} (h : feed S s ch = some t) (hg : good t.2) (hr : Runs S good t bs r) :
    Runs S good s (ch :: bs) r

theorem Runs.append {S : Settings σ} {good : σ → Prop} {s t r : HttpParser × σ} {as bs : Bytes}
    (h₁ : Runs S good s as t) (h₂ : Runs S good t bs r) : Runs S good s (as ++ bs) r := by
  induction h₁ with
  | nil => exact h₂
  | cons h hg _ ih => exact .cons h hg (ih h₂)

theorem Runs.split {S : Settings σ} {good : σ → Prop} {s r : HttpParser × σ} {as bs : Bytes}
    (h : Runs S good s (as ++ bs) r) : ∃ t, Runs S good s as t ∧ Runs S good t bs r := by
  induction as generalizing s with
  | nil => exact ⟨s, .nil s, h⟩
  | cons a as ih =>
    obtain _ | ⟨hf, hg, hr⟩ := h
    obtain ⟨t, h₁, h₂⟩ := ih hr
    exact ⟨t, .cons hf hg h₁, h₂⟩

/-- What a turn does with the fragment of its mark, whatever the fragment is. -/
inductive Uniform (S : Settings σ) (k : Mark) (f : σ → Bytes → Flow σ) : Prop
  | keeps (p : HttpParser) (h : ∀ u g, f u g = .next ⟨p, u, .single k g⟩ 0)
  | delivers (p : HttpParser) (h : ∀ u g, f u g = .next ⟨p, (S.onData k g u).2, .none⟩ 0)
  | ends (h : ∀ u g c skip, f u g ≠ .next c skip)

theorem Uniform.ite {S : Settings σ} {k : Mark} {f f' : σ → Bytes → Flow σ} {b : Prop}
    [Decidable b] (h : Uniform S k f) (h' : Uniform S k f') :
    Uniform S k fun u g => if b then f u g else f' u g := by
  by_cases hb : b
  · simpa only [if_pos hb] using h
  · simpa only [if_neg hb] using h'

theorem Uniform.fail {S : Settings σ} {k : Mark} (p : HttpParser) (e : Errno) :
    Uniform S k fun u g => .fail ⟨p, u, .single k g⟩ e :=
  .ends fun _ _ _ _ h => nomatch h

theorem Uniform.lift {S : Settings σ} {k : Mark} (p : HttpParser) (o : Outcome) :
    Uniform S k fun u g => Cfg.lift ⟨p, u, .single k g⟩ o := by
  cases o with
  | ok q => exact .keeps q fun _ _ => rfl
  | fail => exact .ends fun _ _ _ _ h => nomatch h
  | abort => exact .ends fun _ _ _ _ h => nomatch h

theorem Uniform.callback {S : Settings σ} {good : σ → Prop} (hS : S.Lawful good) {k : Mark}
    (p : HttpParser) (he : p.httpErrno = .ok) (er : ℕ) (o : HttpParser → Outcome) :
    Uniform S k fun u g => callbackData S k [] er ⟨p, u, .single k g⟩ fun c =>
      c.lift (o c.parser) := by
  have h : ∀ u g, callbackData S k [] er ⟨p, u, .single k g⟩ (fun c => c.lift (o c.parser)) =
      Cfg.lift ⟨p, (S.onData k g u).2, .none⟩ (o p) := fun u g => by
    rw [callbackData_single hS _ _ _ _ he, List.append_nil]
  cases ho : o p with
  | ok q => exact .delivers q fun u g => by rw [h, ho]; rfl
  | fail => exact .ends fun u g c skip hc => by rw [h, ho] at hc; cases hc
  | abort => exact .ends fun u g c skip hc => by rw [h, ho] at hc; cases hc

theorem url_uniform {S : Settings σ} (p : HttpParser) (ch : UInt8) :
    Uniform S .url fun u g => if parseUrlChar p.state ch = .dead
      then .fail ⟨p.goto (parseUrlChar p.state ch), u, .single .url g⟩ .invalidUrl
      else .next ⟨p.goto (parseUrlChar p.state ch), u, .single .url g⟩ 0 :=
  .ite (.fail _ _) (.keeps _ fun _ _ => rfl)

theorem urlRest_uniform {S : Settings σ} {good : σ → Prop} (hS : S.Lawful good) {p : HttpParser}
    (he : p.httpErrno = .ok) (ch : UInt8) :
    Uniform S .url fun u g => urlRest S ⟨p, u, .single .url g⟩ ch := by
  let q : HttpParser := { p with
    httpMajor := 0, httpMinor := 9
    state := if ch = CR then .reqLineAlmostDone else .headerFieldStart }
  refine .ite ?_ (.ite ?_ (url_uniform p ch))
  · exact .callback hS (p.goto .reqHttpStart) he 1 .ok
  · exact .callback hS q he 1 .ok

theorem headerField_uniform {S : Settings σ} {good : σ → Prop} (hS : S.Lawful good)
    {p : HttpParser} (he : p.httpErrno = .ok) (ch : UInt8) :
    Uniform S .headerField fun u g => headerField S ⟨p, u, .single .headerField g⟩ ch := by
  refine .ite ?_ (.ite ?_ (.ite ?_ (.ite ?_ (.fail p _))))
  · exact .lift p (headerNameNext p ch (token ch))
  · exact .callback hS (p.goto .headerValueStart) he 1 .ok
  · exact .callback hS (p.goto .headerAlmostDone) he 1 .ok
  · exact .callback hS (p.goto .headerFieldStart) he 1 .ok

theorem headerValue_uniform {S : Settings σ} {good : σ → Prop} (hS : S.Lawful good)
    {p : HttpParser} (he : p.httpErrno = .ok) (ch : UInt8) :
    Uniform S .headerValue fun u g => headerValue S ⟨p, u, .single .headerValue g⟩ ch := by
  refine .ite ?_ (.ite ?_ ?_)
  · exact .callback hS (p.goto .headerAlmostDone) he 1 .ok
  · exact .callback hS (p.goto .headerAlmostDone) he 0 (headerAlmostDone · ch)
  · exact .lift p (headerValueNext p ch)

/-- In a state with a mark the fragment read so far does not matter to the turn. -/
theorem exec_uniform {S : Settings σ} {good : σ → Prop} (hS : S.Lawful good) {p : HttpParser}
    {k : Mark} (he : p.httpErrno = .ok) (hk : p.state.mark = some k) (ch : UInt8) :
    Uniform S k fun u g => exec S ⟨p, u, .single k g⟩ ch [] := by
  cases hs : p.state <;> rw [hs] at hk <;> simp only [State.mark, reduceCtorEq] at hk <;>
    obtain rfl := Option.some.inj hk <;> simp only [exec, hs]
  case headerField => exact headerField_uniform hS he ch
  case headerValue => exact headerValue_uniform hS he ch
  case reqSchema | reqSchemaSlash | reqSchemaSlashSlash | reqServerStart =>
    exact .ite (.fail _ _) (url_uniform p ch)
  all_goals exact urlRest_uniform hS he ch

theorem turn_uniform {S : Settings σ} {good : σ → Prop} (hS : S.Lawful good) {p : HttpParser}
    {k : Mark} (he : p.httpErrno = .ok) (hk : p.state.mark = some k) (ch : UInt8) :
    Uniform S k fun u g => turn S ⟨p, u, .single k g⟩ ch [] := by
  let q : HttpParser := { p with nread := p.nread + 1 }
  have hp : Uniform S k fun u g => exec S ⟨p, u, .single k g⟩ ch [] := exec_uniform hS he hk ch
  have hq : Uniform S k fun u g => exec S ⟨q, u, .single k g⟩ ch [] :=
    exec_uniform hS (by exact he) (by exact hk) ch
  have ht : (fun u g => turn S ⟨p, u, .single k g⟩ ch []) = fun u g =>
      if !p.state.parsingHeader then exec S ⟨p, u, .single k g⟩ ch []
      else if q.nread > maxHeaderSize then .fail ⟨q, u, .single k g⟩ .headerOverflow
      else exec S ⟨q, u, .single k g⟩ ch [] := rfl
  rw [ht]
  exact .ite hp (.ite (.fail q _) hq)

theorem Marked.of_single {s : State} {k : Mark} {frag : Bytes} (h : Marked s (.single k frag)) :
    s.mark = some k ∨ k = .body ∧ s.inBody = true := by
  generalize hm : Marks.single k frag = m at h
  cases h with
  | mark _ h => exact .inl (by rw [h, (Marks.single_inj hm).1])
  | body _ h => exact .inr ⟨(Marks.single_inj hm).1, h⟩
  | none _ => cases k <;> cases hm

/-- The loop is behind the byte-wise run by the fragments of its mark. -/
inductive Lag (S : Settings σ) : Cfg σ → HttpParser × σ → Prop
  | level {p u} (h : p.state.mark = none) : Lag S ⟨p, u, .none⟩ (p, u)
  | behind {p k} (u frag) (hf : frag ≠ []) (h : Marked p.state (.single k frag)) :
    Lag S ⟨p, u, .single k frag⟩ (p, (S.onData k frag u).2)

theorem Lag.flush {S : Settings σ} {c : Cfg σ} {s : HttpParser × σ} (h : Lag S c s) :
    s = (c.parser, c.flush S) := by
  cases h with
  | level h => rfl
  | behind u frag hf h => rw [flush_single]

/-- A turn that goes on leaves the loop behind by what its marks hold. -/
theorem Lag.of_sound {S : Settings σ} {c : Cfg σ} (h : c.Sound) (ch : UInt8) :
    Lag S (c.push [ch]) (c.parser, (c.push [ch]).flush S) := by
  rcases c with ⟨p, u, m⟩
  obtain ⟨hp, hm⟩ := h
  have hp' := hm.push [ch]
  simp only [Cfg.push] at hm hp' ⊢
  cases hm with
  | mark frag h =>
    rw [Marks.push_single] at hp' ⊢
    rw [flush_single]
    exact .behind u _ (by simp) hp'
  | body frag h =>
    rw [Marks.push_single] at hp' ⊢
    rw [flush_single]
    exact .behind u _ (by simp) hp'
  | none h => exact .level h

theorem feed_eq {S : Settings σ} {s t : HttpParser × σ} {ch : UInt8} (hf : feed S s ch = some t) :
    ∃ d skip, turn S ⟨s.1, s.2, entryMarks s.1.state⟩ ch [] = .next d skip ∧
      t = (d.parser, (d.push [ch]).flush S) := by
  rw [feed] at hf
  cases h : turn S ⟨s.1, s.2, entryMarks s.1.state⟩ ch [] with
  | next d skip =>
    rw [h] at hf
    exact ⟨d, skip, rfl, (Option.some.inj hf).symm⟩
  | _ =>
    rw [h] at hf
    cases hf

/-- The first byte of a buffer. -/
theorem turn_entry {S : Settings σ} {good : σ → Prop} (hS : S.Lawful good) {s t : HttpParser × σ}
    {ch : UInt8} (hp : s.1.Sound) (hf : feed S s ch = some t) :
    ∃ d, turn S ⟨s.1, s.2, entryMarks s.1.state⟩ ch [] = .next d 0 ∧
      Lag S (d.push [ch]) t ∧ t.1.Sound := by
  obtain ⟨d, skip, h, rfl⟩ := feed_eq hf
  have hd := turn_sound hS (c := ⟨s.1, s.2, entryMarks s.1.state⟩) ⟨hp, marked_entryMarks _⟩ ch
  rw [h] at hd
  obtain ⟨rfl, hd⟩ := hd
  exact ⟨d, h, .of_sound hd ch, hd.parser⟩

/-- What a turn leaves is behind the byte-wise run if flushing it gives the same user state. -/
theorem Lag.of_turn {S : Settings σ} {good : σ → Prop} (hS : S.Lawful good) {c d : Cfg σ}
    {t : HttpParser × σ} {ch : UInt8} (hc : c.Sound) (h : turn S c ch [] = .next d 0)
    (ht : t = (d.parser, (d.push [ch]).flush S)) :
    ∃ d, turn S c ch [] = .next d 0 ∧ Lag S (d.push [ch]) t ∧ t.1.Sound := by
  have hd := turn_sound hS hc ch
  rw [h] at hd
  subst ht
  exact ⟨d, h, .of_sound hd.2 ch, hd.2.parser⟩

theorem bodyIdentity_single {S : Settings σ} {good : σ → Prop} (hS : S.Lawful good)
    {p : HttpParser} (he : p.httpErrno = .ok) (u : σ) (m : Marks) {frag : Bytes}
    (hm : m.mark .body = .single .body frag) (ch : UInt8) :
    bodyIdentity S ⟨p, u, m⟩ ch [] =
      if p.contentLength = 0 ∨ p.contentLength = ULLONG_MAX then .abort
      else if p.contentLength = 1 then
        completeMessage S 1 ⟨{ p with contentLength := 0, state := .messageDone },
          (S.onData .body (frag ++ [ch]) u).2, .none⟩ (.next · 0)
      else .next ⟨{ p with contentLength := p.contentLength - 1 }, u, .single .body frag⟩ 0 := by
  by_cases h0 : p.contentLength = 0 ∨ p.contentLength = ULLONG_MAX
  · simp [bodyIdentity, h0]
  have h1 : min p.contentLength 1 = 1 := by omega
  by_cases h2 : p.contentLength = 1
  · rw [if_neg h0, if_pos h2]
    simp only [bodyIdentity, h2, if_true, List.length_singleton, Nat.min_self, Nat.sub_self,
      Cfg.mark, hm]
    rw [callbackData_single hS]
    · rfl
    · exact he
  · have h3 : p.contentLength - 1 ≠ 0 := by omega
    simp [bodyIdentity, h0, h1, h2, h3, Cfg.mark, hm]

theorem chunkData_single (p : HttpParser) (u : σ) (m : Marks) {frag : Bytes}
    (hm : m.mark .body = .single .body frag) (ch : UInt8) :
    chunkData ⟨p, u, m⟩ ch [] =
      if !p.flags.chunked then .abort
      else if p.contentLength = 0 ∨ p.contentLength = ULLONG_MAX then .abort
      else .next ⟨if p.contentLength = 1
        then { p with contentLength := 0, state := .chunkDataAlmostDone }
        else { p with contentLength := p.contentLength - 1 }, u, .single .body frag⟩ 0 := by
  by_cases h0 : p.contentLength = 0 ∨ p.contentLength = ULLONG_MAX
  · simp [chunkData, h0]
  have h1 : min p.contentLength 1 = 1 := by omega
  by_cases h2 : p.contentLength = 1
  · simp only [chunkData, h2, List.length_singleton, Nat.min_self, Nat.sub_self, Cfg.mark, hm]
    rfl
  · have h3 : p.contentLength - 1 ≠ 0 := by omega
    simp [chunkData, h0, h1, h2, h3, Cfg.mark, hm]

/-- A body fragment: it grows, is delivered, or is delivered with the last byte of the body. -/
theorem turn_body {S : Settings σ} {good : σ → Prop} (hS : S.Lawful good) {p : HttpParser}
    {u : σ} {frag : Bytes} {t : HttpParser × σ} {ch : UInt8} (hp : p.Sound)
    (hb : p.state.inBody = true) (hne : frag ≠ [])
    (hf : feed S (p, (S.onData .body frag u).2) ch = some t) :
    ∃ d, turn S ⟨p, u, .single .body frag⟩ ch [] = .next d 0 ∧
      t = (d.parser, (d.push [ch]).flush S) := by
  have happ : ∀ g, (S.onData .body (frag ++ g) u).2 =
      (S.onData .body g (S.onData .body frag u).2).2 :=
    fun g => hS.data_append _ _ g u hne (.inl rfl)
  obtain ⟨d, skip, hd, rfl⟩ := feed_eq hf
  simp only [turn] at hd ⊢
  cases hs : p.state <;> simp only [hs, State.inBody, Bool.false_eq_true] at hb <;>
    simp only [hs, State.parsingHeader, Bool.not_false, if_true, exec, entryMarks] at hd ⊢
  case chunkData =>
    rw [chunkData_single _ _ _ (Marks.mark_none _)] at hd
    rw [chunkData_single _ _ _ (Marks.mark_single _ _)]
    split_ifs at hd ⊢
    all_goals
      obtain ⟨rfl, rfl⟩ := Flow.next.inj hd
      exact ⟨_, rfl, by
        simp only [Cfg.push, Marks.push_single, flush_single, happ, List.nil_append]⟩
  case chunkDataAlmostDone =>
    simp only [chunkDataAlmostDone] at hd ⊢
    split_ifs at hd ⊢
    rw [callbackData_none (by exact hp.errno) rfl] at hd
    obtain ⟨rfl, rfl⟩ := Flow.next.inj hd
    simp only [Cfg.goto]
    rw [callbackData_single hS _ _ _ _ (by exact hp.errno), List.append_nil]
    exact ⟨_, rfl, rfl⟩
  case bodyIdentity =>
    rw [bodyIdentity_single hS hp.errno _ _ (Marks.mark_none _)] at hd
    rw [bodyIdentity_single hS hp.errno _ _ (Marks.mark_single _ _)]
    split_ifs at hd ⊢
    · rw [happ]
      have hn := completeMessage_sound hS (c := ⟨{ p with
        contentLength := 0, state := .messageDone }, (S.onData .body ([] ++ [ch])
        (S.onData .body frag u).2).2, .none⟩) (t := 1) ⟨hp.errno, Nat.zero_le _⟩ rfl
      rw [hd] at hn
      obtain ⟨rfl, -⟩ := hn
      exact ⟨d, hd, rfl⟩
    · obtain ⟨rfl, rfl⟩ := Flow.next.inj hd
      exact ⟨_, rfl, by
        simp only [Cfg.push, Marks.push_single, flush_single, happ, List.nil_append]⟩
  case bodyIdentityEof =>
    rw [Cfg.mark, Marks.mark_none] at hd
    rw [Cfg.mark, Marks.mark_single]
    obtain ⟨rfl, rfl⟩ := Flow.next.inj hd
    refine ⟨⟨p, u, .single .body frag⟩, rfl, ?_⟩
    simp only [Cfg.push, Marks.push_single, flush_single, happ, List.nil_append]

/-- One byte: where the byte-wise run goes on, the loop goes on and stays behind it. -/
theorem turn_lag {S : Settings σ} {good : σ → Prop} (hS : S.Lawful good) {c : Cfg σ}
    {s t : HttpParser × σ} {ch : UInt8} (hp : s.1.Sound) (hl : Lag S c s)
    (hf : feed S s ch = some t) (hg : good t.2) :
    ∃ d, turn S c ch [] = .next d 0 ∧ Lag S (d.push [ch]) t ∧ t.1.Sound := by
  cases hl with
  | level h =>
    obtain ⟨d, hd, hr⟩ := turn_entry hS hp hf
    rw [entryMarks_eq, h] at hd
    exact ⟨d, hd, hr⟩
  | @behind p k u frag hne h =>
    have hc : (⟨p, u, .single k frag⟩ : Cfg σ).Sound := ⟨hp, h⟩
    obtain hk | ⟨rfl, hb⟩ := h.of_single
    · obtain ⟨d, hd, hld, -⟩ := turn_entry hS hp hf
      obtain rfl := hld.flush
      rw [entryMarks_eq, hk] at hd
      cases turn_uniform hS hp.errno hk ch with
      | keeps q hq =>
        rw [hq] at hd
        obtain ⟨rfl, -⟩ := Flow.next.inj hd
        refine Lag.of_turn hS hc (hq u frag) ?_
        simp only [Cfg.push, Marks.push_single, List.nil_append, flush_single] at hg ⊢
        rw [hS.data_append _ _ _ _ hne (.inr hg)]
      | delivers q hq =>
        rw [hq] at hd
        obtain ⟨rfl, -⟩ := Flow.next.inj hd
        refine Lag.of_turn hS hc (hq u frag) ?_
        simp only [Cfg.push, Marks.push_none, flush_none] at hg ⊢
        rw [← hS.data_append _ _ _ _ hne (.inr hg), List.append_nil]
      | ends hq => exact absurd hd (hq _ _ _ _)
    · obtain ⟨d, hd, ht⟩ := turn_body hS hp hb hne hf
      exact Lag.of_turn hS hc hd ht

theorem leftover_lag {S : Settings σ} {good : σ → Prop} (hS : S.Lawful good) {c : Cfg σ}
    {s : HttpParser × σ} (hp : s.1.Sound) (hl : Lag S c s) (len : ℕ) :
    leftover S len c = some (len, s) := by
  cases hl with
  | @level p u h =>
    have hn : ∀ k (go : Cfg σ → Flow σ),
        callbackData S k [] 0 ⟨p, u, .none⟩ go = go ⟨p, u, .none⟩ :=
      fun k _ => callbackData_none hp.errno (Marks.get_none k)
    simp only [leftover, hn, Marks.count_none]
    rfl
  | @behind p k u frag hne h =>
    have hn : ∀ j (go : Cfg σ → Flow σ), callbackData S j [] 0 ⟨p, u, .single k frag⟩ go =
        if j = k then go ⟨p, (S.onData k frag u).2, .none⟩ else go ⟨p, u, .single k frag⟩ := by
      intro j go
      by_cases hj : j = k
      · rw [if_pos hj, hj, callbackData_single hS _ _ _ _ hp.errno, List.append_nil]
      · rw [if_neg hj, callbackData_none hp.errno (Marks.get_single_ne hj _)]
    have hn' : ∀ j (v : σ) (go : Cfg σ → Flow σ),
        callbackData S j [] 0 ⟨p, v, .none⟩ go = go ⟨p, v, .none⟩ :=
      fun j _ _ => callbackData_none hp.errno (Marks.get_none j)
    simp only [leftover, hn, hn', Marks.count_single]
    cases k <;> rfl

theorem loop_lag {S : Settings σ} {good : σ → Prop} (hS : S.Lawful good) {c : Cfg σ}
    {s t : HttpParser × σ} {data : Bytes} (hp : s.1.Sound) (hl : Lag S c s)
    (hr : Runs S good s data t) (pos : ℕ) : ∃ d, Lag S d t ∧ t.1.Sound ∧
      ∀ rest, loop S c 0 pos (data ++ rest) = loop S d 0 (pos + data.length) rest := by
  induction hr generalizing c pos with
  | nil s => exact ⟨c, hl, hp, fun _ => rfl⟩
  | @cons s t r ch bs hf hg _ ih =>
    obtain ⟨d, hd, hld, ht⟩ := turn_lag hS hp hl hf hg
    obtain ⟨d', hd', ht', hrest⟩ := ih ht hld (pos + 1)
    have hc : c.parser.contentLength ≤ ULLONG_MAX := by
      obtain rfl := hl.flush
      exact hp.length
    refine ⟨d', hd', ht', fun rest => ?_⟩
    rw [List.cons_append, loop_cons S c pos ch _ hc, hd, Flow.andThen, hrest, List.length_cons]
    congr 1
    omega

/-- The loop reads the bytes of a byte-wise run, and is behind it at their end. -/
theorem execute_append {S : Settings σ} {good : σ → Prop} (hS : S.Lawful good)
    {s t : HttpParser × σ} {data : Bytes} (hp : s.1.Sound) (hne : data ≠ [])
    (hr : Runs S good s data t) : ∃ d, Lag S d t ∧ t.1.Sound ∧
      ∀ rest, httpParserExecute S s.1 s.2 (data ++ rest) = loop S d 0 data.length rest := by
  obtain _ | @⟨_, t₁, _, ch, bs, hf, hg, hr⟩ := hr
  · exact absurd rfl hne
  · obtain ⟨d, hd, hld, ht⟩ := turn_entry hS hp hf
    obtain ⟨d', hd', ht', hrest⟩ := loop_lag hS ht hld hr 1
    refine ⟨d', hd', ht', fun rest => ?_⟩
    rw [httpParserExecute, if_neg (not_not.mpr hp.errno), if_neg (by simp), List.cons_append,
      loop_cons _ _ _ _ _ hp.length, hd, Flow.andThen, hrest, List.length_cons, Nat.add_comm]

/-- Where the byte-wise run goes on, `http_parser_execute` reads the whole buffer and ends as
the run does: a cut of the input into buffers makes no difference. -/
theorem execute_of_runs {S : Settings σ} {good : σ → Prop} (hS : S.Lawful good)
    {s t : HttpParser × σ} {data : Bytes} (hp : s.1.Sound) (hne : data ≠ [])
    (hr : Runs S good s data t) :
    httpParserExecute S s.1 s.2 data = some (data.length, t) := by
  obtain ⟨d, hd, ht, hrest⟩ := execute_append hS hp hne hr
  have h := hrest []
  rwa [List.append_nil, loop, leftover_lag hS ht hd] at h

theorem Runs.sound {S : Settings σ} {good : σ → Prop} (hS : S.Lawful good)
    {s t : HttpParser × σ} {data : Bytes} (hr : Runs S good s data t) (hp : s.1.Sound) :
    t.1.Sound := by
  induction hr with
  | nil => exact hp
  | cons hf hg _ ih =>
    obtain ⟨_, _, _, ht⟩ := turn_entry hS hp hf
    exact ih ht

end Stutter.Joyent
