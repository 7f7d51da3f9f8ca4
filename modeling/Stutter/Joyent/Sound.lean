import Stutter.Joyent.Plain

namespace Stutter.Joyent

variable {σ : Type}

/-- Callbacks that succeed and do not tell one fragment from two, as long as the user state that
two fragments lead to is `good`. -/
structure Settings.Lawful (S : Settings σ) (good : σ → Prop) : Prop where
  data_ok : ∀ k frag u, (S.onData k frag u).1 = 0
  data_append : ∀ k f g u, f ≠ [] → k = .body ∨ good (S.onData k g (S.onData k f u).2).2 →
    (S.onData k (f ++ g) u).2 = (S.onData k g (S.onData k f u).2).2
  data_whole : ∀ k f g u, f ≠ [] → good (S.onData k (f ++ g) u).2 →
    good (S.onData k f u).2 ∧ (S.onData k (f ++ g) u).2 = (S.onData k g (S.onData k f u).2).2
  data_good : ∀ k f u, k ≠ .url → good u → good (S.onData k f u).2
  headers_ok : ∀ p u, (S.onHeadersComplete p u).1 = 0
  headers_eq : ∀ p q u, S.onHeadersComplete p u = S.onHeadersComplete q u
  headers_good : ∀ p u, good u → good (S.onHeadersComplete p u).2
  complete : ∀ {p u r p' u'}, S.onMessageComplete p u = some (r, p', u') →
    r = 0 ∧ (p' = p ∨ ∃ t, p' = .init t)

/-- The user state after a fragment. -/
def Settings.data (S : Settings σ) (k : Mark) (frag : Bytes) (u : σ) : σ := (S.onData k frag u).2

/-- The user state after the callback at the end of the headers, which passes the parser over. -/
def Settings.headers (S : Settings σ) (u : σ) : σ := (S.onHeadersComplete (.init .both) u).2

theorem Settings.Lawful.append {S : Settings σ} {good : σ → Prop} (hS : S.Lawful good) {k : Mark}
    {f : Bytes} (hf : f ≠ []) (g : Bytes) {u : σ} (hg : good (S.data k g (S.data k f u))) :
    S.data k g (S.data k f u) = S.data k (f ++ g) u :=
  (hS.data_append k f g u hf (.inr hg)).symm

/-- What holds after a turn that goes on. -/
def Flow.Next (Q : Cfg σ → Prop) : Flow σ → Prop
  | .next c skip => skip = 0 ∧ Q c
  | _ => True

/-- The invariant of the loop between two turns. -/
structure Cfg.Sound (c : Cfg σ) : Prop where
  parser : c.parser.Sound
  marked : Marked c.parser.state c.marks

theorem Marked.push {s : State} {m : Marks} (h : Marked s m) (bs : Bytes) :
    Marked s (m.push bs) := by
  cases h with
  | mark frag h => simpa using Marked.mark (frag ++ bs) h
  | body frag h => simpa using Marked.body (frag ++ bs) h
  | none h => exact .none h

theorem Marked.eq_single {s : State} {m : Marks} {k : Mark} (h : Marked s m)
    (h₁ : s.mark = some k) (h₂ : s.inBody = false) : ∃ frag, m = .single k frag := by
  cases h with
  | mark frag h => exact ⟨frag, by rw [Option.some.inj (h.symm.trans h₁)]⟩
  | body frag h => simp [h₂] at h
  | none h => simp [h₁] at h

theorem Marked.mark_body {s : State} {m : Marks} (h : Marked s m) (hs : s.mark = Option.none) :
    ∃ frag, m.mark .body = .single .body frag := by
  cases h with
  | mark frag h => simp [hs] at h
  | body frag h => exact ⟨frag, Marks.mark_single _ _⟩
  | none h => exact ⟨[], Marks.mark_none _⟩

theorem Marked.body_or_none {s : State} {m : Marks} (h : Marked s m) (hs : s.mark = Option.none) :
    m = .none ∨ ∃ frag, m = .single .body frag := by
  cases h with
  | mark frag h => simp [hs] at h
  | body frag h => exact .inr ⟨frag, rfl⟩
  | none h => exact .inl rfl

theorem Marked.eq_none {s : State} {m : Marks} (h : Marked s m) (h₁ : s.mark = Option.none)
    (h₂ : s.inBody = false) : m = .none := by
  cases h with
  | mark frag h => simp [h₁] at h
  | body frag h => simp [h₂] at h
  | none h => rfl

theorem Cfg.lift_sound {o : Outcome} {c : Cfg σ}
    (h : o.Ok fun p => p.Sound ∧ Marked p.state c.marks) : (c.lift o).Next Cfg.Sound := by
  cases o with
  | ok p => exact ⟨rfl, h.1, h.2⟩
  | fail => trivial
  | abort => trivial

theorem Flow.Next.ite {Q : Cfg σ → Prop} {b : Prop} [Decidable b] {f f' : Flow σ}
    (h : b → f.Next Q) (h' : ¬ b → f'.Next Q) : (if b then f else f').Next Q := by
  by_cases hb : b
  · simpa only [if_pos hb] using h hb
  · simpa only [if_neg hb] using h' hb

/-- A callback that finds its mark set delivers the fragment and clears the mark. -/
theorem callbackData_some {S : Settings σ} {good : σ → Prop} (hS : S.Lawful good) {k : Mark}
    {extra frag : Bytes} {er : ℕ} {c : Cfg σ} {go : Cfg σ → Flow σ} (he : c.parser.httpErrno = .ok)
    (hm : c.marks.get k = some frag) :
    callbackData S k extra er c go =
      go ⟨c.parser, (S.onData k (frag ++ extra) c.user).2, c.marks.set k none⟩ := by
  simp [callbackData, he, hm, hS.data_ok]

theorem callbackData_single {S : Settings σ} {good : σ → Prop} (hS : S.Lawful good) (k : Mark)
    (extra frag : Bytes) (er : ℕ) {p : HttpParser} (he : p.httpErrno = .ok) (u : σ)
    (go : Cfg σ → Flow σ) :
    callbackData S k extra er ⟨p, u, .single k frag⟩ go =
      go ⟨p, (S.onData k (frag ++ extra) u).2, .none⟩ := by
  rw [callbackData_some hS he (Marks.get_single k frag), Marks.set_single]

theorem callbackData_none {S : Settings σ} {k : Mark} {extra : Bytes} {er : ℕ} {c : Cfg σ}
    {go : Cfg σ → Flow σ} (he : c.parser.httpErrno = .ok) (hm : c.marks.get k = none) :
    callbackData S k extra er c go = go c := by
  simp [callbackData, he, hm]

theorem newMessage_mark (p : HttpParser) :
    p.newMessage.mark = none ∧ p.newMessage.inBody = false := by
  rw [HttpParser.newMessage]
  split_ifs <;> exact ⟨rfl, rfl⟩

theorem init_mark (t : ParserType) : (HttpParser.init t).state.mark = none := by cases t <;> rfl

theorem parseUrlChar_mark (s : State) (ch : UInt8) :
    parseUrlChar s ch = .dead ∨ (parseUrlChar s ch).mark = some .url := by
  cases s <;> simp only [parseUrlChar] <;> split_ifs <;>
    first | exact .inl rfl | exact .inr rfl

theorem completeMessage_sound {S : Settings σ} {good : σ → Prop} (hS : S.Lawful good) {c : Cfg σ}
    {t : ℕ} (h : c.parser.Sound) (hm : c.marks = .none) :
    (completeMessage S t c (.next · 0)).Next Cfg.Sound := by
  have he : (c.goto c.parser.newMessage).parser.httpErrno = .ok := h.errno
  rw [completeMessage, callbackMessageComplete, if_neg (not_not.mpr he)]
  rcases hc : S.onMessageComplete (c.goto c.parser.newMessage).parser
      (c.goto c.parser.newMessage).user with _ | ⟨r, p, u⟩
  · trivial
  · obtain ⟨rfl, rfl | ⟨t, rfl⟩⟩ := hS.complete hc
    · refine .ite (fun _ => trivial) fun _ => ⟨rfl, ⟨h.errno, h.length⟩, ?_⟩
      rw [Cfg.goto, hm]
      exact .none (newMessage_mark _).1
    · refine .ite (fun _ => trivial) fun _ => ⟨rfl, ⟨rfl, Nat.zero_le _⟩, ?_⟩
      rw [Cfg.goto, hm]
      exact .none (init_mark _)

/-- After an upgrade the loop does not go on. -/
theorem completeMessage_ret (S : Settings σ) (c : Cfg σ) (er adv : ℕ) (Q : Cfg σ → Prop) :
    (completeMessage S er c (.ret · adv)).Next Q := by
  rw [completeMessage, callbackMessageComplete]
  refine .ite (fun _ => trivial) fun _ => ?_
  rcases S.onMessageComplete _ _ with _ | ⟨r, p, u⟩
  · trivial
  · exact .ite (fun _ => trivial) fun _ => trivial

theorem urlFirst_sound {c : Cfg σ} (h : c.parser.Sound) (hs : c.parser.state.mark = none)
    (hm : c.marks = .none) (ch : UInt8) : (urlFirst c ch).Next Cfg.Sound := by
  refine .ite (fun _ => ⟨rfl, h, by rw [hm]; exact .none hs⟩) fun _ => ?_
  refine .ite (fun _ => trivial) fun hd => ⟨rfl, ⟨h.errno, h.length⟩, ?_⟩
  simp only [Cfg.mark, Cfg.goto, hm, Marks.mark_none] at hd ⊢
  exact .mark [] ((parseUrlChar_mark _ _).resolve_left hd)

theorem urlSchema_sound {c : Cfg σ} (h : c.parser.Sound) {frag : Bytes}
    (hm : c.marks = .single .url frag) (ch : UInt8) : (urlSchema c ch).Next Cfg.Sound := by
  refine .ite (fun _ => trivial) fun _ => .ite (fun _ => trivial) fun hd =>
    ⟨rfl, ⟨h.errno, h.length⟩, ?_⟩
  simp only [Cfg.goto, hm]
  exact .mark frag ((parseUrlChar_mark _ _).resolve_left hd)

theorem callbackData_sound {S : Settings σ} {good : σ → Prop} (hS : S.Lawful good) {k : Mark}
    {extra frag : Bytes} {er : ℕ} {c : Cfg σ} {go : Cfg σ → Flow σ} (h : c.parser.Sound)
    (hm : c.marks = .single k frag) (hgo : ∀ u, (go ⟨c.parser, u, .none⟩).Next Cfg.Sound) :
    (callbackData S k extra er c go).Next Cfg.Sound := by
  have hf : c.marks.get k = some frag := by rw [hm, Marks.get_single]
  rw [callbackData_some hS h.errno hf, hm, Marks.set_single]
  exact hgo _

theorem urlRest_sound {S : Settings σ} {good : σ → Prop} (hS : S.Lawful good) {c : Cfg σ}
    (h : c.parser.Sound) {frag : Bytes} (hm : c.marks = .single .url frag) (ch : UInt8) :
    (urlRest S c ch).Next Cfg.Sound := by
  refine .ite (fun _ => ?_) fun _ => .ite (fun _ => ?_) fun _ =>
    .ite (fun _ => trivial) fun hd => ?_
  · exact callbackData_sound hS ⟨h.errno, h.length⟩ hm fun u =>
      ⟨rfl, ⟨h.errno, h.length⟩, .none rfl⟩
  · exact callbackData_sound hS ⟨h.errno, h.length⟩ hm fun u =>
      ⟨rfl, ⟨h.errno, h.length⟩, .none (by split_ifs <;> rfl)⟩
  · refine ⟨rfl, ⟨h.errno, h.length⟩, ?_⟩
    simp only [Cfg.goto, hm]
    exact .mark frag ((parseUrlChar_mark _ _).resolve_left hd)

theorem headerField_sound {S : Settings σ} {good : σ → Prop} (hS : S.Lawful good) {c : Cfg σ}
    (h : c.parser.Sound) {frag : Bytes} (hs : c.parser.state = .headerField)
    (hm : c.marks = .single .headerField frag) (ch : UInt8) :
    (headerField S c ch).Next Cfg.Sound := by
  refine .ite (fun _ => ?_) fun _ => .ite (fun _ => ?_) fun _ => .ite (fun _ => ?_) fun _ =>
    .ite (fun _ => ?_) fun _ => trivial
  · refine Cfg.lift_sound ((headerNameNext_sound h ch _).imp fun q hq => ⟨hq.1, ?_⟩)
    rw [hm, hq.2, hs]
    exact .mark frag rfl
  all_goals exact callbackData_sound hS ⟨h.errno, h.length⟩ hm fun u =>
    ⟨rfl, ⟨h.errno, h.length⟩, .none rfl⟩

theorem headerValueStart_sound {S : Settings σ} {good : σ → Prop} (hS : S.Lawful good)
    {c : Cfg σ} (h : c.parser.Sound) (hs : c.parser.state = .headerValueStart)
    (hm : c.marks = .none) (ch : UInt8) : (headerValueStart S c ch).Next Cfg.Sound := by
  have hk : c.marks.mark .headerValue = .single .headerValue [] := by rw [hm, Marks.mark_none]
  refine .ite (fun _ => ⟨rfl, h, by rw [hm, hs]; exact .none rfl⟩) fun _ =>
    .ite (fun _ => ?_) fun _ => .ite (fun _ => ?_) fun _ => ?_
  · exact callbackData_sound hS ⟨h.errno, h.length⟩ hk fun u =>
      ⟨rfl, ⟨h.errno, h.length⟩, .none rfl⟩
  · exact callbackData_sound hS ⟨h.errno, h.length⟩ hk fun u =>
      ⟨rfl, ⟨h.errno, h.length⟩, .none rfl⟩
  · refine Cfg.lift_sound (Outcome.Ok.imp (headerValueFirst_sound ?_ ch) fun q hq => ⟨hq.1, ?_⟩)
    · exact ⟨h.errno, h.length⟩
    · simp only [hq.2, Cfg.mark, hk]
      exact .mark [] rfl

theorem headerValue_sound {S : Settings σ} {good : σ → Prop} (hS : S.Lawful good) {c : Cfg σ}
    (h : c.parser.Sound) {frag : Bytes} (hs : c.parser.state = .headerValue)
    (hm : c.marks = .single .headerValue frag) (ch : UInt8) :
    (headerValue S c ch).Next Cfg.Sound := by
  refine .ite (fun _ => ?_) fun _ => .ite (fun _ => ?_) fun _ => ?_
  · exact callbackData_sound hS ⟨h.errno, h.length⟩ hm fun u =>
      ⟨rfl, ⟨h.errno, h.length⟩, .none rfl⟩
  · refine callbackData_sound hS ⟨h.errno, h.length⟩ hm fun u => Cfg.lift_sound
      (Outcome.Ok.imp (headerAlmostDone_plain ?_ ch) fun q hq => ⟨hq.sound, .none hq.mark⟩)
    exact ⟨h.errno, h.length⟩
  · refine Cfg.lift_sound ((headerValueNext_sound h ch hs).imp fun q hq => ⟨hq.1, ?_⟩)
    rw [hm, hq.2]
    exact .mark frag rfl

theorem headersDone_sound {S : Settings σ} {good : σ → Prop} (hS : S.Lawful good) {c : Cfg σ}
    (h : c.parser.Sound) (hm : c.marks = .none) (ch : UInt8) :
    (headersDone S c ch).Next Cfg.Sound := by
  have hp : ∀ s : State, s.mark = none →
      ({ c with parser := { c.parser with nread := 0, state := s } } : Cfg σ).Sound :=
    fun s hs => ⟨⟨h.errno, h.length⟩, by rw [hm]; exact .none hs⟩
  refine .ite (fun _ => trivial) fun _ => .ite (fun _ => completeMessage_ret _ _ _ _ _) fun _ =>
    .ite (fun _ => ?_) fun _ => .ite (fun _ => ⟨rfl, hp _ rfl⟩) fun _ => .ite (fun _ => ?_) fun _ =>
    .ite (fun _ => ⟨rfl, hp _ rfl⟩) fun _ => .ite (fun _ => ?_) fun _ => ⟨rfl, hp _ rfl⟩
  all_goals exact completeMessage_sound hS ⟨h.errno, h.length⟩ hm

theorem headersAlmostDone_sound {S : Settings σ} {good : σ → Prop} (hS : S.Lawful good)
    {c : Cfg σ} (h : c.parser.Sound) (hm : c.marks = .none) (ch : UInt8) :
    (headersAlmostDone S c ch).Next Cfg.Sound := by
  refine .ite (fun _ => trivial) fun _ => .ite (fun _ => completeMessage_sound hS h hm) fun _ =>
    .ite (fun _ => .ite (fun _ => trivial) fun _ => ?_) fun _ =>
    .ite (fun _ => .ite (fun _ => trivial) fun _ => ?_) fun _ => trivial
  all_goals exact headersDone_sound hS (by exact ⟨h.errno, h.length⟩) (by exact hm) ch

theorem headerFieldStart_sound {S : Settings σ} {good : σ → Prop} (hS : S.Lawful good)
    {c : Cfg σ} (h : c.parser.Sound) (hm : c.marks = .none) (ch : UInt8) :
    (headerFieldStart S c ch).Next Cfg.Sound := by
  refine .ite (fun _ => ?_) fun _ => .ite (fun _ => ?_) fun _ => .ite (fun _ => trivial) fun _ => ?_
  · exact ⟨rfl, ⟨h.errno, h.length⟩, by simpa only [Cfg.goto, hm] using .none rfl⟩
  · exact headersAlmostDone_sound hS (by exact ⟨h.errno, h.length⟩) (by exact hm) ch
  · refine ⟨rfl, ⟨h.errno, h.length⟩, ?_⟩
    simp only [Cfg.mark, hm, Marks.mark_none]
    exact .mark [] rfl

theorem bodyIdentity_sound {S : Settings σ} {good : σ → Prop} (hS : S.Lawful good) {c : Cfg σ}
    (h : c.parser.Sound) (hs : c.parser.state = .bodyIdentity) {frag : Bytes}
    (hm : c.marks.mark .body = .single .body frag) (ch : UInt8) :
    (bodyIdentity S c ch []).Next Cfg.Sound := by
  have hl : c.parser.contentLength - min c.parser.contentLength [ch].length ≤ ULLONG_MAX :=
    (Nat.sub_le _ _).trans h.length
  have h1 : min c.parser.contentLength [ch].length ≤ 1 := Nat.min_le_right _ _
  refine .ite (fun _ => trivial) fun h0 => .ite (fun _ => ?_) fun _ => ?_
  · have h2 : min c.parser.contentLength [ch].length = 1 := by
      simp only [List.length_singleton]
      omega
    simp only [h2]
    exact callbackData_sound hS ⟨h.errno, Nat.sub_le _ _ |>.trans h.length⟩ hm fun u =>
      completeMessage_sound hS ⟨h.errno, Nat.sub_le _ _ |>.trans h.length⟩ rfl
  · refine ⟨by omega, ⟨h.errno, hl⟩, ?_⟩
    simp only [Cfg.mark, hm, hs]
    exact .body frag rfl

theorem chunkData_sound {c : Cfg σ} (h : c.parser.Sound) (hs : c.parser.state = .chunkData)
    {frag : Bytes} (hm : c.marks.mark .body = .single .body frag) (ch : UInt8) :
    (chunkData c ch []).Next Cfg.Sound := by
  have hl : c.parser.contentLength - min c.parser.contentLength [ch].length ≤ ULLONG_MAX :=
    (Nat.sub_le _ _).trans h.length
  have h1 : min c.parser.contentLength [ch].length ≤ 1 := Nat.min_le_right _ _
  refine .ite (fun _ => trivial) fun _ => .ite (fun _ => trivial) fun h0 => ⟨by omega, ?_, ?_⟩
  · dsimp only
    split_ifs <;> exact ⟨h.errno, hl⟩
  · simp only [Cfg.mark, hm]
    split_ifs
    · exact .body frag rfl
    · simpa only [hs] using Marked.body frag rfl

theorem chunkDataAlmostDone_sound {S : Settings σ} {good : σ → Prop} (hS : S.Lawful good)
    {c : Cfg σ} (h : c.parser.Sound) (hm : c.marks = .none ∨ ∃ frag, c.marks = .single .body frag)
    (ch : UInt8) : (chunkDataAlmostDone S c ch).Next Cfg.Sound := by
  refine .ite (fun _ => trivial) fun _ => .ite (fun _ => trivial) fun _ => ?_
  obtain hm | ⟨frag, hm⟩ := hm
  · rw [callbackData_none (by exact h.errno) (by simp [Cfg.goto, hm])]
    exact ⟨rfl, ⟨h.errno, h.length⟩, by simpa only [Cfg.goto, hm] using .none rfl⟩
  · exact callbackData_sound hS ⟨h.errno, h.length⟩ hm fun u =>
      ⟨rfl, ⟨h.errno, h.length⟩, .none rfl⟩

theorem Cfg.lift_plain {o : Outcome} {c : Cfg σ} (h : o.Ok HttpParser.Plain)
    (hm : c.marks = .none) : (c.lift o).Next Cfg.Sound :=
  Cfg.lift_sound (h.imp fun _ hp => ⟨hp.sound, by rw [hm]; exact .none hp.mark⟩)

theorem exec_sound {S : Settings σ} {good : σ → Prop} (hS : S.Lawful good) {c : Cfg σ}
    (h : c.Sound) (ch : UInt8) : (exec S c ch []).Next Cfg.Sound := by
  have hp : c.parser.Sound := h.parser
  have hmk := h.marked
  cases hs : c.parser.state
  all_goals simp only [exec, hs]
  case headerField =>
    obtain ⟨frag, hm⟩ := hmk.eq_single (by rw [hs]; rfl) (by rw [hs]; rfl)
    exact headerField_sound hS hp hs hm ch
  case headerValue =>
    obtain ⟨frag, hm⟩ := hmk.eq_single (by rw [hs]; rfl) (by rw [hs]; rfl)
    exact headerValue_sound hS hp hs hm ch
  case bodyIdentity =>
    obtain ⟨frag, hm⟩ := hmk.mark_body (by rw [hs]; rfl)
    exact bodyIdentity_sound hS hp hs hm ch
  case chunkData =>
    obtain ⟨frag, hm⟩ := hmk.mark_body (by rw [hs]; rfl)
    exact chunkData_sound hp hs hm ch
  case bodyIdentityEof =>
    obtain ⟨frag, hm⟩ := hmk.mark_body (by rw [hs]; rfl)
    exact ⟨rfl, hp, by simpa only [Cfg.mark, hm, hs] using .body frag rfl⟩
  case chunkDataAlmostDone =>
    exact chunkDataAlmostDone_sound hS hp (hmk.body_or_none (by rw [hs]; rfl)) ch
  case reqSchema | reqSchemaSlash | reqSchemaSlashSlash | reqServerStart =>
    obtain ⟨frag, hm⟩ := hmk.eq_single (by rw [hs]; rfl) (by rw [hs]; rfl)
    exact urlSchema_sound hp hm ch
  case reqServer | reqServerWithAt | reqPath | reqQueryStringStart | reqQueryString
      | reqFragmentStart | reqFragment =>
    obtain ⟨frag, hm⟩ := hmk.eq_single (by rw [hs]; rfl) (by rw [hs]; rfl)
    exact urlRest_sound hS hp hm ch
  all_goals
    have hm : c.marks = .none := hmk.eq_none (by rw [hs]; rfl) (by rw [hs]; rfl)
    have hq : c.parser.Plain := ⟨hp, by rw [hs]; rfl⟩
    have hgo : ∀ s : State, s.mark = none → (Flow.next (c.goto s) 0).Next Cfg.Sound :=
      fun s hs => ⟨rfl, ⟨hp.errno, hp.length⟩, by simpa only [Cfg.goto, hm] using .none hs⟩
    have hstay : (Flow.next c 0).Next Cfg.Sound := ⟨rfl, h⟩
  case startReqOrRes =>
    have hu : ULLONG_MAX ≤ ULLONG_MAX := le_refl _
    refine .ite (fun _ => hstay) fun _ => .ite (fun _ => ?_) fun _ => ?_
    · exact .ite (fun _ => trivial) fun _ =>
        ⟨rfl, ⟨hp.errno, hu⟩, by simpa only [hm] using .none rfl⟩
    · exact .ite (fun _ => trivial) fun _ =>
        Cfg.lift_plain (startReq_plain (by exact ⟨⟨hp.errno, hu⟩, rfl⟩) ch) hm
  case dead => exact .ite (fun _ => hstay) fun _ => trivial
  case resOrRespH =>
    refine .ite (fun _ => ?_) fun _ => .ite (fun _ => trivial) fun _ => ?_
    all_goals exact ⟨rfl, ⟨hp.errno, hp.length⟩, by simpa only [hm] using .none rfl⟩
  case startRes => exact .ite (fun _ => trivial) fun _ => Cfg.lift_plain (startRes_plain hq ch) hm
  case startReq => exact .ite (fun _ => trivial) fun _ => Cfg.lift_plain (startReq_plain hq ch) hm
  case resHttpMinor =>
    exact .ite (fun _ => hgo _ rfl) fun _ => Cfg.lift_plain (httpMinor_plain hq ch) hm
  case resFirstStatusCode =>
    refine .ite (fun _ => .ite (fun _ => hstay) fun _ => trivial) fun _ => ?_
    exact ⟨rfl, ⟨hp.errno, hp.length⟩, by simpa only [hm] using .none rfl⟩
  case resStatus =>
    exact .ite (fun _ => hgo _ rfl) fun _ => .ite (fun _ => hgo _ rfl) fun _ => hstay
  case reqHttpMinor =>
    exact .ite (fun _ => hgo _ rfl) fun _ => .ite (fun _ => hgo _ rfl) fun _ =>
      Cfg.lift_plain (httpMinor_plain hq ch) hm
  case reqHttpStart =>
    exact .ite (fun _ => hgo _ rfl) fun _ => .ite (fun _ => hstay) fun _ => trivial
  case reqLineAlmostDone => exact .ite (fun _ => trivial) fun _ => hgo _ rfl
  case headerFieldStart => exact headerFieldStart_sound hS hp hm ch
  case headerValueStart => exact headerValueStart_sound hS hp hs hm ch
  case headerValueLws =>
    exact .ite (fun _ => hgo _ rfl) fun _ =>
      headerFieldStart_sound hS (by exact ⟨hp.errno, hp.length⟩) (by exact hm) ch
  case headersAlmostDone => exact headersAlmostDone_sound hS hp hm ch
  case headersDone => exact headersDone_sound hS hp hm ch
  case messageDone => exact completeMessage_sound hS hp hm
  case reqSpacesBeforeUrl => exact urlFirst_sound hp hq.mark hm ch
  all_goals refine Cfg.lift_plain ?_ hm
  case reqMethod => exact reqMethod_plain hq ch
  case resStatusCode => exact resStatusCode_plain hq ch
  case headerAlmostDone => exact headerAlmostDone_plain hp ch
  case chunkSizeStart => exact chunkSizeStart_plain hp ch
  case chunkSize => exact chunkSize_plain hq ch
  case chunkParameters => exact chunkParameters_plain hq ch
  case chunkSizeAlmostDone => exact chunkSizeAlmostDone_plain hp ch
  case chunkDataDone => exact chunkDataDone_plain hp ch
  case resFirstHttpMajor | reqFirstHttpMajor => exact firstMajor_plain hp _ _ rfl
  case resHttpMajor | reqHttpMajor => exact httpMajor_plain hq _ rfl
  case resFirstHttpMinor | reqFirstHttpMinor => exact firstMinor_plain hp _ rfl
  all_goals exact strictNext_plain hp _ _ rfl

theorem turn_sound {S : Settings σ} {good : σ → Prop} (hS : S.Lawful good) {c : Cfg σ}
    (h : c.Sound) (ch : UInt8) : (turn S c ch []).Next Cfg.Sound :=
  .ite (fun _ => exec_sound hS h ch) fun _ => .ite (fun _ => trivial) fun _ =>
    exec_sound hS (by exact ⟨⟨h.parser.errno, h.parser.length⟩, h.marked⟩) ch

end Stutter.Joyent
