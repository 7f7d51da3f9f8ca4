import Stutter.Joyent.Execute

namespace Stutter.Joyent

variable {σ τ : Type}

/-- A property of the user state that every callback keeps. -/
structure Settings.Keeps (S : Settings σ) (P : σ → Prop) : Prop where
  data : ∀ k frag u, P u → P (S.onData k frag u).2
  headers : ∀ p u, P u → P (S.onHeadersComplete p u).2
  complete : ∀ {p u r p' u'}, S.onMessageComplete p u = some (r, p', u') → P u → P u'

/-- Two outcomes of `on_message_complete` that differ in the user state alone; the second may be an
abnormal end if the first is `bad`. -/
def SameEnd (R : σ → τ → Prop) (bad : σ → Prop) :
    Option (ℤ × HttpParser × σ) → Option (ℤ × HttpParser × τ) → Prop
  | some (r, p, u), some (r', p', v) => r = r' ∧ p = p' ∧ R u v
  | some (_, _, u), none => bad u
  | none, none => True
  | none, some _ => False

/-- A relation of two user states that the callbacks keep, returning the same, until the first is
`bad` and stays so. -/
structure Settings.Related (S : Settings σ) (T : Settings τ) (R : σ → τ → Prop) (bad : σ → Prop) :
    Prop where
  data : ∀ k frag {u v}, R u v →
    (S.onData k frag u).1 = (T.onData k frag v).1 ∧ R (S.onData k frag u).2 (T.onData k frag v).2
  headers : ∀ p {u v}, R u v → (S.onHeadersComplete p u).1 = (T.onHeadersComplete p v).1 ∧
    R (S.onHeadersComplete p u).2 (T.onHeadersComplete p v).2
  complete : ∀ p {u v}, R u v → SameEnd R bad (S.onMessageComplete p u) (T.onMessageComplete p v)
  spoiled : S.Keeps bad

theorem Settings.keeps_false (S : Settings σ) : S.Keeps fun _ => False :=
  ⟨fun _ _ _ => id, fun _ _ => id, fun _ => id⟩

def Cfg.Rel (R : σ → τ → Prop) (c : Cfg σ) (d : Cfg τ) : Prop :=
  c.parser = d.parser ∧ c.marks = d.marks ∧ R c.user d.user

/-- What holds of the user state that a turn leaves. -/
def Flow.All (P : σ → Prop) : Flow σ → Prop
  | .next c _ | .fail c _ | .ret c _ => P c.user
  | .abort => True

/-- The two turns end in the same way. -/
def Flow.Rel (R : σ → τ → Prop) (bad : σ → Prop) : Flow σ → Flow τ → Prop
  | f, .abort => f.All bad
  | .next c skip, .next d skip' => c.Rel R d ∧ skip = skip'
  | .fail c e, .fail d e' => c.Rel R d ∧ e = e'
  | .ret c adv, .ret d adv' => c.Rel R d ∧ adv = adv'
  | _, _ => False

variable {S : Settings σ} {T : Settings τ} {R : σ → τ → Prop} {bad : σ → Prop} {p : HttpParser}
  {u : σ} {v : τ} {m : Marks}

/-- The two continuations agree. -/
structure GoRel (R : σ → τ → Prop) (bad : σ → Prop) (go : Cfg σ → Flow σ) (go' : Cfg τ → Flow τ) :
    Prop where
  rel : ∀ p u v m, R u v → (go ⟨p, u, m⟩).Rel R bad (go' ⟨p, v, m⟩)
  all : ∀ c, bad c.user → (go c).All bad

theorem next_rel (n : ℕ) : GoRel R bad (.next · n) (.next · n) :=
  ⟨fun _ _ _ _ h => ⟨⟨rfl, rfl, h⟩, rfl⟩, fun _ => id⟩

theorem ret_rel (n : ℕ) : GoRel R bad (.ret · n) (.ret · n) :=
  ⟨fun _ _ _ _ h => ⟨⟨rfl, rfl, h⟩, rfl⟩, fun _ => id⟩

theorem lift_rel (h : R u v) (o : Outcome) :
    (Cfg.lift ⟨p, u, m⟩ o).Rel R bad (Cfg.lift ⟨p, v, m⟩ o) := by
  cases o with
  | ok q => exact ⟨⟨rfl, rfl, h⟩, rfl⟩
  | fail q e => exact ⟨⟨rfl, rfl, h⟩, rfl⟩
  | abort => trivial

theorem lift_all {c : Cfg σ} (h : bad c.user) (o : Outcome) : (c.lift o).All bad := by
  cases o with
  | ok q => exact h
  | fail q e => exact h
  | abort => trivial

theorem notifyMessageBegin_rel {f : Flow σ} {g : Flow τ} (h : f.Rel R bad g) :
    (notifyMessageBegin ⟨p, u, m⟩ f).Rel R bad (notifyMessageBegin ⟨p, v, m⟩ g) := by
  rw [notifyMessageBegin, notifyMessageBegin]
  dsimp only
  split_ifs
  · trivial
  · exact h

theorem callbackData_all (hS : S.Keeps bad) {k : Mark} {extra : Bytes} {er : ℕ} {c : Cfg σ}
    (h : bad c.user) {go : Cfg σ → Flow σ} (hgo : ∀ c, bad c.user → (go c).All bad) :
    (callbackData S k extra er c go).All bad := by
  rw [callbackData]
  split_ifs
  · trivial
  · cases c.marks.get k with
    | none => exact hgo c h
    | some frag =>
      have hu := hS.data k (frag ++ extra) _ h
      dsimp only
      split_ifs
      · exact hu
      · exact hgo _ hu

theorem callbackData_rel (hS : S.Related T R bad) {k : Mark} {extra : Bytes} {er : ℕ} (h : R u v)
    {go : Cfg σ → Flow σ} {go' : Cfg τ → Flow τ} (hgo : GoRel R bad go go') :
    (callbackData S k extra er ⟨p, u, m⟩ go).Rel R bad
      (callbackData T k extra er ⟨p, v, m⟩ go') := by
  rw [callbackData, callbackData]
  dsimp only
  split_ifs with he
  · trivial
  · cases m.get k with
    | none => exact hgo.rel p u v m h
    | some frag =>
      obtain ⟨hr, hu⟩ := hS.data k (frag ++ extra) h
      dsimp only
      rw [← hr]
      split_ifs
      · exact ⟨⟨rfl, rfl, hu⟩, rfl⟩
      · exact hgo.rel p _ _ _ hu

theorem callbackData_go (hS : S.Related T R bad) {k : Mark} {extra : Bytes} {er : ℕ}
    {go : Cfg σ → Flow σ} {go' : Cfg τ → Flow τ} (hgo : GoRel R bad go go') :
    GoRel R bad (fun c => callbackData S k extra er c go)
      (fun c => callbackData T k extra er c go') :=
  ⟨fun _ _ _ _ h => callbackData_rel hS h hgo, fun _ h => callbackData_all hS.spoiled h hgo.all⟩

theorem callbackMessageComplete_all (hS : S.Keeps bad) {er : ℕ} {c : Cfg σ} (h : bad c.user)
    {go : Cfg σ → Flow σ} (hgo : ∀ c, bad c.user → (go c).All bad) :
    (callbackMessageComplete S er c go).All bad := by
  rw [callbackMessageComplete]
  split_ifs
  · trivial
  · cases hc : S.onMessageComplete c.parser c.user with
    | none => trivial
    | some r =>
      have hu := hS.complete hc h
      dsimp only
      split_ifs <;> first
        | exact hu
        | exact hgo _ hu

theorem callbackMessageComplete_rel (hS : S.Related T R bad) {e : ℕ} (h : R u v)
    {go : Cfg σ → Flow σ} {go' : Cfg τ → Flow τ} (hgo : GoRel R bad go go') :
    (callbackMessageComplete S e ⟨p, u, m⟩ go).Rel R bad
      (callbackMessageComplete T e ⟨p, v, m⟩ go') := by
  rw [callbackMessageComplete, callbackMessageComplete]
  dsimp only
  split_ifs with he
  · trivial
  · have hc := hS.complete p h
    generalize S.onMessageComplete p u = a at hc
    generalize T.onMessageComplete p v = b at hc
    rcases a with _ | ⟨r, q, u'⟩ <;> rcases b with _ | ⟨r', q', v'⟩
    · trivial
    · exact hc.elim
    · change Flow.All bad _
      dsimp only
      split_ifs <;> first
        | exact hc
        | exact hgo.all _ hc
    · obtain ⟨rfl, rfl, hu⟩ := hc
      dsimp only
      split_ifs
      · exact ⟨⟨rfl, rfl, hu⟩, rfl⟩
      · exact hgo.rel _ _ _ _ hu
      · exact ⟨⟨rfl, rfl, hu⟩, rfl⟩
      · exact hgo.rel _ _ _ _ hu

theorem completeMessage_rel (hS : S.Related T R bad) {er : ℕ} (h : R u v)
    {go : Cfg σ → Flow σ} {go' : Cfg τ → Flow τ} (hgo : GoRel R bad go go') :
    (completeMessage S er ⟨p, u, m⟩ go).Rel R bad (completeMessage T er ⟨p, v, m⟩ go') :=
  callbackMessageComplete_rel hS h hgo

theorem completeMessage_go (hS : S.Related T R bad) {er : ℕ} {go : Cfg σ → Flow σ}
    {go' : Cfg τ → Flow τ} (hgo : GoRel R bad go go') :
    GoRel R bad (fun c => completeMessage S er c go) (fun c => completeMessage T er c go') :=
  ⟨fun _ _ _ _ h => completeMessage_rel hS h hgo,
    fun c h => callbackMessageComplete_all hS.spoiled (c := c.goto c.parser.newMessage) h hgo.all⟩

theorem headersDone_rel (hS : S.Related T R bad) (h : R u v) (ch : UInt8) :
    (headersDone S ⟨p, u, m⟩ ch).Rel R bad (headersDone T ⟨p, v, m⟩ ch) := by
  rw [headersDone, headersDone]
  dsimp only
  split_ifs <;> first
    | exact ⟨⟨rfl, rfl, h⟩, rfl⟩
    | exact completeMessage_rel hS h (next_rel 0)
    | exact completeMessage_rel hS h (ret_rel 1)

theorem headersAlmostDone_rel (hS : S.Related T R bad) (h : R u v) (ch : UInt8) :
    (headersAlmostDone S ⟨p, u, m⟩ ch).Rel R bad (headersAlmostDone T ⟨p, v, m⟩ ch) := by
  rw [headersAlmostDone, headersAlmostDone]
  dsimp only
  obtain ⟨hr, hu⟩ := hS.headers { p with
    state := .headersDone, upgrade := p.flags.upgrade || p.method = .connect } h
  rw [← hr]
  split_ifs <;> first
    | exact ⟨⟨rfl, rfl, h⟩, rfl⟩
    | exact completeMessage_rel hS h (next_rel _)
    | exact ⟨⟨rfl, rfl, hu⟩, rfl⟩
    | exact headersDone_rel hS hu ch

theorem headerFieldStart_rel (hS : S.Related T R bad) (h : R u v) (ch : UInt8) :
    (headerFieldStart S ⟨p, u, m⟩ ch).Rel R bad (headerFieldStart T ⟨p, v, m⟩ ch) := by
  rw [headerFieldStart, headerFieldStart]
  split_ifs <;> first
    | exact ⟨⟨rfl, rfl, h⟩, rfl⟩
    | exact headersAlmostDone_rel hS h ch

theorem headerValueLws_rel (hS : S.Related T R bad) (h : R u v) (ch : UInt8) :
    (headerValueLws S ⟨p, u, m⟩ ch).Rel R bad (headerValueLws T ⟨p, v, m⟩ ch) := by
  rw [headerValueLws, headerValueLws]
  split_ifs
  · exact ⟨⟨rfl, rfl, h⟩, rfl⟩
  · exact headerFieldStart_rel hS h ch

theorem headerField_rel (hS : S.Related T R bad) (h : R u v) (ch : UInt8) :
    (headerField S ⟨p, u, m⟩ ch).Rel R bad (headerField T ⟨p, v, m⟩ ch) := by
  rw [headerField, headerField]
  split_ifs <;> first
    | exact ⟨⟨rfl, rfl, h⟩, rfl⟩
    | exact lift_rel h _
    | exact callbackData_rel hS h (next_rel _)

theorem headerValueStart_rel (hS : S.Related T R bad) (h : R u v) (ch : UInt8) :
    (headerValueStart S ⟨p, u, m⟩ ch).Rel R bad (headerValueStart T ⟨p, v, m⟩ ch) := by
  rw [headerValueStart, headerValueStart]
  dsimp only
  split_ifs <;> first
    | exact ⟨⟨rfl, rfl, h⟩, rfl⟩
    | exact lift_rel h _
    | exact callbackData_rel hS h (next_rel _)

theorem headerValue_rel (hS : S.Related T R bad) (h : R u v) (ch : UInt8) :
    (headerValue S ⟨p, u, m⟩ ch).Rel R bad (headerValue T ⟨p, v, m⟩ ch) := by
  rw [headerValue, headerValue]
  split_ifs
  · exact callbackData_rel hS h (next_rel _)
  · exact callbackData_rel hS h ⟨fun _ _ _ _ hu => lift_rel hu _, fun _ hu => lift_all hu _⟩
  · exact lift_rel h _

theorem urlRest_rel (hS : S.Related T R bad) (h : R u v) (ch : UInt8) :
    (urlRest S ⟨p, u, m⟩ ch).Rel R bad (urlRest T ⟨p, v, m⟩ ch) := by
  rw [urlRest, urlRest]
  dsimp only [Cfg.goto]
  split_ifs <;> first
    | exact ⟨⟨rfl, rfl, h⟩, rfl⟩
    | exact callbackData_rel hS h (next_rel _)

theorem bodyIdentity_rel (hS : S.Related T R bad) (h : R u v) (ch : UInt8) (rest : Bytes) :
    (bodyIdentity S ⟨p, u, m⟩ ch rest).Rel R bad (bodyIdentity T ⟨p, v, m⟩ ch rest) := by
  rw [bodyIdentity, bodyIdentity]
  dsimp only [Cfg.mark]
  split_ifs
  · trivial
  · exact callbackData_rel hS h (completeMessage_go hS (next_rel _))
  · exact ⟨⟨rfl, rfl, h⟩, rfl⟩

theorem exec_rel (hS : S.Related T R bad) (h : R u v) (ch : UInt8) (rest : Bytes) :
    (exec S ⟨p, u, m⟩ ch rest).Rel R bad (exec T ⟨p, v, m⟩ ch rest) := by
  rw [exec, exec]
  dsimp only
  cases p.state <;> dsimp only
  case reqServer | reqServerWithAt | reqPath | reqQueryStringStart | reqQueryString |
      reqFragmentStart | reqFragment => exact urlRest_rel hS h ch
  case reqSchema | reqSchemaSlash | reqSchemaSlashSlash | reqServerStart =>
    rw [urlSchema, urlSchema]
    dsimp only [Cfg.goto]
    split_ifs <;> exact ⟨⟨rfl, rfl, h⟩, rfl⟩
  case reqSpacesBeforeUrl =>
    rw [urlFirst, urlFirst]
    dsimp only [Cfg.goto, Cfg.mark]
    split_ifs <;> exact ⟨⟨rfl, rfl, h⟩, rfl⟩
  case headerFieldStart => exact headerFieldStart_rel hS h ch
  case headerField => exact headerField_rel hS h ch
  case headerValueStart => exact headerValueStart_rel hS h ch
  case headerValue => exact headerValue_rel hS h ch
  case headerValueLws => exact headerValueLws_rel hS h ch
  case headersAlmostDone => exact headersAlmostDone_rel hS h ch
  case headersDone => exact headersDone_rel hS h ch
  case bodyIdentity => exact bodyIdentity_rel hS h ch rest
  case messageDone => exact completeMessage_rel hS h (next_rel _)
  case chunkData =>
    rw [chunkData, chunkData]
    dsimp only [Cfg.mark]
    split_ifs <;> trivial
  case chunkDataAlmostDone =>
    rw [chunkDataAlmostDone, chunkDataAlmostDone]
    dsimp only
    split_ifs
    · trivial
    · exact ⟨⟨rfl, rfl, h⟩, rfl⟩
    · exact callbackData_rel hS h (next_rel _)
  all_goals
    first
    | exact lift_rel h _
    | exact notifyMessageBegin_rel (lift_rel h _)
    | exact ⟨⟨rfl, rfl, h⟩, rfl⟩
    | split_ifs <;> first
      | exact ⟨⟨rfl, rfl, h⟩, rfl⟩
      | exact lift_rel h _
      | exact notifyMessageBegin_rel ⟨⟨rfl, rfl, h⟩, rfl⟩
      | exact notifyMessageBegin_rel (lift_rel h _)

theorem turn_rel (hS : S.Related T R bad) (h : R u v) (ch : UInt8) (rest : Bytes) :
    (turn S ⟨p, u, m⟩ ch rest).Rel R bad (turn T ⟨p, v, m⟩ ch rest) := by
  cases hp : p.state.parsingHeader with
  | false =>
    simp only [turn, hp, Bool.not_false, if_true]
    exact exec_rel hS h ch rest
  | true =>
    by_cases hn : p.nread + 1 > maxHeaderSize
    · simp only [turn, Cfg.countByte, hp, hn, Bool.not_true, Bool.false_eq_true, if_false, if_true]
      exact ⟨⟨rfl, rfl, h⟩, rfl⟩
    · simp only [turn, Cfg.countByte, hp, hn, Bool.not_true, Bool.false_eq_true, if_false]
      exact exec_rel hS h ch rest

/-- Two results that differ in the user state alone; the second may be an abnormal end if the first
is `bad`. -/
def ResultRel (R : σ → τ → Prop) (bad : σ → Prop) : Result σ → Result τ → Prop
  | some (n, p, u), some (n', p', v) => n = n' ∧ p = p' ∧ R u v
  | some (_, _, u), none => bad u
  | none, none => True
  | none, some _ => False

theorem leftover_rel (hS : S.Related T R bad) (h : R u v) (len : ℕ) :
    ResultRel R bad (leftover S len ⟨p, u, m⟩) (leftover T len ⟨p, v, m⟩) := by
  have hf : (callbackData S .headerField [] 0 ⟨p, u, m⟩ fun c =>
      callbackData S .headerValue [] 0 c fun c =>
      callbackData S .url [] 0 c fun c =>
      callbackData S .body [] 0 c (.next · 0)).Rel R bad
      (callbackData T .headerField [] 0 ⟨p, v, m⟩ fun c =>
      callbackData T .headerValue [] 0 c fun c =>
      callbackData T .url [] 0 c fun c =>
      callbackData T .body [] 0 c (.next · 0)) :=
    callbackData_rel hS h (callbackData_go hS (callbackData_go hS
      (callbackData_go hS (next_rel 0))))
  rw [leftover, leftover]
  dsimp only
  split_ifs
  · trivial
  · generalize (callbackData S .headerField [] 0 _ _) = f at hf
    generalize (callbackData T .headerField [] 0 _ _) = g at hf
    cases f <;> cases g <;> first
      | trivial
      | exact hf
      | exact hf.elim
      | obtain ⟨⟨hp, -, hu⟩, he⟩ := hf
        subst he
        exact ⟨rfl, hp, hu⟩

/-- What holds of the user state that `http_parser_execute` leaves. -/
def ResultAll (P : σ → Prop) (r : Result σ) : Prop := ∀ n p u, r = some (n, p, u) → P u

/-- The loop from a state that is `bad`. -/
def Settings.LoopKeeps (S : Settings σ) (bad : σ → Prop) : Prop :=
  ∀ (c : Cfg σ) skip pos data, bad c.user → ResultAll bad (loop S c skip pos data)

theorem loop_rel (hS : S.Related T R bad) (hb : S.LoopKeeps bad) (data : Bytes) {p : HttpParser}
    {u : σ} {v : τ} {m : Marks} (h : R u v) (skip pos : ℕ) :
    ResultRel R bad (loop S ⟨p, u, m⟩ skip pos data) (loop T ⟨p, v, m⟩ skip pos data) := by
  induction data generalizing p u v m skip pos with
  | nil => cases skip <;> exact leftover_rel hS h pos
  | cons ch rest ih =>
    cases skip with
    | succ skip => exact ih h skip (pos + 1)
    | zero =>
      have ht := turn_rel (p := p) (m := m) hS h ch rest
      rw [loop, loop]
      generalize turn S ⟨p, u, m⟩ ch rest = f at ht
      generalize turn T ⟨p, v, m⟩ ch rest = g at ht
      rcases f with ⟨⟨p₁, u₁, m₁⟩, n⟩ | ⟨c, e⟩ | ⟨c, adv⟩ | _ <;>
        rcases g with ⟨⟨p₂, v₁, m₂⟩, n'⟩ | ⟨d, e'⟩ | ⟨d, adv'⟩ | _
      case next.next =>
        obtain ⟨⟨hp, hm, hu⟩, rfl⟩ := ht
        dsimp only at hp hm
        subst hp hm
        exact ih hu n (pos + 1)
      case next.abort =>
        have hl := hb ⟨p₁, u₁, m₁.push [ch]⟩ n (pos + 1) rest ht
        dsimp only
        cases hr : loop S ⟨p₁, u₁, m₁.push [ch]⟩ n (pos + 1) rest with
        | none => trivial
        | some r => exact hl _ _ _ hr
      case fail.fail =>
        obtain ⟨⟨hp, -, hu⟩, rfl⟩ := ht
        exact ⟨rfl, by rw [hp], hu⟩
      case ret.ret =>
        obtain ⟨⟨hp, -, hu⟩, rfl⟩ := ht
        exact ⟨rfl, hp, hu⟩
      case fail.abort | ret.abort => exact ht
      case abort.abort => trivial
      all_goals exact ht.elim

/-- Callbacks that keep a relation: so does `http_parser_execute`, and it returns the same. -/
theorem execute_rel (hS : S.Related T R bad) (hb : S.LoopKeeps bad) (h : R u v) (data : Bytes) :
    ResultRel R bad (httpParserExecute S p u data) (httpParserExecute T p v data) := by
  rw [httpParserExecute, httpParserExecute]
  split_ifs
  · exact ⟨rfl, rfl, h⟩
  · have hc := callbackMessageComplete_rel hS (p := p) (m := .none) (e := 0) h (ret_rel 0)
    rw [executeEof, executeEof]
    split
    · generalize callbackMessageComplete S 0 ⟨p, u, .none⟩ (.ret · 0) = f at hc
      generalize callbackMessageComplete T 0 ⟨p, v, .none⟩ (.ret · 0) = g at hc
      cases f <;> cases g <;> first
        | trivial
        | exact hc
        | exact hc.elim
        | obtain ⟨⟨hp, -, hu⟩, rfl⟩ := hc
          exact ⟨rfl, hp, hu⟩
    all_goals exact ⟨rfl, rfl, h⟩
  · exact loop_rel hS hb data h 0 0

theorem Settings.loopKeeps_false (S : Settings σ) : S.LoopKeeps fun _ => False :=
  fun _ _ _ _ => False.elim

end Stutter.Joyent
