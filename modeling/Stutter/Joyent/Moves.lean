import Mathlib.Logic.Relation
import Stutter.Joyent.Sound

namespace Stutter.Joyent

variable {σ : Type} {S : Settings σ}

/-- The states behind a head, up to the end of the message. -/
def State.inContent : State → Bool
  | .headersDone
  | .chunkSizeStart | .chunkSize | .chunkParameters | .chunkSizeAlmostDone
  | .chunkData | .chunkDataAlmostDone | .chunkDataDone
  | .bodyIdentity | .bodyIdentityEof
  | .messageDone => true
  | _ => false

/-- Behind a head, also in its trailer, no other protocol is asked for: such a message is over. -/
def HttpParser.Level (p : HttpParser) : Prop :=
  p.flags.trailing = true ∨ p.state.inContent = true → p.upgrade = false

theorem HttpParser.Level.of_not {p : HttpParser} (h : p.upgrade = false) : p.Level := fun _ => h

theorem init_level (t : ParserType) : (HttpParser.init t).Level := .of_not rfl

theorem parseUrlChar_head (s : State) (ch : UInt8) : (parseUrlChar s ch).inContent = false := by
  obtain h | h := parseUrlChar_mark s ch
  · rw [h]
    rfl
  · generalize parseUrlChar s ch = t at h
    cases t <;> first
      | rfl
      | cases h

theorem newMessage_head (p : HttpParser) : p.newMessage.inContent = false := by
  rw [HttpParser.newMessage]
  split_ifs <;> rfl

/-- What a `case` does that runs no callback: it does not go on to the content of a message. -/
structure HttpParser.Follows (p q : HttpParser) : Prop where
  upgrade : q.upgrade = p.upgrade
  content : q.state.inContent = true → p.state.inContent = true
  trailing : q.flags.trailing = true → p.flags.trailing = true ∨ p.state.inContent = true

theorem HttpParser.Follows.of_level {p q : HttpParser} (h : p.Follows q) (hp : p.Level) : q.Level :=
  fun hq => h.upgrade.trans (hp (hq.elim h.trailing fun hc => .inr (h.content hc)))

theorem HttpParser.Follows.refl (p : HttpParser) : p.Follows p := ⟨rfl, id, .inl⟩

theorem follows_trailing {p q : HttpParser}
    (ht : q.flags.trailing = p.flags.trailing ∨ q.flags.trailing = false)
    (h : q.flags.trailing = true) : p.flags.trailing = true :=
  (ht.resolve_right (by rw [h]; decide)).symm.trans h

theorem follows_head {p q : HttpParser} (hu : q.upgrade = p.upgrade)
    (ht : q.flags.trailing = p.flags.trailing ∨ q.flags.trailing = false)
    (hs : q.state.inContent = false) : p.Follows q :=
  ⟨hu, fun h => absurd (hs.symm.trans h) Bool.false_ne_true, fun h => .inl (follows_trailing ht h)⟩

theorem follows_same {p q : HttpParser} (hu : q.upgrade = p.upgrade)
    (ht : q.flags.trailing = p.flags.trailing ∨ q.flags.trailing = false)
    (hs : q.state = p.state) : p.Follows q :=
  ⟨hu, fun h => hs ▸ h, fun h => .inl (follows_trailing ht h)⟩

/-- Within the content of a message all is allowed. -/
theorem follows_content {p q : HttpParser} (hp : p.state.inContent = true)
    (hu : q.upgrade = p.upgrade) : p.Follows q := ⟨hu, fun _ => hp, fun _ => .inr hp⟩

theorem strictNext_follows (p : HttpParser) (want ch : UInt8) {s : State}
    (hs : s.inContent = false) : (strictNext p want ch s).Ok p.Follows :=
  .ite (fun _ => trivial) fun _ => follows_head rfl (.inl rfl) hs

theorem startReq_follows (p : HttpParser) (ch : UInt8) : (startReq p ch).Ok p.Follows := by
  dsimp only [startReq]
  repeat' refine .ite (fun _ => ?_) fun _ => ?_
  all_goals first
    | trivial
    | exact .refl p
    | exact follows_head rfl (.inr rfl) rfl

theorem startRes_follows (p : HttpParser) (ch : UInt8) : (startRes p ch).Ok p.Follows :=
  .ite (fun _ => follows_head rfl (.inr rfl) rfl) fun _ =>
    .ite (fun _ => follows_same rfl (.inr rfl) rfl) fun _ => trivial

theorem reqMethod_follows (p : HttpParser) (ch : UInt8) : (reqMethod p ch).Ok p.Follows := by
  dsimp only [reqMethod]
  repeat' refine .ite (fun _ => ?_) fun _ => ?_
  all_goals first
    | trivial
    | exact follows_same rfl (.inl rfl) rfl
    | exact follows_head rfl (.inl rfl) rfl

theorem resStatusCode_follows (p : HttpParser) (ch : UInt8) :
    (resStatusCode p ch).Ok p.Follows := by
  dsimp only [resStatusCode]
  repeat' refine .ite (fun _ => ?_) fun _ => ?_
  all_goals first
    | trivial
    | exact follows_same rfl (.inl rfl) rfl
    | exact follows_head rfl (.inl rfl) rfl

theorem firstMajor_follows (p : HttpParser) (ch least : UInt8) {s : State}
    (hs : s.inContent = false) : (firstMajor p ch least s).Ok p.Follows :=
  .ite (fun _ => trivial) fun _ => follows_head rfl (.inl rfl) hs

theorem firstMinor_follows (p : HttpParser) (ch : UInt8) {s : State}
    (hs : s.inContent = false) : (firstMinor p ch s).Ok p.Follows :=
  .ite (fun _ => trivial) fun _ => follows_head rfl (.inl rfl) hs

theorem httpMajor_follows (p : HttpParser) (ch : UInt8) {dot : State}
    (hs : dot.inContent = false) : (httpMajor p ch dot).Ok p.Follows :=
  .ite (fun _ => follows_head rfl (.inl rfl) hs) fun _ => .ite (fun _ => trivial) fun _ =>
    .ite (fun _ => trivial) fun _ => follows_same rfl (.inl rfl) rfl

theorem httpMinor_follows (p : HttpParser) (ch : UInt8) : (httpMinor p ch).Ok p.Follows :=
  .ite (fun _ => trivial) fun _ => .ite (fun _ => trivial) fun _ => follows_same rfl (.inl rfl) rfl

theorem matchNext_follows (p : HttpParser) (c : UInt8) (word : Bytes) (full : HeaderState) :
    p.Follows (matchNext p c word full) := by
  dsimp only [matchNext]
  split_ifs <;> exact follows_same rfl (.inl rfl) rfl

theorem headerNameNext_follows (p : HttpParser) (ch c : UInt8) :
    (headerNameNext p ch c).Ok p.Follows := by
  cases hs : p.headerState <;> simp only [headerNameNext, hs] <;> first
    | trivial
    | exact .refl p
    | exact matchNext_follows ..
    | exact follows_same rfl (.inl rfl) rfl
    | (split_ifs <;> exact follows_same rfl (.inl rfl) rfl)

theorem headerValueFirst_follows (p : HttpParser) (ch : UInt8) :
    (headerValueFirst p ch).Ok p.Follows := by
  cases hs : p.headerState <;> simp only [headerValueFirst, hs] <;> first
    | exact follows_same rfl (.inl rfl) rfl
    | exact .ite (fun _ => trivial) fun _ => follows_same rfl (.inl rfl) rfl

theorem pushDigit_follows (p : HttpParser) (base d : ℕ) : (pushDigit p base d).Ok p.Follows :=
  .ite (fun _ => trivial) fun _ => follows_same rfl (.inl rfl) rfl

theorem headerValueNext_follows (p : HttpParser) (ch : UInt8) :
    (headerValueNext p ch).Ok p.Follows := by
  cases hs : p.headerState <;> simp only [headerValueNext, hs] <;> first
    | trivial
    | exact .refl p
    | exact matchNext_follows ..
    | exact follows_head rfl (.inl rfl) rfl
    | exact .ite (fun _ => .refl p) fun _ => .ite (fun _ => trivial) fun _ => pushDigit_follows ..
    | (split_ifs <;> exact follows_same rfl (.inl rfl) rfl)

theorem headerAlmostDone_follows (p : HttpParser) (ch : UInt8) :
    (headerAlmostDone p ch).Ok p.Follows := by
  refine .ite (fun _ => trivial) fun _ => ?_
  cases hs : p.headerState <;> simp only [HttpParser.goto, hs] <;>
    exact follows_head rfl (.inl rfl) rfl

theorem chunkSizeStart_follows {p : HttpParser} (hp : p.state.inContent = true) (ch : UInt8) :
    (chunkSizeStart p ch).Ok p.Follows :=
  .ite (fun _ => trivial) fun _ => .ite (fun _ => trivial) fun _ => follows_content hp rfl

theorem chunkSize_follows {p : HttpParser} (hp : p.state.inContent = true) (ch : UInt8) :
    (chunkSize p ch).Ok p.Follows :=
  .ite (fun _ => trivial) fun _ => .ite (fun _ => follows_content hp rfl) fun _ =>
    .ite (fun _ => .ite (fun _ => follows_content hp rfl) fun _ => trivial) fun _ =>
      pushDigit_follows ..

theorem chunkParameters_follows {p : HttpParser} (hp : p.state.inContent = true) (ch : UInt8) :
    (chunkParameters p ch).Ok p.Follows :=
  .ite (fun _ => trivial) fun _ => .ite (fun _ => follows_content hp rfl) fun _ => .refl p

theorem chunkSizeAlmostDone_follows {p : HttpParser} (hp : p.state.inContent = true)
    (ch : UInt8) : (chunkSizeAlmostDone p ch).Ok p.Follows :=
  .ite (fun _ => trivial) fun _ => .ite (fun _ => trivial) fun _ =>
    .ite (fun _ => follows_content hp rfl) fun _ => follows_content hp rfl

theorem chunkDataDone_follows {p : HttpParser} (hp : p.state.inContent = true) (ch : UInt8) :
    (chunkDataDone p ch).Ok p.Follows :=
  .ite (fun _ => trivial) fun _ => .ite (fun _ => trivial) fun _ => follows_content hp rfl

/-- What a turn of the loop does to the parser and the user state, from one callback to the next. -/
inductive Move (S : Settings σ) : HttpParser × σ → HttpParser × σ → Prop
  | quiet {p q u} (h : p.Follows q) : Move S (p, u) (q, u)
  | data {p} (k frag u) (hk : k = .body ∨ p.state.inContent = false) :
    Move S (p, u) (p, (S.onData k frag u).2)
  | headers {p q} (p' u) (hq : q.upgrade = false) : Move S (p, u) (q, (S.onHeadersComplete p' u).2)
  | complete {p q u v r} (hp : p.upgrade = false) (hc : S.onMessageComplete p u = some (r, q, v))
    (hq : q.upgrade = false) (hs : q.state.inContent = false) : Move S (p, u) (q, v)

/-- The last callback may start the parser anew, and fails never. -/
def Settings.Restarts (S : Settings σ) : Prop := ∀ {p u r p' u'},
  S.onMessageComplete p u = some (r, p', u') → r = 0 ∧ (p' = p ∨ ∃ t, p' = .init t)

/-- How a turn ends: it goes on, or it fails after some callbacks, or the message was the last one,
for another protocol follows it. -/
def Flow.Moves (S : Settings σ) (s : HttpParser × σ) : Flow σ → Prop
  | .next c _ => Relation.ReflTransGen (Move S) s (c.parser, c.user)
  | .fail c _ => ∃ p, Relation.ReflTransGen (Move S) s (p, c.user)
  | .ret c _ =>
    (∃ p, Relation.ReflTransGen (Move S) s (p, c.user)) ∧ c.parser.httpErrno ≠ .ok ∨
      ∃ p q v, Relation.ReflTransGen (Move S) s (p, v) ∧ q.upgrade = true ∧ q.httpErrno = .ok ∧
        q.Level ∧ S.onMessageComplete q v = some (0, c.parser, c.user)
  | .abort => True

variable {s : HttpParser × σ}

theorem Flow.Moves.head {t : HttpParser × σ} (h : Move S s t) {f : Flow σ} (hf : f.Moves S t) :
    f.Moves S s := by
  cases f with
  | next c skip => exact Relation.ReflTransGen.head h hf
  | fail c e =>
    obtain ⟨p, hp⟩ := hf
    exact ⟨p, Relation.ReflTransGen.head h hp⟩
  | ret c adv =>
    obtain ⟨⟨p, hp⟩, he⟩ | ⟨p, q, v, hp, hq⟩ := hf
    · exact .inl ⟨⟨p, Relation.ReflTransGen.head h hp⟩, he⟩
    · exact .inr ⟨p, q, v, Relation.ReflTransGen.head h hp, hq⟩
  | abort => trivial

theorem Flow.Moves.ite {b : Prop} [Decidable b] {f f' : Flow σ} (h : b → f.Moves S s)
    (h' : ¬ b → f'.Moves S s) : (if b then f else f').Moves S s := by
  by_cases hb : b
  · simpa only [if_pos hb] using h hb
  · simpa only [if_neg hb] using h' hb

theorem lift_moves {p : HttpParser} {c : Cfg σ}
    (hs : Relation.ReflTransGen (Move S) s (p, c.user)) {o : Outcome} (h : o.Ok p.Follows) :
    (c.lift o).Moves S s := by
  cases o with
  | ok q => exact hs.tail (.quiet h)
  | fail => exact ⟨p, hs⟩
  | abort => trivial

theorem notifyMessageBegin_moves {c : Cfg σ} {f : Flow σ} (h : f.Moves S s) :
    (notifyMessageBegin c f).Moves S s :=
  .ite (fun _ => trivial) fun _ => h

theorem callbackData_moves {k : Mark} {extra : Bytes} {er : ℕ} {c : Cfg σ} {go : Cfg σ → Flow σ}
    (hk : k = .body ∨ c.parser.state.inContent = false)
    (hs : Relation.ReflTransGen (Move S) s (c.parser, c.user))
    (hgo : ∀ u m, Relation.ReflTransGen (Move S) s (c.parser, u) →
      (go ⟨c.parser, u, m⟩).Moves S s) : (callbackData S k extra er c go).Moves S s := by
  refine .ite (fun _ => trivial) fun _ => ?_
  cases c.marks.get k with
  | none => exact hgo _ _ hs
  | some frag =>
    have hd := hs.tail (.data k (frag ++ extra) c.user hk)
    exact .ite (fun _ => .inl ⟨⟨_, hd⟩, Errno.noConfusion⟩) fun _ => hgo _ _ hd

/-- The end of a message in the middle of the buffer. -/
theorem completeMessage_moves (hS : S.Restarts) {er skip : ℕ} {c : Cfg σ}
    (hup : c.parser.upgrade = false) (hs : Relation.ReflTransGen (Move S) s (c.parser, c.user)) :
    (completeMessage S er c (.next · skip)).Moves S s := by
  rw [completeMessage, callbackMessageComplete]
  refine .ite (fun _ => trivial) fun _ => ?_
  cases hc : S.onMessageComplete (c.goto c.parser.newMessage).parser
      (c.goto c.parser.newMessage).user with
  | none => trivial
  | some r =>
    obtain ⟨r, p, u⟩ := r
    obtain ⟨rfl, hp⟩ := hS hc
    have hend : p.upgrade = false ∧ p.state.inContent = false := by
      obtain rfl | ⟨t, rfl⟩ := hp
      · exact ⟨hup, newMessage_head c.parser⟩
      · exact ⟨rfl, by cases t <;> rfl⟩
    have hall := (hs.tail (.quiet (follows_head (q := (c.goto c.parser.newMessage).parser) rfl
      (.inl rfl) (newMessage_head c.parser)))).tail (.complete hup hc hend.1 hend.2)
    dsimp only
    rw [if_neg (not_not.mpr rfl)]
    exact .ite (fun he => .inl ⟨⟨p, hall⟩, he⟩) fun _ => hall

/-- The end of a message after which another protocol follows. -/
theorem completeMessage_last (hS : S.Restarts) {er adv : ℕ} {c : Cfg σ}
    (hup : c.parser.upgrade = true) (ht : c.parser.flags.trailing = false) {p : HttpParser}
    (hs : Relation.ReflTransGen (Move S) s (p, c.user)) :
    (completeMessage S er c (.ret · adv)).Moves S s := by
  rw [completeMessage, callbackMessageComplete]
  refine .ite (fun _ => trivial) fun he => ?_
  have hq : (c.goto c.parser.newMessage).parser.Level := by
    rintro (h | h)
    · exact absurd (ht.symm.trans h) Bool.false_ne_true
    · exact absurd ((newMessage_head c.parser).symm.trans h) Bool.false_ne_true
  cases hc : S.onMessageComplete (c.goto c.parser.newMessage).parser
      (c.goto c.parser.newMessage).user with
  | none => trivial
  | some r =>
    obtain ⟨r, p', u⟩ := r
    obtain ⟨rfl, -⟩ := hS hc
    have hlast : (Flow.ret ⟨p', u, (c.goto c.parser.newMessage).marks⟩ adv).Moves S s :=
      .inr ⟨p, (c.goto c.parser.newMessage).parser, c.user, hs, hup, not_not.mp he, hq, hc⟩
    dsimp only
    rw [if_neg (not_not.mpr rfl)]
    exact .ite (fun _ => hlast) fun _ => hlast

/-- The end of a head, of which the callback has been made. -/
theorem headersDone_moves (hS : S.Restarts) {c : Cfg σ}
    (ht : c.parser.flags.trailing = true → c.parser.upgrade = false)
    (hs : ∀ q : HttpParser, q.upgrade = false →
      Relation.ReflTransGen (Move S) s (q, c.user)) (ch : UInt8) :
    (headersDone S c ch).Moves S s := by
  have hfail := hs (.init .both) rfl
  refine .ite (fun _ => ⟨_, hfail⟩) fun _ => .ite (fun hup => ?_) fun hup => ?_
  · refine completeMessage_last hS hup (Bool.eq_false_iff.mpr fun h => ?_) hfail
    exact absurd (hup.symm.trans (ht h)) (by decide)
  have hup : c.parser.upgrade = false := Bool.eq_false_iff.mpr hup
  refine .ite (fun _ => ?_) fun _ => .ite (fun _ => hs _ hup) fun _ =>
    .ite (fun _ => ?_) fun _ => .ite (fun _ => hs _ hup) fun _ =>
      .ite (fun _ => ?_) fun _ => hs _ hup
  all_goals exact completeMessage_moves hS hup (hs _ hup)

theorem headersAlmostDone_moves (hS : S.Restarts) {c : Cfg σ} (hp : c.parser.Level)
    (hs : Relation.ReflTransGen (Move S) s (c.parser, c.user)) (ch : UInt8) :
    (headersAlmostDone S c ch).Moves S s := by
  refine .ite (fun _ => ⟨_, hs⟩) fun _ => .ite (fun ht => ?_) fun ht => ?_
  · exact completeMessage_moves hS (hp (.inl ht)) hs
  have hh : ∀ p' q : HttpParser, q.upgrade = false →
      Relation.ReflTransGen (Move S) s (q, (S.onHeadersComplete p' c.user).2) :=
    fun p' q hq => hs.tail (.headers p' c.user hq)
  have hstop := fun p' => hh p' (.init .both) rfl
  refine .ite (fun _ => .ite (fun he => .inl ⟨⟨_, hstop _⟩, he⟩) fun _ => ?_) fun _ =>
    .ite (fun _ => .ite (fun he => .inl ⟨⟨_, hstop _⟩, he⟩) fun _ => ?_) fun _ =>
      .inl ⟨⟨_, hstop _⟩, Errno.noConfusion⟩
  all_goals exact headersDone_moves hS (by exact fun h => absurd h ht) (by exact hh _) ch

theorem headerFieldStart_moves (hS : S.Restarts) {c : Cfg σ} (hp : c.parser.Level)
    (hs : Relation.ReflTransGen (Move S) s (c.parser, c.user)) (ch : UInt8) :
    (headerFieldStart S c ch).Moves S s := by
  have hgo : ∀ {q : HttpParser}, q.upgrade = c.parser.upgrade →
      q.flags.trailing = c.parser.flags.trailing → q.state.inContent = false → c.parser.Follows q :=
    fun h₁ h₂ h₃ => follows_head h₁ (.inl h₂) h₃
  refine .ite (fun _ => hs.tail (.quiet (hgo rfl rfl rfl))) fun _ => .ite (fun _ => ?_) fun _ =>
    .ite (fun _ => ⟨_, hs⟩) fun _ => hs.tail (.quiet (hgo rfl rfl rfl))
  have hq : c.parser.Follows (c.goto .headersAlmostDone).parser := hgo rfl rfl rfl
  exact headersAlmostDone_moves (c := c.goto .headersAlmostDone) hS (hq.of_level hp)
    (hs.tail (.quiet hq)) ch

/-- What a `case` does: the one place where the states are gone through. -/
theorem exec_moves (hS : S.Restarts) {c : Cfg σ} (hp : c.parser.Level) (ch : UInt8)
    (rest : Bytes) : (exec S c ch rest).Moves S (c.parser, c.user) := by
  have hs₀ : Relation.ReflTransGen (Move S) (c.parser, c.user) (c.parser, c.user) := .refl
  have hstay : (Flow.next c 0).Moves S (c.parser, c.user) := hs₀
  have hstop : ∀ e, (Flow.fail c e).Moves S (c.parser, c.user) := fun e => ⟨_, hs₀⟩
  have hhead : ∀ {q : HttpParser}, q.upgrade = c.parser.upgrade →
      q.flags.trailing = c.parser.flags.trailing ∨ q.flags.trailing = false →
      q.state.inContent = false →
      Relation.ReflTransGen (Move S) (c.parser, c.user) (q, c.user) :=
    fun h₁ h₂ h₃ => .single (.quiet (follows_head h₁ h₂ h₃))
  have hgo : ∀ s : State, s.inContent = false →
      (Flow.next (c.goto s) 0).Moves S (c.parser, c.user) := fun s hs => hhead rfl (.inl rfl) hs
  have hdata : ∀ (k : Mark) (q : HttpParser) (m : Marks), q.upgrade = c.parser.upgrade →
      q.flags.trailing = c.parser.flags.trailing ∨ q.flags.trailing = false →
      q.state.inContent = false →
      (callbackData S k [] 1 ⟨q, c.user, m⟩ (.next · 0)).Moves S (c.parser, c.user) :=
    fun k q m h₁ h₂ h₃ => callbackData_moves (.inr h₃) (hhead h₁ h₂ h₃) fun _ _ h => h
  cases hs : c.parser.state <;> simp only [exec, hs]
  case dead => exact .ite (fun _ => hstay) fun _ => hstop _
  case startReqOrRes =>
    refine .ite (fun _ => hstay) fun _ => .ite (fun _ => ?_) fun _ => ?_
    · exact notifyMessageBegin_moves (hhead rfl (.inr rfl) rfl)
    · refine notifyMessageBegin_moves (lift_moves ?_ (startReq_follows _ ch))
      exact hhead rfl (.inr rfl) rfl
  case resOrRespH =>
    exact .ite (fun _ => hhead rfl (.inl rfl) rfl) fun _ => .ite (fun _ => hstop _) fun _ =>
      hhead rfl (.inl rfl) rfl
  case startReq => exact notifyMessageBegin_moves (lift_moves hs₀ (startReq_follows ..))
  case startRes => exact notifyMessageBegin_moves (lift_moves hs₀ (startRes_follows ..))
  case reqMethod => exact lift_moves hs₀ (reqMethod_follows ..)
  case resStatusCode => exact lift_moves hs₀ (resStatusCode_follows ..)
  case resFirstHttpMajor | reqFirstHttpMajor =>
    exact lift_moves hs₀ (firstMajor_follows _ _ _ rfl)
  case resHttpMajor | reqHttpMajor => exact lift_moves hs₀ (httpMajor_follows _ _ rfl)
  case resFirstHttpMinor | reqFirstHttpMinor => exact lift_moves hs₀ (firstMinor_follows _ _ rfl)
  case resHttpMinor =>
    exact .ite (fun _ => hgo _ rfl) fun _ => lift_moves hs₀ (httpMinor_follows ..)
  case reqHttpMinor =>
    exact .ite (fun _ => hgo _ rfl) fun _ => .ite (fun _ => hgo _ rfl) fun _ =>
      lift_moves hs₀ (httpMinor_follows ..)
  case resFirstStatusCode =>
    exact .ite (fun _ => .ite (fun _ => hstay) fun _ => hstop _) fun _ =>
      hhead rfl (.inl rfl) rfl
  case resStatus =>
    exact .ite (fun _ => hgo _ rfl) fun _ => .ite (fun _ => hgo _ rfl) fun _ => hstay
  case reqHttpStart =>
    exact .ite (fun _ => hgo _ rfl) fun _ => .ite (fun _ => hstay) fun _ => hstop _
  case reqLineAlmostDone => exact .ite (fun _ => hstop _) fun _ => hgo _ rfl
  case reqSpacesBeforeUrl =>
    exact .ite (fun _ => hstay) fun _ => .ite (fun _ => ⟨_, hs₀⟩) fun _ =>
      hhead rfl (.inl rfl) (parseUrlChar_head ..)
  case reqSchema | reqSchemaSlash | reqSchemaSlashSlash | reqServerStart =>
    exact .ite (fun _ => hstop _) fun _ => .ite (fun _ => ⟨_, hs₀⟩) fun _ =>
      hgo _ (parseUrlChar_head ..)
  case reqServer | reqServerWithAt | reqPath | reqQueryStringStart | reqQueryString
      | reqFragmentStart | reqFragment =>
    refine .ite (fun _ => hdata _ _ _ rfl (.inl rfl) rfl) fun _ =>
      .ite (fun _ => hdata _ _ _ rfl (.inl rfl) ?_) fun _ => .ite (fun _ => ⟨_, hs₀⟩) fun _ =>
        hgo _ (parseUrlChar_head ..)
    dsimp only
    split_ifs <;> rfl
  case headerFieldStart => exact headerFieldStart_moves hS hp hs₀ ch
  case headerField =>
    refine .ite (fun _ => lift_moves hs₀ (headerNameNext_follows ..)) fun _ =>
      .ite (fun _ => ?_) fun _ => .ite (fun _ => ?_) fun _ => .ite (fun _ => ?_) fun _ => hstop _
    all_goals exact hdata _ _ _ rfl (.inl rfl) rfl
  case headerValueStart =>
    refine .ite (fun _ => hstay) fun _ => .ite (fun _ => ?_) fun _ => .ite (fun _ => ?_) fun _ => ?_
    · exact hdata _ _ _ rfl (.inl rfl) rfl
    · exact hdata _ _ _ rfl (.inl rfl) rfl
    · refine lift_moves ?_ (headerValueFirst_follows _ ch)
      exact hhead rfl (.inl rfl) rfl
  case headerValue =>
    refine .ite (fun _ => hdata _ _ _ rfl (.inl rfl) rfl) fun _ =>
      .ite (fun _ => ?_) fun _ => lift_moves hs₀ (headerValueNext_follows ..)
    refine callbackData_moves ?_ ?_ fun u m h => lift_moves h (headerAlmostDone_follows _ ch)
    · exact .inr rfl
    · exact hhead rfl (.inl rfl) rfl
  case headerValueLws =>
    refine .ite (fun _ => hgo _ rfl) fun _ => ?_
    have hq : c.parser.Follows (c.goto .headerFieldStart).parser := follows_head rfl (.inl rfl) rfl
    exact headerFieldStart_moves (c := c.goto .headerFieldStart) hS (hq.of_level hp)
      (.single (.quiet hq)) ch
  case headerAlmostDone => exact lift_moves hs₀ (headerAlmostDone_follows ..)
  case headersAlmostDone => exact headersAlmostDone_moves hS hp hs₀ ch
  case reqHttpH | reqHttpHT | reqHttpHTT | reqHttpHTTP | resH | resHT | resHTT | resHTTP
      | resLineAlmostDone => exact lift_moves hs₀ (strictNext_follows _ _ _ rfl)
  -- behind the head no other protocol is asked for
  all_goals
    have hin : c.parser.state.inContent = true := by rw [hs]; rfl
    have hup : c.parser.upgrade = false := hp (.inr hin)
    have hon : ∀ {q : HttpParser}, q.upgrade = c.parser.upgrade →
        Relation.ReflTransGen (Move S) (c.parser, c.user) (q, c.user) :=
      fun h => .single (.quiet (follows_content hin h))
  case chunkSizeStart => exact lift_moves hs₀ (chunkSizeStart_follows hin ch)
  case chunkSize => exact lift_moves hs₀ (chunkSize_follows hin ch)
  case chunkParameters => exact lift_moves hs₀ (chunkParameters_follows hin ch)
  case chunkSizeAlmostDone => exact lift_moves hs₀ (chunkSizeAlmostDone_follows hin ch)
  case chunkDataDone => exact lift_moves hs₀ (chunkDataDone_follows hin ch)
  case headersDone =>
    exact headersDone_moves hS (fun _ => hup) (fun q hq => hon (hq.trans hup.symm)) ch
  case messageDone => exact completeMessage_moves hS hup hs₀
  case bodyIdentityEof => exact hs₀
  case chunkData =>
    refine .ite (fun _ => trivial) fun _ => .ite (fun _ => trivial) fun _ => hon ?_
    rw [apply_ite HttpParser.upgrade]
    exact ite_self _
  case chunkDataAlmostDone =>
    exact .ite (fun _ => trivial) fun _ => .ite (fun _ => hstop _) fun _ =>
      callbackData_moves (.inl rfl) (hon rfl) fun _ _ h => h
  case bodyIdentity =>
    refine .ite (fun _ => trivial) fun _ => .ite (fun _ => ?_) fun _ => hon rfl
    exact callbackData_moves (.inl rfl) (hon rfl) fun u m h => completeMessage_moves hS hup h

theorem turn_moves (hS : S.Restarts) {c : Cfg σ} (hp : c.parser.Level) (ch : UInt8)
    (rest : Bytes) : (turn S c ch rest).Moves S (c.parser, c.user) := by
  have hq : c.parser.Follows c.countByte.parser := follows_same rfl (.inl rfl) rfl
  refine .ite (fun _ => exec_moves hS hp ch rest) fun _ => .ite (fun _ => ⟨_, .refl⟩) fun _ => ?_
  exact .head (.quiet hq) (exec_moves (c := c.countByte) hS (hq.of_level hp) ch rest)

/-- Moves keep the parser level. -/
theorem Move.level {t : HttpParser × σ} (h : Move S s t) (hs : s.1.Level) : t.1.Level := by
  cases h with
  | quiet h => exact h.of_level hs
  | data => exact hs
  | headers _ _ hq => exact .of_not hq
  | complete _ _ hq _ => exact .of_not hq

theorem moves_level {t : HttpParser × σ} (h : Relation.ReflTransGen (Move S) s t)
    (hs : s.1.Level) : t.1.Level := by
  induction h with
  | refl => exact hs
  | tail _ hm ih => exact hm.level ih

end Stutter.Joyent
