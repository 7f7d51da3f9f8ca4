import Stutter.Joyent.Sound
import Stutter.Joyent.Stops

namespace Stutter.Joyent

variable {σ : Type} {S : Settings σ}

/-- Callbacks that return. The last one may start the parser anew. -/
structure Settings.Returns (S : Settings σ) : Prop where
  complete : ∀ p u, ∃ r p' u', S.onMessageComplete p u = some (r, p', u') ∧
    (p' = p ∨ ∃ t, p' = .init t)

/-- The states in which nothing is asserted. -/
def State.free : State → Bool
  | .headerField | .headerValue
  | .chunkSizeStart | .chunkSize | .chunkParameters | .chunkSizeAlmostDone
  | .chunkData | .chunkDataAlmostDone | .chunkDataDone | .bodyIdentity => false
  | _ => true

/-- The values of `header_state` that `s_header_field` knows. -/
def HeaderState.naming : HeaderState → Bool
  | .general | .c | .co | .con
  | .matchingConnection | .matchingProxyConnection | .matchingContentLength
  | .matchingTransferEncoding | .matchingUpgrade
  | .connection | .contentLength | .transferEncoding | .upgrade => true
  | _ => false

/-- The values of `header_state` that `s_header_value` does not assert to be impossible. -/
def HeaderState.valued : HeaderState → Bool
  | .connection | .transferEncoding => false
  | _ => true

/-- What is asserted between two turns of the loop, by the state. -/
def HttpParser.Fit (p : HttpParser) : Prop :=
  match p.state with
  | .headerField => p.headerState.naming = true
  | .headerValue => p.headerState.valued = true
  | .chunkSizeStart => p.nread = 0 ∧ p.flags.chunked = true
  | .chunkSize | .chunkParameters | .chunkSizeAlmostDone =>
    p.flags.chunked = true ∧ p.contentLength < ULLONG_MAX
  | .chunkData => p.flags.chunked = true ∧ 0 < p.contentLength ∧ p.contentLength < ULLONG_MAX
  | .chunkDataAlmostDone => p.flags.chunked = true ∧ p.contentLength = 0
  | .chunkDataDone => p.flags.chunked = true
  | .bodyIdentity => 0 < p.contentLength ∧ p.contentLength < ULLONG_MAX
  | _ => True

theorem HttpParser.Fit.of_free {p : HttpParser} (h : p.state.free = true) : p.Fit := by
  unfold HttpParser.Fit
  cases hs : p.state <;> first
    | trivial
    | (rw [hs] at h
       cases h)

structure Cfg.Safe (c : Cfg σ) : Prop extends Cfg.Sound c where
  fit : c.parser.Fit

/-- A parser that may be called again. -/
def HttpParser.Safe (p : HttpParser) : Prop := p.httpErrno ≠ .ok ∨ p.Sound ∧ p.Fit

/-- No assertion fails, and what is left is safe. -/
def Flow.Safe : Flow σ → Prop
  | .next c _ => c.Safe
  | .ret c _ => c.parser.Safe
  | .fail _ _ => True
  | .abort => False

/-- The same for a `case` that runs no callback. -/
def Outcome.Goes (Q : HttpParser → Prop) : Outcome → Prop
  | .ok p => Q p
  | .fail _ _ => True
  | .abort => False

theorem Outcome.Goes.ite {Q : HttpParser → Prop} {b : Prop} [Decidable b] {o o' : Outcome}
    (h : b → o.Goes Q) (h' : ¬ b → o'.Goes Q) : (if b then o else o').Goes Q := by
  by_cases hb : b
  · simpa only [if_pos hb] using h hb
  · simpa only [if_neg hb] using h' hb

theorem Outcome.Goes.imp {Q R : HttpParser → Prop} {o : Outcome} (h : o.Goes Q)
    (hi : ∀ p, Q p → R p) : o.Goes R := by
  cases o with
  | ok p => exact hi p h
  | fail => trivial
  | abort => exact h.elim

theorem Flow.Safe.ite {b : Prop} [Decidable b] {f f' : Flow σ} (h : b → f.Safe)
    (h' : ¬ b → f'.Safe) : (if b then f else f').Safe := by
  by_cases hb : b
  · simpa only [if_pos hb] using h hb
  · simpa only [if_neg hb] using h' hb

theorem lift_safe {o : Outcome} {c : Cfg σ} (h : o.Goes HttpParser.Fit)
    (hs : o.Ok fun p => p.Sound ∧ Marked p.state c.marks) : (c.lift o).Safe := by
  cases o with
  | ok p => exact ⟨⟨hs.1, hs.2⟩, h⟩
  | fail => trivial
  | abort => exact h.elim

theorem lift_fit {o : Outcome} {c : Cfg σ} (h : o.Goes HttpParser.Fit)
    (hs : o.Ok HttpParser.Plain) (hm : c.marks = .none) : (c.lift o).Safe :=
  lift_safe h (hs.imp fun _ hp => ⟨hp.sound, by rw [hm]; exact .none hp.mark⟩)

theorem lift_free {o : Outcome} {c : Cfg σ} (h : o.Goes fun p => p.state.free = true)
    (hs : o.Ok HttpParser.Plain) (hm : c.marks = .none) : (c.lift o).Safe :=
  lift_fit (h.imp fun _ => HttpParser.Fit.of_free) hs hm

theorem strictNext_free {p : HttpParser} (want ch : UInt8) {s : State} (hs : s.free = true) :
    (strictNext p want ch s).Goes fun q => q.state.free = true :=
  .ite (fun _ => trivial) fun _ => hs

theorem startReq_free {p : HttpParser} (hs : p.state.free = true) (ch : UInt8) :
    (startReq p ch).Goes fun q => q.state.free = true := by
  dsimp only [startReq]
  repeat' refine .ite (fun _ => ?_) fun _ => ?_
  all_goals trivial

theorem startRes_free {p : HttpParser} (hs : p.state.free = true) (ch : UInt8) :
    (startRes p ch).Goes fun q => q.state.free = true := by
  dsimp only [startRes]
  repeat' refine .ite (fun _ => ?_) fun _ => ?_
  all_goals trivial

theorem reqMethod_free {p : HttpParser} (hs : p.state.free = true) (ch : UInt8) :
    (reqMethod p ch).Goes fun q => q.state.free = true := by
  dsimp only [reqMethod]
  repeat' refine .ite (fun _ => ?_) fun _ => ?_
  all_goals trivial

theorem resStatusCode_free {p : HttpParser} (hs : p.state.free = true) (ch : UInt8) :
    (resStatusCode p ch).Goes fun q => q.state.free = true := by
  dsimp only [resStatusCode]
  repeat' refine .ite (fun _ => ?_) fun _ => ?_
  all_goals trivial

theorem firstMajor_free {p : HttpParser} (ch least : UInt8) {s : State} (hs : s.free = true) :
    (firstMajor p ch least s).Goes fun q => q.state.free = true :=
  .ite (fun _ => trivial) fun _ => hs

theorem firstMinor_free {p : HttpParser} (ch : UInt8) {s : State} (hs : s.free = true) :
    (firstMinor p ch s).Goes fun q => q.state.free = true :=
  .ite (fun _ => trivial) fun _ => hs

theorem httpMajor_free {p : HttpParser} (hs : p.state.free = true) (ch : UInt8) {dot : State}
    (hd : dot.free = true) : (httpMajor p ch dot).Goes fun q => q.state.free = true :=
  .ite (fun _ => hd) fun _ => .ite (fun _ => trivial) fun _ => .ite (fun _ => trivial) fun _ => hs

theorem httpMinor_free {p : HttpParser} (hs : p.state.free = true) (ch : UInt8) :
    (httpMinor p ch).Goes fun q => q.state.free = true :=
  .ite (fun _ => trivial) fun _ => .ite (fun _ => trivial) fun _ => hs

theorem headerAlmostDone_free (p : HttpParser) (ch : UInt8) :
    (headerAlmostDone p ch).Goes fun q => q.state.free = true := by
  refine .ite (fun _ => trivial) fun _ => ?_
  cases hs : p.headerState <;> simp only [HttpParser.goto, hs] <;> rfl

theorem matchNext_naming {p : HttpParser} (h : p.headerState.naming = true) (c : UInt8)
    (word : Bytes) {full : HeaderState} (hf : full.naming = true) :
    (matchNext p c word full).headerState.naming = true ∧
      (matchNext p c word full).state = p.state := by
  dsimp only [matchNext]
  split_ifs
  · exact ⟨rfl, rfl⟩
  · exact ⟨hf, rfl⟩
  · exact ⟨h, rfl⟩

theorem headerNameStart_naming (c : UInt8) : (headerNameStart c).naming = true := by
  unfold headerNameStart
  split_ifs <;> rfl

theorem headerNameNext_naming {p : HttpParser} (h : p.headerState.naming = true) (ch c : UInt8) :
    (headerNameNext p ch c).Goes fun q => q.headerState.naming = true ∧ q.state = p.state := by
  cases hs : p.headerState <;> simp only [headerNameNext, hs]
  case general => exact ⟨h, rfl⟩
  case c | co | con => split_ifs <;> exact ⟨rfl, rfl⟩
  case matchingConnection | matchingProxyConnection | matchingContentLength
      | matchingTransferEncoding | matchingUpgrade =>
    exact matchNext_naming h _ _ rfl
  case connection | contentLength | transferEncoding | upgrade =>
    split_ifs
    · exact ⟨rfl, rfl⟩
    · exact ⟨h, rfl⟩
  all_goals
    rw [hs] at h
    cases h

theorem headerValueFirst_valued (p : HttpParser) (ch : UInt8) :
    (headerValueFirst p ch).Goes fun q => q.headerState.valued = true ∧ q.state = p.state := by
  cases hs : p.headerState <;> simp only [headerValueFirst, hs]
  case contentLength => exact .ite (fun _ => trivial) fun _ => ⟨rfl, rfl⟩
  case transferEncoding | connection => split_ifs <;> exact ⟨rfl, rfl⟩
  all_goals exact ⟨rfl, rfl⟩

theorem matchNext_valued {p : HttpParser} (h : p.headerState.valued = true) (c : UInt8)
    (word : Bytes) {full : HeaderState} (hf : full.valued = true) :
    (matchNext p c word full).headerState.valued = true ∧
      (matchNext p c word full).state = p.state := by
  dsimp only [matchNext]
  split_ifs
  · exact ⟨rfl, rfl⟩
  · exact ⟨hf, rfl⟩
  · exact ⟨h, rfl⟩

theorem pushDigit_goes (p : HttpParser) (base d : ℕ) : (pushDigit p base d).Goes fun q =>
    q.contentLength < ULLONG_MAX ∧ q.headerState = p.headerState ∧ q.state = p.state ∧
      q.flags = p.flags := by
  refine .ite (fun _ => trivial) fun h => ⟨?_, rfl, rfl, rfl⟩
  have hlt := Nat.mod_lt (p.contentLength * base % 2 ^ 64 + d) (show 0 < 2 ^ 64 by decide)
  have hne := (not_or.mp h).2
  unfold ULLONG_MAX at hne ⊢
  dsimp only
  omega

theorem headerValueNext_valued {p : HttpParser} (h : p.headerState.valued = true)
    (hp : p.state = .headerValue) (ch : UInt8) :
    (headerValueNext p ch).Goes fun q => q.headerState.valued = true ∧ q.state = .headerValue := by
  cases hs : p.headerState <;> simp only [headerValueNext, hs]
  case general => exact ⟨h, hp⟩
  case connection | transferEncoding =>
    rw [hs] at h
    cases h
  case contentLength =>
    refine .ite (fun _ => ⟨h, hp⟩) fun _ => .ite (fun _ => trivial) fun _ =>
      (pushDigit_goes ..).imp fun q hq => ?_
    exact ⟨hq.2.1 ▸ h, hq.2.2.1.trans hp⟩
  case matchingTransferEncodingChunked | matchingConnectionKeepAlive | matchingConnectionClose =>
    exact (matchNext_valued h _ _ rfl).imp_right (Eq.trans · hp)
  case transferEncodingChunked | connectionKeepAlive | connectionClose =>
    split_ifs
    · exact ⟨rfl, hp⟩
    · exact ⟨h, hp⟩
  all_goals exact ⟨rfl, rfl⟩

theorem unhex_lt (ch : UInt8) : (unhex ch).toNat < ULLONG_MAX := by
  have h : ∀ ch, (unhex ch).toNat < 16 := by
    set_option maxRecDepth 100000 in decide
  exact (h ch).trans (by decide)

theorem chunkSizeStart_fit {p : HttpParser} (hn : p.nread = 1) (hc : p.flags.chunked = true)
    (ch : UInt8) : (chunkSizeStart p ch).Goes HttpParser.Fit := by
  refine .ite (fun h => ?_) fun _ => .ite (fun _ => trivial) fun _ => ⟨hc, unhex_lt ch⟩
  exact h.elim (fun h => h hn) fun h => by simp [hc] at h

theorem chunkSize_fit {p : HttpParser} (hs : p.state = .chunkSize) (hc : p.flags.chunked = true)
    (hl : p.contentLength < ULLONG_MAX) (ch : UInt8) :
    (chunkSize p ch).Goes HttpParser.Fit := by
  refine .ite (fun h => by simp [hc] at h) fun _ => .ite (fun _ => ⟨hc, hl⟩) fun _ =>
    .ite (fun _ => .ite (fun _ => ⟨hc, hl⟩) fun _ => trivial) fun _ => ?_
  refine (pushDigit_goes ..).imp fun q hq => ?_
  unfold HttpParser.Fit
  rw [hq.2.2.1, hs]
  exact ⟨hq.2.2.2 ▸ hc, hq.1⟩

theorem chunkParameters_fit {p : HttpParser} (hf : p.Fit) (hc : p.flags.chunked = true)
    (hl : p.contentLength < ULLONG_MAX) (ch : UInt8) :
    (chunkParameters p ch).Goes HttpParser.Fit :=
  .ite (fun h => by simp [hc] at h) fun _ => .ite (fun _ => ⟨hc, hl⟩) fun _ => hf

theorem chunkSizeAlmostDone_fit {p : HttpParser} (hc : p.flags.chunked = true)
    (hl : p.contentLength < ULLONG_MAX) (ch : UInt8) :
    (chunkSizeAlmostDone p ch).Goes HttpParser.Fit :=
  .ite (fun h => by simp [hc] at h) fun _ => .ite (fun _ => trivial) fun _ =>
    .ite (fun _ => trivial) fun h0 => ⟨hc, Nat.pos_of_ne_zero h0, hl⟩

theorem chunkDataDone_fit {p : HttpParser} (hc : p.flags.chunked = true) (ch : UInt8) :
    (chunkDataDone p ch).Goes HttpParser.Fit :=
  .ite (fun h => by simp [hc] at h) fun _ => .ite (fun _ => trivial) fun _ => ⟨rfl, hc⟩

theorem callbackData_safe {k : Mark} {extra frag : Bytes} {er : ℕ} {c : Cfg σ}
    {go : Cfg σ → Flow σ} (he : c.parser.httpErrno = .ok) (hm : c.marks = .single k frag)
    (hgo : ∀ u, (go ⟨c.parser, u, .none⟩).Safe) : (callbackData S k extra er c go).Safe := by
  rw [callbackData, if_neg (not_not.mpr he), hm, Marks.get_single]
  dsimp only
  split_ifs
  · exact .inl Errno.noConfusion
  · rw [Marks.set_single]
    exact hgo _

theorem newMessage_free (p : HttpParser) : p.newMessage.free = true := by
  rw [HttpParser.newMessage]
  split_ifs <;> rfl

theorem init_fit (t : ParserType) : (HttpParser.init t).Fit := .of_free (by cases t <;> rfl)

theorem callbackMessageComplete_safe (hS : S.Returns) {er : ℕ} {c : Cfg σ} {go : Cfg σ → Flow σ}
    (hs : c.parser.Sound) (hf : c.parser.state.free = true) (hm : c.parser.state.mark = none)
    (hgo : ∀ p u, p.Sound → p.Fit → p.state.mark = none → (go ⟨p, u, c.marks⟩).Safe) :
    (callbackMessageComplete S er c go).Safe := by
  obtain ⟨r, p, u, hc, hp⟩ := hS.complete c.parser c.user
  have hsafe : p.Sound ∧ p.Fit ∧ p.state.mark = none := by
    obtain rfl | ⟨t, rfl⟩ := hp
    · exact ⟨hs, .of_free hf, hm⟩
    · exact ⟨⟨rfl, Nat.zero_le _⟩, init_fit t, init_mark t⟩
  rw [callbackMessageComplete, if_neg (not_not.mpr hs.errno), hc]
  dsimp only
  by_cases hr : r = 0
  · rw [if_neg (not_not.mpr hr), if_neg (not_not.mpr hsafe.1.errno)]
    exact hgo p u hsafe.1 hsafe.2.1 hsafe.2.2
  · rw [if_pos hr, if_pos (by exact Errno.noConfusion)]
    exact .inl Errno.noConfusion

theorem completeMessage_safe (hS : S.Returns) {er : ℕ} {c : Cfg σ} {go : Cfg σ → Flow σ}
    (hs : c.parser.Sound)
    (hgo : ∀ p u, p.Sound → p.Fit → p.state.mark = none → (go ⟨p, u, c.marks⟩).Safe) :
    (completeMessage S er c go).Safe :=
  callbackMessageComplete_safe hS ⟨hs.errno, hs.length⟩ (newMessage_free _)
    (newMessage_mark _).1 hgo

/-- A message that is over, with no fragment pending. -/
theorem completeMessage_on (hS : S.Returns) {er skip : ℕ} {c : Cfg σ} (hs : c.parser.Sound)
    (hm : c.marks = .none) : (completeMessage S er c (.next · skip)).Safe :=
  completeMessage_safe hS hs fun _ _ hs hf hmark => ⟨⟨hs, by rw [hm]; exact .none hmark⟩, hf⟩

theorem mark_url_free {s : State} (h : s.mark = some .url) : s.free = true := by
  cases s <;> first
    | rfl
    | cases h

theorem parseUrlChar_safe {c : Cfg σ} (h : c.parser.Sound) {frag : Bytes}
    (hm : c.marks = .single .url frag) (s : State) (ch : UInt8) :
    (if (c.goto (parseUrlChar s ch)).parser.state = .dead then
      Flow.fail (c.goto (parseUrlChar s ch)) .invalidUrl
    else .next (c.goto (parseUrlChar s ch)) 0).Safe := by
  refine .ite (fun _ => trivial) fun hd => ?_
  have hurl := (parseUrlChar_mark s ch).resolve_left hd
  exact ⟨⟨⟨h.errno, h.length⟩, by rw [Cfg.goto, hm]; exact .mark frag hurl⟩,
    .of_free (mark_url_free hurl)⟩

theorem urlFirst_safe {c : Cfg σ} (h : c.Safe) (hm : c.marks = .none) (ch : UInt8) :
    (urlFirst c ch).Safe := by
  refine .ite (fun _ => h) fun _ => ?_
  exact parseUrlChar_safe (c := c.mark .url) h.parser
    (by rw [Cfg.mark, hm, Marks.mark_none]) _ ch

theorem urlSchema_safe {c : Cfg σ} (h : c.parser.Sound) {frag : Bytes}
    (hm : c.marks = .single .url frag) (ch : UInt8) : (urlSchema c ch).Safe :=
  .ite (fun _ => trivial) fun _ => parseUrlChar_safe h hm _ ch

theorem urlRest_safe {c : Cfg σ} (h : c.parser.Sound) {frag : Bytes}
    (hm : c.marks = .single .url frag) (ch : UInt8) : (urlRest S c ch).Safe := by
  refine .ite (fun _ => ?_) fun _ => .ite (fun _ => ?_) fun _ => parseUrlChar_safe h hm _ ch
  · exact callbackData_safe h.errno hm fun u => ⟨⟨⟨h.errno, h.length⟩, .none rfl⟩, .of_free rfl⟩
  · refine callbackData_safe h.errno hm fun u => ⟨⟨⟨h.errno, h.length⟩, ?_⟩, .of_free ?_⟩
    · exact .none (by dsimp only; split_ifs <;> rfl)
    · dsimp only
      split_ifs <;> rfl

theorem headerField_safe {c : Cfg σ} (h : c.Safe) {frag : Bytes}
    (hs : c.parser.state = .headerField) (hm : c.marks = .single .headerField frag) (ch : UInt8) :
    (headerField S c ch).Safe := by
  have hp := h.parser
  have hf := h.fit
  unfold HttpParser.Fit at hf
  rw [hs] at hf
  refine .ite (fun _ => ?_) fun _ => .ite (fun _ => ?_) fun _ => .ite (fun _ => ?_) fun _ =>
    .ite (fun _ => ?_) fun _ => trivial
  · refine lift_safe ((headerNameNext_naming hf ch _).imp fun q hq => ?_)
      ((headerNameNext_sound hp ch _).imp fun q hq => ⟨hq.1, ?_⟩)
    · unfold HttpParser.Fit
      rw [hq.2, hs]
      exact hq.1
    · rw [hm, hq.2, hs]
      exact .mark frag rfl
  all_goals exact callbackData_safe hp.errno hm fun u =>
    ⟨⟨⟨hp.errno, hp.length⟩, .none rfl⟩, .of_free rfl⟩

theorem headerValueStart_safe {c : Cfg σ} (h : c.Safe) (hm : c.marks = .none) (ch : UInt8) :
    (headerValueStart S c ch).Safe := by
  have hp := h.parser
  have hk : c.marks.mark .headerValue = .single .headerValue [] := by rw [hm, Marks.mark_none]
  refine .ite (fun _ => h) fun _ => .ite (fun _ => ?_) fun _ => .ite (fun _ => ?_) fun _ => ?_
  · exact callbackData_safe hp.errno hk fun u =>
      ⟨⟨⟨hp.errno, hp.length⟩, .none rfl⟩, .of_free rfl⟩
  · exact callbackData_safe hp.errno hk fun u =>
      ⟨⟨⟨hp.errno, hp.length⟩, .none rfl⟩, .of_free rfl⟩
  · refine lift_safe ((headerValueFirst_valued _ ch).imp fun q hq => ?_)
      (Outcome.Ok.imp (headerValueFirst_sound ?_ ch) fun q hq => ⟨hq.1, ?_⟩)
    rotate_left
    · exact ⟨hp.errno, hp.length⟩
    · rw [hq.2]
      simp only [Cfg.mark, hk]
      exact .mark [] rfl
    · unfold HttpParser.Fit
      rw [hq.2]
      exact hq.1

theorem headerValue_safe {c : Cfg σ} (h : c.Safe) {frag : Bytes}
    (hs : c.parser.state = .headerValue) (hm : c.marks = .single .headerValue frag) (ch : UInt8) :
    (headerValue S c ch).Safe := by
  have hp := h.parser
  have hf := h.fit
  unfold HttpParser.Fit at hf
  rw [hs] at hf
  refine .ite (fun _ => ?_) fun _ => .ite (fun _ => ?_) fun _ => ?_
  · exact callbackData_safe hp.errno hm fun u =>
      ⟨⟨⟨hp.errno, hp.length⟩, .none rfl⟩, .of_free rfl⟩
  · refine callbackData_safe hp.errno hm fun u =>
      lift_free (headerAlmostDone_free _ ch) (headerAlmostDone_plain ?_ ch) rfl
    exact ⟨hp.errno, hp.length⟩
  · refine lift_safe ((headerValueNext_valued hf hs ch).imp fun q hq => ?_)
      ((headerValueNext_sound hp ch hs).imp fun q hq => ⟨hq.1, ?_⟩)
    · unfold HttpParser.Fit
      rw [hq.2]
      exact hq.1
    · rw [hm, hq.2]
      exact .mark frag rfl

theorem headersDone_safe (hS : S.Returns) {c : Cfg σ} (h : c.parser.Sound) (hm : c.marks = .none)
    (ch : UInt8) : (headersDone S c ch).Safe := by
  have hp : ∀ s : State, s.mark = none →
      ({ c with parser := { c.parser with nread := 0, state := s } } : Cfg σ).Sound :=
    fun s hs => ⟨⟨h.errno, h.length⟩, by rw [hm]; exact .none hs⟩
  refine .ite (fun _ => trivial) fun _ => .ite (fun _ => ?_) fun _ => .ite (fun _ => ?_) fun _ =>
    .ite (fun hc => ⟨hp _ rfl, rfl, hc⟩) fun _ => .ite (fun _ => ?_) fun h0 =>
    .ite (fun hmax => ⟨hp _ rfl, ?_⟩) fun _ => .ite (fun _ => ?_) fun _ => ⟨hp _ rfl, trivial⟩
  · exact completeMessage_safe hS ⟨h.errno, h.length⟩ fun _ _ hs hf _ => .inr ⟨hs, hf⟩
  · exact completeMessage_on hS ⟨h.errno, h.length⟩ hm
  · exact completeMessage_on hS ⟨h.errno, h.length⟩ hm
  · exact ⟨Nat.pos_of_ne_zero h0, lt_of_le_of_ne h.length hmax⟩
  · exact completeMessage_on hS ⟨h.errno, h.length⟩ hm

theorem headersAlmostDone_safe (hS : S.Returns) {c : Cfg σ} (h : c.parser.Sound)
    (hm : c.marks = .none) (ch : UInt8) : (headersAlmostDone S c ch).Safe := by
  refine .ite (fun _ => trivial) fun _ => .ite (fun _ => completeMessage_on hS h hm) fun _ =>
    .ite (fun _ => .ite (fun he => .inl he) fun _ => ?_) fun _ =>
    .ite (fun _ => .ite (fun he => .inl he) fun _ => ?_) fun _ => .inl Errno.noConfusion
  all_goals exact headersDone_safe hS (by exact ⟨h.errno, h.length⟩) (by exact hm) ch

theorem headerFieldStart_safe (hS : S.Returns) {c : Cfg σ} (h : c.parser.Sound)
    (hm : c.marks = .none) (ch : UInt8) : (headerFieldStart S c ch).Safe := by
  refine .ite (fun _ => ?_) fun _ => .ite (fun _ => ?_) fun _ => .ite (fun _ => trivial) fun _ => ?_
  · exact ⟨⟨⟨h.errno, h.length⟩, by simpa only [Cfg.goto, hm] using .none rfl⟩, trivial⟩
  · exact headersAlmostDone_safe hS (by exact ⟨h.errno, h.length⟩) (by exact hm) ch
  · refine ⟨⟨⟨h.errno, h.length⟩, ?_⟩, headerNameStart_naming _⟩
    simp only [Cfg.mark, hm, Marks.mark_none]
    exact .mark [] rfl

theorem bodyIdentity_safe (hS : S.Returns) {c : Cfg σ} (h : c.Safe)
    (hs : c.parser.state = .bodyIdentity) {frag : Bytes}
    (hm : c.marks.mark .body = .single .body frag) (ch : UInt8) (rest : Bytes) :
    (bodyIdentity S c ch rest).Safe := by
  have hp := h.parser
  have hf := h.fit
  unfold HttpParser.Fit at hf
  rw [hs] at hf
  obtain ⟨hpos, hlt⟩ := hf
  have hle := Nat.sub_le c.parser.contentLength (min c.parser.contentLength (ch :: rest).length)
  refine .ite (fun h0 => ?_) fun _ => .ite (fun _ => ?_) fun h0 => ?_
  · omega
  · exact callbackData_safe hp.errno hm fun u =>
      completeMessage_on hS ⟨hp.errno, hle.trans hp.length⟩ rfl
  · refine ⟨⟨⟨hp.errno, hle.trans hp.length⟩, ?_⟩, ?_⟩
    · simp only [Cfg.mark, hm, hs]
      exact .body frag rfl
    · unfold HttpParser.Fit
      dsimp only [Cfg.mark]
      rw [hs]
      exact ⟨Nat.pos_of_ne_zero h0, hle.trans_lt hlt⟩

theorem chunkData_safe {c : Cfg σ} (h : c.Safe) (hs : c.parser.state = .chunkData) {frag : Bytes}
    (hm : c.marks.mark .body = .single .body frag) (ch : UInt8) (rest : Bytes) :
    (chunkData c ch rest).Safe := by
  have hp := h.parser
  have hf := h.fit
  unfold HttpParser.Fit at hf
  rw [hs] at hf
  obtain ⟨hc, hpos, hlt⟩ := hf
  have hle := Nat.sub_le c.parser.contentLength (min c.parser.contentLength (ch :: rest).length)
  refine .ite (fun hno => by simp [hc] at hno) fun _ => .ite (fun h0 => ?_) fun _ => ?_
  · omega
  by_cases h0 : c.parser.contentLength - min c.parser.contentLength (ch :: rest).length = 0
  · simp only [h0, if_true, Cfg.mark, hm]
    exact ⟨⟨⟨hp.errno, Nat.zero_le _⟩, .body frag rfl⟩, hc, rfl⟩
  · simp only [h0, if_false, Cfg.mark, hm]
    refine ⟨⟨⟨hp.errno, hle.trans hp.length⟩, by rw [hs]; exact .body frag rfl⟩, ?_⟩
    unfold HttpParser.Fit
    dsimp only
    rw [hs]
    exact ⟨hc, Nat.pos_of_ne_zero h0, hle.trans_lt hlt⟩

theorem chunkDataAlmostDone_safe {c : Cfg σ} (h : c.Safe)
    (hs : c.parser.state = .chunkDataAlmostDone)
    (hm : c.marks = .none ∨ ∃ frag, c.marks = .single .body frag) (ch : UInt8) :
    (chunkDataAlmostDone S c ch).Safe := by
  have hp := h.parser
  have hf := h.fit
  unfold HttpParser.Fit at hf
  rw [hs] at hf
  obtain ⟨hc, h0⟩ := hf
  refine .ite (fun hno => by simp [hc, h0] at hno) fun _ => .ite (fun _ => trivial) fun _ => ?_
  obtain hm | ⟨frag, hm⟩ := hm
  · rw [callbackData_none (by exact hp.errno) (by simp [Cfg.goto, hm])]
    exact ⟨⟨⟨hp.errno, hp.length⟩, by simpa only [Cfg.goto, hm] using .none rfl⟩, hc⟩
  · exact callbackData_safe hp.errno hm fun u => ⟨⟨⟨hp.errno, hp.length⟩, .none rfl⟩, hc⟩

theorem notifyMessageBegin_safe {c : Cfg σ} {f : Flow σ} (he : c.parser.httpErrno = .ok)
    (h : f.Safe) : (notifyMessageBegin c f).Safe :=
  .ite (fun hne => absurd he hne) fun _ => h

/-- The `switch`, with the byte counted already if it is one of a head. -/
theorem exec_safe (hS : S.Returns) {c : Cfg σ} (h : c.Sound)
    (hstart : c.parser.state = .chunkSizeStart →
      c.parser.nread = 1 ∧ c.parser.flags.chunked = true)
    (hfit : c.parser.state ≠ .chunkSizeStart → c.parser.Fit) (ch : UInt8) (rest : Bytes) :
    (exec S c ch rest).Safe := by
  have hp : c.parser.Sound := h.parser
  have hmk := h.marked
  -- `assert(parser->nread == 1)` looks at the count behind this byte, so `Fit` is not what it needs
  by_cases hcs : c.parser.state = .chunkSizeStart
  · obtain ⟨hn, hc⟩ := hstart hcs
    have hm : c.marks = .none := hmk.eq_none (by rw [hcs]; rfl) (by rw [hcs]; rfl)
    simp only [exec, hcs]
    exact lift_fit (chunkSizeStart_fit hn hc ch) (chunkSizeStart_plain hp ch) hm
  have hsafe : c.Safe := ⟨h, hfit hcs⟩
  have hf := hfit hcs
  unfold HttpParser.Fit at hf
  cases hs : c.parser.state
  all_goals
    simp only [hs] at hf
    simp only [exec, hs]
  case headerField =>
    obtain ⟨frag, hm⟩ := hmk.eq_single (by rw [hs]; rfl) (by rw [hs]; rfl)
    exact headerField_safe hsafe hs hm ch
  case headerValue =>
    obtain ⟨frag, hm⟩ := hmk.eq_single (by rw [hs]; rfl) (by rw [hs]; rfl)
    exact headerValue_safe hsafe hs hm ch
  case bodyIdentity =>
    obtain ⟨frag, hm⟩ := hmk.mark_body (by rw [hs]; rfl)
    exact bodyIdentity_safe hS hsafe hs hm ch rest
  case chunkData =>
    obtain ⟨frag, hm⟩ := hmk.mark_body (by rw [hs]; rfl)
    exact chunkData_safe hsafe hs hm ch rest
  case bodyIdentityEof =>
    obtain ⟨frag, hm⟩ := hmk.mark_body (by rw [hs]; rfl)
    exact ⟨⟨hp, by simpa only [Cfg.mark, hm, hs] using .body frag rfl⟩,
      .of_free (congrArg State.free hs)⟩
  case chunkDataAlmostDone =>
    exact chunkDataAlmostDone_safe hsafe hs (hmk.body_or_none (by rw [hs]; rfl)) ch
  case reqSchema | reqSchemaSlash | reqSchemaSlashSlash | reqServerStart =>
    obtain ⟨frag, hm⟩ := hmk.eq_single (by rw [hs]; rfl) (by rw [hs]; rfl)
    exact urlSchema_safe hp hm ch
  case reqServer | reqServerWithAt | reqPath | reqQueryStringStart | reqQueryString
      | reqFragmentStart | reqFragment =>
    obtain ⟨frag, hm⟩ := hmk.eq_single (by rw [hs]; rfl) (by rw [hs]; rfl)
    exact urlRest_safe hp hm ch
  case chunkSizeStart => exact absurd hs hcs
  -- in all other states no mark is set
  all_goals
    have hm : c.marks = .none := hmk.eq_none (by rw [hs]; rfl) (by rw [hs]; rfl)
    have hq : c.parser.Plain := ⟨hp, by rw [hs]; rfl⟩
    have hstay : (Flow.next c 0).Safe := hsafe
    have hgo : ∀ s : State, s.mark = none → s.free = true → (Flow.next (c.goto s) 0).Safe :=
      fun s hs hfree => ⟨⟨⟨hp.errno, hp.length⟩, by simpa only [Cfg.goto, hm] using .none hs⟩,
        .of_free hfree⟩
  case chunkSize =>
    exact lift_fit (chunkSize_fit hs hf.1 hf.2 ch) (chunkSize_plain hq ch) hm
  case chunkParameters =>
    exact lift_fit (chunkParameters_fit hsafe.fit hf.1 hf.2 ch) (chunkParameters_plain hq ch) hm
  case chunkSizeAlmostDone =>
    exact lift_fit (chunkSizeAlmostDone_fit hf.1 hf.2 ch) (chunkSizeAlmostDone_plain hp ch) hm
  case chunkDataDone =>
    exact lift_fit (chunkDataDone_fit hf ch) (chunkDataDone_plain hp ch) hm
  -- and behind the chunk sizes no assertion is left
  all_goals have hfree : c.parser.state.free = true := congrArg State.free hs
  case startReqOrRes =>
    have hu : ULLONG_MAX ≤ ULLONG_MAX := le_refl _
    refine .ite (fun _ => hstay) fun _ => .ite (fun _ => ?_) fun _ => ?_
    · exact notifyMessageBegin_safe hp.errno
        ⟨⟨⟨hp.errno, hu⟩, by simpa only [hm] using .none rfl⟩, trivial⟩
    · exact notifyMessageBegin_safe hp.errno
        (lift_free (startReq_free rfl ch) (startReq_plain (by exact ⟨⟨hp.errno, hu⟩, rfl⟩) ch) hm)
  case dead => exact .ite (fun _ => hstay) fun _ => trivial
  case resOrRespH =>
    refine .ite (fun _ => ?_) fun _ => .ite (fun _ => trivial) fun _ => ?_
    all_goals exact ⟨⟨⟨hp.errno, hp.length⟩, by simpa only [hm] using .none rfl⟩, trivial⟩
  case startRes =>
    exact notifyMessageBegin_safe hp.errno
      (lift_free (startRes_free hfree ch) (startRes_plain hq ch) hm)
  case startReq =>
    exact notifyMessageBegin_safe hp.errno
      (lift_free (startReq_free hfree ch) (startReq_plain hq ch) hm)
  case resHttpMinor =>
    exact .ite (fun _ => hgo _ rfl rfl) fun _ =>
      lift_free (httpMinor_free hfree ch) (httpMinor_plain hq ch) hm
  case resFirstStatusCode =>
    refine .ite (fun _ => .ite (fun _ => hstay) fun _ => trivial) fun _ => ?_
    exact ⟨⟨⟨hp.errno, hp.length⟩, by simpa only [hm] using .none rfl⟩, trivial⟩
  case resStatus =>
    exact .ite (fun _ => hgo _ rfl rfl) fun _ => .ite (fun _ => hgo _ rfl rfl) fun _ => hstay
  case reqHttpMinor =>
    exact .ite (fun _ => hgo _ rfl rfl) fun _ => .ite (fun _ => hgo _ rfl rfl) fun _ =>
      lift_free (httpMinor_free hfree ch) (httpMinor_plain hq ch) hm
  case reqHttpStart =>
    exact .ite (fun _ => hgo _ rfl rfl) fun _ => .ite (fun _ => hstay) fun _ => trivial
  case reqLineAlmostDone => exact .ite (fun _ => trivial) fun _ => hgo _ rfl rfl
  case headerFieldStart => exact headerFieldStart_safe hS hp hm ch
  case headerValueStart => exact headerValueStart_safe hsafe hm ch
  case headerValueLws =>
    exact .ite (fun _ => hgo _ rfl rfl) fun _ =>
      headerFieldStart_safe hS (by exact ⟨hp.errno, hp.length⟩) (by exact hm) ch
  case headersAlmostDone => exact headersAlmostDone_safe hS hp hm ch
  case headersDone => exact headersDone_safe hS hp hm ch
  case messageDone => exact completeMessage_on hS hp hm
  case reqSpacesBeforeUrl => exact urlFirst_safe hsafe hm ch
  case reqMethod => exact lift_free (reqMethod_free hfree ch) (reqMethod_plain hq ch) hm
  case resStatusCode => exact lift_free (resStatusCode_free hfree ch) (resStatusCode_plain hq ch) hm
  case headerAlmostDone =>
    exact lift_free (headerAlmostDone_free _ ch) (headerAlmostDone_plain hp ch) hm
  case resFirstHttpMajor | reqFirstHttpMajor =>
    exact lift_free (firstMajor_free _ _ rfl) (firstMajor_plain hp _ _ rfl) hm
  case resHttpMajor | reqHttpMajor =>
    exact lift_free (httpMajor_free hfree _ rfl) (httpMajor_plain hq _ rfl) hm
  case resFirstHttpMinor | reqFirstHttpMinor =>
    exact lift_free (firstMinor_free _ rfl) (firstMinor_plain hp _ rfl) hm
  all_goals exact lift_free (strictNext_free _ _ rfl) (strictNext_plain hp _ _ rfl) hm

theorem turn_safe (hS : S.Returns) {c : Cfg σ} (h : c.Safe) (ch : UInt8) (rest : Bytes) :
    (turn S c ch rest).Safe := by
  have hstart : c.parser.state = .chunkSizeStart →
      c.countByte.parser.nread = 1 ∧ c.parser.flags.chunked = true := by
    intro hs
    have hf := h.fit
    unfold HttpParser.Fit at hf
    rw [hs] at hf
    exact ⟨congrArg (· + 1) hf.1, hf.2⟩
  refine .ite (fun hpar => ?_) fun _ => .ite (fun _ => trivial) fun _ => ?_
  · refine exec_safe hS h.toSound (fun hs => ?_) (fun _ => h.fit) ch rest
    rw [hs] at hpar
    cases hpar
  · refine exec_safe (c := c.countByte) hS ⟨⟨h.parser.errno, h.parser.length⟩, h.marked⟩ hstart
      (fun hs => ?_) ch rest
    have hf := h.fit
    unfold HttpParser.Fit at hf ⊢
    change c.parser.state ≠ .chunkSizeStart at hs
    dsimp only [Cfg.countByte]
    cases hst : c.parser.state
    case chunkSizeStart => exact absurd hst hs
    all_goals
      rw [hst] at hf
      exact hf

theorem Marked.single_or_none {s : State} {m : Marks} (h : Marked s m) :
    m = .none ∨ ∃ k frag, m = .single k frag := by
  cases h with
  | mark frag => exact .inr ⟨_, frag, rfl⟩
  | body frag => exact .inr ⟨_, frag, rfl⟩
  | none => exact .inl rfl

/-- At the end of the buffer at most one fragment is pending. -/
theorem leftover_safe {c : Cfg σ} (h : c.Safe) (len : ℕ) :
    ∃ n p u, leftover S len c = some (n, p, u) ∧ p.Safe := by
  have he := h.parser.errno
  have hs : c.parser.Safe := .inr ⟨h.parser, h.fit⟩
  -- the assertion counts the marks that are set: one at most
  have hend : ∀ k frag, c.marks = .single k frag →
      ∃ n p u, leftover S len c = some (n, p, u) ∧ p.Safe := by
    intro k frag hm
    unfold leftover
    rw [hm, Marks.count_single, if_neg (by decide)]
    dsimp only
    cases k <;> simp only [callbackData, he, hm, ne_eq, not_true_eq_false, if_false,
      Marks.get_single, Marks.get_single_ne, Marks.set_single, Marks.get_none, reduceCtorEq,
      not_false_eq_true]
    all_goals split_ifs <;> first
      | exact ⟨_, _, _, rfl, hs⟩
      | exact ⟨_, _, _, rfl, .inl Errno.noConfusion⟩
  obtain hm | ⟨k, frag, hm⟩ := h.marked.single_or_none
  · unfold leftover
    rw [hm, Marks.count_none, if_neg (by decide)]
    simp only [callbackData, he, hm, ne_eq, not_true_eq_false, if_false, Marks.get_none]
    exact ⟨_, _, _, rfl, hs⟩
  · exact hend k frag hm

theorem Cfg.Safe.push {c : Cfg σ} (h : c.Safe) (bs : Bytes) :
    Cfg.Safe { c with marks := c.marks.push bs } :=
  ⟨⟨h.parser, h.marked.push bs⟩, h.fit⟩

theorem loop_safe (hS : S.Returns) (data : Bytes) {c : Cfg σ} (h : c.Safe) (skip pos : ℕ) :
    ∃ n p u, loop S c skip pos data = some (n, p, u) ∧ p.Safe := by
  induction data generalizing c skip pos with
  | nil =>
    cases skip <;> exact leftover_safe h pos
  | cons ch rest ih =>
    cases skip with
    | succ skip => exact ih (h.push [ch]) skip (pos + 1)
    | zero =>
      have ht := turn_safe hS h ch rest
      have hstop := turn_stops (S := S) c ch rest
      rw [loop]
      cases hf : turn S c ch rest <;> simp only [hf] at ht hstop ⊢
      case next d skip => exact ih (Cfg.Safe.push ht [ch]) skip (pos + 1)
      case fail d e => exact ⟨_, _, _, rfl, .inl hstop⟩
      case ret d adv => exact ⟨_, _, _, rfl, ht⟩
      case abort => exact ht.elim

/-- A safe parser is safe to call again, with any bytes or none. -/
theorem execute_safe (hS : S.Returns) {p : HttpParser} (h : p.Safe) (u : σ) (data : Bytes) :
    ∃ n p' u', httpParserExecute S p u data = some (n, p', u') ∧ p'.Safe := by
  rw [httpParserExecute]
  split_ifs with he hd
  · exact ⟨_, _, _, rfl, h⟩
  · obtain ⟨hs, hf⟩ := h.resolve_left he
    unfold executeEof
    cases hst : p.state
    case bodyIdentityEof =>
      obtain ⟨r, q, v, hc, hq⟩ := hS.complete p u
      have hsafe : q.Safe := by
        obtain rfl | ⟨t, rfl⟩ := hq
        · exact h
        · exact .inr ⟨⟨rfl, Nat.zero_le _⟩, init_fit t⟩
      have he' : p.httpErrno = .ok := hs.errno
      simp only [callbackMessageComplete, he', ne_eq, not_true_eq_false, if_false, hc]
      split_ifs <;> first
        | exact ⟨_, _, _, rfl, hsafe⟩
        | exact ⟨_, _, _, rfl, .inl Errno.noConfusion⟩
    case dead | startReqOrRes | startRes | startReq => exact ⟨_, _, _, rfl, h⟩
    all_goals exact ⟨_, _, _, rfl, .inl Errno.noConfusion⟩
  · obtain ⟨hs, hf⟩ := h.resolve_left he
    exact loop_safe hS data ⟨⟨hs, marked_entryMarks _⟩, hf⟩ 0 0

/-- The parsers that calls lead to: whatever the bytes, the ends of streams, what the callbacks do
to the user state and what is done to it between two calls. -/
inductive Called (S : Settings σ) : HttpParser → Prop
  | init (t : ParserType) : Called S (.init t)
  | call {p p' : HttpParser} {u u' : σ} {data : Bytes} {n : ℕ} (h : Called S p)
    (hx : httpParserExecute S p u data = some (n, p', u')) : Called S p'

theorem Called.safe (hS : S.Returns) {p : HttpParser} (h : Called S p) : p.Safe := by
  induction h with
  | init t => exact .inr ⟨⟨rfl, Nat.zero_le _⟩, init_fit t⟩
  | call _ hx ih =>
    obtain ⟨n, p', u', hx', hs⟩ := execute_safe hS ih _ _
    obtain ⟨-, rfl, -⟩ := Prod.mk.injEq .. ▸ Prod.mk.injEq .. ▸ Option.some.inj (hx.symm.trans hx')
    exact hs

/-- No assertion of `http_parser_execute` can fail. -/
theorem Called.never_aborts (hS : S.Returns) {p : HttpParser} (h : Called S p) (u : σ)
    (data : Bytes) : httpParserExecute S p u data ≠ none := by
  obtain ⟨n, p', u', hx, -⟩ := execute_safe hS (h.safe hS) u data
  rw [hx]
  exact Option.some_ne_none _

/-- One more piece of data, the last first; a piece that goes on is one with what came before it. -/
def record (k : Mark) (frag : Bytes) : List (Mark × Bytes) → List (Mark × Bytes)
  | [] => [(k, frag)]
  | (k', f) :: u => if k' = k then (k, f ++ frag) :: u else (k, frag) :: (k', f) :: u

theorem record_append (k : Mark) (f g : Bytes) (u : List (Mark × Bytes)) :
    record k (f ++ g) u = record k g (record k f u) := by
  cases u with
  | nil => simp only [record, if_true]
  | cons e u =>
    by_cases hk : e.1 = k
    · simp only [record, if_pos hk, if_true, List.append_assoc]
    · simp only [record, if_neg hk, if_true]

/-- Callbacks that keep the data they are given. -/
def Settings.recording : Settings (List (Mark × Bytes)) where
  onData k frag u := (0, record k frag u)
  onHeadersComplete _ u := (0, u)
  onMessageComplete p u := some (0, p, u)

theorem Settings.recording_returns : Settings.recording.Returns :=
  ⟨fun p u => ⟨0, p, u, rfl, .inl rfl⟩⟩

/-- The parser waits for the rest of a body, and another message follows. -/
theorem Called.never_aborts_body : ∃ n p u, httpParserExecute Settings.recording (.init .request) []
      (ascii "PUT / HTTP/1.1\r\nContent-Length: 5\r\n\r\nhe") = some (n, p, u) ∧
    p.state = .bodyIdentity ∧ u.head? = some (.body, ascii "he") ∧
    httpParserExecute Settings.recording p u (ascii "lloGET") ≠ none := by
  have hrun : (httpParserExecute Settings.recording (.init .request) []
      (ascii "PUT / HTTP/1.1\r\nContent-Length: 5\r\n\r\nhe")).map (fun r =>
        (r.2.1.state, r.2.2.head?)) = some (.bodyIdentity, some (.body, ascii "he")) := by
    decide +kernel
  obtain ⟨⟨n, p, u⟩, hx, hr⟩ := Option.map_eq_some_iff.mp hrun
  obtain ⟨hs, hu⟩ := Prod.mk.injEq .. ▸ hr
  exact ⟨n, p, u, hx, hs, hu,
    Called.never_aborts Settings.recording_returns (.call (.init .request) hx) u (ascii "lloGET")⟩

end Stutter.Joyent
