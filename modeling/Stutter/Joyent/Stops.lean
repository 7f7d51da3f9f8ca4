import Stutter.Joyent.Execute

namespace Stutter.Joyent

variable {σ : Type} {S : Settings σ}

/-- Why bytes are left over: an error, or the message is one after which another protocol
follows. -/
def Stopped (S : Settings σ) (p : HttpParser) (u : σ) : Prop :=
  p.httpErrno ≠ .ok ∨ ∃ q v, q.upgrade = true ∧ S.onMessageComplete q v = some (0, p, u)

/-- A turn that ends the loop ends it for such a reason. -/
def Flow.Stops (S : Settings σ) : Flow σ → Prop
  | .fail _ e => e ≠ .ok
  | .ret c _ => Stopped S c.parser c.user
  | .next _ _ | .abort => True

def Outcome.Fails : Outcome → Prop
  | .fail _ e => e ≠ .ok
  | .ok _ | .abort => True

theorem Outcome.Fails.ite {b : Prop} [Decidable b] {o o' : Outcome} (h : o.Fails) (h' : o'.Fails) :
    (if b then o else o').Fails := by
  split_ifs
  · exact h
  · exact h'

theorem lift_stops {o : Outcome} (h : o.Fails) (c : Cfg σ) : (c.lift o).Stops S := by
  cases o with
  | fail => exact h
  | ok | abort => trivial

theorem fail_stops {c : Cfg σ} {e : Errno} (h : e ≠ .ok) : (Flow.fail c e).Stops S := h

theorem notifyMessageBegin_stops {c : Cfg σ} {f : Flow σ} (h : f.Stops S) :
    (notifyMessageBegin c f).Stops S := by
  rw [notifyMessageBegin]
  split_ifs
  · trivial
  · exact h

theorem callbackData_stops {k : Mark} {extra : Bytes} {er : ℕ} {c : Cfg σ} {go : Cfg σ → Flow σ}
    (hgo : ∀ c, (go c).Stops S) : (callbackData S k extra er c go).Stops S := by
  rw [callbackData]
  split_ifs
  · trivial
  · cases c.marks.get k with
    | none => exact hgo c
    | some frag =>
      dsimp only
      split_ifs
      · exact .inl Errno.noConfusion
      · exact hgo _

theorem callbackMessageComplete_stops {er : ℕ} {c : Cfg σ} {go : Cfg σ → Flow σ}
    (hgo : ∀ p u, S.onMessageComplete c.parser c.user = some (0, p, u) →
      (go { c with parser := p, user := u }).Stops S) :
    (callbackMessageComplete S er c go).Stops S := by
  rw [callbackMessageComplete]
  split_ifs
  · trivial
  · cases hc : S.onMessageComplete c.parser c.user with
    | none => trivial
    | some r =>
      obtain ⟨r, p, u⟩ := r
      dsimp only
      by_cases hr : r = 0
      · subst hr
        rw [if_neg (not_not.mpr rfl)]
        split_ifs with he
        · exact .inl he
        · exact hgo p u hc
      · rw [if_pos hr, if_pos (by exact Errno.noConfusion)]
        exact .inl Errno.noConfusion

theorem completeMessage_stops {er : ℕ} {c : Cfg σ} {go : Cfg σ → Flow σ}
    (hgo : ∀ p u, S.onMessageComplete (c.parser.goto c.parser.newMessage) c.user = some (0, p, u) →
      (go { c with parser := p, user := u }).Stops S) : (completeMessage S er c go).Stops S :=
  callbackMessageComplete_stops (by exact hgo)

theorem headersDone_stops (c : Cfg σ) (ch : UInt8) : (headersDone S c ch).Stops S := by
  rw [headersDone]
  dsimp only
  split_ifs with h₁ h₂
  · exact Errno.noConfusion
  · exact completeMessage_stops fun p u hc => .inr ⟨_, _, by exact h₂, hc⟩
  all_goals first
    | trivial
    | exact completeMessage_stops fun _ _ _ => trivial

theorem headersAlmostDone_stops (c : Cfg σ) (ch : UInt8) : (headersAlmostDone S c ch).Stops S := by
  rw [headersAlmostDone]
  dsimp only
  split_ifs with h₁ h₂ h₃ h₄
  · exact Errno.noConfusion
  · exact completeMessage_stops fun _ _ _ => trivial
  all_goals first
    | exact headersDone_stops _ ch
    | exact .inl Errno.noConfusion
    | exact .inl (by assumption)

theorem headerFieldStart_stops (c : Cfg σ) (ch : UInt8) : (headerFieldStart S c ch).Stops S := by
  rw [headerFieldStart]
  split_ifs <;> first
    | trivial
    | exact headersAlmostDone_stops _ ch
    | exact fail_stops Errno.noConfusion

theorem next_stops (n : ℕ) (c : Cfg σ) : (Flow.next c n).Stops S := trivial

theorem fails_headerNameNext (p : HttpParser) (ch c : UInt8) : (headerNameNext p ch c).Fails := by
  rw [headerNameNext]
  cases p.headerState <;> trivial

theorem fails_headerValueFirst (p : HttpParser) (ch : UInt8) : (headerValueFirst p ch).Fails := by
  rw [headerValueFirst]
  cases p.headerState <;> first
    | trivial
    | exact .ite Errno.noConfusion trivial

theorem fails_pushDigit (p : HttpParser) (base d : ℕ) : (pushDigit p base d).Fails :=
  .ite Errno.noConfusion trivial

theorem fails_headerValueNext (p : HttpParser) (ch : UInt8) : (headerValueNext p ch).Fails := by
  rw [headerValueNext]
  cases p.headerState <;> first
    | trivial
    | exact .ite trivial (.ite Errno.noConfusion (fails_pushDigit ..))

theorem fails_headerAlmostDone (p : HttpParser) (ch : UInt8) : (headerAlmostDone p ch).Fails := by
  refine .ite Errno.noConfusion ?_
  dsimp only [HttpParser.goto]
  cases p.headerState <;> trivial

theorem fails_startReq (p : HttpParser) (ch : UInt8) : (startReq p ch).Fails := by
  rw [startReq]
  repeat' refine Outcome.Fails.ite ?_ ?_
  all_goals first
    | trivial
    | exact Errno.noConfusion

theorem fails_reqMethod (p : HttpParser) (ch : UInt8) : (reqMethod p ch).Fails := by
  rw [reqMethod]
  repeat' refine Outcome.Fails.ite ?_ ?_
  all_goals first
    | trivial
    | exact Errno.noConfusion

theorem fails_resStatusCode (p : HttpParser) (ch : UInt8) : (resStatusCode p ch).Fails := by
  rw [resStatusCode]
  repeat' refine Outcome.Fails.ite ?_ ?_
  all_goals first
    | trivial
    | exact Errno.noConfusion

theorem fails_startRes (p : HttpParser) (ch : UInt8) : (startRes p ch).Fails :=
  .ite trivial (.ite trivial Errno.noConfusion)

theorem fails_strictNext (p : HttpParser) (want ch : UInt8) (s : State) :
    (strictNext p want ch s).Fails :=
  .ite Errno.noConfusion trivial

theorem fails_firstMajor (p : HttpParser) (ch least : UInt8) (s : State) :
    (firstMajor p ch least s).Fails :=
  .ite Errno.noConfusion trivial

theorem fails_firstMinor (p : HttpParser) (ch : UInt8) (s : State) : (firstMinor p ch s).Fails :=
  .ite Errno.noConfusion trivial

theorem fails_httpMajor (p : HttpParser) (ch : UInt8) (dot : State) : (httpMajor p ch dot).Fails :=
  .ite trivial (.ite Errno.noConfusion (.ite Errno.noConfusion trivial))

theorem fails_httpMinor (p : HttpParser) (ch : UInt8) : (httpMinor p ch).Fails :=
  .ite Errno.noConfusion (.ite Errno.noConfusion trivial)

theorem fails_chunkSizeStart (p : HttpParser) (ch : UInt8) : (chunkSizeStart p ch).Fails :=
  .ite trivial (.ite Errno.noConfusion trivial)

theorem fails_chunkSize (p : HttpParser) (ch : UInt8) : (chunkSize p ch).Fails :=
  .ite trivial (.ite trivial (.ite (.ite trivial Errno.noConfusion) (fails_pushDigit ..)))

theorem fails_chunkParameters (p : HttpParser) (ch : UInt8) : (chunkParameters p ch).Fails :=
  .ite trivial (.ite trivial trivial)

theorem fails_chunkSizeAlmostDone (p : HttpParser) (ch : UInt8) :
    (chunkSizeAlmostDone p ch).Fails :=
  .ite trivial (.ite Errno.noConfusion (.ite trivial trivial))

theorem fails_chunkDataDone (p : HttpParser) (ch : UInt8) : (chunkDataDone p ch).Fails :=
  .ite trivial (.ite Errno.noConfusion trivial)

theorem exec_stops (c : Cfg σ) (ch : UInt8) (rest : Bytes) : (exec S c ch rest).Stops S := by
  rw [exec]
  dsimp only
  cases c.parser.state <;> dsimp only
  case headerFieldStart => exact headerFieldStart_stops c ch
  case headerValueLws =>
    rw [headerValueLws]
    split_ifs
    · trivial
    · exact headerFieldStart_stops _ ch
  case headersAlmostDone => exact headersAlmostDone_stops c ch
  case headersDone => exact headersDone_stops c ch
  case messageDone => exact completeMessage_stops fun _ _ _ => trivial
  case reqMethod => exact lift_stops (fails_reqMethod ..) c
  case startReq => exact notifyMessageBegin_stops (lift_stops (fails_startReq ..) c)
  case startRes => exact notifyMessageBegin_stops (lift_stops (fails_startRes ..) c)
  case resStatusCode => exact lift_stops (fails_resStatusCode ..) c
  case headerAlmostDone => exact lift_stops (fails_headerAlmostDone ..) c
  case startReqOrRes =>
    split_ifs
    · trivial
    · exact notifyMessageBegin_stops trivial
    · exact notifyMessageBegin_stops (lift_stops (fails_startReq ..) c)
  case headerField =>
    rw [headerField]
    split_ifs
    · exact lift_stops (fails_headerNameNext ..) c
    all_goals first
      | exact callbackData_stops (next_stops 0)
      | exact fail_stops Errno.noConfusion
  case headerValueStart =>
    rw [headerValueStart]
    dsimp only
    split_ifs
    · trivial
    · exact callbackData_stops (next_stops 0)
    · exact callbackData_stops (next_stops 0)
    · exact lift_stops (fails_headerValueFirst ..) _
  case headerValue =>
    rw [headerValue]
    split_ifs
    · exact callbackData_stops (next_stops 0)
    · exact callbackData_stops fun c => lift_stops (fails_headerAlmostDone ..) c
    · exact lift_stops (fails_headerValueNext ..) _
  case bodyIdentity =>
    rw [bodyIdentity]
    dsimp only
    split_ifs
    · trivial
    · exact callbackData_stops fun _ => completeMessage_stops fun _ _ _ => trivial
    · trivial
  case chunkData =>
    rw [chunkData]
    dsimp only
    split_ifs <;> trivial
  case chunkDataAlmostDone =>
    rw [chunkDataAlmostDone]
    split_ifs
    · trivial
    · exact Errno.noConfusion
    · exact callbackData_stops (next_stops 0)
  case reqServer | reqServerWithAt | reqPath | reqQueryStringStart | reqQueryString |
      reqFragmentStart | reqFragment =>
    rw [urlRest]
    dsimp only
    split_ifs <;> first
      | trivial
      | exact callbackData_stops (next_stops 0)
      | exact fail_stops Errno.noConfusion
  case reqSpacesBeforeUrl =>
    rw [urlFirst]
    dsimp only
    split_ifs <;> first
      | trivial
      | exact fail_stops Errno.noConfusion
  case reqSchema | reqSchemaSlash | reqSchemaSlashSlash | reqServerStart =>
    rw [urlSchema]
    dsimp only
    split_ifs <;> first
      | trivial
      | exact fail_stops Errno.noConfusion
  all_goals first
    | trivial
    | exact lift_stops (fails_strictNext ..) c
    | exact lift_stops (fails_firstMajor ..) c
    | exact lift_stops (fails_firstMinor ..) c
    | exact lift_stops (fails_httpMajor ..) c
    | exact lift_stops (fails_chunkSizeStart ..) c
    | exact lift_stops (fails_chunkSize ..) c
    | exact lift_stops (fails_chunkParameters ..) c
    | exact lift_stops (fails_chunkSizeAlmostDone ..) c
    | exact lift_stops (fails_chunkDataDone ..) c
    | split_ifs <;> first
        | trivial
        | exact fail_stops Errno.noConfusion
        | exact lift_stops (fails_httpMinor ..) c

theorem turn_stops (c : Cfg σ) (ch : UInt8) (rest : Bytes) : (turn S c ch rest).Stops S := by
  rw [turn]
  split_ifs
  · exact exec_stops c ch rest
  · exact fail_stops Errno.noConfusion
  · exact exec_stops _ ch rest

theorem loop_stops (data : Bytes) {c : Cfg σ} {skip pos n : ℕ} {p : HttpParser} {u : σ}
    (h : loop S c skip pos data = some (n, p, u)) (hn : n < pos + data.length) : Stopped S p u := by
  induction data generalizing c skip pos with
  | nil =>
    have hl : leftover S pos c = some (n, p, u) := by
      cases skip <;> exact h
    rw [leftover] at hl
    dsimp only at hl
    split_ifs at hl
    generalize (callbackData S .headerField [] 0 _ _) = f at hl
    rw [List.length_nil] at hn
    cases f with
    | next | fail =>
      obtain ⟨rfl, -⟩ := Prod.mk.injEq .. ▸ Option.some.inj hl
      omega
    | ret c adv =>
      obtain ⟨rfl, -⟩ := Prod.mk.injEq .. ▸ Option.some.inj hl
      omega
    | abort => cases hl
  | cons ch rest ih =>
    rw [List.length_cons] at hn
    cases skip with
    | succ skip => exact ih h (by omega)
    | zero =>
      have ht := turn_stops (S := S) c ch rest
      rw [loop] at h
      cases hf : turn S c ch rest <;> simp only [hf] at h ht
      case next d skip => exact ih h (by omega)
      case fail d e =>
        obtain ⟨-, rfl, -⟩ := Prod.mk.injEq .. ▸ Prod.mk.injEq .. ▸ Option.some.inj h
        exact .inl ht
      case ret d adv =>
        obtain ⟨-, rfl, rfl⟩ := Prod.mk.injEq .. ▸ Prod.mk.injEq .. ▸ Option.some.inj h
        exact ht
      case abort => cases h

/-- Where `http_parser_execute` reads fewer bytes than it is given, there is a reason. -/
theorem execute_stops {data : Bytes} {p p' : HttpParser} {u u' : σ} {n : ℕ}
    (h : httpParserExecute S p u data = some (n, p', u')) (hn : n < data.length) :
    Stopped S p' u' := by
  rw [httpParserExecute] at h
  split_ifs at h with he hd
  · obtain ⟨-, rfl, -⟩ := Prod.mk.injEq .. ▸ Prod.mk.injEq .. ▸ Option.some.inj h
    exact .inl he
  · rw [hd] at hn
    exact absurd hn (Nat.not_lt_zero n)
  · exact loop_stops data h (by rwa [Nat.zero_add])

end Stutter.Joyent
