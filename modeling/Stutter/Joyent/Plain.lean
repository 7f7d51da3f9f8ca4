import Stutter.Joyent.Marks

namespace Stutter.Joyent

/-- A parser that has met no error. -/
structure HttpParser.Sound (p : HttpParser) : Prop where
  errno : p.httpErrno = .ok
  length : p.contentLength ≤ ULLONG_MAX

/-- What a `case` leaves that runs no callback and starts no mark. -/
structure HttpParser.Plain (p : HttpParser) : Prop where
  sound : p.Sound
  mark : p.state.mark = none

/-- What holds of the parser after `break`. -/
def Outcome.Ok (Q : HttpParser → Prop) : Outcome → Prop
  | .ok p => Q p
  | _ => True

theorem Outcome.Ok.imp {Q R : HttpParser → Prop} {o : Outcome} (h : o.Ok Q)
    (hi : ∀ p, Q p → R p) : o.Ok R := by
  cases o with
  | ok p => exact hi p h
  | fail => trivial
  | abort => trivial

theorem Outcome.Ok.ite {Q : HttpParser → Prop} {b : Prop} [Decidable b] {o o' : Outcome}
    (h : b → o.Ok Q) (h' : ¬ b → o'.Ok Q) : (if b then o else o').Ok Q := by
  by_cases hb : b
  · simpa only [if_pos hb] using h hb
  · simpa only [if_neg hb] using h' hb

theorem strictNext_plain {p : HttpParser} (h : p.Sound) (want ch : UInt8) {s : State}
    (hs : s.mark = none) : (strictNext p want ch s).Ok HttpParser.Plain :=
  .ite (fun _ => trivial) fun _ => ⟨⟨h.errno, h.length⟩, hs⟩

theorem startReq_plain {p : HttpParser} (h : p.Plain) (ch : UInt8) :
    (startReq p ch).Ok HttpParser.Plain := by
  have hu : ULLONG_MAX ≤ ULLONG_MAX := le_refl _
  dsimp only [startReq]
  repeat' refine .ite (fun _ => ?_) fun _ => ?_
  all_goals first | trivial | exact h | exact ⟨⟨h.sound.errno, hu⟩, rfl⟩

theorem startRes_plain {p : HttpParser} (h : p.Plain) (ch : UInt8) :
    (startRes p ch).Ok HttpParser.Plain := by
  have hu : ULLONG_MAX ≤ ULLONG_MAX := le_refl _
  dsimp only [startRes]
  repeat' refine .ite (fun _ => ?_) fun _ => ?_
  · exact ⟨⟨h.sound.errno, hu⟩, rfl⟩
  · exact ⟨⟨h.sound.errno, hu⟩, h.mark⟩
  · trivial

theorem reqMethod_plain {p : HttpParser} (h : p.Plain) (ch : UInt8) :
    (reqMethod p ch).Ok HttpParser.Plain := by
  dsimp only [reqMethod]
  repeat' refine .ite (fun _ => ?_) fun _ => ?_
  all_goals first
    | trivial
    | exact ⟨⟨h.sound.errno, h.sound.length⟩, h.mark⟩
    | exact ⟨⟨h.sound.errno, h.sound.length⟩, rfl⟩

theorem resStatusCode_plain {p : HttpParser} (h : p.Plain) (ch : UInt8) :
    (resStatusCode p ch).Ok HttpParser.Plain := by
  dsimp only [resStatusCode]
  repeat' refine .ite (fun _ => ?_) fun _ => ?_
  all_goals first
    | trivial
    | exact ⟨⟨h.sound.errno, h.sound.length⟩, h.mark⟩
    | exact ⟨⟨h.sound.errno, h.sound.length⟩, rfl⟩

theorem firstMajor_plain {p : HttpParser} (h : p.Sound) (ch least : UInt8) {s : State}
    (hs : s.mark = none) : (firstMajor p ch least s).Ok HttpParser.Plain :=
  .ite (fun _ => trivial) fun _ => ⟨⟨h.errno, h.length⟩, hs⟩

theorem firstMinor_plain {p : HttpParser} (h : p.Sound) (ch : UInt8) {s : State}
    (hs : s.mark = none) : (firstMinor p ch s).Ok HttpParser.Plain :=
  .ite (fun _ => trivial) fun _ => ⟨⟨h.errno, h.length⟩, hs⟩

theorem httpMajor_plain {p : HttpParser} (h : p.Plain) (ch : UInt8) {dot : State}
    (hs : dot.mark = none) : (httpMajor p ch dot).Ok HttpParser.Plain :=
  .ite (fun _ => ⟨⟨h.sound.errno, h.sound.length⟩, hs⟩) fun _ =>
    .ite (fun _ => trivial) fun _ =>
      .ite (fun _ => trivial) fun _ => ⟨⟨h.sound.errno, h.sound.length⟩, h.mark⟩

theorem httpMinor_plain {p : HttpParser} (h : p.Plain) (ch : UInt8) :
    (httpMinor p ch).Ok HttpParser.Plain :=
  .ite (fun _ => trivial) fun _ =>
    .ite (fun _ => trivial) fun _ => ⟨⟨h.sound.errno, h.sound.length⟩, h.mark⟩

theorem headerAlmostDone_plain {p : HttpParser} (h : p.Sound) (ch : UInt8) :
    (headerAlmostDone p ch).Ok HttpParser.Plain := by
  refine .ite (fun _ => trivial) fun _ => ?_
  cases hs : p.headerState <;> simp only [HttpParser.goto, hs] <;>
    exact ⟨⟨h.errno, h.length⟩, rfl⟩

theorem unhex_le : ∀ ch, (unhex ch).toNat ≤ ULLONG_MAX := by
  set_option maxRecDepth 100000 in decide

theorem chunkSizeStart_plain {p : HttpParser} (h : p.Sound) (ch : UInt8) :
    (chunkSizeStart p ch).Ok HttpParser.Plain :=
  .ite (fun _ => trivial) fun _ =>
    .ite (fun _ => trivial) fun _ => ⟨⟨h.errno, unhex_le ch⟩, rfl⟩

theorem pushDigit_sound {p : HttpParser} (h : p.Sound) (base d : ℕ) :
    (pushDigit p base d).Ok fun q => q.Sound ∧ q.state = p.state :=
  .ite (fun _ => trivial) fun _ =>
    ⟨⟨h.errno, Nat.le_sub_one_of_lt (Nat.mod_lt _ (by decide))⟩, rfl⟩

theorem chunkSize_plain {p : HttpParser} (h : p.Plain) (ch : UInt8) :
    (chunkSize p ch).Ok HttpParser.Plain := by
  refine .ite (fun _ => trivial) fun _ => .ite (fun _ => ?_) fun _ => .ite (fun _ => ?_) fun _ => ?_
  · exact ⟨⟨h.sound.errno, h.sound.length⟩, rfl⟩
  · exact .ite (fun _ => ⟨⟨h.sound.errno, h.sound.length⟩, rfl⟩) fun _ => trivial
  · exact (pushDigit_sound h.sound _ _).imp fun q hq => ⟨hq.1, by rw [hq.2, h.mark]⟩

theorem chunkParameters_plain {p : HttpParser} (h : p.Plain) (ch : UInt8) :
    (chunkParameters p ch).Ok HttpParser.Plain :=
  .ite (fun _ => trivial) fun _ =>
    .ite (fun _ => ⟨⟨h.sound.errno, h.sound.length⟩, rfl⟩) fun _ => h

theorem chunkSizeAlmostDone_plain {p : HttpParser} (h : p.Sound) (ch : UInt8) :
    (chunkSizeAlmostDone p ch).Ok HttpParser.Plain :=
  .ite (fun _ => trivial) fun _ => .ite (fun _ => trivial) fun _ =>
    .ite (fun _ => ⟨⟨h.errno, h.length⟩, rfl⟩) fun _ => ⟨⟨h.errno, h.length⟩, rfl⟩

theorem chunkDataDone_plain {p : HttpParser} (h : p.Sound) (ch : UInt8) :
    (chunkDataDone p ch).Ok HttpParser.Plain :=
  .ite (fun _ => trivial) fun _ => .ite (fun _ => trivial) fun _ => ⟨⟨h.errno, h.length⟩, rfl⟩

theorem matchNext_sound {p : HttpParser} (h : p.Sound) (c : UInt8) (word : Bytes)
    (full : HeaderState) :
    (matchNext p c word full).Sound ∧ (matchNext p c word full).state = p.state := by
  dsimp only [matchNext]
  split_ifs <;> exact ⟨⟨h.errno, h.length⟩, rfl⟩

theorem headerNameNext_sound {p : HttpParser} (h : p.Sound) (ch c : UInt8) :
    (headerNameNext p ch c).Ok fun q => q.Sound ∧ q.state = p.state := by
  cases hs : p.headerState <;> simp only [headerNameNext, hs] <;> first
    | trivial
    | exact ⟨h, rfl⟩
    | exact matchNext_sound h _ _ _
    | exact ⟨⟨h.errno, h.length⟩, rfl⟩
    | (split_ifs <;> exact ⟨⟨h.errno, h.length⟩, rfl⟩)

theorem digit_le : ∀ ch, digit ch ≤ ULLONG_MAX := by
  set_option maxRecDepth 100000 in decide

theorem headerValueFirst_sound {p : HttpParser} (h : p.Sound) (ch : UInt8) :
    (headerValueFirst p ch).Ok fun q => q.Sound ∧ q.state = p.state := by
  cases hs : p.headerState <;> simp only [headerValueFirst, hs] <;> first
    | exact ⟨⟨h.errno, h.length⟩, rfl⟩
    | exact .ite (fun _ => trivial) fun _ => ⟨⟨h.errno, digit_le ch⟩, rfl⟩

theorem headerValueNext_sound {p : HttpParser} (h : p.Sound) (ch : UInt8)
    (hp : p.state = .headerValue) :
    (headerValueNext p ch).Ok fun q => q.Sound ∧ q.state = .headerValue := by
  cases hs : p.headerState <;> simp only [headerValueNext, hs] <;> first
    | trivial
    | exact ⟨h, hp⟩
    | exact ⟨⟨h.errno, h.length⟩, rfl⟩
    | exact (matchNext_sound h _ _ _).imp_right (Eq.trans · hp)
    | exact .ite (fun _ => ⟨h, hp⟩) fun _ => .ite (fun _ => trivial) fun _ =>
        (pushDigit_sound h _ _).imp fun q hq => ⟨hq.1, by rw [hq.2, hp]⟩
    | (split_ifs <;> exact ⟨⟨h.errno, h.length⟩, hp⟩)

end Stutter.Joyent
