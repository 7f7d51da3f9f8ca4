import Stutter.Joyent.Feed

namespace Stutter.Joyent

variable {σ : Type}

/-- `feed` in a head, without the limit on its length. -/
def stride (S : Settings σ) (s : HttpParser × σ) (ch : UInt8) : Option (HttpParser × σ) :=
  (exec S ⟨{ s.1 with nread := s.1.nread + 1 }, s.2, entryMarks s.1.state⟩ ch []).flushed S ch

/-- The bytes of a head, all of them counted. -/
inductive Strides (S : Settings σ) (good : σ → Prop) :
    HttpParser × σ → Bytes → HttpParser × σ → Prop
  | nil (s) : Strides S good s [] s
  | cons {s t r ch bs} (hh : s.1.state.parsingHeader = true) (h : stride S s ch = some t)
    (hn : t.1.nread = s.1.nread + 1) (hg : good t.2) (hr : Strides S good t bs r) :
    Strides S good s (ch :: bs) r

variable {S : Settings σ} {good : σ → Prop} {s t r : HttpParser × σ}

theorem Strides.append {as bs : Bytes} (h₁ : Strides S good s as t) (h₂ : Strides S good t bs r) :
    Strides S good s (as ++ bs) r := by
  induction h₁ with
  | nil => exact h₂
  | cons hh h hn hg _ ih => exact .cons hh h hn hg (ih h₂)

theorem Strides.cast {bs : Bytes} {r' : HttpParser × σ} (h : Strides S good s bs r) (hr : r = r') :
    Strides S good s bs r' := hr ▸ h

theorem Strides.cast' {as bs : Bytes} {r' : HttpParser × σ} (h : Strides S good s as r)
    (hb : as = bs) (hr : r = r') : Strides S good s bs r' := hb ▸ hr ▸ h

theorem Strides.nread {bs : Bytes} (h : Strides S good s bs t) :
    t.1.nread = s.1.nread + bs.length := by
  induction h with
  | nil => rfl
  | cons _ _ hn _ _ ih =>
    rw [ih, hn, List.length_cons]
    omega

theorem Strides.split {as bs : Bytes} (h : Strides S good s (as ++ bs) r) :
    ∃ t, Strides S good s as t ∧ Strides S good t bs r := by
  induction as generalizing s with
  | nil => exact ⟨s, .nil s, h⟩
  | cons a as ih =>
    obtain _ | ⟨hh, hs, hn, hg, hr⟩ := h
    obtain ⟨t, h₁, h₂⟩ := ih hr
    exact ⟨t, .cons hh hs hn hg h₁, h₂⟩

theorem feed_of_stride {ch : UInt8} (hh : s.1.state.parsingHeader = true)
    (hn : s.1.nread + 1 ≤ maxHeaderSize) : feed S s ch = stride S s ch := by
  have h : ¬ s.1.nread + 1 > maxHeaderSize := by omega
  simp only [feed, stride, turn, Cfg.countByte, hh, Bool.not_true, Bool.false_eq_true, if_false, h]

/-- Within the limit the head is read. -/
theorem Strides.runs {bs : Bytes} (h : Strides S good s bs t)
    (hn : s.1.nread + bs.length ≤ maxHeaderSize) : Runs S good s bs t := by
  induction h with
  | nil => exact .nil _
  | cons hh h hs hg _ ih =>
    rw [List.length_cons] at hn
    exact .cons (by rwa [feed_of_stride hh (by omega)]) hg (ih (by omega))

theorem loop_overflow {c : Cfg σ} (hh : c.parser.state.parsingHeader = true)
    (hn : maxHeaderSize ≤ c.parser.nread) (pos : ℕ) (ch : UInt8) (rest : Bytes) :
    ∃ p u, loop S c 0 pos (ch :: rest) = some (pos, p, u) ∧ p.httpErrno = .headerOverflow := by
  have h : c.parser.nread + 1 > maxHeaderSize := by omega
  simp only [loop_eq_andThen, turn, Cfg.countByte, hh, Bool.not_true, Bool.false_eq_true, if_false,
    h, if_true, Flow.andThen]
  exact ⟨_, _, rfl, rfl⟩

end Stutter.Joyent
