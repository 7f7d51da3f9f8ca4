import Stutter.Joyent.Cuts
import Stutter.Joyent.Moves

namespace Stutter.Joyent

variable {σ : Type} {S : Settings σ} {P : σ → Prop} {good : σ → Prop}

/-- Callbacks of which the one at the end of a head brings `P` about, and the one for a body keeps
it. -/
structure Settings.Content (S : Settings σ) (P : σ → Prop) : Prop where
  headers : ∀ p u, P (S.onHeadersComplete p u).2
  body : ∀ frag u, P u → P (S.onData .body frag u).2

/-- Behind a head `P` holds, up to the end of the message or its trailer. -/
def Within (P : σ → Prop) (p : HttpParser) (u : σ) : Prop := p.state.inContent = true → P u

theorem within_of_not {p : HttpParser} (h : p.state.inContent = false) (u : σ) : Within P p u :=
  fun hp => absurd (h.symm.trans hp) Bool.false_ne_true

theorem Move.within (hP : S.Content P) {s t : HttpParser × σ} (h : Move S s t)
    (hu : Within P s.1 s.2) : Within P t.1 t.2 := by
  cases h with
  | quiet h => exact fun hq => hu (h.content hq)
  | data k frag u hk =>
    obtain rfl | hk := hk
    · exact fun hp => hP.body frag u (hu hp)
    · exact within_of_not hk _
  | headers p u => exact fun _ => hP.headers p u
  | complete _ _ _ hs => exact within_of_not hs _

theorem moves_within (hP : S.Content P) {s t : HttpParser × σ}
    (h : Relation.ReflTransGen (Move S) s t) (hu : Within P s.1 s.2) : Within P t.1 t.2 := by
  induction h with
  | refl => exact hu
  | tail _ hm ih => exact hm.within hP ih

/-- Behind a head no mark is set but that of a body. -/
theorem flush_within (hP : S.Content P) {c : Cfg σ} (hm : Marked c.parser.state c.marks)
    (hu : Within P c.parser c.user) : Within P c.parser (c.flush S) := by
  intro hin
  obtain ⟨p, u, m⟩ := c
  dsimp only at hm hin hu
  cases hm with
  | none => exact hu hin
  | body frag =>
    rw [flush_single]
    exact hP.body frag u (hu hin)
  | mark frag hk =>
    generalize p.state = s at hk hin
    cases s <;> first
      | exact absurd hin (by decide)
      | cases hk

/-- What is read of a message from behind its head. -/
theorem Runs.within (hS : S.Lawful good) (hP : S.Content P) {s t : HttpParser × σ} {bs : Bytes}
    (h : Runs S good s bs t) (hp : s.1.Sound) (hl : s.1.Level) (hu : Within P s.1 s.2) :
    Within P t.1 t.2 := by
  induction h with
  | nil => exact hu
  | @cons s t r ch bs hf _ _ ih =>
    obtain ⟨d, hd, hlag, hsound⟩ := turn_entry hS hp hf
    have hmove := turn_moves (S := S) (c := ⟨s.1, s.2, entryMarks s.1.state⟩) hS.complete hl ch []
    have hm := turn_sound hS (c := ⟨s.1, s.2, entryMarks s.1.state⟩) ⟨hp, marked_entryMarks _⟩ ch
    rw [hd] at hmove hm
    have hl' := moves_level (t := (d.parser, d.user)) hmove hl
    have hu' := moves_within (t := (d.parser, d.user)) hP hmove hu
    obtain rfl := hlag.flush
    exact ih hsound hl' (flush_within hP (hm.2.marked.push [ch]) hu')

end Stutter.Joyent
