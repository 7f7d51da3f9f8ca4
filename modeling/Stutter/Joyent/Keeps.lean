import Stutter.Joyent.Feed
import Stutter.Joyent.Related

namespace Stutter.Joyent

variable {σ : Type} {S : Settings σ} {P : σ → Prop}

/-- A property is a relation of a state to itself. -/
theorem Settings.Keeps.related (hS : S.Keeps P) :
    S.Related S (fun u v => u = v ∧ P u) fun _ => False where
  data k frag u v h := by
    obtain ⟨rfl, h⟩ := h
    exact ⟨rfl, rfl, hS.data k frag u h⟩
  headers p u v h := by
    obtain ⟨rfl, h⟩ := h
    exact ⟨rfl, rfl, hS.headers p u h⟩
  complete p u v h := by
    obtain ⟨rfl, h⟩ := h
    cases hc : S.onMessageComplete p u with
    | none => trivial
    | some r => exact ⟨rfl, rfl, rfl, hS.complete hc h⟩
  spoiled := S.keeps_false

theorem ResultRel.all {r : Result σ} (h : ResultRel (fun u v => u = v ∧ P u) (fun _ => False) r r) :
    ResultAll P r := by
  rintro n p u rfl
  exact h.2.2.2

theorem loop_all (hS : S.Keeps P) (data : Bytes) {c : Cfg σ} (h : P c.user) (skip pos : ℕ) :
    ResultAll P (loop S c skip pos data) :=
  (loop_rel hS.related S.loopKeeps_false data ⟨rfl, h⟩ skip pos).all

theorem Settings.Keeps.loopKeeps (hS : S.Keeps P) : S.LoopKeeps P :=
  fun _ skip pos data h => loop_all hS data h skip pos

/-- A property that every callback keeps is kept by `http_parser_execute`. -/
theorem execute_all (hS : S.Keeps P) {p : HttpParser} {u : σ} (h : P u) (data : Bytes) :
    ResultAll P (httpParserExecute S p u data) :=
  (execute_rel hS.related S.loopKeeps_false ⟨rfl, h⟩ data).all

/-- The same callbacks, with an abnormal end where a message ends. -/
def Settings.silent (S : Settings σ) : Settings σ :=
  { S with onMessageComplete := fun _ _ => none }

/-- Up to the end of a message `P` holds, and `bad` from then on. -/
theorem Settings.related_silent {bad : σ → Prop} (hP : S.silent.Keeps P) (hb : S.Keeps bad)
    (hc : ∀ {p u r p' u'}, S.onMessageComplete p u = some (r, p', u') → P u → bad u') :
    S.Related S.silent (fun u v => u = v ∧ P u) bad where
  data k frag u v h := by
    obtain ⟨rfl, h⟩ := h
    exact ⟨rfl, rfl, hP.data k frag u h⟩
  headers p u v h := by
    obtain ⟨rfl, h⟩ := h
    exact ⟨rfl, rfl, hP.headers p u h⟩
  complete p u v h := by
    cases hu : S.onMessageComplete p u with
    | none => trivial
    | some r => exact hc hu h.2
  spoiled := hb

/-- Either no message ends in the rest of the buffer, or one does. -/
theorem loop_silent {bad : σ → Prop} (hP : S.silent.Keeps P) (hb : S.Keeps bad)
    (hc : ∀ {p u r p' u'}, S.onMessageComplete p u = some (r, p', u') → P u → bad u') {c : Cfg σ}
    (h : P c.user) {skip pos n : ℕ} {rest : Bytes} {p : HttpParser} {u : σ}
    (hl : loop S c skip pos rest = some (n, p, u)) :
    loop S.silent c skip pos rest = some (n, p, u) ∧ P u ∨
      loop S.silent c skip pos rest = none ∧ bad u := by
  have hr := loop_rel (Settings.related_silent hP hb hc) hb.loopKeeps rest (p := c.parser)
    (m := c.marks) ⟨rfl, h⟩ skip pos
  rw [hl] at hr
  cases hs : loop S.silent c skip pos rest with
  | none =>
    rw [hs] at hr
    exact .inr ⟨rfl, hr⟩
  | some r =>
    rw [hs] at hr
    obtain ⟨rfl, rfl, rfl, hu⟩ := hr
    exact .inl ⟨rfl, hu⟩

/-- What every callback keeps is kept over a run. -/
theorem Runs.keeps {good : σ → Prop} (hL : S.Lawful good) (hS : S.Keeps P)
    {s t : HttpParser × σ} {bs : Bytes} (h : Runs S good s bs t) (hs : s.1.Sound) (hp : P s.2) :
    P t.2 := by
  obtain rfl | hne := eq_or_ne bs []
  · obtain _ | _ := h
    exact hp
  · exact execute_all hS hp bs _ _ _ (execute_of_runs hL hs hne h)

end Stutter.Joyent
