import Mathlib

/-! Runs of a partial step function: what holds in every state that a run reaches. -/

namespace Steps

variable {σ ε : Type*} {step : σ → ε → Option σ} {s₀ s : σ} {es : List ε} {e : ε}

theorem run_concat :
    (es ++ [e]).foldlM step s₀ = (es.foldlM step s₀).bind fun s => step s e := by
  rw [List.foldlM_append]
  simp only [List.foldlM_cons, List.foldlM_nil, bind_pure]
  rfl

/-- In every state on the way the property holds. -/
def Always (step : σ → ε → Option σ) (s₀ : σ) (Good : σ → Prop) (es : List ε) : Prop :=
  ∀ es' s, es' <+: es → es'.foldlM step s₀ = some s → Good s

/-- Every step on the way meets the condition. -/
def Each (step : σ → ε → Option σ) (s₀ : σ) (Cond : σ → ε → Prop) (es : List ε) : Prop :=
  ∀ es' s e, es' ++ [e] <+: es → es'.foldlM step s₀ = some s → Cond s e

variable {Good : σ → Prop} {Cond : σ → ε → Prop}

theorem always_nil : Always step s₀ Good [] ↔ Good s₀ := by
  constructor
  · intro h
    exact h [] s₀ (List.prefix_refl _) rfl
  · intro h es' s hp hs
    obtain rfl := List.prefix_nil.mp hp
    rwa [← Option.some.inj hs]

theorem always_concat : Always step s₀ Good (es ++ [e]) ↔ Always step s₀ Good es ∧
    ∀ s, (es ++ [e]).foldlM step s₀ = some s → Good s := by
  constructor
  · intro h
    exact ⟨fun es' s hp => h es' s (hp.trans (List.prefix_append ..)),
      fun s => h _ s (List.prefix_refl _)⟩
  · intro h es' s hp hs
    obtain rfl | hp := List.prefix_concat_iff.mp hp
    · exact h.2 s hs
    · exact h.1 es' s hp hs

theorem each_nil : Each step s₀ Cond [] := by
  intro es' s e hp
  exact absurd (List.prefix_nil.mp hp) (by simp)

theorem each_concat : Each step s₀ Cond (es ++ [e]) ↔ Each step s₀ Cond es ∧
    ∀ s, es.foldlM step s₀ = some s → Cond s e := by
  constructor
  · intro h
    exact ⟨fun es' s e' hp => h es' s e' (hp.trans (List.prefix_append ..)),
      fun s => h es s e (List.prefix_refl _)⟩
  · intro h es' s e' hp hs
    obtain heq | hp := List.prefix_concat_iff.mp hp
    · obtain ⟨rfl, hlast⟩ := List.append_inj' heq rfl
      obtain rfl := List.singleton_inj.mp hlast
      exact h.2 s hs
    · exact h.1 es' s e' hp hs

/-- A condition on the events alone. -/
theorem each_iff_forall {C : ε → Prop} (hr : (es.foldlM step s₀).isSome) :
    Each step s₀ (fun _ => C) es ↔ ∀ e ∈ es, C e := by
  induction es using List.reverseRecOn with
  | nil => exact iff_of_true each_nil (by simp)
  | append_singleton es e ih =>
    obtain ⟨s', hs'⟩ := Option.isSome_iff_exists.mp hr
    rw [run_concat] at hs'
    obtain ⟨s, hs, -⟩ := Option.bind_eq_some_iff.mp hs'
    rw [each_concat, ih (by rw [hs]; rfl), List.forall_mem_append, List.forall_mem_singleton]
    exact and_congr_right fun _ => ⟨fun h => h s hs, fun h _ _ => h⟩

variable {Inv : σ → Prop}

/-- The invariant holds as long as the steps meet the condition. -/
theorem inv_of_each (h₀ : Inv s₀)
    (keeps : ∀ s e s', Inv s → step s e = some s' → Cond s e → Inv s') (he : Each step s₀ Cond es)
    (hs : es.foldlM step s₀ = some s) : Inv s := by
  induction es using List.reverseRecOn generalizing s with
  | nil => rwa [← Option.some.inj hs]
  | append_singleton es e ih =>
    rw [run_concat] at hs
    obtain ⟨s', hs', hstep⟩ := Option.bind_eq_some_iff.mp hs
    obtain ⟨he, hc⟩ := each_concat.mp he
    exact keeps s' e s (ih he hs') hstep (hc s' hs')

/-- If the condition keeps the invariant, and no other step keeps the property, then the property
holds in every state exactly if every step meets the condition. -/
theorem always_iff_each (h₀ : Inv s₀) (good : ∀ s, Inv s → Good s)
    (keeps : ∀ s e s', Inv s → step s e = some s' → Cond s e → Inv s')
    (needs : ∀ s e s', Inv s → step s e = some s' → Good s' → Cond s e)
    (hr : (es.foldlM step s₀).isSome) : Always step s₀ Good es ↔ Each step s₀ Cond es := by
  induction es using List.reverseRecOn with
  | nil => exact iff_of_true (always_nil.mpr (good _ h₀)) each_nil
  | append_singleton es e ih =>
    obtain ⟨s', hs'⟩ := Option.isSome_iff_exists.mp hr
    have hrun := hs'
    rw [run_concat] at hrun
    obtain ⟨s, hs, hstep⟩ := Option.bind_eq_some_iff.mp hrun
    rw [always_concat, each_concat, ih (by rw [hs]; rfl)]
    refine and_congr_right fun he => ?_
    have hinv := inv_of_each h₀ keeps he hs
    constructor
    · intro hg s₁ hs₁
      obtain rfl := Option.some.inj (hs.symm.trans hs₁)
      exact needs s e s' hinv hstep (hg s' hs')
    · intro hc s₁ hs₁
      obtain rfl := Option.some.inj (hs'.symm.trans hs₁)
      exact good _ (keeps s e s' hinv hstep (hc s hs))

end Steps
