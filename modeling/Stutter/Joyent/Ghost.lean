import Stutter.Joyent.Keeps

namespace Stutter.Joyent

variable {σ γ : Type}

/-- What is kept beside the user state, and how the callbacks change it: all see the state before
the callback, `complete` also the parser, and the state behind it. -/
structure Ghost (σ γ : Type) where
  data : Mark → Bytes → σ → γ → γ
  headers : σ → γ → γ
  complete : HttpParser → σ → σ → γ → γ

/-- The callbacks with a ghost beside their state. -/
def Settings.beside (S : Settings σ) (G : Ghost σ γ) : Settings (σ × γ) where
  onData k frag x :=
    let (r, u) := S.onData k frag x.1
    (r, u, G.data k frag x.1 x.2)
  onHeadersComplete p x :=
    let (r, u) := S.onHeadersComplete p x.1
    (r, u, G.headers x.1 x.2)
  onMessageComplete p x := (S.onMessageComplete p x.1).map fun (r, q, u) =>
    (r, q, u, G.complete p x.1 u x.2)

variable {S : Settings σ} {G : Ghost σ γ}

/-- The ghost changes nothing. -/
theorem Settings.related_beside (S : Settings σ) (G : Ghost σ γ) :
    S.Related (S.beside G) (fun u x => u = x.1) fun _ => False where
  data k frag u x h := by
    subst h
    exact ⟨rfl, rfl⟩
  headers p u x h := by
    subst h
    exact ⟨rfl, rfl⟩
  complete p u x h := by
    subst h
    rw [beside]
    dsimp only
    cases S.onMessageComplete p x.1 with
    | none => trivial
    | some r => exact ⟨rfl, rfl, rfl⟩
  spoiled := S.keeps_false

theorem execute_beside (G : Ghost σ γ) {p p' : HttpParser} {u u' : σ} {data : Bytes} {n : ℕ}
    (h : httpParserExecute S p u data = some (n, p', u')) (g : γ) :
    ∃ g', httpParserExecute (S.beside G) p (u, g) data = some (n, p', u', g') := by
  have hr := execute_rel (p := p) (S.related_beside G) S.loopKeeps_false
    (show u = (u, g).1 from rfl) data
  rw [h] at hr
  cases hx : httpParserExecute (S.beside G) p (u, g) data with
  | none =>
    rw [hx] at hr
    exact hr.elim
  | some r =>
    obtain ⟨n', q, v, g'⟩ := r
    rw [hx] at hr
    obtain ⟨rfl, rfl, rfl⟩ := hr
    exact ⟨g', rfl⟩

/-- A property is kept beside any ghost. -/
theorem Settings.Keeps.beside {P : σ → Prop} (hS : S.Keeps P) (G : Ghost σ γ) :
    (S.beside G).Keeps fun x => P x.1 where
  data k frag x h := hS.data k frag x.1 h
  headers p x h := hS.headers p x.1 h
  complete {p x r p' x'} hc h := by
    obtain ⟨⟨r', q, v⟩, hf, he⟩ := Option.map_eq_some_iff.mp hc
    obtain ⟨-, -, rfl⟩ := Prod.mk.injEq .. ▸ Prod.mk.injEq .. ▸ he
    exact hS.complete hf h

end Stutter.Joyent
