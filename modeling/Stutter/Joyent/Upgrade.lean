import Stutter.Joyent.Moves
import Stutter.Joyent.Stops

namespace Stutter.Joyent

variable {σ : Type} {S : Settings σ} {P : σ → Prop}

/-- Callbacks that keep `P`, but for the end of a message after which another protocol follows; the
last one may start the parser anew. -/
structure Settings.Level (S : Settings σ) (P : σ → Prop) : Prop where
  data : ∀ k frag u, P u → P (S.onData k frag u).2
  headers : ∀ p u, P u → P (S.onHeadersComplete p u).2
  complete : ∀ {p u r p' u'}, S.onMessageComplete p u = some (r, p', u') →
    r = 0 ∧ (p' = p ∨ ∃ t, p' = .init t) ∧ (p.upgrade = false → P u → P u')

theorem Settings.Level.restarts (hS : S.Level P) : S.Restarts := fun h =>
  ⟨(hS.complete h).1, (hS.complete h).2.1⟩

/-- What the buffer is left with: `P` holds, or the last message was one after which another
protocol follows. -/
def Settings.Left (S : Settings σ) (P : σ → Prop) (p : HttpParser) (u : σ) : Prop :=
  P u ∧ (p.httpErrno = .ok → p.Level) ∨
    ∃ q v, q.upgrade = true ∧ q.httpErrno = .ok ∧ q.Level ∧ P v ∧
      S.onMessageComplete q v = some (0, p, u)

/-- The turns of the loop. -/
def Flow.Level (S : Settings σ) (P : σ → Prop) : Flow σ → Prop
  | .next c _ => c.parser.Level ∧ P c.user
  | .ret c _ => S.Left P c.parser c.user
  | .fail c _ => P c.user
  | .abort => True

theorem Settings.Left.failed {p : HttpParser} {u : σ} (h : P u) (he : p.httpErrno ≠ .ok) :
    S.Left P p u := .inl ⟨h, fun hok => absurd hok he⟩

theorem Flow.Level.ite {b : Prop} [Decidable b] {f f' : Flow σ} (h : b → f.Level S P)
    (h' : ¬ b → f'.Level S P) : (if b then f else f').Level S P := by
  by_cases hb : b
  · simpa only [if_pos hb] using h hb
  · simpa only [if_neg hb] using h' hb

theorem Move.keeps (hS : S.Level P) {s t : HttpParser × σ} (h : Move S s t) (hu : P s.2) :
    P t.2 := by
  cases h with
  | quiet => exact hu
  | data k frag u => exact hS.data k frag u hu
  | headers p u => exact hS.headers p u hu
  | complete hup hc => exact (hS.complete hc).2.2 hup hu

theorem moves_keep (hS : S.Level P) {s t : HttpParser × σ}
    (h : Relation.ReflTransGen (Move S) s t) (hu : P s.2) : P t.2 := by
  induction h with
  | refl => exact hu
  | tail _ hm ih => exact hm.keeps hS ih

theorem turn_level (hS : S.Level P) {c : Cfg σ} (hp : c.parser.Level) (hu : P c.user) (ch : UInt8)
    (rest : Bytes) : (turn S c ch rest).Level S P := by
  have hm := turn_moves hS.restarts hp ch rest
  cases hf : turn S c ch rest <;> rw [hf] at hm
  case next => exact ⟨moves_level hm hp, moves_keep hS hm hu⟩
  case fail =>
    obtain ⟨p, hm⟩ := hm
    exact moves_keep hS hm hu
  case ret =>
    obtain ⟨⟨p, hm⟩, he⟩ | ⟨p, q, v, hm, hup, hok, hq, hc⟩ := hm
    · exact .failed (moves_keep hS hm hu) he
    · exact .inr ⟨q, v, hup, hok, hq, moves_keep hS hm hu, hc⟩
  case abort => trivial

theorem callbackData_level (hS : S.Level P) {k : Mark} {extra : Bytes} {er : ℕ} {c : Cfg σ}
    {go : Cfg σ → Flow σ} (hu : P c.user)
    (hgo : ∀ u m, P u → (go ⟨c.parser, u, m⟩).Level S P) :
    (callbackData S k extra er c go).Level S P := by
  refine .ite (fun _ => trivial) fun _ => ?_
  cases c.marks.get k with
  | none => exact hgo _ _ hu
  | some frag =>
    have hd := hS.data k (frag ++ extra) _ hu
    exact .ite (fun _ => .failed hd Errno.noConfusion) fun _ => hgo _ _ hd

theorem callbackData_fail {k : Mark} {extra : Bytes} {er : ℕ} {c : Cfg σ} {go : Cfg σ → Flow σ}
    {d : Cfg σ} {e : Errno} (hgo : ∀ c, go c ≠ .fail d e) :
    callbackData S k extra er c go ≠ .fail d e := by
  intro h
  rw [callbackData] at h
  split_ifs at h
  cases hm : c.marks.get k with
  | none =>
    rw [hm] at h
    exact hgo c h
  | some frag =>
    simp only [hm] at h
    split_ifs at h
    exact hgo _ h

theorem leftover_level (hS : S.Level P) {c : Cfg σ} (hp : c.parser.Level) (hu : P c.user)
    {len n : ℕ} {p : HttpParser} {u : σ} (h : leftover S len c = some (n, p, u)) :
    S.Left P p u := by
  have hf : (callbackData S .headerField [] 0 c fun c =>
      callbackData S .headerValue [] 0 c fun c =>
      callbackData S .url [] 0 c fun c =>
      callbackData S .body [] 0 c (.next · 0)).Level S P :=
    callbackData_level hS hu fun _ _ hu => callbackData_level hS hu fun _ _ hu =>
      callbackData_level hS hu fun _ _ hu => callbackData_level hS hu fun _ _ hu => ⟨hp, hu⟩
  have hn : ∀ d e, (callbackData S .headerField [] 0 c fun c =>
      callbackData S .headerValue [] 0 c fun c =>
      callbackData S .url [] 0 c fun c =>
      callbackData S .body [] 0 c (.next · 0)) ≠ .fail d e := fun d e =>
    callbackData_fail fun _ => callbackData_fail fun _ => callbackData_fail fun _ =>
      callbackData_fail fun _ h => by cases h
  rw [leftover] at h
  dsimp only at h
  split_ifs at h
  generalize (callbackData S .headerField [] 0 c _) = f at h hf hn
  cases f with
  | next =>
    obtain ⟨-, rfl, rfl⟩ := Prod.mk.injEq .. ▸ Prod.mk.injEq .. ▸ Option.some.inj h
    exact .inl ⟨hf.2, fun _ => hf.1⟩
  | fail d e => exact absurd rfl (hn d e)
  | ret =>
    obtain ⟨-, rfl, rfl⟩ := Prod.mk.injEq .. ▸ Prod.mk.injEq .. ▸ Option.some.inj h
    exact hf
  | abort => cases h

theorem loop_level (hS : S.Level P) (data : Bytes) {c : Cfg σ} (hp : c.parser.Level)
    (hu : P c.user) {skip pos n : ℕ} {p : HttpParser} {u : σ}
    (h : loop S c skip pos data = some (n, p, u)) : S.Left P p u := by
  induction data generalizing c skip pos with
  | nil => cases skip <;> exact leftover_level hS hp hu h
  | cons ch rest ih =>
    cases skip with
    | succ skip => exact ih (by exact hp) (by exact hu) h
    | zero =>
      have ht := turn_level hS hp hu ch rest
      have hstop := turn_stops (S := S) c ch rest
      rw [loop] at h
      cases hf : turn S c ch rest <;> simp only [hf] at ht hstop h
      case next d skip => exact ih (by exact ht.1) (by exact ht.2) h
      case fail d e =>
        obtain ⟨-, rfl, rfl⟩ := Prod.mk.injEq .. ▸ Prod.mk.injEq .. ▸ Option.some.inj h
        exact .failed ht hstop
      case ret d adv =>
        obtain ⟨-, rfl, rfl⟩ := Prod.mk.injEq .. ▸ Prod.mk.injEq .. ▸ Option.some.inj h
        exact ht
      case abort => cases h

/-- What `http_parser_execute` leaves of a buffer. -/
theorem execute_left (hS : S.Level P) {p p' : HttpParser} {u u' : σ} {data : Bytes} {n : ℕ}
    (hp : p.httpErrno = .ok → p.Level) (hu : P u) (hd : data ≠ [])
    (h : httpParserExecute S p u data = some (n, p', u')) : S.Left P p' u' := by
  rw [httpParserExecute] at h
  split_ifs at h with he
  · obtain ⟨-, rfl, rfl⟩ := Prod.mk.injEq .. ▸ Prod.mk.injEq .. ▸ Option.some.inj h
    exact .inl ⟨hu, hp⟩
  · exact loop_level hS data (by exact hp (not_not.mp he)) hu h

/-- The parser may be called again. -/
theorem Settings.Left.level (hS : S.Level P) {p : HttpParser} {u : σ} (h : S.Left P p u) :
    p.httpErrno = .ok → p.Level := by
  obtain ⟨-, hp⟩ | ⟨q, v, -, -, hq, -, hc⟩ := h
  · exact hp
  · obtain ⟨-, rfl | ⟨t, rfl⟩, -⟩ := hS.complete hc
    · exact fun _ => hq
    · exact fun _ => init_level t

end Stutter.Joyent
