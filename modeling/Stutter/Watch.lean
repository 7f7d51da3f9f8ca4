import Stutter.Joyent.Ghost
import Stutter.Process

namespace Stutter

open Joyent

namespace Connection

variable {ω γ : Type} {S : Server ω} {G : Ghost (Objects ω) γ}

/-- A ghost over the reads of a connection. -/
def watch (S : Server ω) (G : Ghost (Objects ω) γ) : List Bytes → HttpParser × Objects ω → γ → γ
  | [], _, g => g
  | chunk :: later, s, g =>
    if chunk = [] then g
    else match httpParserExecute ((Session.settings S.env (process S)).beside G) s.1 (s.2, g) chunk,
        turn S s chunk with
    | some (_, _, _, g'), some (false, s') => watch S G later s' g'
    | some (_, _, _, g'), _ => g'
    | none, _ => g

/-- What a turn of `exec` may change outside of the callbacks. -/
def Objects.aside (u : Objects ω) (state : ConnectionState) (socket : Socket) : Objects ω :=
  { u with cx := { u.cx with state := state, socket := socket } }

/-- What the callbacks keep, beside their ghost, and what does not hang on the state and the
socket. -/
structure Watched (S : Server ω) (G : Ghost (Objects ω) γ) (P : Objects ω × γ → Prop) : Prop where
  keeps : ((Session.settings S.env (process S)).beside G).Keeps P
  aside : ∀ u g state socket, P (u, g) → P (u.aside state socket, g)

variable {P : Objects ω × γ → Prop}

/-- One turn of `exec`, with the ghost beside it. -/
theorem Watched.turn (hP : Watched S G P) {s s' : HttpParser × Objects ω} {chunk : Bytes}
    {halted : Bool} (h : turn S s chunk = some (halted, s')) (hne : chunk ≠ []) {g : γ}
    (hg : P (s.2, g)) : ∃ n p u g', httpParserExecute
      ((Session.settings S.env (process S)).beside G) s.1 (s.2, g) chunk = some (n, p, u, g') ∧
        P (s'.2, g') := by
  rw [Connection.turn, if_neg hne] at h
  obtain ⟨⟨p, u⟩, ha, ht⟩ := Option.map_eq_some_iff.mp h
  rw [add, Session.add, Option.map_map] at ha
  obtain ⟨⟨n, p', u'⟩, hx, he⟩ := Option.map_eq_some_iff.mp ha
  obtain ⟨rfl, rfl⟩ := Prod.mk.injEq .. ▸ he
  obtain ⟨g', hg'⟩ := execute_beside G hx g
  have hk := execute_all hP.keeps hg chunk _ _ _ hg'
  refine ⟨n, p', u', g', hg', ?_⟩
  dsimp only at ht
  split_ifs at ht
  · obtain ⟨-, rfl⟩ := Prod.mk.injEq .. ▸ ht
    exact hP.aside u' g' _ _ hk
  · obtain ⟨-, rfl⟩ := Prod.mk.injEq .. ▸ ht
    exact hk

/-- The whole of `exec`. -/
theorem Watched.exec (hP : Watched S G P) {reads : List Bytes} {s t : HttpParser × Objects ω}
    {halted : Bool} (h : exec S reads s = some (halted, t)) {g : γ} (hg : P (s.2, g)) :
    P (t.2, watch S G reads s g) := by
  induction reads generalizing s g with
  | nil =>
    obtain ⟨-, rfl⟩ := Prod.mk.injEq .. ▸ Option.some.inj h
    exact hg
  | cons chunk later ih =>
    rw [Connection.exec] at h
    obtain ⟨⟨b, s'⟩, ht, hr⟩ := Option.bind_eq_some_iff.mp h
    rw [watch]
    by_cases hne : chunk = []
    · rw [Connection.turn, if_pos hne] at ht
      obtain ⟨rfl, rfl⟩ := Prod.mk.injEq .. ▸ Option.some.inj ht
      obtain ⟨-, rfl⟩ := Prod.mk.injEq .. ▸ Option.some.inj hr
      rw [if_pos hne]
      exact hP.aside s.2 g .ioError s.2.cx.socket hg
    · obtain ⟨n, p, u, g', hx, hk⟩ := hP.turn ht hne hg
      rw [if_neg hne, hx, ht]
      cases b with
      | true =>
        obtain ⟨-, rfl⟩ := Prod.mk.injEq .. ▸ Option.some.inj hr
        exact hk
      | false => exact ih hr hk

/-- A property that the callbacks keep, and that does not hang on the state and the socket, is kept
by `exec`. -/
theorem exec_keeps {P : Objects ω → Prop} (hP : (Session.settings S.env (process S)).Keeps P)
    (ha : ∀ u state socket, P u → P (u.aside state socket)) {reads : List Bytes}
    {s t : HttpParser × Objects ω} {halted : Bool} (h : exec S reads s = some (halted, t))
    (hs : P s.2) : P t.2 := by
  let G : Ghost (Objects ω) Unit := ⟨fun _ _ _ g => g, fun _ g => g, fun _ _ _ g => g⟩
  have hw : Watched S G fun x => P x.1 := ⟨hP.beside G, fun u _ state socket => ha u state socket⟩
  have hg : P (s.2, ()).1 := hs
  exact hw.exec h hg

end Connection

end Stutter
