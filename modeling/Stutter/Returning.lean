import Stutter.Client
import Stutter.Joyent.Asserts
import Stutter.Routing

namespace Stutter

open Joyent

namespace Session

/-- A callback that returns, and leaves its parser or a new one. -/
structure Callback.Returns {χ : Type} (fn : Callback χ) : Prop where
  returns : ∀ p u, ∃ ok p' u', fn p u = some (ok, p', u') ∧ (p' = p ∨ ∃ t, p' = .init t)

theorem Callback.Returns.settings {χ : Type} {fn : Callback χ} (h : fn.Returns) (E : Env) :
    (settings E fn).Returns where
  complete p u := by
    obtain ⟨ok, p', u', hf, hp⟩ := h.returns p (u.complete p)
    refine ⟨0, p', if ok then u' else { u' with error := .handlerFailure }, ?_, hp⟩
    change callback fn p u = _
    rw [callback, hf, Option.map_some]

end Session

namespace Connection

variable {ω : Type} {S : Server ω}

/-- A router that has a handler for every URL. -/
def Routed (S : Server ω) : Prop := ∀ url, ∃ handle, S.router.get url = some handle

theorem process_returns (hS : Routed S) : Session.Callback.Returns (process S) where
  returns p u := by
    obtain ⟨u₁, hu⟩ : ∃ u₁, answer S u = some u₁ := by
      unfold answer
      split_ifs
      · exact ⟨_, rfl⟩
      · obtain ⟨handle, hg⟩ := hS u.request.url
        rw [hg, Option.map_some]
        exact ⟨_, rfl⟩
    rw [process, hu, Option.map_some]
    dsimp only
    generalize respond S (given u) (checkClose p u₁) = x
    -- `reset` leaves a new parser, a failed `send` the old one
    obtain ⟨_ | _, u₂⟩ := x
    · exact ⟨_, _, _, rfl, .inl rfl⟩
    · exact ⟨_, _, _, rfl, .inr ⟨_, rfl⟩⟩

theorem turn_returns (hS : Routed S) {s : HttpParser × Objects ω} (h : s.1.Safe) (chunk : Bytes) :
    ∃ halted s', turn S s chunk = some (halted, s') ∧ s'.1.Safe := by
  rw [turn]
  split_ifs
  · exact ⟨_, _, rfl, h⟩
  · obtain ⟨n, p, u, hx, hs⟩ :=
      execute_safe ((process_returns hS).settings S.env) h s.2 chunk
    rw [add, Session.add, hx, Option.map_some, Option.map_some, Option.map_some]
    dsimp only
    split_ifs <;> exact ⟨_, _, rfl, hs⟩

/-- `exec` returns or waits, whatever it reads. -/
theorem exec_returns (hS : Routed S) (reads : List Bytes) {s : HttpParser × Objects ω}
    (h : s.1.Safe) : ∃ halted s', exec S reads s = some (halted, s') ∧ s'.1.Safe := by
  induction reads generalizing s with
  | nil => exact ⟨false, s, rfl, h⟩
  | cons chunk reads ih =>
    obtain ⟨halted, s', ht, hs⟩ := turn_returns hS h chunk
    rw [exec, ht, Option.bind_some]
    dsimp only
    split_ifs
    · exact ⟨true, s', rfl, hs⟩
    · exact ih hs

theorem routed_routed (E : Env) (io : Strategy) (before after : List (Route ω)) :
    Routed (Server.routed E io before after) := by
  intro url
  obtain ⟨r, hr, -⟩ := Dispatcher.exists_earliest before
    (errorHandler 403 (ascii "Forbidden")) after url
  rw [← Server.handlers_routed E io before after] at hr
  exact ⟨r.2, Dispatcher.get_of_earliest hr⟩

/-- No client can make a started server fail, whatever its bytes and their cut, the routes and their
handlers, the system calls of the body and the writes to the socket. -/
theorem serving_returns (E : Env) (io : Strategy) (before after : List (Route ω)) (fs : Fs)
    (world : ω) (reads : List Bytes) :
    (exec (Server.routed E io before after) reads (accepted fs world)).isSome = true := by
  obtain ⟨halted, s', hx, -⟩ := exec_returns (routed_routed E io before after) reads
    (s := accepted fs world) (.inr ⟨⟨rfl, Nat.zero_le _⟩, init_fit .request⟩)
  rw [hx]
  rfl

end Connection

namespace Socket

/-- A read that gives something leaves less. -/
theorem unread_read (w : Socket) (size : ℕ) (h : (w.read size).1 ≠ []) :
    (w.read size).2.unread < w.unread := by
  unfold Socket.unread
  rw [read] at h ⊢
  cases hin : w.inbox with
  | nil =>
    rw [hin] at h
    exact absurd rfl h
  | cons p rest =>
    rw [hin] at h
    dsimp only at h ⊢
    have hpos := List.length_pos_iff.mpr h
    rw [List.length_take] at hpos
    split_ifs
    · rw [List.flatten_cons, List.length_append]
      omega
    · rw [List.flatten_cons, List.length_append, List.flatten_cons, List.length_append,
        List.length_drop]
      omega

end Socket

namespace Client

variable {E : Env}

theorem onMsgComplete_returns : onMsgComplete.Returns where
  returns p u := ⟨true, p, { u with cx := true }, rfl, .inl rfl⟩

/-- The loop of `read_reply` comes to its end. -/
theorem readLoop_returns {fuel : ℕ} {p : HttpParser} {u : Session Bool} {w : Socket} (h : p.Safe)
    (hf : w.unread < fuel) : (readLoop E fuel p u w).isSome = true := by
  -- a read that does not end the loop leaves fewer bytes, and so does the fuel
  induction fuel generalizing p u w with
  | zero => exact absurd hf (Nat.not_lt_zero _)
  | succ fuel ih =>
    rw [readLoop]
    split_ifs
    · rfl
    have hless := w.unread_read 1024
    generalize w.read 1024 = x at hless
    obtain ⟨chunk, w'⟩ := x
    dsimp only at hless ⊢
    split_ifs with hc
    · rfl
    obtain ⟨n, p', u', hx, hs⟩ := execute_safe (onMsgComplete_returns.settings E) h u chunk
    rw [Session.add, hx, Option.map_some, Option.bind_some]
    dsimp only
    split_ifs <;> first
      | rfl
      | exact ih hs (Nat.lt_of_lt_of_le (hless hc) (Nat.lt_succ_iff.mp hf))

theorem readReply_returns (reply : Reply) (fs : Fs) (w : Socket) :
    (readReply E reply fs w).isSome = true :=
  readLoop_returns (.inr ⟨⟨rfl, Nat.zero_le _⟩, init_fit .response⟩) (Nat.lt_succ_self _)

/-- No backend that ends its stream can make a `send` fail to return. -/
theorem send_returns (E : Env) (W : Strategy) (N : Network) (c : Client) (s : System) (r : Request)
    (reply : Reply) : (c.send E W N s r reply).isSome = true := by
  have hask : (c.ask E W N s r).isSome = true := by
    unfold ask
    dsimp only
    generalize connect N { c with done := false } s = x
    obtain ⟨_ | _, c₁, s₁⟩ := x
    · rfl
    dsimp only
    generalize c₁.sendHeaders W s₁ (r.setHost c.host).prepare = y
    obtain ⟨_ | _, s₂⟩ := y
    · rfl
    dsimp only
    rw [Option.isSome_map]
    split_ifs
    · unfold waitFor100
      rw [Option.isSome_map]
      exact readReply_returns ..
    · rfl
  obtain ⟨⟨e, c₁, s₁, r₁⟩, ha⟩ := Option.isSome_iff_exists.mp hask
  rw [send, ha, Option.bind_some]
  cases e with
  | some e => rfl
  | none =>
    dsimp only
    rw [Option.isSome_map]
    unfold receive
    rw [Option.isSome_map]
    exact readReply_returns ..

end Client

end Stutter
