import Stutter.Bytes
import Stutter.Lib.Steps

namespace Stutter

/-- `YieldingIOStrategy::Need` -/
inductive Need where
  | READ
  | WRITE
  | HALT
  deriving DecidableEq

namespace Coroutine

inductive State where
  | INIT
  | RUNNING
  | DONE
  deriving DecidableEq

/-- What `exec` does up to its next switch: one of the `safe_` calls, or its return, always with
`HALT`. -/
inductive Slice where
  | read (fd : ℤ)
  | write (fd : ℤ)
  | exit

end Coroutine

/-- A `YieldingIOStrategy`: the coroutine and the descriptor that it watches. -/
structure Coroutine where
  state : Coroutine.State
  value : Need
  watchedFd : ℤ

namespace Coroutine

def yield (co : Coroutine) (value : Need) : Coroutine := { co with value := value }

/-- `resume`; `none` is its -1. -/
def resume (co : Coroutine) (slice : Slice) : Option Need × Coroutine :=
  if co.state = .DONE then (none, co)
  else
    let co := { co with state := .RUNNING }
    let co := match slice with
      | .read fd => { co with watchedFd := fd }.yield .READ
      | .write fd => { co with watchedFd := fd }.yield .WRITE
      | .exit => { co with state := .DONE }.yield .HALT
    (some co.value, co)

end Coroutine

/-- An event in the base of libevent. -/
structure Registration where
  io : ℕ
  fd : ℤ
  event : Need

/-- The server, the connections by the order of their `accept`, and the event base. `halted` and
`deleted` are logs. -/
structure EventLoop where
  connections : ℕ → Option Coroutine
  accepted : ℕ
  pending : List Registration
  halted : List ℕ
  deleted : List ℕ

/-- A callback, with the slices of `exec` that run in it. `added`: `event_add` succeeds; `again`:
what the connection does when it is resumed because `event_add` failed. -/
inductive Callback where
  | possibleAccept (clientFd : ℤ) (added : Bool) (again : Coroutine.Slice)
  | connectionEvent (io : ℕ) (slice : Coroutine.Slice) (added : Bool) (again : Coroutine.Slice)

namespace EventLoop

open Coroutine (Slice)

def new : EventLoop := ⟨fun _ => none, 0, [], [], []⟩

/-- `io->resume()` -/
def switch (s : EventLoop) (io : ℕ) (slice : Slice) : Option Need × EventLoop :=
  match s.connections io with
  | none => (none, s)
  | some co =>
    let (value, co) := co.resume slice
    (value, { s with
      connections := Function.update s.connections io (some co)
      halted := if value = some .HALT then io :: s.halted else s.halted })

def registerConnection (s : EventLoop) (io : ℕ) (event : Need) (added : Bool) (again : Slice) :
    EventLoop :=
  match s.connections io with
  | none => s
  | some co =>
    if added then { s with pending := ⟨io, co.watchedFd, event⟩ :: s.pending }
    -- what this resumption yields is not looked at
    else (s.switch io again).2

def delete (s : EventLoop) (io : ℕ) : EventLoop := { s with
  connections := Function.update s.connections io none
  deleted := io :: s.deleted }

def resume (s : EventLoop) (io : ℕ) (slice : Slice) (added : Bool) (again : Slice) : EventLoop :=
  match s.switch io slice with
  | (some .READ, s) => s.registerConnection io .READ added again
  | (some .WRITE, s) => s.registerConnection io .WRITE added again
  | (some .HALT, s) => s.delete io
  | (none, s) => s

/-- `new Connection`, whatever `accept` returned. -/
def accept (s : EventLoop) : EventLoop := { s with
  connections := Function.update s.connections s.accepted (some ⟨.INIT, .READ, 0⟩)
  accepted := s.accepted + 1 }

/-- One callback; an event that is not pending does not fire. -/
def step (s : EventLoop) : Callback → Option EventLoop
  | .possibleAccept clientFd added again =>
    -- `exec` begins with a read
    some (s.accept.resume s.accepted (.read clientFd) added again)
  | .connectionEvent io slice added again =>
    if s.pending.any (·.io = io) then
      some ({ s with pending := s.pending.eraseP (·.io = io) }.resume io slice added again)
    else none

def run (s : EventLoop) (cbs : List Callback) : Option EventLoop := cbs.foldlM step s

/-- The connections are those accepted and not deleted, and a connection is deleted once, when it
halts. -/
structure Books (s : EventLoop) : Prop where
  fresh : ∀ io, s.accepted ≤ io → s.connections io = none
  known : ∀ r ∈ s.pending, (s.connections r.io).isSome
  halted : s.deleted = s.halted
  once : s.deleted.Nodup
  deleted : ∀ io, io ∈ s.deleted ↔ io < s.accepted ∧ s.connections io = none

/-- The connection `io`, if there is one, has one event: the one it asked for. -/
def Watched (s : EventLoop) (io : ℕ) : Prop := ∀ co, s.connections io = some co →
  s.pending.filter (·.io = io) = [⟨io, co.watchedFd, co.value⟩] ∧ co.state = .RUNNING

structure Tended (s : EventLoop) : Prop extends Books s where
  watched : ∀ io, s.Watched io

/-- `io` is about to be resumed. -/
structure Ready (s : EventLoop) (io : ℕ) : Prop extends Books s where
  live : ∃ co, s.connections io = some co ∧ co.state ≠ .DONE
  idle : s.pending.filter (·.io = io) = []
  watched : ∀ io' ≠ io, s.Watched io'

variable {s s' : EventLoop} {io : ℕ}

theorem new_tended : new.Tended where
  fresh _ _ := rfl
  known _ h := absurd h (by simp [new])
  halted := rfl
  once := .nil
  deleted _ := by simp [new]
  watched _ _ h := absurd h (by simp [new])

theorem Tended.accept (h : s.Tended) : s.accept.Ready s.accepted where
  fresh io hio := by
    have hne : io ≠ s.accepted := by
      rintro rfl
      exact absurd hio (Nat.not_succ_le_self _)
    rw [EventLoop.accept]
    dsimp only
    rw [Function.update_of_ne hne]
    exact h.fresh io ((Nat.le_succ _).trans hio)
  known r hr := by
    rw [EventLoop.accept]
    dsimp only
    by_cases he : r.io = s.accepted
    · rw [he, Function.update_self]
      rfl
    · rw [Function.update_of_ne he]
      exact h.known r hr
  halted := h.halted
  once := h.once
  deleted io := by
    rw [EventLoop.accept]
    dsimp only
    rw [h.deleted]
    by_cases he : io = s.accepted
    · rw [he, Function.update_self]
      simp
    · rw [Function.update_of_ne he]
      refine and_congr_left fun _ => ?_
      omega
  live := ⟨⟨.INIT, .READ, 0⟩, Function.update_self .., by decide⟩
  idle := by
    refine List.filter_eq_nil_iff.mpr fun r hr he => ?_
    have hk := h.known r hr
    rw [h.fresh r.io (of_decide_eq_true he).ge] at hk
    exact absurd hk (by simp)
  watched io' hne co hco := by
    rw [EventLoop.accept] at hco ⊢
    dsimp only at hco ⊢
    rw [Function.update_of_ne hne] at hco
    exact h.watched io' co hco

theorem filter_eraseP_ne (l : List Registration) {io io' : ℕ} (h : io' ≠ io) :
    (l.eraseP (·.io = io)).filter (·.io = io') = l.filter (·.io = io') := by
  induction l with
  | nil => rfl
  | cons r l ih =>
    by_cases hr : r.io = io
    · rw [List.eraseP_cons_of_pos (by simpa using hr), List.filter_cons_of_neg (by
        simpa [hr] using h.symm)]
    · rw [List.eraseP_cons_of_neg (by simpa using hr), List.filter_cons, List.filter_cons, ih]

theorem filter_eraseP_self (l : List Registration) {io : ℕ} {r : Registration}
    (h : l.filter (·.io = io) = [r]) : (l.eraseP (·.io = io)).filter (·.io = io) = [] := by
  induction l with
  | nil => exact absurd h (by simp)
  | cons x l ih =>
    by_cases hx : x.io = io
    · rw [List.filter_cons_of_pos (by simpa using hx)] at h
      rw [List.eraseP_cons_of_pos (by simpa using hx)]
      exact (List.cons.inj h).2
    · rw [List.filter_cons_of_neg (by simpa using hx)] at h
      rw [List.eraseP_cons_of_neg (by simpa using hx), List.filter_cons_of_neg (by simpa using hx)]
      exact ih h

/-- An event that fires is not pending any more. -/
theorem Tended.fire (h : s.Tended) (hp : s.pending.any (·.io = io) = true) :
    Ready { s with pending := s.pending.eraseP (·.io = io) } io := by
  obtain ⟨r, hr, he⟩ := List.any_eq_true.mp hp
  obtain rfl := of_decide_eq_true he
  obtain ⟨co, hco⟩ := Option.isSome_iff_exists.mp (h.known r hr)
  obtain ⟨hone, hrun⟩ := h.watched r.io co hco
  exact {
    fresh := h.fresh
    known := fun x hx => h.known x (List.mem_of_mem_eraseP hx)
    halted := h.halted
    once := h.once
    deleted := h.deleted
    live := ⟨co, hco, by rw [hrun]; decide⟩
    idle := filter_eraseP_self s.pending hone
    watched := fun io' hne co' hco' => by
      rw [filter_eraseP_ne s.pending hne]
      exact h.watched io' co' hco' }

/-- The connection `io` after a call that yields `event` for `fd`. -/
def waiting (s : EventLoop) (io : ℕ) (event : Need) (fd : ℤ) : EventLoop := { s with
  connections := Function.update s.connections io (some ⟨.RUNNING, event, fd⟩) }

theorem Ready.books (h : s.Ready io) (event : Need) (fd : ℤ) : (s.waiting io event fd).Books := by
  obtain ⟨co, hco, -⟩ := h.live
  have hnone : ∀ io', (s.waiting io event fd).connections io' = none ↔
    s.connections io' = none := by
    intro io'
    rw [waiting]
    dsimp only
    by_cases he : io' = io
    · rw [he, Function.update_self, hco]
      simp
    · rw [Function.update_of_ne he]
  exact {
    fresh := fun io' hle => (hnone io').mpr (h.fresh io' hle)
    known := fun r hr => by
      have hk := h.known r hr
      rw [← Option.ne_none_iff_isSome] at hk ⊢
      rwa [Ne, hnone]
    halted := h.halted
    once := h.once
    deleted := fun io' => by
      rw [hnone]
      exact h.deleted io' }

theorem Ready.registered (h : s.Ready io) (event : Need) (fd : ℤ) :
    Tended { s.waiting io event fd with
      pending := ⟨io, fd, event⟩ :: (s.waiting io event fd).pending } := by
  have hb := h.books event fd
  exact {
    fresh := hb.fresh
    known := List.forall_mem_cons.mpr ⟨by
      dsimp only [waiting]
      rw [Function.update_self]
      rfl, hb.known⟩
    halted := hb.halted
    once := hb.once
    deleted := hb.deleted
    watched := fun io' co hco => by
      dsimp only [waiting] at hco ⊢
      by_cases he : io' = io
      · obtain rfl := he
        rw [Function.update_self] at hco
        obtain rfl := Option.some.inj hco
        rw [List.filter_cons_of_pos (by simp), h.idle]
        exact ⟨rfl, rfl⟩
      · rw [Function.update_of_ne he] at hco
        rw [List.filter_cons_of_neg (by simpa using fun hio => he hio.symm)]
        exact h.watched io' he co hco }

/-- The connection `io` after `exec` has returned. -/
def halting (s : EventLoop) (io : ℕ) (co : Coroutine) : EventLoop := { s with
  connections := Function.update s.connections io (some { co with state := .DONE, value := .HALT })
  halted := io :: s.halted }

theorem Ready.delete (h : s.Ready io) (co : Coroutine) : ((s.halting io co).delete io).Tended := by
  obtain ⟨co', hco, -⟩ := h.live
  have hother : ∀ io' ≠ io, ((s.halting io co).delete io).connections io' = s.connections io' := by
    intro io' he
    rw [EventLoop.delete, halting]
    dsimp only
    rw [Function.update_of_ne he, Function.update_of_ne he]
  have hself : ((s.halting io co).delete io).connections io = none := Function.update_self ..
  have hpend : ∀ r ∈ s.pending, r.io ≠ io := fun r hr he =>
    List.filter_eq_nil_iff.mp h.idle r hr (decide_eq_true he)
  have hlt : io < s.accepted := by
    by_contra hle
    rw [h.fresh io (not_lt.mp hle)] at hco
    exact absurd hco (by simp)
  have hnot : io ∉ s.deleted := fun hm => by
    rw [h.deleted, hco] at hm
    exact absurd hm.2 (by simp)
  exact {
    fresh := fun io' hle => by
      rw [hother io' (hlt.trans_le hle).ne']
      exact h.fresh io' hle
    known := fun r hr => by
      rw [hother r.io (hpend r hr)]
      exact h.known r hr
    halted := congrArg (io :: ·) h.halted
    once := List.nodup_cons.mpr ⟨hnot, h.once⟩
    deleted := fun io' => by
      by_cases he : io' = io
      · rw [he, hself]
        exact iff_of_true List.mem_cons_self ⟨hlt, rfl⟩
      · rw [hother io' he]
        exact (List.mem_cons.trans (or_iff_right he)).trans (h.deleted io')
    watched := fun io' co' hco' => by
      by_cases he : io' = io
      · rw [he, hself] at hco'
        exact absurd hco' (by simp)
      · rw [hother io' he] at hco'
        exact h.watched io' he co' hco' }

end EventLoop

/-- What the slice yields, and the descriptor it watches. -/
def Coroutine.Slice.asks : Coroutine.Slice → Option (Need × ℤ)
  | .read fd => some (.READ, fd)
  | .write fd => some (.WRITE, fd)
  | .exit => none

namespace EventLoop

open Coroutine (Slice)

variable {s s' : EventLoop} {io : ℕ}

/-- What resuming a connection comes to: it waits for what it asks for, or is deleted. -/
theorem resume_eq {co : Coroutine} (hco : s.connections io = some co) (hst : co.state ≠ .DONE)
    (slice : Slice) (added : Bool) (again : Slice) : s.resume io slice added again =
      match slice.asks with
      | some (event, fd) => (s.waiting io event fd).registerConnection io event added again
      | none => (s.halting io co).delete io := by
  cases slice <;> simp only [resume, switch, hco, Coroutine.resume, if_neg hst, Coroutine.yield,
    Coroutine.Slice.asks, waiting, halting, reduceCtorEq, if_false, if_true, Option.some.injEq]

theorem Ready.resume (h : s.Ready io) (slice : Slice) (added : Bool) (again : Slice) :
    (s.resume io slice added again).Tended ↔ slice = .exit ∨ added = true := by
  obtain ⟨co, hco, hst⟩ := h.live
  rw [resume_eq hco hst]
  cases ha : slice.asks with
  | none =>
    have hs : slice = .exit := by
      cases slice with
      | exit => rfl
      | read fd => exact absurd ha (by simp [Coroutine.Slice.asks])
      | write fd => exact absurd ha (by simp [Coroutine.Slice.asks])
    exact iff_of_true (h.delete co) (.inl hs)
  | some ask =>
    obtain ⟨event, fd⟩ := ask
    have hs : slice ≠ .exit := by
      rintro rfl
      exact absurd ha (by simp [Coroutine.Slice.asks])
    have hlive : (s.waiting io event fd).connections io = some ⟨.RUNNING, event, fd⟩ :=
      Function.update_self ..
    rw [or_iff_right hs]
    dsimp only
    cases added with
    | true =>
      rw [registerConnection, hlive]
      exact iff_of_true (h.registered event fd) rfl
    | false =>
      -- the connection is still there, and nothing is pending for it
      refine iff_of_false (fun ht => ?_) (by simp)
      rw [registerConnection, hlive] at ht
      simp only [Bool.false_eq_true, if_false, switch, hlive] at ht
      obtain ⟨hone, -⟩ := ht.watched io _ (Function.update_self ..)
      exact absurd (h.idle.symm.trans hone) (by simp)

end EventLoop

/-- The `event_add` of the callback, if it comes to one, succeeds. -/
def Callback.Adds : Callback → Prop
  | .possibleAccept _ added _ => added = true
  | .connectionEvent _ slice added _ => slice = .exit ∨ added = true

namespace EventLoop

variable {s s' : EventLoop}

theorem Tended.step (h : s.Tended) {cb : Callback} (hs : s.step cb = some s') :
    s'.Tended ↔ cb.Adds := by
  cases cb with
  | possibleAccept clientFd added again =>
    obtain rfl := Option.some.inj hs
    rw [h.accept.resume, Callback.Adds, or_iff_right (by simp)]
  | connectionEvent io slice added again =>
    rw [EventLoop.step] at hs
    split_ifs at hs with hp
    obtain rfl := Option.some.inj hs
    exact (h.fire hp).resume slice added again

/-- No connection is orphaned, and none is deleted but once and when it halts, exactly as long as
`event_add` succeeds. -/
theorem run_tended {cbs : List Callback} (hr : (new.run cbs).isSome) :
    (∀ cbs' s, cbs' <+: cbs → new.run cbs' = some s → s.Tended) ↔ ∀ cb ∈ cbs, cb.Adds := by
  have hsteps :
      Steps.Always step new Tended cbs ↔ Steps.Each step new (fun _ => Callback.Adds) cbs :=
    Steps.always_iff_each new_tended (fun _ h => h) (fun _ _ _ h hs => (h.step hs).mpr)
      (fun _ _ _ h hs => (h.step hs).mp) hr
  exact hsteps.trans (Steps.each_iff_forall hr)

theorem run_tended_accept : ∃ s, new.run [.possibleAccept 5 true .exit] = some s ∧ s.Tended := by
  have h : ∀ cb ∈ [Callback.possibleAccept 5 true .exit], cb.Adds := by
    intro cb hm
    rw [List.mem_singleton.mp hm]
    rfl
  exact ⟨_, rfl, (run_tended rfl).mpr h _ _ (List.prefix_refl _) rfl⟩

/-- The first read of a new connection cannot be registered. -/
theorem run_orphan : ∃ s, new.run [.possibleAccept 5 false .exit] = some s ∧ ¬ s.Tended :=
  ⟨_, rfl, fun h => absurd ((new_tended.step
    (show new.step (.possibleAccept 5 false .exit) = some _ from rfl)).mp h) Bool.false_ne_true⟩

end EventLoop

end Stutter
