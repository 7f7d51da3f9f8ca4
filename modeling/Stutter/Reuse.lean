import Stutter.Exchange
import Stutter.Sharing

namespace Stutter

open Joyent

namespace SocketPool

variable {p : SocketPool} {N : Network}

/-- What was free is free again when it is put back. -/
theorem put_free (ht : p.taken = ∅) {fd : ℤ} (h : fd ∈ p.avail) :
    (put { p with avail := p.avail.erase fd, taken := insert fd p.taken } fd).2 = p := by
  obtain ⟨host, port, avail, taken⟩ := p
  obtain rfl : taken = ∅ := ht
  have hfd : fd ∈ (insert fd ∅ : Finset ℤ) := Finset.mem_insert_self _ _
  have hfree : insert fd (avail.erase fd) = avail := Finset.insert_erase h
  have hgone : (insert fd ∅ : Finset ℤ).erase fd = ∅ := Finset.erase_insert (Finset.notMem_empty _)
  rw [put, if_pos hfd]
  change SocketPool.mk host port (insert fd (avail.erase fd))
    ((insert fd ∅ : Finset ℤ).erase fd) = _
  rw [hfree, hgone]

/-- A new socket is free when it is put back. -/
theorem put_new (ht : p.taken = ∅) (ha : p.avail = ∅) (fd : ℤ) :
    (put { p with taken := insert fd p.taken } fd).2 = { p with avail := {fd} } := by
  obtain ⟨host, port, avail, taken⟩ := p
  obtain rfl : taken = ∅ := ht
  obtain rfl : avail = ∅ := ha
  have hfd : fd ∈ (insert fd ∅ : Finset ℤ) := Finset.mem_insert_self _ _
  have hgone : (insert fd ∅ : Finset ℤ).erase fd = ∅ := Finset.erase_insert (Finset.notMem_empty _)
  rw [put, if_pos hfd]
  change SocketPool.mk host port {fd} ((insert fd ∅ : Finset ℤ).erase fd) = _
  rw [hgone]

theorem put_nothing (ht : p.taken = ∅) (fd : ℤ) : (p.put fd).2 = p := by
  rw [put, if_neg (by rw [ht]; exact Finset.notMem_empty _)]

/-- Where nothing is taken, a `get` with the `put` behind it leaves the pool as it was, or with the
first socket of its own. -/
theorem get_put (ht : p.taken = ∅) (fd : ℤ) (w : Sockets) :
    let g := p.get N fd w
    let p' := (g.2.1.put g.2.2.1).2
    (g.1 = true ∧ g.2.2.1 ∈ p.avail ∧ p' = p) ∨
      (g.1 = true ∧ p.avail = ∅ ∧ p' = { p with avail := {g.2.2.1} }) ∨
      (g.1 = false ∧ p.avail = ∅ ∧ p' = p) := by
  by_cases h : p.Obtains N
  · obtain ⟨a, ha, hg⟩ | ⟨ha, -, w', -, hg⟩ := get_obtains h fd w
    · rw [hg]
      exact .inl ⟨rfl, ha, put_free ht ha⟩
    · rw [hg]
      exact .inr (.inl ⟨rfl, ha, put_new ht ha _⟩)
  · obtain ⟨w', hg⟩ := get_fails h fd w
    rw [hg]
    exact .inr (.inr ⟨rfl, Finset.not_nonempty_iff_eq_empty.mp fun ha => h (.inl ha),
      put_nothing ht fd⟩)

end SocketPool

namespace Client

variable {E : Env} {W : Strategy} {N : Network} {c c' : Client} {s s' : System} {r r' : Request}

/-- Between `connect` and `release_socket` nothing happens to the pools. -/
structure After (c : Client) (s : System) (c' : Client) (s' : System) : Prop where
  fd : c'.fd = c.fd
  target : c'.target = c.target
  pools : s'.pools = s.pools

theorem After.trans {c₁ c₂ c₃ : Client} {s₁ s₂ s₃ : System} (h : After c₁ s₁ c₂ s₂)
    (h' : After c₂ s₂ c₃ s₃) : After c₁ s₁ c₃ s₃ :=
  ⟨h'.fd.trans h.fd, h'.target.trans h.target, h'.pools.trans h.pools⟩

theorem sendHeaders_after (W : Strategy) (c : Client) (s : System) (r : Request) :
    After c s c (c.sendHeaders W s r).2 := by
  unfold sendHeaders
  generalize (s.wires c.fd).sendRaw W r.message.data = x
  obtain ⟨ok, w⟩ := x
  exact ⟨rfl, rfl, rfl⟩

theorem waitFor100_after {ok : Bool} (h : c.waitFor100 E s = some (ok, c', s')) :
    After c s c' s' := by
  obtain ⟨⟨ok', p, u, w⟩, -, he⟩ := Option.map_eq_some_iff.mp h
  obtain ⟨-, rfl, rfl⟩ := Prod.mk.injEq .. ▸ Prod.mk.injEq .. ▸ he
  exact ⟨rfl, rfl, rfl⟩

theorem sendBody_after (W : Strategy) (c : Client) (s : System) (r : Request) :
    After c s c (c.sendBody W s r).2 := by
  unfold sendBody
  dsimp only
  generalize (if r.require100 then (s.wires c.fd).sendRaw W r.message.body.data
    else (true, s.wires c.fd)) = x
  obtain ⟨_ | _, w⟩ := x
  · exact ⟨rfl, rfl, rfl⟩
  · dsimp only
    generalize w.sendBufferedBody W s.fs r.message.body = y
    obtain ⟨ok, w'⟩ := y
    exact ⟨rfl, rfl, rfl⟩

theorem receive_after {reply reply' : Reply} {ok : Bool}
    (h : c.receive E s reply = some (ok, c', s', reply')) : After c s c' s' := by
  obtain ⟨⟨ok', p, u, w⟩, -, he⟩ := Option.map_eq_some_iff.mp h
  obtain ⟨-, rfl, rfl, -⟩ := Prod.mk.injEq .. ▸ Prod.mk.injEq .. ▸ Prod.mk.injEq .. ▸ he
  exact ⟨rfl, rfl, rfl⟩

/-- A call gets a socket or fails for the lack of one, and then leaves the pools. -/
theorem ask_after {e : Option ClientError} (h : c.ask E W N s r = some (e, c', s', r')) :
    let x := connect N { c with done := false } s
    After x.2.1 x.2.2 c' s' ∧ (x.1 = false → e = some .connectionError) := by
  rw [ask] at h
  dsimp only at h ⊢
  generalize connect N { c with done := false } s = x at h
  obtain ⟨_ | _, c₁, s₁⟩ := x
  · obtain ⟨rfl, rfl, rfl, -⟩ :=
      Prod.mk.injEq .. ▸ Prod.mk.injEq .. ▸ Prod.mk.injEq .. ▸ Option.some.inj h
    exact ⟨⟨rfl, rfl, rfl⟩, fun _ => rfl⟩
  refine ⟨?_, fun hx => Bool.noConfusion hx⟩
  dsimp only at h ⊢
  have hh := sendHeaders_after W c₁ s₁ (r.setHost c.host).prepare
  generalize c₁.sendHeaders W s₁ (r.setHost c.host).prepare = y at h hh
  obtain ⟨_ | _, s₂⟩ := y
  · obtain ⟨-, rfl, rfl, -⟩ :=
      Prod.mk.injEq .. ▸ Prod.mk.injEq .. ▸ Prod.mk.injEq .. ▸ Option.some.inj h
    exact hh
  obtain ⟨⟨ok, c₃, s₃⟩, hw, hr⟩ := Option.map_eq_some_iff.mp h
  have hw' : After c₁ s₂ c₃ s₃ := by
    split_ifs at hw
    · exact waitFor100_after hw
    · obtain ⟨-, rfl, rfl⟩ := Prod.mk.injEq .. ▸ Prod.mk.injEq .. ▸ Option.some.inj hw
      exact ⟨rfl, rfl, rfl⟩
  dsimp only at hr hh
  cases ok with
  | false =>
    obtain ⟨-, rfl, rfl, -⟩ := Prod.mk.injEq .. ▸ Prod.mk.injEq .. ▸ Prod.mk.injEq .. ▸ hr
    exact hh.trans hw'
  | true =>
    have hb := sendBody_after W c₃ s₃ (r.setHost c.host).prepare
    rw [Bool.not_true, if_neg Bool.false_ne_true] at hr
    generalize c₃.sendBody W s₃ (r.setHost c.host).prepare = z at hr hb
    obtain ⟨_ | _, s₄⟩ := z <;>
      obtain ⟨-, rfl, rfl, -⟩ := Prod.mk.injEq .. ▸ Prod.mk.injEq .. ▸ Prod.mk.injEq .. ▸ hr <;>
      exact (hh.trans hw').trans hb

/-- What was called `CONNECTION_ERROR`. -/
def Unconnected (ok : Bool) (c : Client) : Prop := ok = false ∧ c.error = .connectionError

/-- Whatever goes wrong, `send` puts back what it got. -/
theorem send_after {reply reply' : Reply} {ok : Bool}
    (h : c.send E W N s r reply = some (ok, c', s', r', reply')) :
    let g := (c.pool s).get N c.fd s.sockets
    c'.fd = g.2.2.1 ∧ c'.target = c.target ∧
      s'.pools = Function.update s.pools c.target (g.2.1.put g.2.2.1).2 ∧
      (g.1 = false → Unconnected ok c') := by
  obtain ⟨⟨e, c₁, s₁, r₁⟩, ha, hr⟩ := Option.bind_eq_some_iff.mp h
  obtain ⟨hafter, hfail⟩ := ask_after ha
  generalize hg : (c.pool s).get N c.fd s.sockets = g
  obtain ⟨ok₁, p, fd, w⟩ := g
  have hc := connect_eq (c := { c with done := false }) (s := s) hg
  rw [hc] at hafter hfail
  -- every end of `send` is a `release_socket`
  have hrelease : ∀ {c₂ : Client} {s₂ : System}, After c₁ s₁ c₂ s₂ → c₂.fd = fd ∧
      c₂.target = c.target ∧
      (c₂.releaseSocket s₂).pools = Function.update s.pools c.target (p.put fd).2 := by
    intro c₂ s₂ hstep
    have hall := hafter.trans hstep
    have hfd : c₂.fd = fd := hall.fd
    have htarget : c₂.target = c.target := hall.target
    have hpools : s₂.pools = Function.update s.pools c.target p := hall.pools
    refine ⟨hfd, htarget, ?_⟩
    change Function.update s₂.pools c₂.target ((s₂.pools c₂.target).put c₂.fd).2 = _
    rw [htarget, hfd, hpools, Function.update_self, Function.update_idem]
  dsimp only at hr
  cases e with
  | some e =>
    obtain ⟨rfl, rfl, rfl, -⟩ :=
      Prod.mk.injEq .. ▸ Prod.mk.injEq .. ▸ Prod.mk.injEq .. ▸ Option.some.inj hr
    obtain ⟨hfd, htarget, hpools⟩ := hrelease ⟨rfl, rfl, rfl⟩
    exact ⟨hfd, htarget, hpools, fun hno => ⟨rfl, Option.some.inj (hfail hno)⟩⟩
  | none =>
    obtain ⟨⟨ok₂, c₂, s₂, reply₂⟩, hrec, he⟩ := Option.map_eq_some_iff.mp hr
    obtain ⟨hfd, htarget, hpools⟩ := hrelease (receive_after hrec)
    have hnever : ok₁ = false → Unconnected ok c' := fun hno => by cases hfail hno
    cases ok₂ <;>
      obtain ⟨-, rfl, rfl, -⟩ := Prod.mk.injEq .. ▸ Prod.mk.injEq .. ▸ Prod.mk.injEq .. ▸ he <;>
      exact ⟨hfd, htarget, hpools, hnever⟩

end Client

/-- No call holds a socket. -/
def System.AtRest (s : System) : Prop := ∀ target, (s.pools target).taken = ∅

theorem System.new_atRest (wires : ℤ → Socket) (fs : Fs) : (System.new wires fs).AtRest :=
  fun _ => rfl

namespace Client

variable {E : Env} {W : Strategy} {N : Network} {c c' : Client} {s s' : System} {r r' : Request}

/-- A `send` while no other holds a socket: it takes a free one, or the first of its pool, or there
is none for it; and it leaves the pools so. -/
theorem send_atRest (hs : s.AtRest) {reply reply' : Reply} {ok : Bool}
    (h : c.send E W N s r reply = some (ok, c', s', r', reply')) :
    (c'.fd ∈ (s.pools c.target).avail ∧ s'.pools = s.pools) ∨
      ((s.pools c.target).avail = ∅ ∧ s'.pools = Function.update s.pools c.target
        { s.pools c.target with avail := {c'.fd} }) ∨
      ((s.pools c.target).avail = ∅ ∧ Unconnected ok c' ∧ s'.pools = s.pools) := by
  obtain ⟨hfd, -, hpools, hfail⟩ := send_after h
  obtain ⟨-, ha, hp⟩ | ⟨-, ha, hp⟩ | ⟨hno, ha, hp⟩ :=
    SocketPool.get_put (N := N) (hs c.target) c.fd s.sockets
  · refine .inl ⟨hfd ▸ ha, hpools.trans ?_⟩
    exact (congrArg (Function.update s.pools c.target) hp).trans (Function.update_eq_self _ _)
  · refine .inr (.inl ⟨ha, hpools.trans ?_⟩)
    rw [hfd]
    exact congrArg (Function.update s.pools c.target) hp
  · refine .inr (.inr ⟨ha, hfail hno, hpools.trans ?_⟩)
    exact (congrArg (Function.update s.pools c.target) hp).trans (Function.update_eq_self _ _)

/-- The step over a pool: it keeps what it has, gets a first socket at most, and has the socket that
the call went over. -/
theorem send_pool (hs : s.AtRest) {reply reply' : Reply} {ok : Bool}
    (h : c.send E W N s r reply = some (ok, c', s', r', reply')) : s'.AtRest ∧ ∀ target,
      (s.pools target).avail ⊆ (s'.pools target).avail ∧
      ((s.pools target).avail.card ≤ 1 → (s'.pools target).avail.card ≤ 1) ∧
      (c.target = target → Unconnected ok c' ∨ c'.fd ∈ (s'.pools target).avail) := by
  obtain ⟨hfd, hp⟩ | ⟨hnone, hp⟩ | ⟨hnone, hun, hp⟩ := send_atRest hs h
  · unfold System.AtRest
    rw [hp]
    exact ⟨hs, fun target => ⟨Finset.Subset.refl _, id, fun ht => .inr (ht ▸ hfd)⟩⟩
  · have hpool : ∀ target, s'.pools target = if target = c.target then
        { s.pools c.target with avail := {c'.fd} } else s.pools target := fun target => by
      rw [hp]
      exact Function.update_apply ..
    refine ⟨fun target => ?_, fun target => ?_⟩
    · rw [hpool]
      split_ifs
      · exact hs c.target
      · exact hs target
    · rw [hpool]
      split_ifs with ht
      · obtain rfl := ht
        rw [hnone]
        exact ⟨Finset.empty_subset _, fun _ => (Finset.card_singleton _).le,
          fun _ => .inr (Finset.mem_singleton_self _)⟩
      · exact ⟨Finset.Subset.refl _, id, fun h => absurd h.symm ht⟩
  · unfold System.AtRest
    rw [hp]
    exact ⟨hs, fun target => ⟨Finset.Subset.refl _, id, fun _ => .inl hun⟩⟩

/-- A call of `send`, and what came of it. -/
structure Turn where
  client : Client
  ok : Bool
  client' : Client

/-- One `send` after another, of any clients, in any circumstances. What happens to the sockets in
between is not said. -/
inductive Turns : System → List Turn → System → Prop
  | nil (s : System) : Turns s [] s
  | cons {s s₁ s' s'' : System} {E : Env} {W : Strategy} {N : Network} {c c' : Client}
    {r r' : Request} {reply reply' : Reply} {ok : Bool} {es : List Turn}
    (between : s₁.pools = s.pools)
    (send : c.send E W N s₁ r reply = some (ok, c', s', r', reply')) (more : Turns s' es s'') :
    Turns s (⟨c, ok, c'⟩ :: es) s''

theorem Turns.pool {es : List Turn} (h : Turns s es s') (hs : s.AtRest)
    {target : Bytes × UInt16} (hfew : (s.pools target).avail.card ≤ 1) : s'.AtRest ∧
      (s.pools target).avail ⊆ (s'.pools target).avail ∧ (s'.pools target).avail.card ≤ 1 ∧
      ∀ e ∈ es, e.client.target = target →
        Unconnected e.ok e.client' ∨ e.client'.fd ∈ (s'.pools target).avail := by
  induction h with
  | nil s => exact ⟨hs, Finset.Subset.refl _, hfew, List.forall_mem_nil _⟩
  | @cons s s₁ s' s'' E W N c c' r r' reply reply' ok es between send more ih =>
    unfold System.AtRest at hs
    rw [← between] at hs hfew ⊢
    obtain ⟨hs', hstep⟩ := send_pool hs send
    obtain ⟨hsub, hkeeps, hused⟩ := hstep target
    obtain ⟨hend, hmore, hone, hall⟩ := ih hs' (hkeeps hfew)
    exact ⟨hend, hsub.trans hmore, hone,
      List.forall_mem_cons.mpr ⟨fun ht => (hused ht).imp_right fun hfd => hmore hfd, hall⟩⟩

/-- The pool of the target is at rest, with the one socket that every `send` to the target went
over, or with none, and no `send` got one. -/
def OneSocket (es : List Turn) (s : System) (target : Bytes × UInt16) : Prop :=
  (s.pools target).taken = ∅ ∧
    ((s.pools target).avail = ∅ ∧
      (∀ e ∈ es, e.client.target = target → Unconnected e.ok e.client') ∨
    ∃ fd, (s.pools target).avail = {fd} ∧
      ∀ e ∈ es, e.client.target = target → Unconnected e.ok e.client' ∨ e.client'.fd = fd)

/-- Clients that send one after another never get a second socket to a target: all that get one get
the same, also when what they sent or read over it failed before. -/
theorem one_socket {wires : ℤ → Socket} {fs : Fs} {es : List Turn}
    (h : Turns (.new wires fs) es s) (target : Bytes × UInt16) : OneSocket es s target := by
  obtain ⟨hrest, -, hone, hall⟩ := h.pool (System.new_atRest wires fs) (Nat.zero_le 1)
  refine ⟨hrest target, ?_⟩
  obtain ⟨fd, hsub⟩ := Finset.card_le_one_iff_subset_singleton.mp hone
  obtain hnone | hfd := Finset.subset_singleton_iff.mp hsub
  · refine .inl ⟨hnone, fun e he ht => (hall e he ht).resolve_right fun hmem => ?_⟩
    rw [hnone] at hmem
    exact absurd hmem (Finset.notMem_empty _)
  · refine .inr ⟨fd, hfd, fun e he ht => (hall e he ht).imp_right fun hmem => ?_⟩
    rw [hfd] at hmem
    exact Finset.mem_singleton.mp hmem

/-- Nothing comes in on any socket. -/
def deaf : System := .new (fun _ => .new []) .new

/-- The second `send` goes over the socket on which the first one failed. -/
theorem one_socket_twice : ∃ e e' s, Turns deaf [e, e'] s ∧ e.ok = false ∧ e.client'.fd = 3 ∧
    e'.ok = false ∧ e'.client'.fd = 3 ∧ OneSocket [e, e'] s (ascii "h", 80) := by
  let W : Strategy := ⟨fun _ n => n, fun _ n => n⟩
  have hboth : ((new (ascii "h") 80).send .linux W (.reachable 3) deaf .new .new).bind (fun x =>
      ((new (ascii "h") 80).send .linux W (.reachable 5) x.2.2.1 .new .new).map fun y =>
        (x.1, x.2.1.fd, y.1, y.2.1.fd)) = some (false, 3, false, 3) := by
    decide +kernel
  obtain ⟨⟨ok₁, c₁, s₁, r₁, reply₁⟩, hfirst, hb⟩ := Option.bind_eq_some_iff.mp hboth
  obtain ⟨⟨ok₂, c₂, s₂, r₂, reply₂⟩, hsecond, he⟩ := Option.map_eq_some_iff.mp hb
  obtain ⟨rfl, hfd₁, rfl, hfd₂⟩ :=
    Prod.mk.injEq .. ▸ Prod.mk.injEq .. ▸ Prod.mk.injEq .. ▸ he
  have hturns : Turns deaf [⟨_, false, c₁⟩, ⟨_, false, c₂⟩] s₂ :=
    .cons rfl hfirst (.cons rfl hsecond (.nil s₂))
  exact ⟨_, _, s₂, hturns, rfl, hfd₁, rfl, hfd₂, one_socket hturns _⟩

end Client

end Stutter
