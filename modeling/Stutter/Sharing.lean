import Stutter.Client
import Stutter.Lib.Steps

namespace Stutter

/-- The steps of `Client::send` that wait for the socket. -/
inductive Stage where
  | sendHeaders | waitFor100 | sendBody | readReply
  deriving DecidableEq

namespace Client

/-- The host and the port, which are the key of the pool. -/
def target (c : Client) : Bytes × UInt16 := (c.host, c.port)

/-- `send` up to its first write. -/
def sendStart (N : Network) (c : Client) (s : System) (r : Request) :
    Client × Option (Request × Stage) × System :=
  let c := { c with done := false }
  let r := (r.setHost c.host).prepare
  match c.connect N s with
  | (false, c, s) => let (c, s) := c.failure .connectionError s; (c, none, s)
  | (true, c, s) => (c, some (r, .sendHeaders), s)

/-- `send` behind a step, which has succeeded or not, up to the next one. -/
def sendOn (c : Client) (s : System) (r : Request) :
    Stage → Bool → Client × Option (Request × Stage) × System
  | .sendHeaders, true => (c, some (r, if r.require100 then .waitFor100 else .sendBody), s)
  | .waitFor100, true => (c, some (r, .sendBody), s)
  | .sendBody, true => (c, some (r, .readReply), s)
  | .readReply, true => (c, none, c.releaseSocket s)
  | .sendHeaders, false | .sendBody, false =>
    let (c, s) := c.failure .writeError s; (c, none, s)
  | .waitFor100, false | .readReply, false =>
    let (c, s) := c.failure .readError s; (c, none, s)

theorem connect_eq {N : Network} {c : Client} {s : System} {ok : Bool} {p : SocketPool} {fd : ℤ}
    {w : Sockets} (h : (c.pool s).get N c.fd s.sockets = (ok, p, fd, w)) :
    c.connect N s = (ok, { c with fd := fd }, { s.setPool c.target p with sockets := w }) := by
  rw [connect, h]
  rfl

theorem sendStart_obtains {N : Network} {c : Client} {s : System} (r : Request)
    (h : (c.pool s).Obtains N) : ∃ fd p w, (c.pool s).get N c.fd s.sockets = (true, p, fd, w) ∧
      c.sendStart N s r = ({ c with done := false, fd := fd },
        some ((r.setHost c.host).prepare, .sendHeaders),
        { s.setPool c.target p with sockets := w }) := by
  have hok := (SocketPool.get_iff N (c.pool s) c.fd s.sockets).mpr h
  generalize hg : (c.pool s).get N c.fd s.sockets = g at hok
  obtain ⟨ok, p, fd, w⟩ := g
  obtain rfl : ok = true := hok
  refine ⟨fd, p, w, rfl, ?_⟩
  have hc := connect_eq (N := N) (c := { c with done := false }) (s := s) hg
  rw [sendStart]
  dsimp only
  rw [hc]
  rfl

theorem sendStart_fails {N : Network} {c : Client} {s : System} (r : Request)
    (h : ¬ (c.pool s).Obtains N) : ∃ w, (∀ fd, s.sockets fd ≠ none → w fd ≠ none) ∧
      c.sendStart N s r = ({ c with done := false, error := .connectionError }, none,
        { s.setPool c.target ((c.pool s).put c.fd).2 with sockets := w }) := by
  obtain ⟨w, hg⟩ := SocketPool.get_fails h c.fd s.sockets
  refine ⟨w, fun fd hfd => ?_, ?_⟩
  · have hopen := SocketPool.get_open N (c.pool s) c.fd s.sockets hfd
    rwa [hg] at hopen
  · have hc := connect_eq (N := N) (c := { c with done := false }) (s := s) hg
    rw [sendStart]
    dsimp only
    rw [hc]
    simp only [failure, releaseSocket, pool, System.setPool, Function.update_self,
      Function.update_idem, target]

theorem sendOn_cases (c : Client) (s : System) (r : Request) (stage : Stage) (ok : Bool) :
    (∃ stage', c.sendOn s r stage ok = (c, some (r, stage'), s)) ∨
    ∃ e, c.sendOn s r stage ok = ({ c with error := e }, none, c.releaseSocket s) := by
  cases stage <;> cases ok
  case sendHeaders.true | waitFor100.true | sendBody.true => exact .inl ⟨_, rfl⟩
  all_goals exact .inr ⟨_, rfl⟩

end Client

/-- Clients that share a system, each with its unfinished call of `send`, if any: the request, and
the step that waits. -/
structure Clients (ι : Type) where
  client : ι → Client
  call : ι → Option (Request × Stage)
  system : System

namespace Clients

variable {ι : Type}

def new (target : ι → Bytes × UInt16) (wires : ℤ → Socket) (fs : Fs) : Clients ι :=
  ⟨fun i => .new (target i).1 (target i).2, fun _ => none, .new wires fs⟩

/-- What happens between two waits. -/
inductive Event (ι : Type) where
  /-- `send` is called -/
  | send (i : ι) (N : Network) (r : Request)
  /-- the step that waits reads or writes, with any result, and waits again -/
  | io (i : ι) (done : Bool) (w : Socket) (fs : Fs)
  /-- the step that waits returns -/
  | returns (i : ι) (ok : Bool)

/-- The unfinished call of the client `i` has the descriptor `fd`. -/
def Uses (m : Clients ι) (i : ι) (fd : ℤ) : Prop := m.call i ≠ none ∧ (m.client i).fd = fd

/-- No descriptor is used by two calls, and each that is used stays taken. -/
structure Exclusive (m : Clients ι) : Prop where
  single : ∀ i j fd, m.Uses i fd → m.Uses j fd → i = j
  taken : ∀ i fd, m.Uses i fd → fd ∈ ((m.client i).pool m.system).taken
  kept : ∀ i fd target, m.Uses i fd → fd ∉ (m.system.pools target).avail

/-- A call that gets no descriptor is one of a client whose last descriptor nobody has taken. -/
def Lends (m : Clients ι) : Event ι → Prop
  | .send i N _ => ((m.client i).pool m.system).Obtains N ∨
    (m.client i).fd ∉ ((m.client i).pool m.system).taken
  | _ => True

/-- What is taken is used, and what is pooled is open, and in one pool. -/
structure Inv (m : Clients ι) : Prop extends Exclusive m where
  used : ∀ target, ∀ fd ∈ (m.system.pools target).taken,
    ∃ i, m.Uses i fd ∧ (m.client i).target = target
  known : ∀ target fd, fd ∈ (m.system.pools target).avail ∨ fd ∈ (m.system.pools target).taken →
    m.system.sockets fd ≠ none
  owner : ∀ t t' fd, fd ∈ (m.system.pools t).avail → fd ∈ (m.system.pools t').avail → t = t'

variable {m m' : Clients ι}

theorem inv_new (target : ι → Bytes × UInt16) (wires : ℤ → Socket) (fs : Fs) :
    (new target wires fs).Inv where
  single _ _ _ h := absurd rfl h.1
  taken _ _ h := absurd rfl h.1
  kept _ _ _ h := absurd rfl h.1
  used _ _ h := absurd h (Finset.notMem_empty _)
  known _ _ h := by
    obtain h | h := h <;> exact absurd h (Finset.notMem_empty _)
  owner _ _ _ h := absurd h (Finset.notMem_empty _)

/-- Nothing happens to the pools. -/
theorem Inv.congr (h : m.Inv) (hp : m'.system.pools = m.system.pools)
    (hs : ∀ fd, m.system.sockets fd ≠ none → m'.system.sockets fd ≠ none)
    (hu : ∀ i fd, m'.Uses i fd ↔ m.Uses i fd)
    (ht : ∀ i, (m'.client i).target = (m.client i).target) : m'.Inv where
  single i j fd hi hj := h.single i j fd ((hu i fd).mp hi) ((hu j fd).mp hj)
  taken i fd hi := by
    have hm := h.taken i fd ((hu i fd).mp hi)
    change fd ∈ (m'.system.pools (m'.client i).target).taken
    rw [hp, ht]
    exact hm
  kept i fd t hi := by
    rw [hp]
    exact h.kept i fd t ((hu i fd).mp hi)
  used t fd hm := by
    rw [hp] at hm
    obtain ⟨i, hi, htarget⟩ := h.used t fd hm
    exact ⟨i, (hu i fd).mpr hi, (ht i).trans htarget⟩
  known t fd hm := by
    rw [hp] at hm
    exact hs fd (h.known t fd hm)
  owner t t' fd := by
    rw [hp]
    exact h.owner t t' fd

variable [DecidableEq ι]

/-- The client `i` has come to its next wait, or to the end of its call. -/
def set (m : Clients ι) (i : ι) (x : Client × Option (Request × Stage) × System) : Clients ι :=
  ⟨Function.update m.client i x.1, Function.update m.call i x.2.1, x.2.2⟩

/-- One event. A client is called again only when its call has returned, and `socket` makes a
descriptor that is not open. -/
def step (m : Clients ι) : Event ι → Option (Clients ι)
  | .send i N r =>
    if m.call i = none ∧ (0 ≤ N.socket → m.system.sockets N.socket = none) then
      some (m.set i ((m.client i).sendStart N m.system r))
    else none
  | .io i done w fs => (m.call i).map fun call =>
    m.set i ({ m.client i with done := done }, some call,
      { m.system.setWire (m.client i).fd w with fs := fs })
  | .returns i ok => (m.call i).map fun (r, stage) =>
    m.set i ((m.client i).sendOn m.system r stage ok)

theorem set_uses {i j : ι} {fd : ℤ} {c : Client} {call : Option (Request × Stage)} {s : System} :
    (m.set i (c, call, s)).Uses j fd ↔
      if j = i then call ≠ none ∧ c.fd = fd else m.Uses j fd := by
  rw [Uses, set]
  dsimp only
  split_ifs with h
  · subst h
    rw [Function.update_self, Function.update_self]
  · rw [Function.update_of_ne h, Function.update_of_ne h]
    rfl

theorem set_target {i : ι} {c : Client} {call : Option (Request × Stage)} {s : System}
    (h : c.target = (m.client i).target) (j : ι) :
    ((m.set i (c, call, s)).client j).target = (m.client j).target := by
  rw [set]
  dsimp only
  by_cases hj : j = i
  · subst hj
    rw [Function.update_self, h]
  · rw [Function.update_of_ne hj]

/-- A free descriptor is lent. -/
theorem Inv.lend (h : m.Inv) {i : ι} {a : ℤ} {c : Client} {x : Request × Stage} {p : SocketPool}
    {w : Sockets} (hi : m.call i = none) (hc : c.target = (m.client i).target) (hfd : c.fd = a)
    (hp : p.avail ⊆ (m.system.pools c.target).avail)
    (ht : p.taken = insert a (m.system.pools c.target).taken)
    (ha : ∀ j, ¬ m.Uses j a) (hav : a ∉ p.avail)
    (hother : ∀ t, t ≠ c.target → a ∉ (m.system.pools t).avail)
    (hw : ∀ fd, m.system.sockets fd ≠ none → w fd ≠ none) (hopen : w a ≠ none) :
    (m.set i (c, some x, { m.system.setPool c.target p with sockets := w })).Inv := by
  have hidle : ∀ fd, ¬ m.Uses i fd := fun fd hu => hu.1 hi
  have huses : ∀ j fd, (m.set i (c, some x, { m.system.setPool c.target p with
      sockets := w })).Uses j fd ↔ j = i ∧ a = fd ∨ m.Uses j fd := by
    intro j fd
    rw [set_uses]
    split_ifs with hj
    · subst hj
      rw [hfd, or_iff_left (hidle fd)]
      simp
    · simp [hj]
  have hpool : ∀ t, (m.system.setPool c.target p).pools t =
      if t = c.target then p else m.system.pools t := by
    intro t
    rw [System.setPool]
    exact Function.update_apply ..
  constructor
  · constructor
    · intro j k fd hj hk
      obtain ⟨hji, haj⟩ | hju := (huses j fd).mp hj <;>
        obtain ⟨hki, hak⟩ | hku := (huses k fd).mp hk
      · exact hji.trans hki.symm
      · exact absurd (haj ▸ hku) (ha k)
      · exact absurd (hak ▸ hju) (ha j)
      · exact h.single j k fd hju hku
    · intro j fd hj
      change fd ∈ ((m.system.setPool c.target p).pools (_ : Client).target).taken
      rw [set_target hc, hpool]
      obtain ⟨rfl, rfl⟩ | hj := (huses j fd).mp hj
      · rw [if_pos hc.symm, ht]
        exact Finset.mem_insert_self _ _
      · have hm := h.taken j fd hj
        split_ifs with he
        · rw [ht, ← he]
          exact Finset.mem_insert_of_mem hm
        · exact hm
    · intro j fd t hj
      change fd ∉ ((m.system.setPool c.target p).pools t).avail
      rw [hpool]
      obtain ⟨rfl, rfl⟩ | hj := (huses j fd).mp hj
      · split_ifs with he
        · exact hav
        · exact hother t he
      · split_ifs with he
        · exact fun hm => h.kept j fd _ hj (hp hm)
        · exact h.kept j fd t hj
  · intro t fd hm
    change fd ∈ ((m.system.setPool c.target p).pools t).taken at hm
    rw [hpool] at hm
    have hold : fd ∈ (m.system.pools t).taken ∨ fd = a ∧ t = c.target := by
      split_ifs at hm with he
      · rw [ht, Finset.mem_insert] at hm
        obtain rfl | hm := hm
        · exact .inr ⟨rfl, he⟩
        · exact .inl (he ▸ hm)
      · exact .inl hm
    obtain hm | ⟨rfl, rfl⟩ := hold
    · obtain ⟨j, hj, htarget⟩ := h.used t fd hm
      exact ⟨j, (huses j fd).mpr (.inr hj), (set_target hc j).trans htarget⟩
    · exact ⟨i, (huses i fd).mpr (.inl ⟨rfl, rfl⟩), (set_target hc i).trans hc.symm⟩
  · intro t fd hm
    change fd ∈ ((m.system.setPool c.target p).pools t).avail ∨
      fd ∈ ((m.system.setPool c.target p).pools t).taken at hm
    change w fd ≠ none
    rw [hpool] at hm
    split_ifs at hm with he
    · obtain hm | hm := hm
      · exact hw fd (h.known _ fd (.inl (hp hm)))
      · rw [ht, Finset.mem_insert] at hm
        obtain rfl | hm := hm
        · exact hopen
        · exact hw fd (h.known _ fd (.inr hm))
    · exact hw fd (h.known t fd hm)
  · intro t t' fd hm hm'
    change fd ∈ ((m.system.setPool c.target p).pools t).avail at hm
    change fd ∈ ((m.system.setPool c.target p).pools t').avail at hm'
    rw [hpool] at hm hm'
    have hold : ∀ t, fd ∈ (if t = c.target then p else m.system.pools t).avail →
        fd ∈ (m.system.pools t).avail := by
      intro t hm
      split_ifs at hm with he
      · rw [he]
        exact hp hm
      · exact hm
    exact h.owner t t' fd (hold t hm) (hold t' hm')

/-- A call gives back the descriptor that it uses. -/
theorem Inv.release (h : m.Inv) {i : ι} {c : Client} (hi : m.call i ≠ none)
    (hc : c.target = (m.client i).target) (hfd : c.fd = (m.client i).fd) :
    (m.set i (c, none, c.releaseSocket m.system)).Inv := by
  have hmine : m.Uses i c.fd := ⟨hi, hfd.symm⟩
  have huses : ∀ j fd, (m.set i (c, none, c.releaseSocket m.system)).Uses j fd ↔
      j ≠ i ∧ m.Uses j fd := by
    intro j fd
    rw [set_uses]
    split_ifs with hj <;> simp [hj]
  have htaken : c.fd ∈ (c.pool m.system).taken := by
    have hm := h.taken i c.fd hmine
    change c.fd ∈ (m.system.pools (m.client i).target).taken at hm
    rwa [← hc] at hm
  have hpool : ∀ t, (c.releaseSocket m.system).pools t = if t = c.target then
      { m.system.pools t with
        taken := (m.system.pools t).taken.erase c.fd
        avail := insert c.fd (m.system.pools t).avail }
      else m.system.pools t := by
    intro t
    rw [Client.releaseSocket, SocketPool.put, if_pos htaken, System.setPool]
    dsimp only
    rw [Function.update_apply]
    change (if t = c.target then _ else _) = _
    split_ifs with ht
    · rw [ht]
      rfl
    · rfl
  constructor
  · constructor
    · intro j k fd hj hk
      exact h.single j k fd ((huses j fd).mp hj).2 ((huses k fd).mp hk).2
    · intro j fd hj
      obtain ⟨hne, hu⟩ := (huses j fd).mp hj
      have hm := h.taken j fd hu
      change fd ∈ ((c.releaseSocket m.system).pools (_ : Client).target).taken
      rw [set_target hc, hpool]
      split_ifs
      · refine Finset.mem_erase.mpr ⟨fun he => hne ?_, hm⟩
        exact h.single j i fd hu (he ▸ hmine)
      · exact hm
    · intro j fd t hj
      obtain ⟨hne, hu⟩ := (huses j fd).mp hj
      change fd ∉ ((c.releaseSocket m.system).pools t).avail
      rw [hpool]
      split_ifs
      · rw [Finset.mem_insert, not_or]
        exact ⟨fun he => hne (h.single j i fd hu (he ▸ hmine)), h.kept j fd t hu⟩
      · exact h.kept j fd t hu
  · intro t fd hm
    change fd ∈ ((c.releaseSocket m.system).pools t).taken at hm
    rw [hpool] at hm
    have hold : fd ∈ (m.system.pools t).taken ∧ ¬ (t = c.target ∧ fd = c.fd) := by
      split_ifs at hm with ht
      · obtain ⟨hne, hm⟩ := Finset.mem_erase.mp hm
        exact ⟨hm, fun hc => hne hc.2⟩
      · exact ⟨hm, fun hc => ht hc.1⟩
    obtain ⟨j, hj, htarget⟩ := h.used t fd hold.1
    refine ⟨j, (huses j fd).mpr ⟨?_, hj⟩, (set_target hc j).trans htarget⟩
    rintro rfl
    exact hold.2 ⟨htarget.symm.trans hc.symm, hj.2.symm.trans hfd.symm⟩
  · intro t fd hm
    change fd ∈ ((c.releaseSocket m.system).pools t).avail ∨
      fd ∈ ((c.releaseSocket m.system).pools t).taken at hm
    change m.system.sockets fd ≠ none
    rw [hpool] at hm
    split_ifs at hm with ht
    · obtain hm | hm := hm
      · obtain rfl | hm := Finset.mem_insert.mp hm
        · exact h.known _ _ (.inr htaken)
        · exact h.known t fd (.inl hm)
      · exact h.known t fd (.inr (Finset.mem_of_mem_erase hm))
    · exact h.known t fd hm
  · intro t t' fd hm hm'
    change fd ∈ ((c.releaseSocket m.system).pools t).avail at hm
    change fd ∈ ((c.releaseSocket m.system).pools t').avail at hm'
    rw [hpool] at hm hm'
    have hold : ∀ t, fd ∈ (if t = c.target then
        { m.system.pools t with
          taken := (m.system.pools t).taken.erase c.fd
          avail := insert c.fd (m.system.pools t).avail } else m.system.pools t).avail →
        (t = c.target ∧ fd = c.fd) ∨ fd ∈ (m.system.pools t).avail := by
      intro t hm
      split_ifs at hm with ht
      · exact (Finset.mem_insert.mp hm).imp (fun he => ⟨ht, he⟩) id
      · exact .inr hm
    obtain ⟨ht, he⟩ | hm := hold t hm <;> obtain ⟨ht', he'⟩ | hm' := hold t' hm'
    · exact ht.trans ht'.symm
    · exact absurd (he ▸ hm') (h.kept i c.fd t' hmine)
    · exact absurd (he' ▸ hm) (h.kept i c.fd t hmine)
    · exact h.owner t t' fd hm hm'

/-- A client goes on without the pool. -/
theorem Inv.stay (h : m.Inv) {i : ι} {c : Client} {call call' : Option (Request × Stage)}
    {s : System} (hcall : m.call i = call) (hsome : call' = none ↔ call = none)
    (hc : c.target = (m.client i).target) (hfd : c.fd = (m.client i).fd)
    (hp : s.pools = m.system.pools)
    (hs : ∀ fd, m.system.sockets fd ≠ none → s.sockets fd ≠ none) :
    (m.set i (c, call', s)).Inv := by
  refine h.congr hp hs (fun j fd => ?_) (set_target hc)
  rw [set_uses]
  split_ifs with hj
  · subst hj
    rw [Uses, hcall, hfd]
    exact and_congr_left' (not_congr hsome)
  · rfl

theorem Inv.step (h : m.Inv) {e : Event ι} (hs : m.step e = some m') (hl : m.Lends e) :
    m'.Inv := by
  cases e with
  | send i N r =>
    rw [Clients.step] at hs
    split_ifs at hs with hi
    obtain rfl := Option.some.inj hs
    obtain ⟨hi, hfresh⟩ := hi
    by_cases ho : ((m.client i).pool m.system).Obtains N
    · obtain ⟨fd, p, w, hg, hstart⟩ := Client.sendStart_obtains r ho
      rw [hstart]
      obtain ⟨a, ha, hget⟩ | ⟨hav, hpos, w', hopen, hget⟩ :=
        SocketPool.get_obtains ho (m.client i).fd m.system.sockets <;>
        obtain ⟨-, rfl, rfl, rfl⟩ := Prod.mk.injEq .. ▸ Prod.mk.injEq .. ▸ Prod.mk.injEq .. ▸
          hg.symm.trans hget
      · exact h.lend (c := { m.client i with done := false, fd := fd }) hi rfl rfl
          (Finset.erase_subset ..) rfl (fun j hj => h.kept j fd _ hj ha)
          (fun hm => Finset.ne_of_mem_erase hm rfl) (fun t ht hm => ht (h.owner _ _ fd hm ha))
          (fun _ hfd => hfd) (h.known _ fd (.inl ha))
      · have hnew := hfresh hpos
        refine h.lend (c := { m.client i with done := false, fd := N.socket }) hi rfl rfl
          (Finset.Subset.refl _) rfl (fun j hj => h.known _ _ (.inr (h.taken j _ hj)) hnew) ?_
          (fun t _ hm => h.known t _ (.inl hm) hnew) (fun fd hfd => ?_) hopen
        · exact fun hm => h.known _ _ (.inl hm) hnew
        · have hkeep := SocketPool.get_open N ((m.client i).pool m.system) (m.client i).fd
            m.system.sockets hfd
          rwa [hget] at hkeep
    · obtain ⟨w, hw, hstart⟩ := Client.sendStart_fails r ho
      rw [hstart]
      refine h.stay hi Iff.rfl rfl rfl ?_ hw
      rw [SocketPool.put, if_neg (hl.resolve_left ho)]
      exact Function.update_eq_self ..
  | io i done w fs =>
    obtain ⟨call, hi, rfl⟩ := Option.map_eq_some_iff.mp hs
    exact h.stay hi Iff.rfl rfl rfl rfl fun _ hfd => hfd
  | returns i ok =>
    obtain ⟨⟨r, stage⟩, hi, rfl⟩ := Option.map_eq_some_iff.mp hs
    have hcall : m.call i ≠ none := by
      rw [hi]
      exact Option.some_ne_none _
    obtain ⟨stage', hon⟩ | ⟨e, hon⟩ := (m.client i).sendOn_cases m.system r stage ok <;>
      dsimp only <;> rw [hon]
    · exact h.stay hi (by simp) rfl rfl rfl fun _ hfd => hfd
    · exact h.release (c := { m.client i with error := e }) hcall rfl rfl

/-- A call without a descriptor gives away that of another call, if it is of a client whose last
descriptor is taken. -/
theorem Inv.lends (h : m.Inv) {e : Event ι} (hs : m.step e = some m') (he : m'.Exclusive) :
    m.Lends e := by
  cases e with
  | io | returns => trivial
  | send i N r =>
    by_contra hl
    rw [Lends, not_or, not_not] at hl
    obtain ⟨ho, htaken⟩ := hl
    rw [Clients.step] at hs
    split_ifs at hs with hi
    obtain rfl := Option.some.inj hs
    obtain ⟨w, -, hstart⟩ := Client.sendStart_fails r ho
    rw [hstart] at he
    obtain ⟨j, hj, -⟩ := h.used _ _ htaken
    have hne : j ≠ i := fun hji => hj.1 (hji ▸ hi.1)
    refine he.kept j (m.client i).fd (m.client i).target (set_uses.mpr (by rwa [if_neg hne])) ?_
    change _ ∈ (Function.update m.system.pools (m.client i).target _ (m.client i).target).avail
    rw [Function.update_self, SocketPool.put, if_pos htaken]
    exact Finset.mem_insert_self _ _

/-- One state leads to another, if nothing happens in between but what the events say. -/
def Reaches (m m' : Clients ι) : Prop := ∃ es : List (Event ι), es.foldlM step m = some m'

theorem Reaches.trans {m₁ m₂ m₃ : Clients ι} (h : m₁.Reaches m₂) (h' : m₂.Reaches m₃) :
    m₁.Reaches m₃ := by
  obtain ⟨es, hes⟩ := h
  obtain ⟨es', hes'⟩ := h'
  refine ⟨es ++ es', ?_⟩
  rw [List.foldlM_append, hes]
  exact hes'

theorem reaches_stage (m : Clients ι) (i : ι) (c : Client) (r : Request) (stage : Stage)
    (s : System) (done : Bool) (w : Socket) (fs : Fs) (ok : Bool) :
    (m.set i (c, some (r, stage), s)).Reaches (m.set i (({ c with done := done } : Client).sendOn
      { s.setWire c.fd w with fs := fs } r stage ok)) := by
  refine ⟨[.io i done w fs, .returns i ok], ?_⟩
  simp only [List.foldlM_cons, List.foldlM_nil, step, set, Function.update_self, Option.map_some,
    Option.bind_eq_bind, Option.bind_some, Function.update_idem]
  rfl

theorem reaches_sendHeaders (m : Clients ι) (i : ι) (W : Strategy) (c : Client) (s : System)
    (r : Request) : (m.set i (c, some (r, .sendHeaders), s)).Reaches
      (m.set i (c.sendOn (c.sendHeaders W s r).2 r .sendHeaders (c.sendHeaders W s r).1)) :=
  m.reaches_stage i c r .sendHeaders s c.done ((s.wires c.fd).sendRaw W r.message.data).2 s.fs _

theorem reaches_sendBody (m : Clients ι) (i : ι) (W : Strategy) (c : Client) (s : System)
    (r : Request) : (m.set i (c, some (r, .sendBody), s)).Reaches
      (m.set i (c.sendOn (c.sendBody W s r).2 r .sendBody (c.sendBody W s r).1)) := by
  obtain ⟨w, hw⟩ : ∃ w, (c.sendBody W s r).2 = s.setWire c.fd w := by
    rw [Client.sendBody]
    dsimp only
    split <;> exact ⟨_, rfl⟩
  rw [hw]
  exact m.reaches_stage i c r .sendBody s c.done w s.fs _

theorem reaches_waitFor100 (m : Clients ι) (i : ι) {E : Env} {c c' : Client} {s s' : System}
    {ok : Bool} (r : Request) (h : c.waitFor100 E s = some (ok, c', s')) :
    (m.set i (c, some (r, .waitFor100), s)).Reaches
      (m.set i (c'.sendOn s' r .waitFor100 ok)) := by
  obtain ⟨⟨ok', p, u, w⟩, -, hx⟩ := Option.map_eq_some_iff.mp h
  obtain ⟨-, rfl, rfl⟩ := Prod.mk.injEq .. ▸ Prod.mk.injEq .. ▸ hx
  exact m.reaches_stage i c r .waitFor100 s u.cx w _ ok

theorem reaches_readReply (m : Clients ι) (i : ι) {E : Env} {c c' : Client} {s s' : System}
    {reply reply' : Reply} {ok : Bool} (r : Request)
    (h : c.receive E s reply = some (ok, c', s', reply')) :
    (m.set i (c, some (r, .readReply), s)).Reaches (m.set i (c'.sendOn s' r .readReply ok)) := by
  obtain ⟨⟨ok', p, u, w⟩, -, hx⟩ := Option.map_eq_some_iff.mp h
  obtain ⟨-, rfl, rfl, -⟩ := Prod.mk.injEq .. ▸ Prod.mk.injEq .. ▸ Prod.mk.injEq .. ▸ hx
  exact m.reaches_stage i c r .readReply s u.cx w u.fs ok

/-- A call of `send` that nothing comes between is a run of the clients. -/
theorem reaches_send {E : Env} {W : Strategy} {N : Network} {i : ι} {r r' : Request}
    {reply reply' : Reply} {ok : Bool} {c' : Client} {s' : System} (hi : m.call i = none)
    (hf : 0 ≤ N.socket → m.system.sockets N.socket = none)
    (h : (m.client i).send E W N m.system r reply = some (ok, c', s', r', reply')) :
    m.Reaches (m.set i (c', none, s')) := by
  have hstart : m.Reaches (m.set i ((m.client i).sendStart N m.system r)) := by
    refine ⟨[.send i N r], ?_⟩
    simp only [List.foldlM_cons, List.foldlM_nil, step, if_pos (And.intro hi hf)]
    rfl
  rw [Client.sendStart] at hstart
  rw [Client.send, Client.ask] at h
  dsimp only at h hstart
  generalize ({ m.client i with done := false } : Client).connect N m.system = x at h hstart
  obtain ⟨_ | _, c, s⟩ := x
  · obtain ⟨-, rfl, rfl, -⟩ := Prod.mk.injEq .. ▸ Prod.mk.injEq .. ▸ Prod.mk.injEq .. ▸
      Option.some.inj h
    exact hstart
  dsimp only at h hstart
  generalize (r.setHost (m.client i).host).prepare = r₁ at h hstart
  have h₁ := hstart.trans (m.reaches_sendHeaders i W c s r₁)
  generalize c.sendHeaders W s r₁ = x at h h₁
  obtain ⟨_ | _, s₁⟩ := x
  · obtain ⟨-, rfl, rfl, -⟩ := Prod.mk.injEq .. ▸ Prod.mk.injEq .. ▸ Prod.mk.injEq .. ▸
      Option.some.inj h
    exact h₁
  obtain ⟨⟨e, c₃, s₃, r₃⟩, hask, h⟩ := Option.bind_eq_some_iff.mp h
  obtain ⟨⟨ok₂, c₂, s₂⟩, hwait, hask⟩ := Option.map_eq_some_iff.mp hask
  have h₂ : m.Reaches (m.set i (if ok₂ then (c₂, some (r₁, .sendBody), s₂)
      else ((c₂.failure .readError s₂).1, none, (c₂.failure .readError s₂).2))) := by
    refine h₁.trans ?_
    split_ifs at hwait with hq
    · have hw := m.reaches_waitFor100 i r₁ hwait
      rw [Client.sendOn, if_pos hq]
      cases ok₂ <;> exact hw
    · obtain ⟨rfl, rfl, rfl⟩ := Prod.mk.injEq .. ▸ Prod.mk.injEq .. ▸ Option.some.inj hwait
      rw [Client.sendOn, if_neg hq]
      exact ⟨[], rfl⟩
  cases ok₂ with
  | false =>
    obtain ⟨rfl, rfl, rfl, rfl⟩ := Prod.mk.injEq .. ▸ Prod.mk.injEq .. ▸ Prod.mk.injEq .. ▸ hask
    obtain ⟨-, rfl, rfl, -⟩ := Prod.mk.injEq .. ▸ Prod.mk.injEq .. ▸ Prod.mk.injEq .. ▸
      Option.some.inj h
    exact h₂
  | true =>
    have h₃ := h₂.trans (m.reaches_sendBody i W c₂ s₂ r₁)
    dsimp only at hask
    rw [if_neg (by simp)] at hask
    generalize c₂.sendBody W s₂ r₁ = x at hask h₃
    obtain ⟨_ | _, s₄⟩ := x
    · obtain ⟨rfl, rfl, rfl, rfl⟩ := Prod.mk.injEq .. ▸ Prod.mk.injEq .. ▸ Prod.mk.injEq .. ▸ hask
      obtain ⟨-, rfl, rfl, -⟩ := Prod.mk.injEq .. ▸ Prod.mk.injEq .. ▸ Prod.mk.injEq .. ▸
        Option.some.inj h
      exact h₃
    · obtain ⟨rfl, rfl, rfl, rfl⟩ := Prod.mk.injEq .. ▸ Prod.mk.injEq .. ▸ Prod.mk.injEq .. ▸ hask
      obtain ⟨⟨ok₅, c₅, s₅, reply₅⟩, hreceive, hr⟩ := Option.map_eq_some_iff.mp h
      have h₅ := h₃.trans (m.reaches_readReply i r₁ hreceive)
      cases ok₅ <;>
      · obtain ⟨-, rfl, rfl, -⟩ := Prod.mk.injEq .. ▸ Prod.mk.injEq .. ▸ Prod.mk.injEq .. ▸ hr
        exact h₅

/-- In every state on the way the descriptors are used exclusively exactly if no call that gets no
descriptor is one of a client whose last descriptor is taken. -/
theorem always_exclusive_iff {target : ι → Bytes × UInt16} {wires : ℤ → Socket} {fs : Fs}
    {es : List (Event ι)} (hr : (es.foldlM step (new target wires fs)).isSome) :
    Steps.Always step (new target wires fs) Exclusive es ↔
      Steps.Each step (new target wires fs) Lends es :=
  Steps.always_iff_each (inv_new target wires fs) (fun _ h => h.toExclusive)
    (fun _ _ _ h => h.step) (fun _ _ _ h => h.lends) hr

/-- Two calls get descriptors of their own. -/
theorem always_exclusive_two :
    Steps.Always step (new (fun _ : ℕ => (ascii "h", 80)) (fun _ => .new []) .new) Exclusive
      [.send 0 (.reachable 3) .new, .send 1 (.reachable 4) .new] ↔
    Steps.Each step (new (fun _ : ℕ => (ascii "h", 80)) (fun _ => .new []) .new) Lends
      [.send 0 (.reachable 3) .new, .send 1 (.reachable 4) .new] :=
  always_exclusive_iff (by decide +kernel)

/-- The call 0 is over and its descriptor is lent to the call 1; the client 0 is called again, and
its host refuses; then the client 2 is called. -/
def handedOver : List (Event ℕ) :=
  [.send 0 (.reachable 3) .new, .returns 0 true, .returns 0 true, .returns 0 true,
    .send 1 (.reachable 4) .new,
    .send 0 ⟨4, 0, fun _ => (0, [(⟨AF_INET, 0, [127, 0, 0, 1]⟩, -1)])⟩ .new,
    .send 2 (.reachable 5) .new]

/-- Then two unfinished calls have the same descriptor. -/
theorem not_exclusive : ∃ m, handedOver.foldlM step
    (new (fun _ => (ascii "h", 80)) (fun _ => .new []) .new) = some m ∧ m.Uses 1 3 ∧ m.Uses 2 3 ∧
      ¬ m.Exclusive := by
  have hrun : (handedOver.foldlM step (new (fun _ => (ascii "h", 80)) (fun _ => .new []) .new)).map
      (fun m => ((m.call 1).isSome, (m.client 1).fd, (m.call 2).isSome, (m.client 2).fd)) =
        some (true, 3, true, 3) := by decide +kernel
  obtain ⟨m, hm, hx⟩ := Option.map_eq_some_iff.mp hrun
  obtain ⟨h₁, hfd₁, h₂, hfd₂⟩ := Prod.mk.injEq .. ▸ Prod.mk.injEq .. ▸ Prod.mk.injEq .. ▸ hx
  have hu₁ : m.Uses 1 3 := ⟨Option.isSome_iff_ne_none.mp h₁, hfd₁⟩
  have hu₂ : m.Uses 2 3 := ⟨Option.isSome_iff_ne_none.mp h₂, hfd₂⟩
  refine ⟨m, hm, hu₁, hu₂, fun he => ?_⟩
  exact absurd (he.single 1 2 3 hu₁ hu₂) (by decide)

end Clients

end Stutter
