import Mathlib.Data.Finset.Max
import Stutter.Bytes

namespace Stutter

/-- A socket address. The cast of `connect` takes the port of any family from the same two bytes. -/
structure Address where
  family : ℕ
  port : UInt16
  addr : Bytes
  deriving DecidableEq

abbrev AF_INET : ℕ := 2

/-- What the system calls of one `SocketPool::connect` return. `getaddrinfo` gives the addresses of
a host, each with the result that connecting to it has. -/
structure Network where
  socket : ℤ
  fcntl : ℤ
  getaddrinfo : Bytes → ℤ × List (Address × ℤ)

/-- A host with one address, which accepts. -/
def Network.reachable (fd : ℤ) : Network :=
  ⟨fd, 0, fun _ => (0, [(⟨AF_INET, 0, [127, 0, 0, 1]⟩, 0)])⟩

/-- A host with two addresses, of which the second accepts. -/
def Network.second : Network := ⟨3, 0, fun _ =>
  (0, [(⟨AF_INET, 0, [10, 0, 0, 1]⟩, -1), (⟨AF_INET, 0, [10, 0, 0, 2]⟩, 0)])⟩

/-- The open sockets, with the addresses they are connected to. -/
abbrev Sockets := ℤ → Option (Option Address)

structure SocketPool where
  host : Bytes
  port : UInt16
  avail : Finset ℤ
  taken : Finset ℤ

namespace SocketPool

abbrev MAX_POOL_SIZE : ℕ := 1024

def new (host : Bytes) (port : UInt16) : SocketPool := ⟨host, port, ∅, ∅⟩

/-- The loop over the addresses. -/
def dial (p : SocketPool) (fd : ℤ) : List (Address × ℤ) → ℤ → Sockets →
    Bool × SocketPool × ℤ × Sockets
  | [], out, w => (false, p, out, w)
  | (ai, ret) :: _, out, w =>
    let sin := { ai with port := p.port }
    if ret = 0 then
      (true, { p with taken := insert fd p.taken }, fd, Function.update w fd (some (some sin)))
    -- the loop ends behind its first address, connected or not
    else (false, p, out, w)

/-- `connect`, with the output argument. -/
def connect (E : Network) (p : SocketPool) (out : ℤ) (w : Sockets) :
    Bool × SocketPool × ℤ × Sockets :=
  let fd := E.socket
  if fd < 0 then (false, p, out, w)
  else
    let w := Function.update w fd (some none)
    if E.fcntl ≠ 0 then (false, p, out, w)
    else
      let (ret, info) := E.getaddrinfo p.host
      if ret < 0 then (false, p, out, w) else p.dial fd info out w

def get (E : Network) (p : SocketPool) (fd : ℤ) (w : Sockets) : Bool × SocketPool × ℤ × Sockets :=
  if h : p.avail.Nonempty then
    let fd := p.avail.min' h
    (true, { p with avail := p.avail.erase fd, taken := insert fd p.taken }, fd, w)
  else if MAX_POOL_SIZE ≤ p.taken.card then (false, p, fd, w)
  else p.connect E fd w

def put (p : SocketPool) (fd : ℤ) : Bool × SocketPool :=
  if fd ∈ p.taken then
    (true, { p with taken := p.taken.erase fd, avail := insert fd p.avail })
  else (false, p)

def del (p : SocketPool) (fd : ℤ) : SocketPool :=
  { p with taken := p.taken.erase fd, avail := p.avail.erase fd }

/-- The socket that a call makes is not in the pool. -/
def Fresh (p : SocketPool) (E : Network) : Prop :=
  0 ≤ E.socket → E.socket ∉ p.avail ∧ E.socket ∉ p.taken

/-- A call from outside. -/
inductive Call where
  | get (E : Network) (fd : ℤ)
  | put (fd : ℤ)
  | del (fd : ℤ)

def call (p : SocketPool) (w : Sockets) : Call → SocketPool × Sockets
  | .get E fd => ((p.get E fd w).2.1, (p.get E fd w).2.2.2)
  | .put fd => ((p.put fd).2, w)
  | .del fd => (p.del fd, w)

/-- A sequence of calls whose new sockets are not in the pool. -/
inductive Runs : SocketPool → Sockets → List Call → SocketPool → Sockets → Prop
  | nil (p : SocketPool) (w : Sockets) : Runs p w [] p w
  | cons {p p' : SocketPool} {w w' : Sockets} {c : Call} {cs : List Call}
      (fresh : ∀ E fd, c = .get E fd → p.Fresh E)
      (more : Runs (p.call w c).1 (p.call w c).2 cs p' w') : Runs p w (c :: cs) p' w'

/-- What a call of `connect` does. -/
theorem connect_cases (E : Network) (p : SocketPool) (out : ℤ) (w : Sockets) :
    (E.socket < 0 ∧ p.connect E out w = (false, p, out, w)) ∨
    (0 ≤ E.socket ∧ ¬(E.fcntl = 0 ∧ 0 ≤ (E.getaddrinfo p.host).1 ∧
        ∃ ai, (E.getaddrinfo p.host).2.head? = some (ai, 0)) ∧
      p.connect E out w = (false, p, out, Function.update w E.socket (some none))) ∨
    (0 ≤ E.socket ∧ E.fcntl = 0 ∧ 0 ≤ (E.getaddrinfo p.host).1 ∧
      ∃ ai, (E.getaddrinfo p.host).2.head? = some (ai, 0) ∧
      p.connect E out w = (true, { p with taken := insert E.socket p.taken }, E.socket,
        Function.update w E.socket (some (some { ai with port := p.port })))) := by
  rw [connect]
  dsimp only
  by_cases hs : E.socket < 0
  · exact .inl ⟨hs, if_pos hs⟩
  rw [if_neg hs]
  refine .inr ?_
  by_cases hf : E.fcntl = 0
  · rw [if_neg (not_not.mpr hf)]
    by_cases hr : (E.getaddrinfo p.host).1 < 0
    · exact .inl ⟨by omega, fun h => by omega, if_pos hr⟩
    rw [if_neg hr]
    cases hi : (E.getaddrinfo p.host).2 with
    | nil =>
      refine .inl ⟨by omega, ?_, rfl⟩
      rintro ⟨_, _, _, h⟩
      cases h
    | cons a more =>
      obtain ⟨ai, ret⟩ := a
      rw [dial]
      by_cases h0 : ret = 0
      · subst h0
        refine .inr ⟨by omega, hf, by omega, ai, rfl, ?_⟩
        rw [if_pos rfl, Function.update_idem]
      · refine .inl ⟨by omega, ?_, if_neg h0⟩
        rintro ⟨_, _, aj, hj⟩
        cases hj
        exact h0 rfl
  · exact .inl ⟨by omega, fun h => hf h.1, if_pos hf⟩

/-- The sets are disjoint and, together, not too large. -/
structure Sound (p : SocketPool) : Prop where
  disjoint : Disjoint p.avail p.taken
  size : p.avail.card + p.taken.card ≤ MAX_POOL_SIZE

theorem sound_new (host : Bytes) (port : UInt16) : (new host port).Sound :=
  ⟨Finset.disjoint_empty_left _, Nat.zero_le _⟩

/-- What a call of `get` does. -/
theorem get_cases (E : Network) (p : SocketPool) (fd : ℤ) (w : Sockets) :
    (∃ a ∈ p.avail, p.get E fd w =
      (true, { p with avail := p.avail.erase a, taken := insert a p.taken }, a, w)) ∨
    (p.avail = ∅ ∧ ∃ w', p.get E fd w = (false, p, fd, w')) ∨
    (p.avail = ∅ ∧ p.taken.card < MAX_POOL_SIZE ∧ 0 ≤ E.socket ∧ ∃ w', p.get E fd w =
      (true, { p with taken := insert E.socket p.taken }, E.socket, w')) := by
  rw [get]
  by_cases ha : p.avail.Nonempty
  · exact .inl ⟨_, p.avail.min'_mem ha, by rw [dif_pos ha]⟩
  · rw [dif_neg ha]
    have he := Finset.not_nonempty_iff_eq_empty.mp ha
    by_cases hm : MAX_POOL_SIZE ≤ p.taken.card
    · exact .inr (.inl ⟨he, w, if_pos hm⟩)
    · rw [if_neg hm]
      obtain ⟨_, h⟩ | ⟨_, _, h⟩ | ⟨hs, _, _, ai, _, h⟩ := p.connect_cases E fd w
      · exact .inr (.inl ⟨he, _, h⟩)
      · exact .inr (.inl ⟨he, _, h⟩)
      · exact .inr (.inr ⟨he, by omega, hs, _, h⟩)

/-- `get` finds a free descriptor, or can make one. -/
def Obtains (p : SocketPool) (E : Network) : Prop :=
  p.avail.Nonempty ∨ p.taken.card < MAX_POOL_SIZE ∧ 0 ≤ E.socket ∧ E.fcntl = 0 ∧
    0 ≤ (E.getaddrinfo p.host).1 ∧ ∃ ai, (E.getaddrinfo p.host).2.head? = some (ai, 0)

theorem get_iff (E : Network) (p : SocketPool) (fd : ℤ) (w : Sockets) :
    (p.get E fd w).1 = true ↔ p.Obtains E := by
  rw [get, Obtains]
  by_cases ha : p.avail.Nonempty
  · rw [dif_pos ha]
    exact iff_of_true rfl (.inl ha)
  rw [dif_neg ha, or_iff_right ha]
  by_cases hm : MAX_POOL_SIZE ≤ p.taken.card
  · rw [if_pos hm]
    exact iff_of_false Bool.false_ne_true fun h => absurd h.1 (not_lt.mpr hm)
  rw [if_neg hm, and_iff_right (not_le.mp hm)]
  obtain ⟨hs, h⟩ | ⟨hs, hno, h⟩ | ⟨hs, hf, hr, ai, hi, h⟩ := p.connect_cases E fd w <;> rw [h]
  · exact iff_of_false Bool.false_ne_true fun hc => absurd hc.1 (not_le.mpr hs)
  · exact iff_of_false Bool.false_ne_true fun hc => hno hc.2
  · exact iff_of_true rfl ⟨hs, hf, hr, ai, hi⟩

/-- What is open stays open. -/
theorem get_open (E : Network) (p : SocketPool) (fd : ℤ) (w : Sockets) {a : ℤ} (h : w a ≠ none) :
    (p.get E fd w).2.2.2 a ≠ none := by
  have hup : ∀ x, Function.update w E.socket (some x) a ≠ none := by
    intro x
    rw [Function.update_apply]
    split_ifs
    · exact Option.some_ne_none x
    · exact h
  rw [get]
  by_cases ha : p.avail.Nonempty
  · rwa [dif_pos ha]
  rw [dif_neg ha]
  by_cases hm : MAX_POOL_SIZE ≤ p.taken.card
  · rwa [if_pos hm]
  rw [if_neg hm]
  obtain ⟨_, h'⟩ | ⟨_, _, h'⟩ | ⟨_, _, _, _, _, h'⟩ := p.connect_cases E fd w <;> rw [h']
  · exact h
  · exact hup _
  · exact hup _

/-- What `get` obtains was free, or is a new socket, which is open now. -/
theorem get_obtains {E : Network} {p : SocketPool} (h : p.Obtains E) (fd : ℤ) (w : Sockets) :
    (∃ a ∈ p.avail, p.get E fd w =
      (true, { p with avail := p.avail.erase a, taken := insert a p.taken }, a, w)) ∨
    (p.avail = ∅ ∧ 0 ≤ E.socket ∧ ∃ w', w' E.socket ≠ none ∧ p.get E fd w =
      (true, { p with taken := insert E.socket p.taken }, E.socket, w')) := by
  have hok := (get_iff E p fd w).mpr h
  rw [get] at hok ⊢
  by_cases ha : p.avail.Nonempty
  · exact .inl ⟨_, p.avail.min'_mem ha, by rw [dif_pos ha]⟩
  rw [dif_neg ha] at hok ⊢
  by_cases hm : MAX_POOL_SIZE ≤ p.taken.card
  · rw [if_pos hm] at hok
    cases hok
  rw [if_neg hm] at hok ⊢
  obtain ⟨_, h'⟩ | ⟨_, _, h'⟩ | ⟨hs, _, _, ai, _, h'⟩ := p.connect_cases E fd w <;> rw [h'] at hok ⊢
  · cases hok
  · cases hok
  · refine .inr ⟨Finset.not_nonempty_iff_eq_empty.mp ha, hs, _, ?_, rfl⟩
    rw [Function.update_self]
    exact Option.some_ne_none _

/-- A `get` that fails leaves the pool and the argument. -/
theorem get_fails {E : Network} {p : SocketPool} (h : ¬ p.Obtains E) (fd : ℤ) (w : Sockets) :
    ∃ w', p.get E fd w = (false, p, fd, w') := by
  have hok := mt (get_iff E p fd w).mp h
  obtain ⟨_, _, hg⟩ | ⟨_, hg⟩ | ⟨_, _, _, _, hg⟩ := p.get_cases E fd w
  · exact absurd (by rw [hg]) hok
  · exact hg
  · exact absurd (by rw [hg]) hok

theorem Sound.get {p : SocketPool} (h : p.Sound) {E : Network} (hf : p.Fresh E) (fd : ℤ)
    (w : Sockets) : (p.get E fd w).2.1.Sound := by
  obtain ⟨a, ha, hg⟩ | ⟨_, _, hg⟩ | ⟨he, hm, hs, _, hg⟩ := p.get_cases E fd w <;> rw [hg]
  · have hat : a ∉ p.taken := Finset.disjoint_left.mp h.disjoint ha
    constructor
    · rw [Finset.disjoint_insert_right]
      exact ⟨Finset.notMem_erase _ _, h.disjoint.mono_left (Finset.erase_subset _ _)⟩
    · have hc := Finset.card_erase_add_one ha
      have hsz := h.size
      dsimp only
      rw [Finset.card_insert_of_notMem hat]
      omega
  · exact h
  · constructor
    · rw [Finset.disjoint_insert_right]
      exact ⟨(hf hs).1, h.disjoint⟩
    · rw [he, Finset.card_empty, Finset.card_insert_of_notMem (hf hs).2]
      omega

theorem Sound.put {p : SocketPool} (h : p.Sound) (fd : ℤ) : (p.put fd).2.Sound := by
  rw [SocketPool.put]
  split_ifs with hm
  · have hfa : fd ∉ p.avail := Finset.disjoint_right.mp h.disjoint hm
    constructor
    · rw [Finset.disjoint_insert_left]
      exact ⟨Finset.notMem_erase _ _, h.disjoint.mono_right (Finset.erase_subset _ _)⟩
    · have hc := Finset.card_erase_add_one hm
      have hsz := h.size
      dsimp only
      rw [Finset.card_insert_of_notMem hfa]
      omega
  · exact h

theorem Sound.del {p : SocketPool} (h : p.Sound) (fd : ℤ) : (p.del fd).Sound where
  disjoint := h.disjoint.mono (Finset.erase_subset _ _) (Finset.erase_subset _ _)
  size := (Nat.add_le_add (Finset.card_le_card (Finset.erase_subset _ _))
    (Finset.card_le_card (Finset.erase_subset _ _))).trans h.size

theorem Sound.call {p : SocketPool} (h : p.Sound) {c : Call}
    (hf : ∀ E fd, c = .get E fd → p.Fresh E) (w : Sockets) : (p.call w c).1.Sound := by
  cases c with
  | get E fd => exact h.get (hf E fd rfl) fd w
  | put fd => exact h.put fd
  | del fd => exact h.del fd

theorem Sound.runs {p p' : SocketPool} {w w' : Sockets} {cs : List Call} (hr : Runs p w cs p' w')
    (h : p.Sound) : p'.Sound := by
  induction hr with
  | nil => exact h
  | cons fresh _ ih => exact ih (h.call fresh _)

/-- A taken descriptor stays taken until it is put back or deleted. -/
theorem taken_call {p : SocketPool} {a : ℤ} (h : a ∈ p.taken) {c : Call} (hp : c ≠ .put a)
    (hd : c ≠ .del a) (w : Sockets) : a ∈ (p.call w c).1.taken := by
  cases c with
  | get E fd =>
    rw [SocketPool.call]
    obtain ⟨_, _, hg⟩ | ⟨_, _, hg⟩ | ⟨_, _, _, _, hg⟩ := p.get_cases E fd w <;> rw [hg]
    · exact Finset.mem_insert_of_mem h
    · exact h
    · exact Finset.mem_insert_of_mem h
  | put fd =>
    rw [SocketPool.call, SocketPool.put]
    split_ifs
    · exact Finset.mem_erase.mpr ⟨fun he => hp (by rw [he]), h⟩
    · exact h
  | del fd => exact Finset.mem_erase.mpr ⟨fun he => hd (by rw [he]), h⟩

theorem taken_runs {p p' : SocketPool} {w w' : Sockets} {cs : List Call} (hr : Runs p w cs p' w')
    {a : ℤ} (h : a ∈ p.taken) (hc : ∀ c ∈ cs, c ≠ .put a ∧ c ≠ .del a) : a ∈ p'.taken := by
  induction hr with
  | nil => exact h
  | cons _ _ ih =>
    have hc₀ := hc _ (List.mem_cons_self ..)
    exact ih (taken_call h hc₀.1 hc₀.2 _) fun c hm => hc c (List.mem_cons_of_mem _ hm)

/-- What `get` and `put` do to a pool. -/
structure Lends (p : SocketPool) : Prop where
  get_free : ∀ E fd w, p.Fresh E → (p.get E fd w).1 = true →
    (p.get E fd w).2.2.1 ∉ p.taken ∧ (p.get E fd w).2.2.1 ∈ (p.get E fd w).2.1.taken
  get_avail : ∀ E fd w, p.avail.Nonempty → (p.get E fd w).1 = true
  get_fails : ∀ E fd w, (p.get E fd w).1 = false →
    (p.get E fd w).2.1 = p ∧ (p.get E fd w).2.2.1 = fd
  put_taken : ∀ fd, (p.put fd).1 = true ↔ fd ∈ p.taken
  put_fails : ∀ fd, (p.put fd).1 = false → (p.put fd).2 = p

theorem Sound.lends {p : SocketPool} (h : p.Sound) : p.Lends where
  get_free E fd w hf hok := by
    obtain ⟨a, ha, hg⟩ | ⟨_, _, hg⟩ | ⟨_, _, hs, _, hg⟩ := p.get_cases E fd w <;> rw [hg] at hok ⊢
    · exact ⟨Finset.disjoint_left.mp h.disjoint ha, Finset.mem_insert_self _ _⟩
    · exact Bool.noConfusion hok
    · exact ⟨(hf hs).2, Finset.mem_insert_self _ _⟩
  get_avail E fd w ha := by rw [SocketPool.get, dif_pos ha]
  get_fails E fd w hok := by
    obtain ⟨_, _, hg⟩ | ⟨_, _, hg⟩ | ⟨_, _, _, _, hg⟩ := p.get_cases E fd w <;> rw [hg] at hok ⊢
    · exact Bool.noConfusion hok
    · exact ⟨rfl, rfl⟩
    · exact Bool.noConfusion hok
  put_taken fd := by
    rw [SocketPool.put]
    split_ifs with hm
    · exact iff_of_true rfl hm
    · exact iff_of_false not_false hm
  put_fails fd hok := by
    rw [SocketPool.put] at hok ⊢
    split_ifs at hok ⊢
    rfl

/-- A descriptor that is lent is not lent again before it is put back or deleted. -/
def LendsOnce (p : SocketPool) (w : Sockets) : Prop :=
  ∀ E fd, p.Fresh E → (p.get E fd w).1 = true → ∀ cs p' w',
    Runs (p.get E fd w).2.1 (p.get E fd w).2.2.2 cs p' w' →
    (∀ c ∈ cs, c ≠ .put (p.get E fd w).2.2.1 ∧ c ≠ .del (p.get E fd w).2.2.1) →
    ∀ E' fd', p'.Fresh E' → (p'.get E' fd' w').1 = true →
      (p'.get E' fd' w').2.2.1 ≠ (p.get E fd w).2.2.1

theorem Sound.lendsOnce {p : SocketPool} (h : p.Sound) (w : Sockets) : p.LendsOnce w := by
  intro E fd hf hok cs p' w' hr hc E' fd' hf' hok' he
  have h' := (h.get hf fd w).runs hr
  refine (h'.lends.get_free E' fd' w' hf' hok').1 ?_
  rw [he]
  exact taken_runs hr (h.lends.get_free E fd w hf hok).2 hc

/-- After any calls the pool is sound, and it lends what it should and nothing twice. -/
theorem pool_lends {host : Bytes} {port : UInt16} {w₀ w : Sockets} {cs : List Call} {p : SocketPool}
    (hr : Runs (new host port) w₀ cs p w) : p.Sound ∧ p.Lends ∧ p.LendsOnce w := by
  have h := (sound_new host port).runs hr
  exact ⟨h, h.lends, h.lendsOnce w⟩

theorem pool_lends_three : ∃ (p : SocketPool) (w : Sockets), p.avail = {3} ∧ p.taken = {4} ∧
    p.Sound ∧ p.Lends ∧ p.LendsOnce w := by
  have hr := Runs.cons (p := new (ascii "h") 80) (w := fun _ => none)
    (c := .get (.reachable 3) (-1))
    (by rintro _ _ ⟨⟩ _; decide) <| .cons (c := .get (.reachable 4) (-1))
    (by rintro _ _ ⟨⟩ _; decide) <| .cons (c := .put 3) (fun _ _ h => nomatch h) <| .nil _ _
  exact ⟨_, _, by decide +kernel, by decide +kernel, pool_lends hr⟩

/-- An IPv4 address that accepts the connection. -/
def Accepts (a : Address × ℤ) : Prop := a.1.family = AF_INET ∧ a.2 = 0

/-- `connect` connects to an address that accepts if there is one, and leaves nothing behind if it
fails. -/
structure ConnectsAny (E : Network) (p : SocketPool) (out : ℤ) (w : Sockets) : Prop where
  accepted : 0 ≤ E.socket → E.fcntl = 0 → 0 ≤ (E.getaddrinfo p.host).1 →
    ((p.connect E out w).1 = true ↔ ∃ a ∈ (E.getaddrinfo p.host).2, Accepts a)
  connected : (p.connect E out w).1 = true →
    (p.connect E out w).2.2.1 ∈ (p.connect E out w).2.1.taken ∧
    ∃ a ∈ (E.getaddrinfo p.host).2, Accepts a ∧
      (p.connect E out w).2.2.2 (p.connect E out w).2.2.1 =
      some (some { a.1 with port := p.port })
  failed : (p.connect E out w).1 = false → (p.connect E out w).2.1 = p ∧
    (p.connect E out w).2.2.1 = out ∧ ∀ fd, w fd = none → (p.connect E out w).2.2.2 fd = none

/-- It is the first address alone that decides, and only a call that gets no socket fails without
leaving one open. -/
theorem connectsAny_iff {E : Network} {p : SocketPool} {out : ℤ} {w : Sockets}
    (h : 0 ≤ E.socket → w E.socket = none) : ConnectsAny E p out w ↔ E.socket < 0 ∨
      E.fcntl = 0 ∧ 0 ≤ (E.getaddrinfo p.host).1 ∧
        ∃ a, (E.getaddrinfo p.host).2.head? = some a ∧ Accepts a := by
  obtain ⟨hs, hc⟩ | ⟨hs, hno, hc⟩ | ⟨hs, hf, hr, ai, hi, hc⟩ := p.connect_cases E out w
  · refine iff_of_true ⟨fun hs' => by omega, fun ht => ?_, fun _ => ?_⟩ (.inl hs)
    · rw [hc] at ht
      exact Bool.noConfusion ht
    · rw [hc]
      exact ⟨rfl, rfl, fun _ h => h⟩
  · refine iff_of_false (fun ha => ?_) ?_
    · have hleft := (ha.failed (by rw [hc])).2.2 E.socket (h hs)
      rw [hc] at hleft
      dsimp only at hleft
      rw [Function.update_self] at hleft
      cases hleft
    · rintro (hs' | ⟨hf, hr, a, hi, ha⟩)
      · omega
      · refine hno ⟨hf, hr, a.1, ?_⟩
        rw [hi, ← ha.2]
  · have hmem : (ai, 0) ∈ (E.getaddrinfo p.host).2 := List.mem_of_mem_head? hi
    refine ⟨fun ha => .inr ⟨hf, hr, _, hi, ?_, rfl⟩, ?_⟩
    · obtain ⟨_, a, _, hacc, hpeer⟩ := ha.connected (by rw [hc])
      rw [hc] at hpeer
      dsimp only at hpeer
      rw [Function.update_self] at hpeer
      have hfam := congrArg Address.family (Option.some.inj (Option.some.inj hpeer))
      exact hfam.trans hacc.1
    · rintro (hs' | ⟨_, _, a, hi', ha⟩)
      · omega
      rw [hi] at hi'
      obtain rfl := Option.some.inj hi'
      refine ⟨fun _ _ _ => ?_, fun _ => ?_, fun hno => ?_⟩
      · rw [hc]
        exact iff_of_true rfl ⟨_, hmem, ha⟩
      · rw [hc]
        dsimp only
        rw [Function.update_self]
        exact ⟨Finset.mem_insert_self _ _, _, hmem, ha, rfl⟩
      · rw [hc] at hno
        exact Bool.noConfusion hno

theorem connectsAny_iff_first : ConnectsAny (.reachable 3) (new (ascii "h") 80) (-1)
    (fun _ => none) ↔
    (Network.reachable 3).socket < 0 ∨ (Network.reachable 3).fcntl = 0 ∧
      0 ≤ ((Network.reachable 3).getaddrinfo (ascii "h")).1 ∧
        ∃ a, ((Network.reachable 3).getaddrinfo (ascii "h")).2.head? = some a ∧ Accepts a :=
  connectsAny_iff fun _ => rfl

/-- The second address is not tried, and the socket stays open. -/
theorem connects_first_only : let r := (new (ascii "h") 80).connect .second (-1) fun _ => none
    (∃ a ∈ (Network.second.getaddrinfo (ascii "h")).2, Accepts a) ∧ r.1 = false ∧
      r.2.2.2 3 = some none :=
  ⟨⟨_, List.mem_cons_of_mem _ (List.mem_cons_self ..), rfl, rfl⟩, by decide, by decide⟩

end SocketPool

end Stutter
