import Stutter.Buffering

namespace Stutter

/-- `write(2)` takes no more than it is given. -/
def Env.Counts (E : Env) : Prop :=
  ∀ inode offset idle n k, E.write inode offset idle n = some k → k ≤ n

theorem Env.linux_counts : Env.linux.Counts := by
  intro inode offset idle n k hk
  obtain rfl := Option.some.inj hk
  exact min_le_left _ _

/-- No write of up to `n` bytes is answered with a count above `INT_MAX`. -/
def Env.Fitting (E : Env) (n : ℕ) : Prop :=
  ∀ inode offset idle m k, m ≤ n → E.write inode offset idle m = some k → (k : ℤ) ≤ INT_MAX

theorem Env.Counts.fitting {E : Env} (hE : E.Counts) {n : ℕ} (hn : (n : ℤ) ≤ INT_MAX) :
    E.Fitting n := by
  intro inode offset idle m k hm hk
  have := hE _ _ _ _ _ hk
  omega

/-- What `write(2)` documents of its count, which it may also refuse to give. -/
structure Env.Bounded (E : Env) : Prop where
  counts : E.Counts
  fitting : ∀ n, E.Fitting n

theorem Env.linux_bounded : Env.linux.Bounded :=
  ⟨Env.linux_counts, fun _ _ _ _ _ _ _ hk => Env.linux_reliable.write_le _ _ _ _ _ hk⟩

namespace Body

variable {E : Env}

/-- `add` counts what it says it has taken. -/
theorem size_add (b : Body) (fs : Fs) (p : Bytes) :
    (b.add E fs p).2.1.size = b.size + (b.add E fs p).1.toNat := by
  have hc : (b.createFile E fs).2.1.size = b.size := by
    rw [createFile]
    split_ifs
    · rfl
    · dsimp only
      split_ifs <;> rfl
  rw [add]
  split_ifs
  · rw [bufferOnDisk]
    generalize b.createFile E fs = c at hc
    obtain ⟨_ | _, b', fs'⟩ := c
    · exact hc
    · dsimp only
      split_ifs with hr
      · rw [grow_size, hc]
      · rw [Int.toNat_of_nonpos (not_lt.mp hr)]
        exact hc
  · rfl

theorem size_addLoop {p : Bytes} {fuel done : ℕ} (hd : done ≤ p.length) {b b' : Body} {fs fs' : Fs}
    (h : addLoop E p fuel done b fs = some (b', fs')) : b'.size ≤ b.size + (p.length - done) := by
  induction fuel generalizing done b fs with
  | zero =>
    rw [addLoop] at h
    split_ifs at h
    obtain ⟨rfl, -⟩ := Prod.mk.injEq .. ▸ Option.some.inj h
    exact Nat.le_add_right _ _
  | succ fuel ih =>
    rw [addLoop] at h
    split_ifs at h with he
    · obtain ⟨rfl, -⟩ := Prod.mk.injEq .. ▸ Option.some.inj h
      exact Nat.le_add_right _ _
    have hs := b.size_add (E := E) fs (p.drop done)
    have hl := b.add_le (E := E) fs (p.drop done)
    rw [List.length_drop] at hl
    generalize b.add E fs (p.drop done) = a at h hs hl
    obtain ⟨added, b₁, fs₁⟩ := a
    dsimp only at h hs hl
    split_ifs at h with ha
    · obtain ⟨rfl, -⟩ := Prod.mk.injEq .. ▸ Option.some.inj h
      omega
    · have hi := ih (by omega) h
      omega

theorem size_addAll {frags : List Bytes} {b b' : Body} {fs fs' : Fs}
    (h : addAll E b fs frags = some (b', fs')) : b'.size ≤ b.size + frags.flatten.length := by
  induction frags generalizing b fs with
  | nil =>
    obtain ⟨rfl, -⟩ := Prod.mk.injEq .. ▸ Option.some.inj h
    exact Nat.le_add_right _ _
  | cons frag frags ih =>
    obtain ⟨⟨b₁, fs₁⟩, h₁, h⟩ := Option.bind_eq_some_iff.mp h
    have hone := size_addLoop (Nat.zero_le _) h₁
    have hrest := ih h
    dsimp only at hone hrest
    rw [List.flatten_cons, List.length_append]
    omega

/-- All of `p` is stored: where it does not fit into memory there is a file or `mkstemp` makes one,
and the writes take the rest, with counts that fit into an `int`. -/
def Stores (E : Env) (b : Body) (fs : Fs) (p : Bytes) : Prop :=
  b.overflow p = [] ∨ ∃ b' fs' o, (b.keep p).createFile E fs = (true, b', fs') ∧
    fs'.writer b'.fd = some o ∧
    E.Fits (fs'.opened o).inode fs'.idle (fs'.opened o).offset (b.overflow p).length

/-- What is stored is held behind what was there. -/
theorem Holds.stored {fs₀ fs fs' : Fs} {content p : Bytes} {b b' : Body}
    (h : b.Holds fs₀ content fs)
    (hs : b.Stores E fs p) (hr : addBody E b fs p = some (b', fs')) :
    b'.Holds fs₀ (content ++ p) fs' := by
  by_cases ho : b.overflow p = []
  · rw [addBody_memory ho] at hr
    obtain ⟨rfl, rfl⟩ := Prod.mk.injEq .. ▸ Option.some.inj hr
    exact h.kept ho
  · obtain ⟨b₁, fs₁, o, hc, hw, hf⟩ := hs.resolve_left ho
    obtain ⟨hfd, hdata, -⟩ := createFile_true hc
    obtain ⟨fuel, hfuel, hd, hrun⟩ := addBody_file ho hc
    have hlen : p.length - b.insertion p = (b.overflow p).length := by
      rw [Body.overflow, List.length_drop]
    rw [hrun, OnDisk.loop ⟨hdata ▸ keep_overflow ho, hfd, hw⟩ hfuel hd.le (by rwa [hlen]),
      hlen] at hr
    obtain ⟨rfl, rfl⟩ := Prod.mk.injEq .. ▸ Option.some.inj hr
    exact h.spilled hc hw

/-- A body on disk takes nothing where there is no file to write to, or `write(2)` takes nothing. -/
theorem add_nothing {b : Body} {fs : Fs} (hfull : b.data.length = MAX_BUFFER_SIZE) (hfd : 0 < b.fd)
    {p : Bytes} (h : ∀ o, fs.writer b.fd = some o → ∀ k,
      E.write (fs.opened o).inode (fs.opened o).offset fs.idle p.length = some k → k = 0) :
    (b.add E fs p).1 ≤ 0 := by
  have hneg : toInt32 (-1) ≤ 0 := by decide
  have hn : (fs.write E b.fd p).1 = -1 ∨ (fs.write E b.fd p).1 = 0 := by
    rw [Fs.write]
    cases hl : fs.descs.lookup b.fd with
    | none => exact .inl rfl
    | some o =>
      dsimp only
      split_ifs with hw
      · exact .inl rfl
      · have hwr : fs.writer b.fd = some o := Fs.writer_eq.mpr ⟨hl, by simpa using hw⟩
        cases hk : E.write (fs.opened o).inode (fs.opened o).offset fs.idle p.length with
        | none => exact .inl rfl
        | some k =>
          obtain rfl := h o hwr k hk
          exact .inr rfl
  rw [add, if_pos hfull, bufferOnDisk, createFile, if_pos hfd]
  dsimp only
  obtain hn | hn := hn <;> rw [hn]
  · rw [if_neg (not_lt.mpr hneg)]
    exact hneg
  · exact le_rfl

/-- The size counts all of `p` only if the writes took it. -/
theorem fits_of_size (hE : E.Counts) {p : Bytes} (hp : E.Fitting p.length) {fuel done : ℕ}
    {b b' : Body} {fs fs' : Fs} (hfull : b.data.length = MAX_BUFFER_SIZE) (hfd : 0 < b.fd)
    (hd : done < p.length) (hr : addLoop E p fuel done b fs = some (b', fs'))
    (hs : b'.size = b.size + (p.length - done)) : ∃ o, fs.writer b.fd = some o ∧
      E.Fits (fs.opened o).inode fs.idle (fs.opened o).offset (p.length - done) := by
  induction fuel generalizing done b fs with
  | zero =>
    rw [addLoop, if_neg hd.ne] at hr
    cases hr
  | succ fuel ih =>
    rw [addLoop, if_neg hd.ne] at hr
    by_cases h : ∀ o, fs.writer b.fd = some o → ∀ k, E.write (fs.opened o).inode
        (fs.opened o).offset fs.idle (p.drop done).length = some k → k = 0
    · have hsize := b.size_add (E := E) fs (p.drop done)
      have hnone := add_nothing hfull hfd h
      generalize b.add E fs (p.drop done) = a at hr hsize hnone
      obtain ⟨added, b₁, fs₁⟩ := a
      dsimp only at hr hsize hnone
      rw [if_pos hnone] at hr
      obtain ⟨rfl, -⟩ := Prod.mk.injEq .. ▸ Option.some.inj hr
      omega
    · push Not at h
      obtain ⟨o, hw, k, hk, h0⟩ := h
      have hpos := Nat.pos_of_ne_zero h0
      have hle := hE _ _ _ _ _ hk
      have hod : b.OnDisk fs o := ⟨hfull, hfd, hw⟩
      refine ⟨o, hw, ?_⟩
      have hle' := hle
      rw [List.length_drop] at hle'
      have hi := hp _ _ _ _ _ (by rw [List.length_drop]; omega) hk
      rw [hod.add hk hpos hle, toInt32_natCast hi] at hr
      dsimp only at hr
      rw [if_neg (by omega), Int.toNat_natCast] at hr
      rw [List.length_drop] at hk
      refine .write hk hpos hle' hi ?_
      obtain hlt | heq := lt_or_eq_of_le (show done + k ≤ p.length by omega)
      · have hnext := hod.step k ((p.drop done).take k)
        obtain ⟨o', hw', hf⟩ := ih hnext.full hnext.fd hlt hr (by
          rw [grow_size]
          omega)
        obtain rfl := Option.some.inj (hnext.writer.symm.trans hw')
        rwa [Fs.opened_written, Fs.idle_written, List.length_take_of_le hle, ← Nat.sub_sub] at hf
      · rw [show p.length - done - k = 0 by omega]
        exact .done _

theorem stores_of_size (hE : E.Counts) {p : Bytes} (hp : E.Fitting p.length) {b b' : Body}
    {fs fs' : Fs} (hr : addBody E b fs p = some (b', fs')) (hs : b'.size = b.size + p.length) :
    b.Stores E fs p := by
  by_cases ho : b.overflow p = []
  · exact .inl ho
  have hins := b.insertion_add_overflow p
  cases hc : (b.keep p).createFile E fs with
  | mk ok r =>
    obtain ⟨b₁, fs₁⟩ := r
    obtain ⟨hdata, hsize, hfd⟩ := createFile_frame hc
    rw [keep_size] at hsize
    cases ok with
    | false =>
      rw [addBody_lost ho hc] at hr
      obtain ⟨rfl, rfl⟩ := Prod.mk.injEq .. ▸ Option.some.inj hr
      have hpos := List.length_pos_iff.mpr ho
      omega
    | true =>
      obtain ⟨fuel, hfuel, hd, hrun⟩ := addBody_file ho hc
      rw [hrun] at hr
      obtain ⟨o, hw, hf⟩ := fits_of_size hE hp (hdata ▸ keep_overflow ho) (hfd.mp rfl) hd hr
        (by omega)
      refine .inr ⟨b₁, fs₁, o, hc, hw, ?_⟩
      rwa [show (b.overflow p).length = p.length - b.insertion p by omega]

theorem length_content (b : Body) (fs : Fs) : (b.content fs).length ≤ b.size := by
  have hs := b.sized
  rw [content, List.length_append, List.length_take, sizeOnDisk]
  omega

end Body

/-- A fragment that is delivered, and what it finds. -/
structure Arrival where
  body : Body
  fs : Fs
  frag : Bytes

namespace Arrival

def Stored (E : Env) (a : Arrival) : Prop := a.body.Stores E a.fs a.frag

def bytes (l : List Arrival) : Bytes := l.flatMap frag

/-- The fragments of one `add_body` after another. -/
def all (E : Env) : List Bytes → Body → Fs → List Arrival
  | [], _, _ => []
  | frag :: frags, b, fs => ⟨b, fs, frag⟩ ::
    match b.addBody E fs frag with
    | none => []
    | some (b', fs') => all E frags b' fs'

theorem bytes_all (E : Env) (frags : List Bytes) (b : Body) (fs : Fs) :
    bytes (all E frags b fs) = frags.flatten := by
  induction frags generalizing b fs with
  | nil => rfl
  | cons frag frags ih =>
    obtain ⟨b', fs', h⟩ := Body.addBody_some (E := E) b fs frag
    simp only [all, h, bytes, List.flatMap_cons, List.flatten_cons]
    rw [← ih b' fs', bytes]

theorem bytes_concat (l : List Arrival) (a : Arrival) : bytes (l ++ [a]) = bytes l ++ a.frag := by
  rw [bytes, List.flatMap_append, List.flatMap_singleton]
  rfl

end Arrival

/-- A body that began empty, after the fragments `l`. -/
structure Body.Filled (E : Env) (l : List Arrival) (b : Body) (fs : Fs) : Prop where
  size : b.size ≤ (Arrival.bytes l).length
  held : (∀ a ∈ l, a.Stored E) → ∃ fs₀, b.Holds fs₀ (Arrival.bytes l) fs
  stored : (∀ a ∈ l, E.Fitting a.frag.length) → b.size = (Arrival.bytes l).length →
    ∀ a ∈ l, a.Stored E

theorem Body.IsEmpty.filled {E : Env} {b : Body} (h : b.IsEmpty) (fs : Fs) : b.Filled E [] fs where
  size := h.size.le
  held _ := ⟨fs, h.holds fs⟩
  stored _ _ _ ha := by cases ha

theorem Body.Filled.add {E : Env} (hE : E.Counts) {l : List Arrival} {b b' : Body} {fs fs' : Fs}
    (h : b.Filled E l fs) {p : Bytes} (hr : addBody E b fs p = some (b', fs')) :
    b'.Filled E (l ++ [⟨b, fs, p⟩]) fs' := by
  have hsize := size_addLoop (Nat.zero_le _) hr
  have hle := h.size
  constructor
  · rw [Arrival.bytes_concat, List.length_append]
    dsimp only
    omega
  · intro hs
    obtain ⟨fs₀, hh⟩ := h.held fun a ha => hs a (List.mem_append_left _ ha)
    rw [Arrival.bytes_concat]
    exact ⟨fs₀, hh.stored (hs _ (List.mem_append_right _ (List.mem_singleton_self _))) hr⟩
  · intro hp hs a ha
    rw [Arrival.bytes_concat, List.length_append] at hs
    dsimp only at hs
    obtain ha | ha := List.mem_append.mp ha
    · exact h.stored (fun a ha => hp a (List.mem_append_left _ ha)) (by omega) a ha
    · obtain rfl := List.mem_singleton.mp ha
      refine stores_of_size hE (hp _ (List.mem_append_right _ ha)) hr ?_
      dsimp only
      omega

theorem Body.Filled.addAll {E : Env} (hE : E.Counts) {l : List Arrival} {b b' : Body} {fs fs' : Fs}
    (h : b.Filled E l fs) {frags : List Bytes} (hr : Body.addAll E b fs frags = some (b', fs')) :
    b'.Filled E (l ++ Arrival.all E frags b fs) fs' := by
  induction frags generalizing l b fs with
  | nil =>
    obtain ⟨rfl, rfl⟩ := Prod.mk.injEq .. ▸ Option.some.inj hr
    rwa [Arrival.all, List.append_nil]
  | cons frag frags ih =>
    obtain ⟨b₁, fs₁, h₁⟩ := addBody_some (E := E) b fs frag
    have hf := ih (h.add hE h₁) ((congrArg (Option.bind · _) h₁).symm.trans hr)
    rw [List.append_assoc, List.singleton_append] at hf
    simpa only [Arrival.all, h₁] using hf

/-- The body holds what was delivered exactly if all of it was stored. -/
theorem Body.Filled.content_iff {E : Env} {l : List Arrival} {b : Body} {fs : Fs}
    (h : b.Filled E l fs) (hp : ∀ a ∈ l, E.Fitting a.frag.length) :
    b.content fs = Arrival.bytes l ↔ ∀ a ∈ l, a.Stored E := by
  constructor
  · intro hc
    have hlen := b.length_content fs
    rw [hc] at hlen
    exact h.stored hp (le_antisymm h.size hlen)
  · intro hs
    obtain ⟨fs₀, hh⟩ := h.held hs
    exact hh.content

end Stutter
