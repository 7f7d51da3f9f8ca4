import Stutter.Body

namespace Stutter

/-- A new descriptor is always to be had and is not 0, and `write(2)` takes a byte at least. -/
structure Env.Healthy (E : Env) : Prop where
  descriptor : ∀ n ds, ∃ fd, E.descriptor n ds = some fd ∧ 0 < fd ∧ fd ∉ ds
  write : ∀ inode offset idle n, 0 < n →
    ∃ k, E.write inode offset idle n = some k ∧ 0 < k ∧ k ≤ n

/-- A kernel that refuses nothing and writes all it is given. -/
def Env.prompt : Env where
  descriptor _ ds := some (ds.foldr max 0 + 1)
  tmpName n _ := List.replicate n 0
  write _ _ _ n := some n
  fstat _ _ := true

theorem le_foldr_max (ds : List ℤ) : 0 ≤ ds.foldr max 0 ∧ ∀ d ∈ ds, d ≤ ds.foldr max 0 := by
  induction ds with
  | nil => simp
  | cons a ds ih =>
    refine ⟨ih.1.trans (le_max_right _ _), fun d hd => ?_⟩
    obtain rfl | hd := List.mem_cons.mp hd
    · exact le_max_left _ _
    · exact (ih.2 d hd).trans (le_max_right _ _)

theorem Env.prompt_healthy : Env.prompt.Healthy where
  descriptor n ds := by
    obtain ⟨hpos, hle⟩ := le_foldr_max ds
    refine ⟨_, rfl, by omega, fun hm => ?_⟩
    have := hle _ hm
    omega
  write _ _ _ n hn := ⟨n, rfl, hn, le_rfl⟩

/-- The calls of `write(2)` that put `n` bytes into a file at `offset`, each as far as the one
before it left off, return no count above `INT_MAX`. -/
inductive Env.Fits (E : Env) (inode idle : ℕ) : ℕ → ℕ → Prop
  | done (offset) : Fits E inode idle offset 0
  | write {offset n k} (hk : E.write inode offset idle n = some k) (h0 : 0 < k) (hle : k ≤ n)
    (hi : k ≤ INT_MAX) (hr : Fits E inode idle (offset + k) (n - k)) : Fits E inode idle offset n

theorem Env.Fits.next {E : Env} {inode idle offset n : ℕ} (h : E.Fits inode idle offset n)
    (hn : 0 < n) : ∃ k, E.write inode offset idle n = some k ∧ 0 < k ∧ k ≤ n ∧ (k : ℤ) ≤ INT_MAX ∧
      E.Fits inode idle (offset + k) (n - k) := by
  cases h with
  | done => exact absurd hn (lt_irrefl 0)
  | write hk h0 hle hi hr => exact ⟨_, hk, h0, hle, hi, hr⟩

/-- A count of the kernel, as the `int` holds it. -/
theorem toInt32_natCast {k : ℕ} (h : (k : ℤ) ≤ INT_MAX) : toInt32 k = k :=
  toInt32_of_le (le_trans (by decide) (Int.natCast_nonneg k)) h

theorem toInt32_le {n : ℤ} (h : -1 ≤ n) : toInt32 n ≤ n := by
  by_cases hi : n ≤ INT_MAX
  · rw [toInt32_of_le (le_trans (by decide) h) hi]
  · exact (toInt32_lt (not_le.mp hi)).le

/-- Storage that never fails: besides, no count is above `INT_MAX`, which on Linux none is. -/
structure Env.Reliable (E : Env) : Prop extends E.Healthy where
  write_le : ∀ inode offset idle n k, E.write inode offset idle n = some k → (k : ℤ) ≤ INT_MAX

theorem Env.Reliable.fits {E : Env} (hE : E.Reliable) (inode idle offset n : ℕ) :
    E.Fits inode idle offset n := by
  induction n using Nat.strong_induction_on generalizing offset with
  | _ n ih =>
    obtain rfl | hn := Nat.eq_zero_or_pos n
    · exact .done offset
    · obtain ⟨k, hk, h0, hle⟩ := hE.write inode offset idle n hn
      exact .write hk h0 hle (hE.write_le _ _ _ _ _ hk) (ih (n - k) (by omega) (offset + k))

/-- A kernel that refuses nothing and writes at most 0x7ffff000 bytes at once, as Linux does. -/
def Env.linux : Env := { Env.prompt with write := fun _ _ _ n => some (min n 0x7ffff000) }

theorem Env.linux_reliable : Env.linux.Reliable where
  descriptor := Env.prompt_healthy.descriptor
  write _ _ _ n hn := ⟨_, rfl, lt_min hn (by decide), min_le_left _ _⟩
  write_le _ _ _ n k hk := by
    obtain rfl := Option.some.inj hk
    exact le_trans (Int.ofNat_le.mpr (min_le_right _ _)) (by decide)

namespace Body

variable {E : Env}

@[simp] theorem grow_data (b : Body) (n : ℕ) : (b.grow n).data = b.data := rfl

@[simp] theorem grow_fd (b : Body) (n : ℕ) : (b.grow n).fd = b.fd := rfl

@[simp] theorem grow_size (b : Body) (n : ℕ) : (b.grow n).size = b.size + n := rfl

@[simp] theorem grow_zero (b : Body) : b.grow 0 = b := rfl

theorem grow_grow (b : Body) (m n : ℕ) : (b.grow m).grow n = b.grow (m + n) := by
  simp only [grow, Nat.add_assoc]

theorem sizeOnDisk_grow (b : Body) (n : ℕ) : (b.grow n).sizeOnDisk = b.sizeOnDisk + n := by
  have hs := b.sized
  simp only [sizeOnDisk, grow]
  omega

theorem add_le (b : Body) (fs : Fs) (p : Bytes) : (b.add E fs p).1 ≤ p.length := by
  rw [add]
  split_ifs
  · rw [bufferOnDisk]
    rcases b.createFile E fs with ⟨_ | _, b', fs'⟩
    · exact le_trans (show (-1 : ℤ) ≤ 0 by decide) (Int.natCast_nonneg _)
    · obtain ⟨h, h'⟩ := fs'.write_le E b'.fd p
      dsimp only
      split_ifs <;> exact (toInt32_le h).trans h'
  · simp only [bufferInMemory, insertion_eq]
    omega

/-- `add_body` returns. -/
theorem addLoop_some {p : Bytes} {fuel done : ℕ} (hf : p.length ≤ fuel + done)
    (hd : done ≤ p.length) (b : Body) (fs : Fs) : (addLoop E p fuel done b fs).isSome := by
  induction fuel generalizing done b fs with
  | zero =>
    rw [addLoop, if_pos (by omega)]
    rfl
  | succ fuel ih =>
    rw [addLoop]
    split_ifs with h
    · rfl
    · have hle := add_le (E := E) b fs (p.drop done)
      rw [List.length_drop] at hle
      generalize b.add E fs (p.drop done) = r at hle ⊢
      obtain ⟨added, b', fs'⟩ := r
      dsimp only at hle ⊢
      split_ifs with ha
      · rfl
      · exact ih (by omega) (by omega) b' fs'

theorem addLoop_done {p : Bytes} {done : ℕ} (hd : done = p.length) (fuel : ℕ) (b : Body) (fs : Fs) :
    addLoop E p fuel done b fs = some (b, fs) := by
  cases fuel <;> rw [addLoop, if_pos hd]

theorem addBody_some (b : Body) (fs : Fs) (p : Bytes) :
    ∃ b' fs', addBody E b fs p = some (b', fs') := by
  obtain ⟨⟨b', fs'⟩, h⟩ := Option.isSome_iff_exists.mp
    (addLoop_some (E := E) (Nat.le_add_right p.length 0) (Nat.zero_le _) b fs)
  exact ⟨b', fs', h⟩

theorem addAll_some (b : Body) (fs : Fs) (frags : List Bytes) :
    ∃ b' fs', addAll E b fs frags = some (b', fs') := by
  induction frags generalizing b fs with
  | nil => exact ⟨b, fs, rfl⟩
  | cons frag frags ih =>
    obtain ⟨b₁, fs₁, h₁⟩ := addBody_some (E := E) b fs frag
    obtain ⟨b', fs', hr⟩ := ih b₁ fs₁
    exact ⟨b', fs', (congrArg (Option.bind · _) h₁).trans hr⟩

/-- The body writes its overflow through the description `o`. -/
structure OnDisk (b : Body) (fs : Fs) (o : ℕ) : Prop where
  full : b.data.length = MAX_BUFFER_SIZE
  fd : 0 < b.fd
  writer : fs.writer b.fd = some o

theorem OnDisk.add {b : Body} {fs : Fs} {o : ℕ} (h : b.OnDisk fs o) {p : Bytes} {k : ℕ}
    (hk : E.write (fs.opened o).inode (fs.opened o).offset fs.idle p.length = some k)
    (h0 : 0 < k) (hle : k ≤ p.length) : b.add E fs p =
      (toInt32 k, b.grow (toInt32 k).toNat, fs.written o (p.take k)) := by
  rw [Body.add, if_pos h.full, bufferOnDisk, createFile, if_pos h.fd]
  dsimp only
  rw [Fs.write_of_writer h.writer hk h0 hle]
  dsimp only
  split_ifs with hr
  · rfl
  · rw [Int.toNat_of_nonpos (not_lt.mp hr), grow_zero]

theorem OnDisk.step {b : Body} {fs : Fs} {o : ℕ} (h : b.OnDisk fs o) (n : ℕ) (q : Bytes) :
    (b.grow n).OnDisk (fs.written o q) o :=
  ⟨h.full, h.fd, Fs.writer_written h.writer q⟩

theorem OnDisk.add_one (hE : E.Reliable) {b : Body} {fs : Fs} {o : ℕ}
    (h : b.OnDisk fs o) (ch : UInt8) :
    b.add E fs [ch] = (1, b.grow 1, fs.written o [ch]) := by
  obtain ⟨k, hk, h0, hle⟩ := hE.write (fs.opened o).inode (fs.opened o).offset fs.idle [ch].length
    (by simp)
  obtain rfl : k = 1 := le_antisymm hle h0
  have h1 : toInt32 ((1 : ℕ) : ℤ) = 1 := toInt32_natCast (by decide)
  rw [h.add hk h0 hle, h1]
  rfl

/-- The loop on disk, as long as the counts fit into an `int`. -/
theorem OnDisk.loop {p : Bytes} {fuel done : ℕ} {b : Body} {fs : Fs} {o : ℕ} (h : b.OnDisk fs o)
    (hf : p.length ≤ fuel + done) (hd : done ≤ p.length)
    (hE : E.Fits (fs.opened o).inode fs.idle (fs.opened o).offset (p.length - done)) :
    addLoop E p fuel done b fs =
      some (b.grow (p.length - done), fs.written o (p.drop done)) := by
  induction fuel generalizing done b fs with
  | zero =>
    obtain rfl : done = p.length := by omega
    rw [addLoop, if_pos rfl, Nat.sub_self, List.drop_length]
    rfl
  | succ fuel ih =>
    rw [addLoop]
    split_ifs with hp
    · rw [hp, Nat.sub_self, List.drop_length]
      rfl
    obtain ⟨k, hk, h0, hle, hi, hr⟩ := hE.next (by omega)
    rw [← List.length_drop] at hk hle
    rw [h.add hk h0 hle, toInt32_natCast hi]
    dsimp only
    rw [if_neg (by omega), Int.toNat_natCast]
    rw [List.length_drop] at hle
    rw [ih (h.step k _) (by omega) (by omega) (by
      rw [Fs.opened_written, Fs.idle_written, List.length_take, List.length_drop,
        min_eq_left hle, ← Nat.sub_sub]
      exact hr), grow_grow, Fs.written_append, ← List.drop_drop, List.take_append_drop,
      show k + (p.length - (done + k)) = p.length - done by omega]

/-- The body with the bytes of `p` that fit into memory. -/
def keep (b : Body) (p : Bytes) : Body := (b.bufferInMemory p).2

/-- The bytes of `p` that do not. -/
def overflow (b : Body) (p : Bytes) : Bytes := p.drop (b.insertion p)

@[simp] theorem keep_data (b : Body) (p : Bytes) :
    (b.keep p).data = b.data ++ p.take (b.insertion p) := rfl

@[simp] theorem keep_fd (b : Body) (p : Bytes) : (b.keep p).fd = b.fd := rfl

@[simp] theorem keep_size (b : Body) (p : Bytes) : (b.keep p).size = b.size + b.insertion p := rfl

theorem keep_full {b : Body} (h : b.data.length = MAX_BUFFER_SIZE) (p : Bytes) :
    b.keep p = b ∧ b.overflow p = p := by
  have hi : b.insertion p = 0 := by
    rw [insertion_eq, h]
    omega
  constructor
  · rcases b with ⟨⟩
    simp only [keep, bufferInMemory, hi, List.take_zero, List.append_nil, Nat.add_zero]
  · rw [overflow, hi, List.drop_zero]

theorem keep_overflow {b : Body} {p : Bytes} (h : b.overflow p ≠ []) :
    (b.keep p).data.length = MAX_BUFFER_SIZE := by
  have hb := b.bounded
  rw [overflow, ne_eq, List.drop_eq_nil_iff, insertion_eq] at h
  rw [keep_data, length_insertion, insertion_eq]
  omega

/-- What fills the memory part stays there. -/
theorem add_full (E : Env) (fs : Fs) {z : Bytes} (hz : z.length = MAX_BUFFER_SIZE) :
    Body.new.add E fs z = ((z.length : ℤ), Body.new.keep z, fs) ∧
      (Body.new.keep z).data = z ∧ (Body.new.keep z).size = z.length := by
  have hi : Body.new.insertion z = z.length := by
    rw [insertion_eq, hz]
    rfl
  refine ⟨?_, ?_, ?_⟩
  · rw [Body.add, if_neg (by decide), keep, ← hi]
    rfl
  · rw [keep_data, hi, List.take_length]
    rfl
  · rw [keep_size, hi]
    exact Nat.zero_add _

/-- The bytes `q` sent to the file, where the system calls succeed: a file that is not open for
writing takes none of them. -/
def spill (E : Env) (b : Body) (fs : Fs) (q : Bytes) : Body × Fs :=
  match b.createFile E fs with
  | (_, b, fs) =>
    match fs.writer b.fd with
    | none => (b, fs)
    | some o => (b.grow q.length, fs.written o q)

/-- `add_body` without its loop. -/
def store (E : Env) (b : Body) (fs : Fs) (p : Bytes) : Body × Fs :=
  if b.overflow p = [] then (b.keep p, fs) else (b.keep p).spill E fs (b.overflow p)

/-- The file behind a body that had none. -/
structure Created (fs : Fs) (b' : Body) (fs' : Fs) : Prop where
  appends : fs'.Appends b'.fd fs.nextOpened
  inode : (fs'.opened fs.nextOpened).inode = fs.nextInode
  contents : fs'.contents b'.fd = []
  idle : fs'.idle = fs.idle

theorem createFile_true {b b' : Body} {fs fs' : Fs} (h : b.createFile E fs = (true, b', fs')) :
    0 < b'.fd ∧ b'.data = b.data ∧ b'.size = b.size ∧ (b.fd ≤ 0 → Created fs b' fs') ∧
      (0 < b.fd → b' = b ∧ fs' = fs) := by
  rw [createFile] at h
  split_ifs at h with hb
  · obtain ⟨-, rfl, rfl⟩ := Prod.mk.injEq .. ▸ Prod.mk.injEq .. ▸ h
    exact ⟨hb, rfl, rfl, fun h' => absurd hb h'.not_gt, fun _ => ⟨rfl, rfl⟩⟩
  rw [Fs.mkstemp] at h
  cases ha : fs.allocate E with
  | none =>
    rw [ha] at h
    exact Bool.noConfusion (congrArg Prod.fst h)
  | some fd =>
    rw [ha] at h
    dsimp only at h
    have hpos : 0 < fd := by
      by_contra hn
      rw [if_neg hn] at h
      exact Bool.noConfusion (congrArg Prod.fst h)
    rw [if_pos hpos] at h
    obtain ⟨-, rfl, rfl⟩ := Prod.mk.injEq .. ▸ Prod.mk.injEq .. ▸ h
    refine ⟨hpos, rfl, rfl, fun _ => ?_, fun h' => absurd h' hb⟩
    have hw : Fs.writer ((Fs.mk (Function.update fs.files fs.nextInode [])
        ((E.tmpName fs.calls (fs.names.map Prod.fst), fs.nextInode) :: fs.names) fs.opened fs.descs
        (fs.nextInode + 1) fs.nextOpened (fs.calls + 1) fs.idle).install fd fs.nextInode true) fd =
        some fs.nextOpened := by
      rw [Fs.writer_eq, Fs.install]
      simp
    refine ⟨⟨hw, ?_⟩, ?_, ?_, rfl⟩
    · simp [Fs.install]
    · simp [Fs.install]
    · rw [Fs.contents_of (Fs.writer_eq.mp hw).1]
      simp [Fs.install]

theorem createFile_healthy (hE : E.Healthy) (b : Body) (fs : Fs) :
    ∃ b' fs', b.createFile E fs = (true, b', fs') ∧ 0 < b'.fd ∧ b'.data = b.data ∧
      b'.size = b.size ∧ (b.fd ≤ 0 → Created fs b' fs') ∧ (0 < b.fd → b' = b ∧ fs' = fs) := by
  have hok : (b.createFile E fs).1 = true := by
    rw [createFile]
    split_ifs
    · rfl
    obtain ⟨fd, hfd, hpos, hnew⟩ := hE.descriptor fs.calls (fs.descs.map Prod.fst)
    have ha : fs.allocate E = some fd := by
      rw [Fs.allocate, hfd, Option.filter_some, if_pos]
      simpa [hpos.le] using hnew
    rw [Fs.mkstemp, ha]
    dsimp only
    rw [if_pos hpos]
  generalize hc : b.createFile E fs = c at hok
  obtain ⟨ok, b', fs'⟩ := c
  obtain rfl : ok = true := hok
  exact ⟨b', fs', rfl, createFile_true hc⟩

theorem addBody_memory {b : Body} {p : Bytes} (ho : b.overflow p = []) (fs : Fs) :
    addBody E b fs p = some (b.keep p, fs) := by
  rcases p with _ | ⟨ch, p⟩
  · have hk : b.keep [] = b := by
      rcases b with ⟨⟩
      simp [keep, bufferInMemory, insertion_eq]
    rw [hk]
    exact addLoop_done rfl ..
  have hlt : b.data.length ≠ MAX_BUFFER_SIZE := fun hb => by
    rw [(keep_full hb _).2] at ho
    exact List.cons_ne_nil _ _ ho
  have hle : b.insertion (ch :: p) = p.length + 1 := by
    rw [overflow, List.drop_eq_nil_iff, List.length_cons] at ho
    rw [insertion_eq, List.length_cons] at ho ⊢
    omega
  rw [addBody, List.length_cons, addLoop, if_neg (by simp), add, if_neg hlt]
  dsimp only [bufferInMemory]
  rw [List.drop_zero, if_neg (by omega), Int.toNat_natCast, Nat.zero_add]
  exact addLoop_done hle ..

/-- Whether there is a file or not, the rest of the body stays as it is. -/
theorem createFile_frame {b b' : Body} {fs fs' : Fs} {ok : Bool}
    (h : b.createFile E fs = (ok, b', fs')) :
    b'.data = b.data ∧ b'.size = b.size ∧ (ok = true ↔ 0 < b'.fd) := by
  rw [createFile] at h
  split_ifs at h with hb
  · obtain ⟨rfl, rfl, -⟩ := Prod.mk.injEq .. ▸ Prod.mk.injEq .. ▸ h
    exact ⟨rfl, rfl, iff_of_true rfl hb⟩
  · dsimp only at h
    split_ifs at h with hc
    · obtain ⟨rfl, rfl, -⟩ := Prod.mk.injEq .. ▸ Prod.mk.injEq .. ▸ h
      exact ⟨rfl, rfl, iff_of_true rfl hc⟩
    · obtain ⟨rfl, rfl, -⟩ := Prod.mk.injEq .. ▸ Prod.mk.injEq .. ▸ h
      exact ⟨rfl, rfl, iff_of_false Bool.false_ne_true hc⟩

/-- The loop gets to the overflow, with the rest in memory. -/
theorem addBody_overflow {b : Body} {p : Bytes} (ho : b.overflow p ≠ []) (fs : Fs) :
    ∃ fuel, p.length ≤ fuel + 1 + b.insertion p ∧ b.insertion p < p.length ∧
      addBody E b fs p = addLoop E p (fuel + 1) (b.insertion p) (b.keep p) fs := by
  have hd : b.insertion p < p.length := by
    rwa [overflow, ne_eq, List.drop_eq_nil_iff, not_le] at ho
  obtain ⟨n, hn⟩ : ∃ n, p.length = n + 1 := ⟨p.length - 1, by omega⟩
  by_cases hb : b.data.length = MAX_BUFFER_SIZE
  · have hi : b.insertion p = 0 := by
      rw [insertion_eq, hb]
      omega
    refine ⟨n, by omega, hd, ?_⟩
    rw [addBody, hn, hi, (keep_full hb p).1]
  · have hi : 0 < b.insertion p := by
      have hlt := lt_of_le_of_ne b.bounded hb
      rw [insertion_eq]
      omega
    obtain ⟨m, rfl⟩ : ∃ m, n = m + 1 := ⟨n - 1, by omega⟩
    refine ⟨m, by omega, hd, ?_⟩
    rw [addBody, hn, addLoop, if_neg (by omega), add, if_neg hb]
    dsimp only [bufferInMemory]
    rw [List.drop_zero, if_neg (by omega), Int.toNat_natCast, Nat.zero_add]
    rfl

/-- The loop gets to the file with the overflow before it. -/
theorem addBody_file {b b' : Body} {p : Bytes} (ho : b.overflow p ≠ []) {fs fs' : Fs}
    (hc : (b.keep p).createFile E fs = (true, b', fs')) :
    ∃ fuel, p.length ≤ fuel + 1 + b.insertion p ∧ b.insertion p < p.length ∧
      addBody E b fs p = addLoop E p (fuel + 1) (b.insertion p) b' fs' := by
  obtain ⟨hdata, -, hfd⟩ := createFile_frame hc
  have hfull := keep_overflow ho
  obtain ⟨fuel, hf, hd, hrun⟩ := addBody_overflow (E := E) ho fs
  refine ⟨fuel, hf, hd, hrun.trans ?_⟩
  -- the first turn on disk creates the file, so it may as well start behind that
  rw [addLoop, addLoop, if_neg hd.ne, if_neg hd.ne, add, if_pos hfull, add,
    if_pos (hdata ▸ hfull), bufferOnDisk, bufferOnDisk, hc, createFile, if_pos (hfd.mp rfl)]

/-- Without a file the overflow is lost. -/
theorem addBody_lost {b b' : Body} {p : Bytes} (ho : b.overflow p ≠ []) {fs fs' : Fs}
    (hc : (b.keep p).createFile E fs = (false, b', fs')) : addBody E b fs p = some (b', fs') := by
  obtain ⟨fuel, hf, hd, hrun⟩ := addBody_overflow (E := E) ho fs
  rw [hrun, addLoop, if_neg hd.ne, add, if_pos (keep_overflow ho), bufferOnDisk, hc]
  rfl

theorem addBody_disk (hE : E.Healthy) {b : Body} {p : Bytes} (ho : b.overflow p ≠ []) (fs : Fs) :
    ∃ fuel b' fs', (b.keep p).createFile E fs = (true, b', fs') ∧ 0 < b'.fd ∧
      b'.data = (b.keep p).data ∧ p.length ≤ fuel + b.insertion p ∧ b.insertion p < p.length ∧
      addBody E b fs p = addLoop E p fuel (b.insertion p) b' fs' := by
  obtain ⟨b', fs', hc, hfd, hdata, -⟩ := createFile_healthy hE (b.keep p) fs
  obtain ⟨fuel, hf, hd, hrun⟩ := addBody_file ho hc
  exact ⟨fuel + 1, b', fs', hc, hfd, hdata, hf, hd, hrun⟩

/-- Every write that the overflow needs comes out with a count that fits. -/
def Writes (E : Env) (b : Body) (fs : Fs) (p : Bytes) : Prop :=
  ∀ ok b' fs' o, (b.keep p).createFile E fs = (ok, b', fs') → fs'.writer b'.fd = some o →
    E.Fits (fs'.opened o).inode fs'.idle (fs'.opened o).offset (b.overflow p).length

theorem addBody_eq (hE : E.Healthy) {b : Body} {fs : Fs} {p : Bytes} (hw : b.Writes E fs p) :
    addBody E b fs p = some (b.store E fs p) := by
  rw [store]
  split_ifs with ho
  · exact addBody_memory ho fs
  obtain ⟨fuel, b', fs', hc, hfd, hdata, hf, hd, hrun⟩ := addBody_disk hE ho fs
  have hfull : b'.data.length = MAX_BUFFER_SIZE := hdata ▸ keep_overflow ho
  rw [hrun, spill, hc]
  cases hwr : fs'.writer b'.fd with
  | some o =>
    have h := hw _ _ _ _ hc hwr
    rw [overflow, List.length_drop] at h
    simp only [hwr]
    rw [OnDisk.loop ⟨hfull, hfd, hwr⟩ hf hd.le h, overflow, List.length_drop]
  | none =>
    have hneg : toInt32 (-1) = -1 := toInt32_of_le (by decide) (by decide)
    obtain ⟨fuel, rfl⟩ : ∃ n, fuel = n + 1 := ⟨fuel - 1, by omega⟩
    simp only [hwr]
    rw [addLoop, if_neg hd.ne, add, if_pos hfull, bufferOnDisk, createFile, if_pos hfd]
    simp only [Fs.write_of_none hwr, hneg]
    rfl

theorem addBody_reliable (hE : E.Reliable) (b : Body) (fs : Fs) (p : Bytes) :
    addBody E b fs p = some (b.store E fs p) :=
  addBody_eq hE.toHealthy fun _ _ _ _ _ _ => hE.fits ..

theorem insertion_append {b : Body} {p : Bytes} (ho : b.overflow p = []) (q : Bytes) :
    b.insertion p = p.length ∧ b.insertion (p ++ q) = p.length + (b.keep p).insertion q := by
  have hb := b.bounded
  rw [overflow, List.drop_eq_nil_iff, insertion_eq] at ho
  have hk : (b.keep p).data.length = b.data.length + p.length := by
    rw [keep_data, length_insertion, insertion_eq]
    omega
  rw [insertion_eq, insertion_eq, insertion_eq, hk, List.length_append]
  omega

theorem keep_append {b : Body} {p : Bytes} (ho : b.overflow p = []) (q : Bytes) :
    b.keep (p ++ q) = (b.keep p).keep q ∧ b.overflow (p ++ q) = (b.keep p).overflow q := by
  obtain ⟨hp, hpq⟩ := insertion_append ho q
  refine ⟨Body.ext ?_ rfl rfl ?_ rfl, ?_⟩
  · rw [keep_data, keep_data, keep_data, hpq, hp, List.take_length_add_append, List.take_length,
      List.append_assoc]
  · rw [keep_size, keep_size, keep_size, hpq, hp, Nat.add_assoc]
  · rw [overflow, hpq, List.drop_length_add_append, overflow]

theorem overflow_append {b : Body} {p : Bytes} (ho : b.overflow p ≠ []) (q : Bytes) :
    b.keep (p ++ q) = b.keep p ∧ b.overflow (p ++ q) = b.overflow p ++ q := by
  have hlt : b.insertion p < p.length := by
    rwa [overflow, ne_eq, List.drop_eq_nil_iff, not_le] at ho
  have hi : b.insertion (p ++ q) = b.insertion p := by
    rw [insertion_eq] at hlt
    rw [insertion_eq, insertion_eq, List.length_append]
    omega
  refine ⟨Body.ext ?_ rfl rfl ?_ rfl, ?_⟩
  · rw [keep_data, keep_data, hi, List.take_append_of_le_length hlt.le]
  · rw [keep_size, keep_size, hi]
  · rw [overflow, hi, List.drop_append_of_le_length hlt.le, overflow]

/-- Fragments that are stored one after the other are stored as one. -/
theorem store_append (hE : E.Healthy) (b : Body) (fs : Fs) (p q : Bytes) :
    b.store E fs (p ++ q) = (b.store E fs p).1.store E (b.store E fs p).2 q := by
  by_cases ho : b.overflow p = []
  · obtain ⟨hk, ho'⟩ := keep_append ho q
    rw [store, hk, ho', store.eq_def E b fs p, if_pos ho, store]
  obtain ⟨hk, ho'⟩ := overflow_append ho q
  have hne : b.overflow p ++ q ≠ [] := List.append_ne_nil_of_left_ne_nil ho q
  obtain ⟨b', fs', hc, hfd, hdata, -⟩ := createFile_healthy hE (b.keep p) fs
  have hfull : b'.data.length = MAX_BUFFER_SIZE := hdata ▸ keep_overflow ho
  rw [store, hk, ho', if_neg hne, store.eq_def E b fs p, if_neg ho, spill, spill, hc]
  cases hw : fs'.writer b'.fd with
  | none =>
    simp only [hw]
    rw [store, (keep_full hfull q).1, (keep_full hfull q).2]
    split_ifs
    · rfl
    · rw [spill, createFile, if_pos hfd]
      simp only [hw]
  | some o =>
    have hw' : (fs'.written o (b.overflow p)).writer (b'.grow (b.overflow p).length).fd = some o :=
      Fs.writer_written hw _
    have hkeep := keep_full (b := b'.grow (b.overflow p).length) hfull q
    simp only [hw]
    rw [store, hkeep.1, hkeep.2]
    split_ifs with hq
    · rw [hq, List.append_nil]
    · rw [spill, createFile, if_pos (by exact hfd)]
      simp only [hw']
      rw [grow_grow, Fs.written_append, List.length_append]

end Body

end Stutter
