import Stutter.Buffering
import Stutter.Lifecycle

namespace Stutter

namespace Fs

/-- The descriptor `fd` finds in `fs'` what it finds in `fs`. -/
structure Same (fs fs' : Fs) (fd : ℤ) : Prop where
  lookup : fs'.descs.lookup fd = fs.descs.lookup fd
  opened : ∀ o, fs.descs.lookup fd = some o → fs'.opened o = fs.opened o
  files : ∀ o, fs.descs.lookup fd = some o →
    fs'.files (fs.opened o).inode = fs.files (fs.opened o).inode

variable {E : Env} {fs fs' fs'' : Fs} {fd : ℤ} {o : ℕ}

theorem Same.refl (fs : Fs) (fd : ℤ) : fs.Same fs fd := ⟨rfl, fun _ _ => rfl, fun _ _ => rfl⟩

theorem Same.trans (h : fs.Same fs' fd) (h' : fs'.Same fs'' fd) : fs.Same fs'' fd where
  lookup := h'.lookup.trans h.lookup
  opened o ho := (h'.opened o (h.lookup.trans ho)).trans (h.opened o ho)
  files o ho := by
    have hf := h'.files o (h.lookup.trans ho)
    rw [h.opened o ho] at hf
    exact hf.trans (h.files o ho)

theorem Same.contents (h : fs.Same fs' fd) : fs'.contents fd = fs.contents fd := by
  cases hl : fs.descs.lookup fd with
  | none => simp only [Fs.contents, opening, h.lookup, hl, Option.map_none]
  | some o => rw [contents_of hl, contents_of (h.lookup.trans hl), h.opened o hl, h.files o hl]

theorem Same.writer (h : fs.Same fs' fd) (hw : fs'.writer fd = some o) : fs.writer fd = some o := by
  obtain ⟨hl, hwr⟩ := writer_eq.mp hw
  rw [h.lookup] at hl
  rw [h.opened o hl] at hwr
  exact writer_eq.mpr ⟨hl, hwr⟩

theorem lookup_of_not_mem {l : List (ℤ × ℕ)} (h : fd ∉ l.map Prod.fst) : l.lookup fd = none :=
  List.lookup_eq_none_iff.mpr fun _ he => bne_iff_ne.mpr fun hfd => h (hfd ▸ List.mem_map_of_mem he)

theorem same_close {fd' : ℤ} (hne : fd ≠ fd') : fs.Same (fs.close fd') fd where
  lookup := by
    rw [close]
    induction fs.descs with
    | nil => rfl
    | cons e l ih =>
      by_cases he : e.1 = fd'
      · rw [List.filter_cons_of_neg (by simpa using he), ih, List.lookup_cons,
          beq_false_of_ne (he ▸ hne)]
      · rw [List.filter_cons_of_pos (by simpa using he), List.lookup_cons, List.lookup_cons, ih]
  opened _ _ := rfl
  files _ _ := rfl

theorem same_install {fd' : ℤ} (hne : fd ≠ fd') (ho : ∀ d ∈ fs.descs, d.2 < fs.nextOpened) (i : ℕ)
    (w : Bool) : fs.Same (fs.install fd' i w) fd where
  lookup := by
    rw [install]
    dsimp only
    rw [List.lookup_cons, beq_false_of_ne hne]
  opened o hl := Function.update_of_ne (ho _ (Heap.lookup_mem hl)).ne ..
  files _ _ := rfl

end Fs

namespace Body

theorem file_same {fs fs' : Fs} {b : Body} (h : fs.Same fs' b.fd) : b.file fs' = b.file fs := by
  rw [file, file, h.contents]

/-- What is added to the body next comes behind what it holds. -/
def AtEnd (b : Body) (fs : Fs) : Prop :=
  if b.data.length = MAX_BUFFER_SIZE then
    ∀ o, fs.writer b.fd = some o → b.sizeOnDisk = (b.file fs).length
  else b.sizeOnDisk = 0

theorem content_same {fs fs' : Fs} {b : Body} (h : fs.Same fs' b.fd) :
    b.content fs' = b.content fs := by
  rw [content, content, file_same h]

end Body

namespace Heap

/-- The bodies and the files they have open, as long as `dup` does not fail: a spill file is
written through one description, at its end. -/
structure Seats (fs : Fs) (bs : List Body) : Prop where
  names : ∀ e ∈ fs.names, e.2 < fs.nextInode
  disk : ∀ b ∈ bs, b.sizeOnDisk ≤ (b.file fs).length
  inode : ∀ b ∈ bs, ∀ o, fs.descs.lookup b.fd = some o → (fs.opened o).inode < fs.nextInode
  ends : ∀ b ∈ bs, ∀ o, fs.writer b.fd = some o → fs.Appends b.fd o
  single : ∀ b ∈ bs, ∀ c ∈ bs, ∀ o o', fs.writer b.fd = some o → fs.writer c.fd = some o' →
    (fs.opened o).inode = (fs.opened o').inode → o = o'

variable {E : Env} {fs₀ fs fs' : Fs} {b : Body} {bs : List Body}

theorem Seats.sub {bs' : List Body} (h : Seats fs bs) (hs : bs' ⊆ bs) : Seats fs bs' where
  names := h.names
  disk b hb := h.disk b (hs hb)
  inode b hb := h.inode b (hs hb)
  ends b hb := h.ends b (hs hb)
  single b hb c hc := h.single b (hs hb) c (hs hc)

theorem Seats.same (h : Seats fs bs) (hs : ∀ b ∈ bs, fs.Same fs' b.fd)
    (hn : ∀ e ∈ fs'.names, e.2 < fs'.nextInode) (hi : fs.nextInode ≤ fs'.nextInode) :
    Seats fs' bs where
  names := hn
  disk b hb := by
    rw [Body.file_same (hs b hb)]
    exact h.disk b hb
  inode b hb o hl := by
    rw [(hs b hb).lookup] at hl
    rw [(hs b hb).opened o hl]
    exact (h.inode b hb o hl).trans_le hi
  ends b hb o hw := by
    have hw' := (hs b hb).writer hw
    obtain ⟨hl, -⟩ := Fs.writer_eq.mp hw'
    refine ⟨hw, ?_⟩
    rw [(hs b hb).opened o hl, (hs b hb).files o hl]
    exact (h.ends b hb o hw').offset
  single b hb c hc o o' hw hw' he := by
    have hb' := (hs b hb).writer hw
    have hc' := (hs c hc).writer hw'
    rw [(hs b hb).opened o (Fs.writer_eq.mp hb').1,
      (hs c hc).opened o' (Fs.writer_eq.mp hc').1] at he
    exact h.single b hb c hc o o' hb' hc' he

/-- A body without a writable file. -/
theorem Seats.cons (h : Seats fs bs) (hd : b.sizeOnDisk ≤ (b.file fs).length)
    (hi : ∀ o, fs.descs.lookup b.fd = some o → (fs.opened o).inode < fs.nextInode)
    (hw : fs.writer b.fd = none) : Seats fs (b :: bs) where
  names := h.names
  disk := List.forall_mem_cons.mpr ⟨hd, h.disk⟩
  inode := List.forall_mem_cons.mpr ⟨hi, h.inode⟩
  ends := List.forall_mem_cons.mpr ⟨fun o ho => absurd (hw.symm.trans ho) (by simp), h.ends⟩
  single := by
    refine List.forall_mem_cons.mpr ⟨fun c _ o _ ho => absurd (hw.symm.trans ho) (by simp),
      fun c hc => List.forall_mem_cons.mpr ⟨fun _ o _ ho => absurd (hw.symm.trans ho) (by simp),
        h.single c hc⟩⟩

/-- Another body with the description of one that is there. -/
theorem Seats.twin {c : Body} (h : Seats fs bs) (hb : b ∈ bs)
    (hl : fs.descs.lookup c.fd = fs.descs.lookup b.fd) (hd : c.sizeOnDisk ≤ (c.file fs).length) :
    Seats fs (c :: bs) := by
  have hw : fs.writer c.fd = fs.writer b.fd := by rw [Fs.writer, hl, Fs.writer]
  exact {
    names := h.names
    disk := List.forall_mem_cons.mpr ⟨hd, h.disk⟩
    inode := List.forall_mem_cons.mpr ⟨by rw [hl]; exact h.inode b hb, h.inode⟩
    ends := List.forall_mem_cons.mpr
      ⟨fun o ho => ⟨ho, (h.ends b hb o (hw ▸ ho)).offset⟩, h.ends⟩
    single := by
      rw [List.forall_mem_cons, List.forall_mem_cons, hw]
      refine ⟨⟨fun o o' => h.single b hb b hb o o', h.single b hb⟩, fun x hx => ?_⟩
      rw [List.forall_mem_cons, hw]
      exact ⟨h.single x hx b hb, h.single x hx⟩ }

theorem Inv.apart (h : Inv fs₀ fs (b :: bs)) {c : Body} (hc : c ∈ bs) (hb : 0 < b.fd) :
    c.fd ≠ b.fd := by
  intro he
  have hd := (List.nodup_append.mp (h.descs.nodup_iff.mp h.distinct)).1
  rw [held_cons, owned_of_pos hb] at hd
  refine (List.nodup_append.mp hd).2.2 b.fd (List.mem_singleton_self _) c.fd ?_ he.symm
  exact List.mem_flatMap.mpr ⟨c, hc, by
    rw [owned_of_pos (he ▸ hb)]
    exact List.mem_singleton_self _⟩

/-- A new descriptor is none of the bodies'. -/
theorem Inv.ne_new (h : Inv fs₀ fs bs) {c : Body} (hc : c ∈ bs) {fd : ℤ} (hfd : 0 < fd)
    (hnew : fd ∉ fs.descs.map Prod.fst) : c.fd ≠ fd := by
  intro he
  exact hnew (he ▸ h.open_of_mem hc (he ▸ hfd))

theorem Inv.lookup_neg (h : Inv fs₀ fs bs) : fs.descs.lookup (-1) = none := by
  refine Fs.lookup_of_not_mem fun hm => ?_
  obtain ⟨d, hd, he⟩ := List.mem_map.mp hm
  have := h.nonneg d hd
  omega

theorem Inv.same_clear (h : Inv fs₀ fs (b :: bs)) : ∀ c ∈ bs, fs.Same (b.clear fs).2 c.fd := by
  intro c hc
  rw [clear_eq]
  have hu : fs.Same (if b.unlink then fs.unlink b.filename else fs) c.fd := by
    split_ifs
    · exact ⟨rfl, fun _ _ => rfl, fun _ _ => rfl⟩
    · exact .refl ..
  dsimp only
  generalize (if b.unlink then fs.unlink b.filename else fs) = fs' at hu
  split_ifs with hfd
  · exact hu.trans (Fs.same_close (h.apart hc hfd))
  · exact hu

theorem Seats.clear (h : Seats fs (b :: bs)) (hi : Inv fs₀ fs (b :: bs)) :
    Seats (b.clear fs).2 bs := by
  have hnext : (b.clear fs).2.nextInode = fs.nextInode := by
    rw [clear_eq]
    dsimp only
    split_ifs <;> rfl
  refine (h.sub (List.subset_cons_self ..)).same hi.same_clear (fun e he => ?_) hnext.ge
  rw [hnext]
  rw [clear_eq] at he
  dsimp only at he
  split_ifs at he
  · exact h.names e (List.mem_filter.mp he).1
  · exact h.names e he
  · exact h.names e (List.mem_filter.mp he).1
  · exact h.names e he

theorem Seats.empty (h : Seats fs bs) (hi : Inv fs₀ fs bs) (hfd : b.fd = -1)
    (hd : b.sizeOnDisk = 0) : Seats fs (b :: bs) := by
  have hl := hi.lookup_neg
  rw [← hfd] at hl
  exact h.cons (hd ▸ Nat.zero_le _) (fun o ho => absurd (hl.symm.trans ho) (by simp))
    (by rw [Fs.writer, hl]; rfl)

theorem sizeOnDisk_clear (b : Body) (fs : Fs) : (b.clear fs).1.sizeOnDisk = 0 := by
  have he := b.clear_isEmpty fs
  rw [Body.sizeOnDisk, he.size, Nat.zero_sub]

theorem Seats.calls (h : Seats fs bs) (n : ℕ) : Seats { fs with calls := n } bs :=
  h.same (fun _ _ => ⟨rfl, fun _ _ => rfl, fun _ _ => rfl⟩) h.names le_rfl

theorem allocate_healthy (hE : E.Healthy) (fs : Fs) : ∃ fd, fs.allocate E = some fd ∧ 0 < fd ∧
    fd ∉ fs.descs.map Prod.fst := by
  obtain ⟨fd, hfd, hpos, hnew⟩ := hE.descriptor fs.calls (fs.descs.map Prod.fst)
  refine ⟨fd, ?_, hpos, hnew⟩
  rw [Fs.allocate, hfd, Option.filter_some, if_pos]
  simpa [hpos.le] using hnew

/-- The files as `dup` leaves them: nothing that was there changes. -/
theorem Inv.same_dup (h : Inv fs₀ fs bs) (hE : E.Healthy) (fd : ℤ) :
    ∀ c ∈ bs, fs.Same (fs.dup E fd).2 c.fd := by
  intro c hc
  obtain ⟨fd', ha, hpos, hnew⟩ := allocate_healthy hE fs
  rw [Fs.dup]
  cases fs.descs.lookup fd with
  | none => exact .refl ..
  | some o =>
    rw [ha]
    refine ⟨?_, fun _ _ => rfl, fun _ _ => rfl⟩
    dsimp only
    rw [List.lookup_cons, beq_false_of_ne (h.ne_new hc hpos hnew)]

theorem Seats.copy (hE : E.Healthy) (h : Seats fs (b :: bs)) (hi : Inv fs₀ fs (b :: bs)) :
    Seats (b.copy E fs).2 ((b.copy E fs).1 :: b :: bs) ∧
      (b.copy E fs).1.content (b.copy E fs).2 = b.content fs := by
  have hsame := hi.same_dup hE b.fd
  obtain ⟨fd', ha, hpos, hnew⟩ := allocate_healthy hE fs
  rw [Body.copy]
  rw [Fs.dup] at hsame ⊢
  cases hl : fs.descs.lookup b.fd with
  | none =>
    have hfd : ¬ 0 < b.fd := by
      intro hfd
      obtain ⟨d, hd, he⟩ := List.mem_map.mp (hi.open_of_mem List.mem_cons_self hfd)
      exact bne_iff_ne.mp (List.lookup_eq_none_iff.mp hl d hd) he.symm
    have hdisk := h.disk b List.mem_cons_self
    have hfile : b.file fs = [] := if_neg hfd
    rw [hfile, List.length_nil, Nat.le_zero] at hdisk
    refine ⟨h.empty hi rfl hdisk, ?_⟩
    rw [Body.content, Body.content, hfile]
    rfl
  | some o =>
    rw [hl, ha] at hsame
    dsimp only at hsame ⊢
    rw [ha]
    have hb := hsame b List.mem_cons_self
    have hfd := lookup_of_signed hi (hi.tied b List.mem_cons_self).signed hl
    have hlook : List.lookup fd' ((fd', o) :: fs.descs) = some o := List.lookup_cons_self
    have hs : Seats { fs with calls := fs.calls + 1, descs := (fd', o) :: fs.descs } (b :: bs) :=
      h.same hsame h.names le_rfl
    have hfile : Body.file { b with fd := fd', unlink := false }
        { fs with calls := fs.calls + 1, descs := (fd', o) :: fs.descs } = b.file fs := by
      rw [← Body.file_same hb, Body.file, Body.file, if_pos hpos, if_pos hfd,
        Fs.contents_of (hb.lookup.trans hl)]
      exact Fs.contents_of hlook
    refine ⟨hs.twin List.mem_cons_self (hlook.trans (hb.lookup.trans hl).symm) ?_, ?_⟩
    · rw [hfile]
      exact h.disk b List.mem_cons_self
    · rw [Body.content, hfile]
      rfl

/-- A new spill file. -/
theorem Seats.created (h : Seats fs bs) (hi : Inv fs₀ fs bs) {fd : ℤ} (hpos : 0 < fd)
    (hnew : fd ∉ fs.descs.map Prod.fst) (hfd : b.fd = fd) (hd : b.sizeOnDisk = 0) (name : Bytes) :
    let fs' := Fs.install { fs with
      files := Function.update fs.files fs.nextInode []
      names := (name, fs.nextInode) :: fs.names
      nextInode := fs.nextInode + 1
      calls := fs.calls + 1 } fd fs.nextInode true
    Seats fs' (b :: bs) ∧ (∀ c ∈ bs, fs.Same fs' c.fd) ∧ fs'.contents b.fd = [] := by
  intro fs'
  have hsame : ∀ c ∈ bs, fs.Same fs' c.fd := by
    intro c hc
    obtain ⟨hl, ho, -⟩ := Fs.same_install (hi.ne_new hc hpos hnew) hi.opened fs.nextInode true
    exact ⟨hl, ho, fun o ho => Function.update_of_ne (h.inode c hc o ho).ne ..⟩
  have hl : fs'.descs.lookup b.fd = some fs.nextOpened := by
    rw [hfd]
    exact List.lookup_cons_self
  have ho : fs'.opened fs.nextOpened = ⟨fs.nextInode, 0, true⟩ := Function.update_self ..
  have hf : fs'.files fs.nextInode = [] := Function.update_self ..
  have hs := h.same hsame (List.forall_mem_cons.mpr
    ⟨Nat.lt_succ_self _, fun e he => (h.names e he).trans (Nat.lt_succ_self _)⟩) (Nat.le_succ _)
  have hw : fs'.writer b.fd = some fs.nextOpened := Fs.writer_eq.mpr ⟨hl, by rw [ho]⟩
  have hother : ∀ c ∈ bs, ∀ o, fs'.writer c.fd = some o → (fs'.opened o).inode ≠ fs.nextInode := by
    intro c hc o hwc
    obtain ⟨hlc, -⟩ := Fs.writer_eq.mp ((hsame c hc).writer hwc)
    rw [(hsame c hc).opened o hlc]
    exact (h.inode c hc o hlc).ne
  refine ⟨⟨hs.names, List.forall_mem_cons.mpr ⟨hd ▸ Nat.zero_le _, hs.disk⟩,
    List.forall_mem_cons.mpr ⟨fun o hlo => ?_, hs.inode⟩,
    List.forall_mem_cons.mpr ⟨fun o hwo => ?_, hs.ends⟩, ?_⟩, hsame, ?_⟩
  · obtain rfl := Option.some.inj (hl.symm.trans hlo)
    rw [ho]
    exact Nat.lt_succ_self _
  · obtain rfl := Option.some.inj (hw.symm.trans hwo)
    exact ⟨hw, by rw [ho, hf]; rfl⟩
  · refine List.forall_mem_cons.mpr ⟨List.forall_mem_cons.mpr ⟨fun o o' ho ho' _ => ?_,
      fun c hc o o' hwo hwo' he => ?_⟩, fun c hc => List.forall_mem_cons.mpr
      ⟨fun o o' hwo hwo' he => ?_, hs.single c hc⟩⟩
    · exact Option.some.inj (ho.symm.trans ho')
    · obtain rfl := Option.some.inj (hw.symm.trans hwo)
      rw [ho] at he
      exact absurd he.symm (hother c hc o' hwo')
    · obtain rfl := Option.some.inj (hw.symm.trans hwo')
      rw [ho] at he
      exact absurd he (hother c hc o hwo)
  · rw [Fs.contents_of hl, ho, hf]

theorem Seats.createFile (hE : E.Healthy) (h : Seats fs (b :: bs)) (hi : Inv fs₀ fs (b :: bs)) :
    ∃ b' fs', b.createFile E fs = (true, b', fs') ∧ Seats fs' (b' :: bs) ∧ 0 < b'.fd ∧
      (∀ c ∈ bs, fs.Same fs' c.fd) ∧ b'.data = b.data ∧ b'.size = b.size ∧
      b'.file fs' = b.file fs ∧ (0 < b.fd → b' = b ∧ fs' = fs) := by
  by_cases hfd : b.fd > 0
  · exact ⟨b, fs, if_pos hfd, h, hfd, fun _ _ => .refl .., rfl, rfl, rfl, fun _ => ⟨rfl, rfl⟩⟩
  have hd : b.sizeOnDisk = 0 := by
    have hdisk := h.disk b List.mem_cons_self
    rwa [Body.file, if_neg hfd, List.length_nil, Nat.le_zero] at hdisk
  have hrest : Inv fs₀ fs bs := by
    have hr := hi.release (Bool.eq_false_iff.mpr fun hu =>
      hfd ((hi.tied b List.mem_cons_self).linked hu))
    rwa [if_neg hfd] at hr
  obtain ⟨fd, ha, hpos, hnew⟩ := allocate_healthy hE fs
  have hc := Body.createFile.eq_def E b fs
  rw [if_neg hfd, Fs.mkstemp, ha] at hc
  dsimp only at hc
  rw [if_pos hpos] at hc
  generalize E.tmpName fs.calls (fs.names.map Prod.fst) = name at hc
  obtain ⟨hs, hsame, hcont⟩ := (h.sub (List.subset_cons_self ..)).created hrest hpos hnew
    (b := { b with fd := fd, filename := name, unlink := true }) rfl hd name
  refine ⟨_, _, hc, hs, hpos, hsame, rfl, rfl, ?_, fun hp => absurd hp hfd⟩
  rw [Body.file, if_pos hpos, Body.file, if_neg hfd]
  exact hcont

/-- A write through the description of `b`. Others see of it what is behind their own part. -/
theorem Seats.write (hE : E.Reliable) (h : Seats fs (b :: bs)) (hfd : 0 < b.fd) {o : ℕ}
    (hw : fs.writer b.fd = some o) (p : Bytes) :
    ∃ n q fs', fs.write E b.fd p = (n, fs') ∧ toInt32 n = n ∧ n.toNat = q.length ∧
      q = p.take q.length ∧ fs'.contents b.fd = fs.contents b.fd ++ q ∧
      (∀ c : Body, ∃ r, c.file fs' = c.file fs ++ r) ∧
      ∀ b' : Body, b'.fd = b.fd → b'.sizeOnDisk = b.sizeOnDisk + q.length →
        Seats fs' (b' :: bs) := by
  have ha := h.ends b List.mem_cons_self o hw
  obtain ⟨hnames, -, -, hnext, hop, -⟩ := fs.write_frame E b.fd p
  obtain ⟨q, hn, hq, ha', hd, ho, hf, hle⟩ := Fs.write_appends (E := E) ha p
  obtain ⟨hlo, hhi⟩ := fs.write_le E b.fd p
  have hint : (fs.write E b.fd p).1 ≤ INT_MAX :=
    hle INT_MAX.toNat fun n hk => Int.le_toNat (by decide) |>.mpr (hE.write_le _ _ _ _ _ hk)
  generalize fs.write E b.fd p = w at hnames hnext hop hn ha' hd ho hf hlo hint
  obtain ⟨n, fs'⟩ := w
  dsimp only at hnames hnext hop hn ha' hd ho hf hlo hint
  -- the file behind a description, as the write leaves it
  have hfile : ∀ o', fs'.files (fs'.opened o').inode = fs.files (fs.opened o').inode ++
      if (fs.opened o').inode = (fs.opened o).inode then q else [] := by
    intro o'
    rw [(hop o').1, hf]
    split_ifs with he
    · rw [he, Function.update_self]
    · rw [Function.update_of_ne he, List.append_nil]
  have hcont : ∀ fd, ∃ r, fs'.contents fd = fs.contents fd ++ r := by
    intro fd
    cases hl : fs.descs.lookup fd with
    | none => exact ⟨[], by simp only [Fs.contents, Fs.opening, hd, hl, Option.map_none]; rfl⟩
    | some o' => exact ⟨_, by rw [Fs.contents_of (hd ▸ hl), Fs.contents_of hl, hfile]⟩
  have hall : ∀ c : Body, ∃ r, c.file fs' = c.file fs ++ r := by
    intro c
    rw [Body.file, Body.file]
    split_ifs
    · exact hcont c.fd
    · exact ⟨[], rfl⟩
  have hself : fs'.contents b.fd = fs.contents b.fd ++ q := by
    obtain ⟨hl, -⟩ := Fs.writer_eq.mp hw
    rw [Fs.contents_of (hd ▸ hl), Fs.contents_of hl, hfile, if_pos rfl]
  have hwr : ∀ fd o', fs'.writer fd = some o' → fs.writer fd = some o' := by
    intro fd o' hw'
    obtain ⟨hl, hwr⟩ := Fs.writer_eq.mp hw'
    exact Fs.writer_eq.mpr ⟨by rw [← hd, hl], by rw [← (hop o').2, hwr]⟩
  have hend : ∀ c ∈ b :: bs, ∀ o', fs'.writer c.fd = some o' → fs'.Appends c.fd o' := by
    intro c hc o' hw'
    refine ⟨hw', ?_⟩
    have hoff := (h.ends c hc o' (hwr _ _ hw')).offset
    by_cases he : o' = o
    · rw [he]
      exact ha'.offset
    · have hne : (fs.opened o').inode ≠ (fs.opened o).inode := fun hi =>
        he (h.single c hc b List.mem_cons_self o' o (hwr _ _ hw') hw hi)
      rw [hfile, if_neg hne, List.append_nil, ← hoff, ho, Function.update_of_ne he]
  refine ⟨n, q, fs', rfl, toInt32_of_le (le_trans (by decide) hlo) hint, hn, hq, hself, hall,
    fun b' hb hs => ?_⟩
  have hlook : ∀ c ∈ b :: bs, ∀ o', fs'.descs.lookup c.fd = some o' →
      (fs'.opened o').inode < fs'.nextInode := by
    intro c hc o' hl
    rw [(hop o').1, hnext]
    exact h.inode c hc o' (hd ▸ hl)
  have hsingle : ∀ c ∈ b :: bs, ∀ d ∈ b :: bs, ∀ o₁ o₂, fs'.writer c.fd = some o₁ →
      fs'.writer d.fd = some o₂ → (fs'.opened o₁).inode = (fs'.opened o₂).inode → o₁ = o₂ := by
    intro c hc d hd' o₁ o₂ h₁ h₂ he
    rw [(hop o₁).1, (hop o₂).1] at he
    exact h.single c hc d hd' o₁ o₂ (hwr _ _ h₁) (hwr _ _ h₂) he
  exact {
    names := by rw [hnames, hnext]; exact h.names
    disk := by
      refine List.forall_mem_cons.mpr ⟨?_, fun c hc => ?_⟩
      · have hdisk := h.disk b List.mem_cons_self
        rw [Body.file, if_pos hfd] at hdisk
        rw [hs, Body.file, hb, if_pos hfd, hself, List.length_append]
        omega
      · obtain ⟨r, hr⟩ := hall c
        rw [hr, List.length_append]
        exact (h.disk c (List.mem_cons_of_mem _ hc)).trans (Nat.le_add_right _ _)
    inode := by
      rw [List.forall_mem_cons] at hlook ⊢
      rw [hb]
      exact hlook
    ends := by
      rw [List.forall_mem_cons] at hend ⊢
      rw [hb]
      exact hend
    single := by
      simp only [List.forall_mem_cons] at hsingle ⊢
      rw [hb]
      exact hsingle }

theorem Seats.replace {b' : Body} (h : Seats fs (b :: bs)) (hfd : b'.fd = b.fd)
    (hs : b'.sizeOnDisk ≤ (b.file fs).length) : Seats fs (b' :: bs) where
  names := h.names
  disk := by
    have hd := h.disk
    rw [List.forall_mem_cons] at hd ⊢
    refine ⟨?_, hd.2⟩
    rwa [Body.file, hfd]
  inode := by
    have hi := h.inode
    rw [List.forall_mem_cons] at hi ⊢
    rwa [hfd]
  ends := by
    have he := h.ends
    rw [List.forall_mem_cons] at he ⊢
    rwa [hfd]
  single := by
    have hs := h.single
    simp only [List.forall_mem_cons] at hs ⊢
    rwa [hfd]

theorem content_append {c : Body} {r : Bytes} (hr : c.file fs' = c.file fs ++ r)
    (hd : c.sizeOnDisk ≤ (c.file fs).length) : c.content fs' = c.content fs := by
  rw [Body.content, hr, List.take_append_of_le_length hd, Body.content]

theorem sizeOnDisk_keep (b : Body) (p : Bytes) : (b.keep p).sizeOnDisk = b.sizeOnDisk := by
  rw [Body.sizeOnDisk, Body.keep_size, Body.keep_data, Body.length_insertion, Body.sizeOnDisk]
  omega

theorem Seats.spill (hE : E.Reliable) (h : Seats fs (b :: bs)) (hi : Inv fs₀ fs (b :: bs))
    (p : Bytes) : ∃ n b' fs', b.bufferOnDisk E fs p = (n, b', fs') ∧ Seats fs' (b' :: bs) ∧
      (∀ c ∈ bs, c.content fs' = c.content fs) ∧
      (p = [] ∨ (∀ o, fs.writer b.fd = some o → b.sizeOnDisk = (b.file fs).length) →
        b'.content fs' = b.content fs ++ p.take n.toNat) := by
  obtain ⟨b₁, fs₁, hc, hs, hfd, hsame, hdata, hsize, hfile, hold⟩ := h.createFile hE.toHealthy hi
  have hsod : b₁.sizeOnDisk = b.sizeOnDisk := by
    rw [Body.sizeOnDisk, hdata, hsize, Body.sizeOnDisk]
  have hneg : toInt32 (-1) = -1 := toInt32_of_le (by decide) (by decide)
  rw [Body.bufferOnDisk, hc]
  dsimp only
  cases hw : fs₁.writer b₁.fd with
  | none =>
    rw [Fs.write_of_none hw]
    dsimp only
    rw [hneg, if_neg (by decide)]
    refine ⟨-1, b₁, fs₁, rfl, hs, fun c hcm => Body.content_same (hsame c hcm), fun _ => ?_⟩
    rw [Body.content, hdata, hfile, hsod, Body.content]
    exact (List.append_nil _).symm
  | some o =>
    obtain ⟨n, q, fs₂, hwrite, hint, hn, hq, hself, hall, hseats⟩ := hs.write hE hfd hw p
    have hgrow : (if n > 0 then (n, b₁.grow n.toNat, fs₂) else (n, b₁, fs₂)) =
        (n, b₁.grow n.toNat, fs₂) := by
      split_ifs with h0
      · rfl
      · rw [Int.toNat_of_nonpos (not_lt.mp h0), Body.grow_zero]
    have hsod' : (b₁.grow n.toNat).sizeOnDisk = b.sizeOnDisk + q.length := by
      rw [Body.sizeOnDisk_grow, hsod, hn]
    rw [hwrite]
    dsimp only
    rw [hint, hgrow]
    refine ⟨n, b₁.grow n.toNat, fs₂, rfl, hseats _ rfl (by rw [hsod', hsod]), fun c hcm => ?_,
      fun hend => ?_⟩
    · obtain ⟨r, hr⟩ := hall c
      rw [← Body.content_same (hsame c hcm)]
      exact content_append hr (hs.disk c (List.mem_cons_of_mem _ hcm))
    · have hdisk := hs.disk b₁ List.mem_cons_self
      rw [hsod] at hdisk
      have hf : (b₁.grow n.toNat).file fs₂ = b₁.file fs₁ ++ q := by
        rw [Body.file, Body.grow_fd, if_pos hfd, hself, Body.file, if_pos hfd]
      have hlen : q = [] ∨ b.sizeOnDisk = (b₁.file fs₁).length := by
        obtain rfl | hend := hend
        · exact .inl (hq.trans List.take_nil)
        · right
          by_cases hpos : 0 < b.fd
          · obtain ⟨rfl, rfl⟩ := hold hpos
            exact hend o hw
          · have hnil : b₁.file fs₁ = [] := by rw [hfile, Body.file, if_neg hpos]
            rw [hnil, List.length_nil, Nat.le_zero] at hdisk
            rw [hdisk, hnil, List.length_nil]
      rw [Body.content, hf, hsod', Body.grow_data, hdata, hn, ← hq, Body.content, ← hfile,
        List.append_assoc, List.append_cancel_left_eq]
      obtain rfl | hlen := hlen
      · rw [List.append_nil, List.append_nil, List.length_nil, Nat.add_zero]
      · rw [hlen, ← List.length_append, List.take_length, List.take_length]

theorem Seats.add (hE : E.Reliable) (h : Seats fs (b :: bs)) (hi : Inv fs₀ fs (b :: bs))
    (p : Bytes) : ∃ n b' fs', b.add E fs p = (n, b', fs') ∧ Seats fs' (b' :: bs) ∧
      (∀ c ∈ bs, c.content fs' = c.content fs) ∧
      (p = [] ∨ b.AtEnd fs → b'.content fs' = b.content fs ++ p.take n.toNat) := by
  rw [Body.add]
  split_ifs with hfull
  · obtain ⟨n, b', fs', hr, hs, hother, hself⟩ := h.spill hE hi p
    refine ⟨n, b', fs', hr, hs, hother, fun hend => hself (hend.imp_right fun he => ?_)⟩
    rwa [Body.AtEnd, if_pos hfull] at he
  · refine ⟨b.insertion p, b.keep p, fs, rfl, h.replace rfl
      ((sizeOnDisk_keep b p).trans_le (h.disk b List.mem_cons_self)),
      fun _ _ => rfl, fun hend => ?_⟩
    rw [Body.content, sizeOnDisk_keep, Body.keep_data, Int.toNat_natCast, Body.content]
    obtain rfl | he := hend
    · rw [List.take_nil, List.append_nil, List.append_nil]
      rfl
    · rw [Body.AtEnd, if_neg hfull] at he
      rw [he, List.take_zero, List.take_zero, List.append_nil, List.append_nil]

theorem Seats.setFile (hE : E.Healthy) (h : Seats fs (b :: bs)) (hi : Inv fs₀ fs (b :: bs))
    (name : Bytes) : Seats (b.setFile E fs name).2.2 ((b.setFile E fs name).2.1 :: bs) := by
  obtain ⟨fd, ha, hpos, hnew⟩ := allocate_healthy hE fs
  rw [Body.setFile, Fs.openRead]
  cases hl : fs.names.lookup name with
  | none => exact h.calls _
  | some i =>
    rw [ha]
    dsimp only
    rw [if_neg hpos.le.not_gt]
    let fs₁ := Fs.install { fs with calls := fs.calls + 1 } fd i false
    let c : Body := { Body.new with fd := fd }
    have hinv : Inv fs₀ fs₁ (c :: b :: bs) :=
      (hi.calls (fs.calls + 1)).install hpos hnew (by simp) rfl rfl
    have hlook : fs₁.descs.lookup fd = some fs.nextOpened := List.lookup_cons_self
    have ho : fs₁.opened fs.nextOpened = ⟨i, 0, false⟩ := Function.update_self ..
    have hs : Seats fs₁ (b :: bs) := by
      refine h.same (fun x hx => ?_) h.names le_rfl
      obtain ⟨hl, ho, hf⟩ := Fs.same_install (hi.ne_new hx hpos hnew) hi.opened i false
      exact ⟨hl, ho, hf⟩
    have hc : Seats fs₁ (c :: b :: bs) := by
      refine hs.cons (Nat.zero_le _) (fun o hl' => ?_) ?_
      · obtain rfl := Option.some.inj (hlook.symm.trans hl')
        rw [ho]
        exact h.names _ (lookup_mem hl)
      · rw [Fs.writer, show fs₁.descs.lookup c.fd = _ from hlook, Option.filter_some, ho]
        rfl
    have hclear := (hc.sub (List.Perm.swap c b bs).subset).clear (hinv.perm (List.Perm.swap b c bs))
    refine hclear.replace rfl ?_
    have hsize : (b.clear fs₁).1.size = 0 := (b.clear_isEmpty fs₁).size
    rw [Body.sizeOnDisk, List.length_nil, Nat.sub_zero, hsize, Body.file, if_pos hpos, Fs.fstat]
    split_ifs
    · exact le_rfl
    · exact Nat.zero_le _

theorem Seats.step (hE : E.Reliable) {h h' : Heap} (hi : Inv fs₀ h.fs h.bodies)
    (hs : Seats h.fs h.bodies) (hr : Step E h h') : Seats h'.fs h'.bodies := by
  cases hr with
  | construct fs bs os cs => exact hs.empty hi rfl rfl
  | copy fs os cs l b r =>
    have hc := (hs.sub List.perm_middle.symm.subset).copy hE.toHealthy (hi.perm List.perm_middle)
    exact hc.1.sub (List.perm_middle.cons _).subset
  | add fs os cs l b r p =>
    obtain ⟨n, b', fs', hr, hc, -⟩ :=
      (hs.sub List.perm_middle.symm.subset).add hE (hi.perm List.perm_middle) p
    dsimp only
    rw [hr]
    exact hc.sub List.perm_middle.subset
  | setFile fs os cs l b r name hok =>
    have hc := (hs.sub List.perm_middle.symm.subset).setFile hE.toHealthy
      (hi.perm List.perm_middle) name
    exact hc.sub List.perm_middle.subset
  | setFileFails fs os cs l b r name hf =>
    have hc := (hs.sub List.perm_middle.symm.subset).setFile hE.toHealthy
      (hi.perm List.perm_middle) name
    exact hc.sub List.perm_middle.subset
  | clear fs os cs l b r =>
    have hp := hi.perm List.perm_middle
    have hc := (hs.sub List.perm_middle.symm.subset).clear hp
    have hfd := (clear_fd (hp.tied b List.mem_cons_self).signed fs).1
    exact (hc.empty hp.clear hfd (sizeOnDisk_clear b fs)).sub List.perm_middle.subset
  | destroy fs os cs l b r =>
    exact (hs.sub List.perm_middle.symm.subset).clear (hi.perm List.perm_middle)

theorem start_seats (h₀ : fs₀.WellFormed) : Seats fs₀ [] :=
  ⟨h₀.inodes, by simp, by simp, by simp, by simp⟩

theorem run_seats (hE : E.Reliable) (hc : Careful E) (h₀ : fs₀.WellFormed) {h : Heap}
    (hr : Relation.ReflTransGen (Step E) (start fs₀) h) :
    Inv fs₀ h.fs h.bodies ∧ Seats h.fs h.bodies := by
  suffices hs : Sound fs₀ h ∧ Seats h.fs h.bodies from ⟨hs.1.inv, hs.2⟩
  induction hr with
  | refl => exact ⟨⟨start_inv h₀, .refl _⟩, start_seats h₀⟩
  | tail _ hstep ih => exact ⟨ih.1.step hc hstep, ih.2.step hE ih.1.inv hstep⟩

end Heap

namespace Body

/-- `dup` of the descriptor of a body that is on disk. -/
theorem OnDisk.copy {E : Env} (hE : E.Healthy) {b : Body} {fs : Fs} {o : ℕ}
    (h : b.OnDisk fs o) : ∃ c fs', b.copy E fs = (c, fs') ∧ c.OnDisk fs' o ∧ b.OnDisk fs' o ∧
      c.data = b.data ∧ c.size = b.size ∧ fs'.opened = fs.opened ∧ fs'.files = fs.files := by
  obtain ⟨fd, ha, hpos, hnew⟩ := Heap.allocate_healthy hE fs
  obtain ⟨hl, hw⟩ := Fs.writer_eq.mp h.writer
  have hne : b.fd ≠ fd := fun he => hnew (he ▸ List.mem_map_of_mem (Heap.lookup_mem hl))
  refine ⟨{ b with fd := fd, unlink := false }, { fs with
    calls := fs.calls + 1, descs := (fd, o) :: fs.descs }, ?_,
    ⟨h.full, hpos, Fs.writer_eq.mpr ⟨List.lookup_cons_self, hw⟩⟩, ⟨h.full, h.fd, ?_⟩,
    rfl, rfl, rfl, rfl⟩
  · simp only [Body.copy, Fs.dup, hl, ha]
  · refine Fs.writer_eq.mpr ⟨?_, hw⟩
    dsimp only
    rw [List.lookup_cons, beq_false_of_ne hne, hl]

end Body

/-- Bodies, with what each of them should hold. -/
structure Copies where
  fs : Fs
  bodies : List (Body × Bytes)

namespace Copies

/-- A body of `h` and its copy. -/
def of (E : Env) (b : Body) (fs : Fs) : Copies :=
  ⟨(b.copy E fs).2, [(b, b.content fs), ((b.copy E fs).1, b.content fs)]⟩

/-- An operation on one of the bodies; `ok` says which of them may be added to. -/
inductive Turn (E : Env) (ok : Body → Fs → Bytes → Prop) : Copies → Copies → Prop
  | add (fs l b held r) (p : Bytes) (h : ok b fs p) : Turn E ok ⟨fs, l ++ (b, held) :: r⟩
      ⟨(b.add E fs p).2.2, l ++ ((b.add E fs p).2.1, held ++ p.take (b.add E fs p).1.toNat) :: r⟩
  | clear (fs l b held r) : Turn E ok ⟨fs, l ++ (b, held) :: r⟩
      ⟨(b.clear fs).2, l ++ ((b.clear fs).1, []) :: r⟩
  | destroy (fs l b held r) : Turn E ok ⟨fs, l ++ (b, held) :: r⟩ ⟨(b.clear fs).2, l ++ r⟩

/-- Each body holds what it should. -/
def Right (s : Copies) : Prop := ∀ x ∈ s.bodies, x.1.content s.fs = x.2

/-- What the turns keep up, next to the other bodies `rest`. -/
structure Kept (fs₀ : Fs) (rest : List Body) (s : Copies) : Prop where
  inv : Heap.Inv fs₀ s.fs (s.bodies.map Prod.fst ++ rest)
  seats : Heap.Seats s.fs (s.bodies.map Prod.fst ++ rest)
  right : s.Right

variable {E : Env} {fs₀ : Fs} {rest : List Body}

theorem middle (l r : List (Body × Bytes)) (x : Body × Bytes) (rest : List Body) :
    ((l ++ x :: r).map Prod.fst ++ rest).Perm (x.1 :: ((l ++ r).map Prod.fst ++ rest)) := by
  simp only [List.map_append, List.map_cons, List.append_assoc, List.cons_append]
  exact List.perm_middle

theorem right_middle {fs fs' : Fs} {l r : List (Body × Bytes)} {x y : Body × Bytes}
    (h : Right ⟨fs, l ++ x :: r⟩) (hy : y.1.content fs' = y.2)
    (hsame : ∀ c ∈ (l ++ r).map Prod.fst ++ rest, c.content fs' = c.content fs) :
    Right ⟨fs', l ++ y :: r⟩ := by
  intro z hz
  obtain rfl | hz := List.mem_cons.mp (List.perm_middle.mem_iff.mp hz)
  · exact hy
  · have hm := List.mem_map_of_mem (f := Prod.fst) hz
    exact (hsame z.1 (List.mem_append_left _ hm)).trans
      (h z (List.perm_middle.mem_iff.mpr (List.mem_cons_of_mem _ hz)))

theorem Kept.turn (hE : E.Reliable) (hc : Heap.Careful E) {s s' : Copies} (hk : Kept fs₀ rest s)
    (ht : Turn E (fun b fs p => p = [] ∨ b.AtEnd fs) s s') : Kept fs₀ rest s' := by
  obtain ⟨hi, hs, hright⟩ := hk
  cases ht with
  | add fs l b held r p hend =>
    have hp := hi.perm (middle l r (b, held) rest)
    have hs' := hs.sub (middle l r (b, held) rest).symm.subset
    have hadd := (hp.add hc p).1
    obtain ⟨n, b', fs', hr, hseats, hother, hself⟩ := hs'.add hE hp p
    rw [hr] at hadd ⊢
    refine ⟨hadd.perm (middle l r (b', held ++ p.take n.toNat) rest).symm,
      hseats.sub (middle l r (b', held ++ p.take n.toNat) rest).subset,
      right_middle hright ?_ hother⟩
    have hb : b.content fs = held := hright (b, held) (by simp)
    rw [hself hend, hb]
  | clear fs l b held r =>
    have hp := hi.perm (middle l r (b, held) rest)
    have hs' := (hs.sub (middle l r (b, held) rest).symm.subset).clear hp
    obtain ⟨hfd, hu⟩ := Heap.clear_fd (hp.tied b List.mem_cons_self).signed fs
    refine ⟨(hp.clear.cons hfd hu).perm (middle l r ((b.clear fs).1, []) rest).symm,
      (hs'.empty hp.clear hfd (Heap.sizeOnDisk_clear b fs)).sub
        (middle l r ((b.clear fs).1, []) rest).subset,
      right_middle hright ?_ fun c hcm => Body.content_same (hp.same_clear c hcm)⟩
    rw [Body.content, (b.clear_isEmpty fs).data, Heap.sizeOnDisk_clear, List.take_zero]
    rfl
  | destroy fs l b held r =>
    have hp := hi.perm (middle l r (b, held) rest)
    refine ⟨hp.clear, (hs.sub (middle l r (b, held) rest).symm.subset).clear hp, fun z hz => ?_⟩
    have hm := List.mem_append_left rest (List.mem_map_of_mem (f := Prod.fst) hz)
    exact (Body.content_same (hp.same_clear z.1 hm)).trans
      (hright z (List.perm_middle.mem_iff.mpr (List.mem_cons_of_mem _ hz)))

/-- A body and its copy are independent, as long as nothing is added to one of them that does not
come at its end: behind what the other one has added to the file they share, or in front of a file
that was given to `set_file`. -/
theorem copies_independent (hE : E.Reliable) (hc : Heap.Careful E) (h₀ : fs₀.WellFormed) {h : Heap}
    (hr : Relation.ReflTransGen (Heap.Step E) (.start fs₀) h) {b : Body} (hb : b ∈ h.bodies)
    {s : Copies} (ht : Relation.ReflTransGen (Turn E fun b fs p => p = [] ∨ b.AtEnd fs)
      (of E b h.fs) s) : s.Right := by
  obtain ⟨hi, hs⟩ := Heap.run_seats hE hc h₀ hr
  obtain ⟨l, r, hbs⟩ := List.append_of_mem hb
  rw [hbs] at hi hs
  have hp := hi.perm List.perm_middle
  have hs' := hs.sub List.perm_middle.symm.subset
  obtain ⟨hseats, hcont⟩ := hs'.copy hE.toHealthy hp
  have hsame := hp.same_dup hE.toHealthy b.fd b List.mem_cons_self
  have hswap := List.Perm.swap b (b.copy E h.fs).1 (l ++ r)
  suffices hk : Kept fs₀ (l ++ r) s from hk.right
  induction ht with
  | refl =>
    refine ⟨(hp.copy hc).perm hswap, hseats.sub hswap.symm.subset, ?_⟩
    rintro x (_ | ⟨_, _ | ⟨_, _ | _⟩⟩)
    · exact Body.content_same hsame
    · exact hcont
  | tail _ hstep ih => exact ih.turn hE hc hstep

/-- A body `b` with the byte 7 in its file, and its copy `c`. -/
structure Spilled (b c : Body) (fs : Fs) : Prop where
  original : b.OnDisk fs 0
  copy : c.OnDisk fs 0
  appends : fs.Appends b.fd 0 ∧ fs.Appends c.fd 0
  contents : fs.contents b.fd = [7] ∧ fs.contents c.fd = [7]
  size : b.sizeOnDisk = 1 ∧ c.sizeOnDisk = 1
  data : c.data = b.data

theorem spilled : ∃ h b c fs, Relation.ReflTransGen (Heap.Step Heap.careful) (.start .new) h ∧
    b ∈ h.bodies ∧ b.copy Heap.careful h.fs = (c, fs) ∧ b.content h.fs = b.data ++ [7] ∧
    Spilled b c fs := by
  have hE := Heap.careful_reliable
  obtain ⟨h₀, hd₀, hs₀⟩ := Heap.add_filled .new
  obtain ⟨b₁, fs₁, hc, hfd, hd₁, hs₁, hcr, -⟩ :=
    Body.createFile_healthy hE.toHealthy Heap.filled .new
  obtain ⟨ha, -, hcont, -⟩ := hcr (by decide)
  replace ha : fs₁.Appends b₁.fd 0 := ha
  have hon : b₁.OnDisk fs₁ 0 := ⟨by rw [hd₁, hd₀], hfd, ha.writer⟩
  have h₁ : Heap.filled.add Heap.careful .new [7] = (1, b₁.grow 1, fs₁.written 0 [7]) := by
    rw [← hon.add_one hE, Heap.filled_add, Body.add, if_pos hon.full, Body.bufferOnDisk,
      Body.bufferOnDisk, hc, Body.createFile, if_pos hfd]
  have hon₁ : (b₁.grow 1).OnDisk (fs₁.written 0 [7]) 0 := hon.step 1 [7]
  have ha₁ := ha.written [7]
  obtain ⟨c, fs₂, hcopy, hc₂, hb₂, hcd, hcs, ho₂, hf₂⟩ := hon₁.copy hE.toHealthy
  have hcont₁ : (fs₁.written 0 [7]).contents b₁.fd = [7] := by
    rw [ha.contents, hcont, List.nil_append]
  have hsame : ∀ fd, fs₂.writer fd = some 0 → fs₂.Appends fd 0 ∧ fs₂.contents fd = [7] := by
    intro fd hw
    refine ⟨⟨hw, by rw [ho₂, hf₂]; exact ha₁.offset⟩, ?_⟩
    rw [Fs.contents_of (Fs.writer_eq.mp hw).1, ho₂, hf₂,
      ← Fs.contents_of (Fs.writer_eq.mp ha₁.writer).1, hcont₁]
  have hsize : (b₁.grow 1).sizeOnDisk = 1 := by
    rw [Body.sizeOnDisk_grow, Body.sizeOnDisk, hs₁, hd₁, hs₀, hd₀, Nat.sub_self]
  have hrun := ((Relation.ReflTransGen.single (.construct .new [] [] [])).tail
    (.add _ _ _ [] _ [] (List.replicate 8192 7))).tail
    (Heap.Step.add (E := Heap.careful) _ _ _ [] _ [] [7])
  simp only [h₀, h₁] at hrun
  refine ⟨_, b₁.grow 1, c, fs₂, hrun, List.mem_cons_self, hcopy, ?_, hb₂, hc₂,
    ⟨(hsame _ hb₂.writer).1, (hsame _ hc₂.writer).1⟩,
    ⟨(hsame _ hb₂.writer).2, (hsame _ hc₂.writer).2⟩,
    ⟨hsize, by rw [Body.sizeOnDisk, hcs, hcd]; exact hsize⟩, hcd⟩
  rw [Body.content, Body.file, Body.grow_fd, if_pos hfd, hcont₁, hsize]
  rfl

/-- The original is at its end, and the copy is cleared. -/
theorem copies_independent_spilled : ∃ h b s,
    Relation.ReflTransGen (Heap.Step Heap.careful) (.start .new) h ∧ b ∈ h.bodies ∧
    b.sizeOnDisk = 1 ∧ Relation.ReflTransGen (Turn Heap.careful fun b fs p => p = [] ∨ b.AtEnd fs)
      (of Heap.careful b h.fs) s ∧
    s.bodies.map Prod.snd = [b.data ++ [7, 1], []] ∧ s.Right := by
  obtain ⟨h, b, c, fs, hrun, hb, hcopy, hcont, hs⟩ := spilled
  have hend : b.AtEnd (b.copy Heap.careful h.fs).2 := by
    rw [hcopy, Body.AtEnd, if_pos hs.original.full]
    intro o _
    rw [hs.size.1, Body.file, if_pos hs.original.fd, hs.contents.1]
    rfl
  have ht : Relation.ReflTransGen (Turn Heap.careful fun b fs p => p = [] ∨ b.AtEnd fs)
      (of Heap.careful b h.fs) _ :=
    (Relation.ReflTransGen.single (.add _ [] b _ [_] [1] (.inr hend))).tail (.clear _ [_] _ _ [])
  refine ⟨h, b, _, hrun, hb, hs.size.1, ht, ?_, copies_independent Heap.careful_reliable
    Heap.careful_spec Fs.new_wellFormed hrun hb ht⟩
  simp only [hcopy, hs.original.add_one Heap.careful_reliable, hcont]
  simp

/-- Both add to the file they share: the copy shows the byte of the original. -/
theorem copies_mingle : ∃ h b s, Relation.ReflTransGen (Heap.Step Heap.careful) (.start .new) h ∧
    b ∈ h.bodies ∧ Relation.ReflTransGen (Turn Heap.careful fun _ _ _ => True)
      (of Heap.careful b h.fs) s ∧ ¬ s.Right := by
  have hE := Heap.careful_reliable
  obtain ⟨h, b, c, fs, hrun, hb, hcopy, hcont, hs⟩ := spilled
  have hb₁ := hs.original.add_one hE 1
  have hc₁ : c.OnDisk (fs.written 0 [1]) 0 := hs.copy.step 0 [1]
  have hc₂ := hc₁.add_one hE 2
  refine ⟨h, b, _, hrun, hb, (Relation.ReflTransGen.single (.add _ [] _ _ _ [1] trivial)).tail
    (.add _ [_] _ _ _ [2] trivial), fun hr => ?_⟩
  have hlast := hr _ (List.mem_append_right _ List.mem_cons_self)
  simp only [hcopy, hb₁, hc₂] at hlast
  have hfile : (c.grow 1).file ((fs.written 0 [1]).written 0 [2]) = [7, 1, 2] := by
    rw [Body.file, Body.grow_fd, if_pos hs.copy.fd, (hs.appends.2.written [1]).contents,
      hs.appends.2.contents, hs.contents.2]
    rfl
  rw [Body.content, hfile, Body.sizeOnDisk_grow, hs.size.2, Body.grow_data, hs.data, hcont,
    List.append_assoc, List.append_cancel_left_eq] at hlast
  exact absurd hlast (by decide)

end Copies

end Stutter
