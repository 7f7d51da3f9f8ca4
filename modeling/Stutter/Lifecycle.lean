import Stutter.Storage
import Mathlib.Logic.Relation

namespace Stutter

namespace Fs

/-- What every run begins with. -/
structure WellFormed (fs : Fs) : Prop where
  names : (fs.names.map Prod.fst).Nodup
  inodes : ∀ e ∈ fs.names, e.2 < fs.nextInode
  descs : (fs.descs.map Prod.fst).Nodup
  opened : ∀ d ∈ fs.descs, d.2 < fs.nextOpened
  nonneg : ∀ d ∈ fs.descs, 0 ≤ d.1

theorem new_wellFormed : new.WellFormed :=
  ⟨.nil, by simp [new], .nil, by simp [new], by simp [new]⟩

theorem allocate_spec {E : Env} {fs : Fs} {fd : ℤ} (h : fs.allocate E = some fd) :
    E.descriptor fs.calls (fs.descs.map Prod.fst) = some fd ∧ fd ∉ fs.descs.map Prod.fst := by
  rw [allocate, Option.filter_eq_some_iff] at h
  exact ⟨h.1, (of_decide_eq_true h.2).2⟩

/-- A write goes to the file behind a writable descriptor, and to nothing else. -/
theorem write_frame (E : Env) (fs : Fs) (fd : ℤ) (p : Bytes) :
    let fs' := (fs.write E fd p).2
    fs'.names = fs.names ∧ fs'.descs = fs.descs ∧ fs'.nextOpened = fs.nextOpened ∧
      fs'.nextInode = fs.nextInode ∧
      (∀ o, (fs'.opened o).inode = (fs.opened o).inode ∧
        (fs'.opened o).writable = (fs.opened o).writable) ∧
      ∀ i, (∀ o, fs.writer fd = some o → i ≠ (fs.opened o).inode) → fs'.files i = fs.files i := by
  intro fs'
  cases hw : fs.writer fd with
  | none =>
    have : fs' = fs := congrArg Prod.snd (write_of_none hw p)
    rw [this]
    exact ⟨rfl, rfl, rfl, rfl, fun _ => ⟨rfl, rfl⟩, fun _ _ => rfl⟩
  | some o =>
    obtain ⟨hl, hwr⟩ := writer_eq.mp hw
    have hfs : fs' = (fs.write E fd p).2 := rfl
    simp only [write, hl, hwr, Bool.not_true, Bool.false_eq_true, if_false] at hfs
    cases hk : E.write (fs.opened o).inode (fs.opened o).offset fs.idle p.length with
    | none =>
      rw [hk] at hfs
      rw [hfs]
      exact ⟨rfl, rfl, rfl, rfl, fun _ => ⟨rfl, rfl⟩, fun _ _ => rfl⟩
    | some k =>
      rw [hk] at hfs
      rw [hfs]
      refine ⟨rfl, rfl, rfl, rfl, fun o' => ?_, fun i hi => ?_⟩
      · dsimp only
        obtain rfl | ho := eq_or_ne o' o
        · rw [Function.update_self]
          exact ⟨rfl, hwr.symm⟩
        · rw [Function.update_of_ne ho]
          exact ⟨rfl, rfl⟩
      · exact Function.update_of_ne (hi o rfl) ..

theorem lookup_filter_ne {α : Type} (l : List (ℤ × α)) (fd fd' : ℤ) {a : α}
    (h : (l.filter (·.1 ≠ fd)).lookup fd' = some a) : l.lookup fd' = some a := by
  have hne : fd' ≠ fd := by
    rintro rfl
    rw [List.lookup_eq_none_iff.mpr fun p hp =>
      bne_iff_ne.mpr (of_decide_eq_true (List.mem_filter.mp hp).2).symm] at h
    exact Option.some_ne_none _ h.symm
  induction l with
  | nil => exact h
  | cons e l ih =>
    obtain rfl | hk := eq_or_ne e.1 fd
    · rw [List.filter_cons_of_neg (by simp)] at h
      rw [List.lookup_cons, beq_false_of_ne hne]
      exact ih h
    · rw [List.filter_cons_of_pos (by simpa using hk), List.lookup_cons] at h
      rw [List.lookup_cons]
      split at h
      · exact h
      · exact ih h

theorem writer_close {fs : Fs} {fd fd' : ℤ} {o : ℕ} (h : (fs.close fd).writer fd' = some o) :
    fs.writer fd' = some o := by
  obtain ⟨hl, hw⟩ := writer_eq.mp h
  exact writer_eq.mpr ⟨lookup_filter_ne _ _ _ hl, hw⟩

end Fs

/-- The descriptor that a body closes when it is cleared. -/
def Body.owned (b : Body) : List ℤ := if b.fd > 0 then [b.fd] else []

/-- The live bodies, with the descriptors that were obtained for them and those closed so far. -/
structure Heap where
  fs : Fs
  bodies : List Body
  obtained : List ℤ
  closed : List ℤ

namespace Heap

def start (fs : Fs) : Heap := ⟨fs, [], [], []⟩

/-- One operation on one of the bodies. -/
inductive Step (E : Env) : Heap → Heap → Prop
  | construct (fs bs os cs) : Step E ⟨fs, bs, os, cs⟩ ⟨fs, .new :: bs, os, cs⟩
  | copy (fs os cs l b r) : Step E ⟨fs, l ++ b :: r, os, cs⟩
      ⟨(b.copy E fs).2, (b.copy E fs).1 :: (l ++ b :: r), (b.copy E fs).1.owned ++ os, cs⟩
  | add (fs os cs l b r) (p : Bytes) : Step E ⟨fs, l ++ b :: r, os, cs⟩
      -- `create_file` asks for a descriptor only if there is none
      ⟨(b.add E fs p).2.2, l ++ (b.add E fs p).2.1 :: r,
        (if b.fd > 0 then [] else (b.add E fs p).2.1.owned) ++ os, cs⟩
  | setFile (fs os cs l b r) (name : Bytes) (h : (b.setFile E fs name).1 = true) :
      Step E ⟨fs, l ++ b :: r, os, cs⟩
      ⟨(b.setFile E fs name).2.2, l ++ (b.setFile E fs name).2.1 :: r,
        (b.setFile E fs name).2.1.owned ++ os, b.owned ++ cs⟩
  | setFileFails (fs os cs l b r) (name : Bytes) (h : (b.setFile E fs name).1 = false) :
      Step E ⟨fs, l ++ b :: r, os, cs⟩
      ⟨(b.setFile E fs name).2.2, l ++ (b.setFile E fs name).2.1 :: r, os, cs⟩
  | clear (fs os cs l b r) : Step E ⟨fs, l ++ b :: r, os, cs⟩
      ⟨(b.clear fs).2, l ++ (b.clear fs).1 :: r, os, b.owned ++ cs⟩
  | destroy (fs os cs l b r) : Step E ⟨fs, l ++ b :: r, os, cs⟩
      ⟨(b.clear fs).2, l ++ r, os, b.owned ++ cs⟩

/-- The descriptors of the bodies. -/
def held (bs : List Body) : List ℤ := bs.flatMap Body.owned

/-- The names of the spill files that the bodies are to unlink. -/
def spills (bs : List Body) : List Bytes := (bs.filter (·.unlink)).map Body.filename

/-- What a body has to do with the files. Spill files are those made since `fs₀`. -/
structure Tied (fs₀ fs : Fs) (b : Body) : Prop where
  signed : 0 < b.fd ∨ b.fd = -1
  linked : b.unlink = true → 0 < b.fd
  writes : 0 < b.fd → ∀ o, fs.writer b.fd = some o → fs₀.nextInode ≤ (fs.opened o).inode

/-- What a run from `fs₀` keeps up. -/
structure Inv (fs₀ fs : Fs) (bs : List Body) : Prop where
  descs : (fs.descs.map Prod.fst).Perm (held bs ++ fs₀.descs.map Prod.fst)
  distinct : (fs.descs.map Prod.fst).Nodup
  opened : ∀ d ∈ fs.descs, d.2 < fs.nextOpened
  nonneg : ∀ d ∈ fs.descs, 0 ≤ d.1
  names : (fs.names.map Prod.fst).Nodup
  spilled : ((fs.names.filter (fs₀.nextInode ≤ ·.2)).map Prod.fst).Perm (spills bs)
  kept : fs.names.filter (·.2 < fs₀.nextInode) = fs₀.names
  files : ∀ i < fs₀.nextInode, fs.files i = fs₀.files i
  inodes : fs₀.nextInode ≤ fs.nextInode
  tied : ∀ b ∈ bs, Tied fs₀ fs b

theorem held_perm {bs bs' : List Body} (h : bs.Perm bs') : (held bs).Perm (held bs') :=
  h.flatMap_right _

theorem spills_perm {bs bs' : List Body} (h : bs.Perm bs') : (spills bs).Perm (spills bs') :=
  (h.filter _).map _

@[simp] theorem held_cons (b : Body) (bs : List Body) : held (b :: bs) = b.owned ++ held bs :=
  List.flatMap_cons ..

theorem spills_cons (b : Body) (bs : List Body) :
    spills (b :: bs) = if b.unlink then b.filename :: spills bs else spills bs := by
  rw [spills, List.filter_cons]
  split_ifs <;> rfl

theorem owned_of_pos {b : Body} (h : 0 < b.fd) : b.owned = [b.fd] := if_pos h

theorem owned_of_le {b : Body} (h : b.fd ≤ 0) : b.owned = [] := if_neg (not_lt.mpr h)

theorem Inv.perm {fs₀ fs : Fs} {bs bs' : List Body} (h : Inv fs₀ fs bs) (hp : bs.Perm bs') :
    Inv fs₀ fs bs' := { h with
  descs := h.descs.trans ((held_perm hp).append_right _)
  spilled := h.spilled.trans (spills_perm hp)
  tied := fun b hb => h.tied b (hp.mem_iff.mpr hb) }

theorem start_inv {fs : Fs} (h : fs.WellFormed) : Inv fs fs [] where
  descs := .refl _
  distinct := h.descs
  opened := h.opened
  nonneg := h.nonneg
  names := h.names
  spilled := by
    rw [List.filter_eq_nil_iff.mpr fun e he => by simpa using h.inodes e he]
    exact .refl _
  kept := List.filter_eq_self.mpr fun e he => by simpa using h.inodes e he
  files _ _ := rfl
  inodes := le_rfl
  tied := by simp

variable {E : Env} {fs₀ fs : Fs} {b : Body} {bs : List Body}

theorem Inv.open_of_mem (h : Inv fs₀ fs bs) (hb : b ∈ bs) (hfd : 0 < b.fd) :
    b.fd ∈ fs.descs.map Prod.fst := by
  refine h.descs.mem_iff.mpr (List.mem_append_left _ (List.mem_flatMap.mpr ⟨b, hb, ?_⟩))
  rw [owned_of_pos hfd]
  exact List.mem_singleton_self _

/-- Nothing but the files behind the bodies' own descriptors is written. -/
theorem Inv.write (h : Inv fs₀ fs bs) (hb : b ∈ bs) (hfd : 0 < b.fd) (p : Bytes) :
    Inv fs₀ (fs.write E b.fd p).2 bs := by
  obtain ⟨hn, hd, ho, hi, hf, hfile⟩ := fs.write_frame E b.fd p
  generalize (fs.write E b.fd p).2 = fs' at hn hd ho hi hf hfile
  have hw : ∀ fd o, fs'.writer fd = some o → fs.writer fd = some o := by
    intro fd o hw
    obtain ⟨hl, hwr⟩ := Fs.writer_eq.mp hw
    exact Fs.writer_eq.mpr ⟨by rw [← hd, hl], by rw [← (hf o).2, hwr]⟩
  exact {
    descs := by rw [hd]; exact h.descs
    distinct := by rw [hd]; exact h.distinct
    opened := by rw [hd, ho]; exact h.opened
    nonneg := by rw [hd]; exact h.nonneg
    names := by rw [hn]; exact h.names
    spilled := by rw [hn]; exact h.spilled
    kept := by rw [hn]; exact h.kept
    files := fun i hlt => by
      rw [hfile i fun o ho => (hlt.trans_le ((h.tied b hb).writes hfd o ho)).ne, h.files i hlt]
    inodes := by rw [hi]; exact h.inodes
    tied := fun c hc => { h.tied c hc with
      writes := fun hcf o ho => by
        rw [(hf o).1]
        exact (h.tied c hc).writes hcf o (hw c.fd o ho) } }

theorem Inv.tail (h : Inv fs₀ fs (b :: bs)) : ∀ c ∈ bs, Tied fs₀ fs c :=
  fun c hc => h.tied c (List.mem_cons_of_mem _ hc)

/-- A body that changes in memory only. -/
theorem Inv.replace {b' : Body} (h : Inv fs₀ fs (b :: bs)) (hfd : b'.fd = b.fd)
    (hu : b'.unlink = b.unlink) (hn : b'.filename = b.filename) : Inv fs₀ fs (b' :: bs) := { h with
  descs := by
    have hd := h.descs
    rwa [held_cons, Body.owned, ← hfd] at hd
  spilled := by
    have hs := h.spilled
    rwa [spills_cons, ← hu, ← hn, ← spills_cons] at hs
  tied := by
    obtain ⟨hs, hl, hw⟩ := h.tied b List.mem_cons_self
    rw [← hfd] at hs hl hw
    exact List.forall_mem_cons.mpr ⟨⟨hs, fun hu' => hl (hu ▸ hu'), hw⟩, h.tail⟩ }

/-- A body without a file. -/
theorem Inv.cons (h : Inv fs₀ fs bs) (hfd : b.fd = -1) (hu : b.unlink = false) :
    Inv fs₀ fs (b :: bs) := { h with
  descs := by
    rw [held_cons, owned_of_le (by omega)]
    exact h.descs
  spilled := by
    rw [spills_cons, if_neg (by simp [hu])]
    exact h.spilled
  tied := List.forall_mem_cons.mpr
    ⟨⟨.inr hfd, fun hu' => absurd (hu ▸ hu') (by simp), fun hpos => by omega⟩, h.tied⟩ }

theorem Inv.calls (h : Inv fs₀ fs bs) (n : ℕ) : Inv fs₀ { fs with calls := n } bs :=
  ⟨h.descs, h.distinct, h.opened, h.nonneg, h.names, h.spilled, h.kept, h.files, h.inodes,
    fun b hb => ⟨(h.tied b hb).signed, (h.tied b hb).linked, (h.tied b hb).writes⟩⟩

/-- `close` of the descriptor of a body that has nothing to unlink, or has had it unlinked. -/
theorem Inv.release (h : Inv fs₀ fs (b :: bs)) (hu : b.unlink = false) :
    Inv fs₀ (if b.fd > 0 then fs.close b.fd else fs) bs := by
  have hs := h.spilled
  rw [spills_cons, if_neg (by simp [hu])] at hs
  have hd := h.descs
  rw [held_cons] at hd
  split_ifs with hfd
  · have hkeys : (fs.close b.fd).descs.map Prod.fst =
        (fs.descs.map Prod.fst).filter (· ≠ b.fd) := by
      rw [Fs.close, List.filter_map]
      rfl
    rw [owned_of_pos hfd, List.singleton_append, List.cons_append] at hd
    have hnot := (List.nodup_cons.mp (hd.nodup_iff.mp h.distinct)).1
    exact {
      descs := by
        rw [hkeys]
        refine (hd.filter _).trans ?_
        rw [List.filter_cons_of_neg (by simp), List.filter_eq_self.mpr fun fd hm => by
          simpa using fun he : fd = b.fd => hnot (he ▸ hm)]
      distinct := by
        rw [hkeys]
        exact h.distinct.filter _
      opened := fun d hm => h.opened d (List.mem_filter.mp hm).1
      nonneg := fun d hm => h.nonneg d (List.mem_filter.mp hm).1
      names := h.names
      spilled := hs
      kept := h.kept
      files := h.files
      inodes := h.inodes
      tied := fun c hc => { h.tail c hc with
        writes := fun hcf o hw => (h.tail c hc).writes hcf o (Fs.writer_close hw) } }
  · rw [owned_of_le (not_lt.mp hfd), List.nil_append] at hd
    exact { h with descs := hd, spilled := hs, tied := h.tail }

/-- `unlink` of the spill file of a body. -/
theorem Inv.unlink (h : Inv fs₀ fs (b :: bs)) (hu : b.unlink = true) :
    Inv fs₀ (fs.unlink b.filename) ({ b with unlink := false } :: bs) := by
  have hp := h.spilled
  rw [spills_cons, if_pos hu] at hp
  have hnot := (List.nodup_cons.mp (hp.nodup_iff.mp
    (h.names.sublist (List.filter_sublist.map _)))).1
  -- the name belongs to the spill file alone
  have hown : ∀ e ∈ fs.names, e.1 = b.filename → fs₀.nextInode ≤ e.2 := by
    intro e he hn
    obtain ⟨e', he', hn'⟩ := List.mem_map.mp (hp.mem_iff.mpr List.mem_cons_self)
    obtain ⟨hm', hle⟩ := List.mem_filter.mp he'
    obtain rfl := List.inj_on_of_nodup_map h.names he hm' (hn.trans hn'.symm)
    exact of_decide_eq_true hle
  have hrest : ((fs.unlink b.filename).names.filter (fs₀.nextInode ≤ ·.2)).map Prod.fst =
      ((fs.names.filter (fs₀.nextInode ≤ ·.2)).map Prod.fst).filter (· ≠ b.filename) := by
    rw [Fs.unlink, List.filter_filter, List.filter_map, List.filter_filter]
    simp only [Bool.and_comm, Function.comp_def]
  exact {
    descs := h.descs
    distinct := h.distinct
    opened := h.opened
    nonneg := h.nonneg
    names := h.names.sublist (List.filter_sublist.map _)
    spilled := by
      rw [hrest, spills_cons, if_neg (by simp)]
      refine (hp.filter _).trans ?_
      rw [List.filter_cons_of_neg (by simp), List.filter_eq_self.mpr fun n hm => by
        simpa using fun he : n = b.filename => hnot (he ▸ hm)]
    kept := by
      rw [Fs.unlink, List.filter_filter, ← h.kept]
      refine List.filter_congr fun e he => ?_
      by_cases hn : e.1 = b.filename
      · simp [hn, hown e he hn]
      · simp [hn]
    files := h.files
    inodes := h.inodes
    tied := by
      obtain ⟨hs, -, hw⟩ := h.tied b List.mem_cons_self
      refine List.forall_mem_cons.mpr ⟨⟨hs, by simp, hw⟩, fun c hc => ?_⟩
      exact ⟨(h.tail c hc).signed, (h.tail c hc).linked, (h.tail c hc).writes⟩ }

theorem clear_eq (b : Body) (fs : Fs) : (b.clear fs).2 =
    let fs' := if b.unlink then fs.unlink b.filename else fs
    if b.fd > 0 then fs'.close b.fd else fs' := by
  by_cases hfd : b.fd > 0 <;> by_cases hu : b.unlink <;>
    simp only [Body.clear, hfd, hu, if_true, if_false] <;> rfl

theorem Inv.clear (h : Inv fs₀ fs (b :: bs)) : Inv fs₀ (b.clear fs).2 bs := by
  rw [clear_eq]
  by_cases hu : b.unlink
  · rw [if_pos hu]
    exact (h.unlink hu).release rfl
  · rw [if_neg hu]
    exact h.release (Bool.eq_false_iff.mpr hu)

theorem lookup_mem {κ α : Type} [BEq κ] [LawfulBEq κ] {l : List (κ × α)} {k : κ} {a : α}
    (h : l.lookup k = some a) : (k, a) ∈ l := by
  obtain ⟨l₁, l₂, rfl, -⟩ := List.lookup_eq_some_iff.mp h
  simp

/-- A new descriptor, of a new description or of one that is there, behind a new body. -/
theorem Inv.attach (h : Inv fs₀ fs bs) {fd : ℤ} (hfd : 0 < fd)
    (hnew : fd ∉ fs.descs.map Prod.fst) {o n : ℕ} {opened : ℕ → OpenFile} (hn : fs.nextOpened ≤ n)
    (ho : o < n) (hold : ∀ d ∈ fs.descs, opened d.2 = fs.opened d.2)
    (hw : (opened o).writable = true → fs₀.nextInode ≤ (opened o).inode)
    (hb : b.fd = fd) (hu : b.unlink = false) : Inv fs₀
      { fs with opened := opened, descs := (fd, o) :: fs.descs, nextOpened := n } (b :: bs) where
  descs := by
    rw [held_cons, owned_of_pos (hb ▸ hfd), hb]
    exact h.descs.cons fd
  distinct := List.nodup_cons.mpr ⟨hnew, h.distinct⟩
  opened := List.forall_mem_cons.mpr ⟨ho, fun d hd => (h.opened d hd).trans_le hn⟩
  nonneg := List.forall_mem_cons.mpr ⟨hfd.le, h.nonneg⟩
  names := h.names
  spilled := by
    rw [spills_cons, if_neg (by simp [hu])]
    exact h.spilled
  kept := h.kept
  files := h.files
  inodes := h.inodes
  tied := by
    refine List.forall_mem_cons.mpr ⟨⟨.inl (hb ▸ hfd), fun hu' => absurd (hu ▸ hu') (by simp),
      fun _ o' hwo => ?_⟩, fun c hc => { h.tied c hc with writes := fun hcf o' hwo => ?_ }⟩
    · obtain ⟨hl, hwr⟩ := Fs.writer_eq.mp hwo
      dsimp only at hl hwr ⊢
      rw [hb, List.lookup_cons_self] at hl
      obtain rfl := Option.some.inj hl
      exact hw hwr
    · obtain ⟨hl, hwr⟩ := Fs.writer_eq.mp hwo
      have hne : c.fd ≠ fd := fun he => hnew (he ▸ h.open_of_mem hc hcf)
      dsimp only at hl hwr ⊢
      rw [List.lookup_cons, beq_false_of_ne hne] at hl
      have hm := hold _ (lookup_mem hl)
      dsimp only at hm
      rw [hm] at hwr ⊢
      exact (h.tied c hc).writes hcf o' (Fs.writer_eq.mpr ⟨hl, hwr⟩)

theorem Inv.install (h : Inv fs₀ fs bs) {fd : ℤ} (hfd : 0 < fd) (hnew : fd ∉ fs.descs.map Prod.fst)
    {i : ℕ} {w : Bool} (hw : w = true → fs₀.nextInode ≤ i) (hb : b.fd = fd)
    (hu : b.unlink = false) : Inv fs₀ (fs.install fd i w) (b :: bs) :=
  h.attach hfd hnew (Nat.le_succ _) (Nat.lt_succ_self _)
    (fun d hd => Function.update_of_ne (h.opened d hd).ne ..) (by simpa using hw) hb hu

/-- The name and the file that `mkstemp` makes. -/
theorem Inv.link {name : Bytes} (h : Inv fs₀ fs ({ b with unlink := false } :: bs)) (hfd : 0 < b.fd)
    (hnew : name ∉ fs.names.map Prod.fst) (hu : b.unlink = true) (hn : b.filename = name) :
    Inv fs₀ { fs with
      files := Function.update fs.files fs.nextInode []
      names := (name, fs.nextInode) :: fs.names
      nextInode := fs.nextInode + 1 } (b :: bs) where
  descs := h.descs
  distinct := h.distinct
  opened := h.opened
  nonneg := h.nonneg
  names := List.nodup_cons.mpr ⟨hnew, h.names⟩
  spilled := by
    have hs := h.spilled
    rw [spills_cons, if_neg (by simp)] at hs
    rw [List.filter_cons_of_pos (by simpa using h.inodes), spills_cons, if_pos hu, List.map_cons,
      hn]
    exact hs.cons name
  kept := by
    rw [List.filter_cons_of_neg (by simpa using h.inodes)]
    exact h.kept
  files i hi := by
    dsimp only
    rw [Function.update_of_ne (hi.trans_le h.inodes).ne]
    exact h.files i hi
  inodes := h.inodes.trans (Nat.le_succ _)
  tied := List.forall_mem_cons.mpr ⟨⟨.inl hfd, fun _ => hfd, (h.tied _ List.mem_cons_self).writes⟩,
    fun c hc => ⟨(h.tail c hc).signed, (h.tail c hc).linked, (h.tail c hc).writes⟩⟩

/-- Descriptors are positive, and a file that `mkstemp` makes has a name of its own. -/
structure Careful (E : Env) : Prop where
  descriptor : ∀ n ds fd, E.descriptor n ds = some fd → 0 < fd
  tmpName : ∀ n names, E.tmpName n names ∉ names

theorem lookup_of_signed (h : Inv fs₀ fs bs) (hs : 0 < b.fd ∨ b.fd = -1) {o : ℕ}
    (hl : fs.descs.lookup b.fd = some o) : 0 < b.fd := by
  obtain hs | hs := hs
  · exact hs
  · have hn := h.nonneg _ (lookup_mem hl)
    dsimp only at hn
    omega

theorem Inv.copy (hE : Careful E) (h : Inv fs₀ fs (b :: bs)) :
    Inv fs₀ (b.copy E fs).2 ((b.copy E fs).1 :: b :: bs) := by
  rw [Body.copy, Fs.dup]
  cases hl : fs.descs.lookup b.fd with
  | none => exact h.cons rfl rfl
  | some o =>
    dsimp only
    cases ha : fs.allocate E with
    | none => exact (h.calls _).cons rfl rfl
    | some fd =>
      obtain ⟨hd, hnew⟩ := Fs.allocate_spec ha
      have ht := h.tied b List.mem_cons_self
      exact (h.calls (fs.calls + 1)).attach (b := { b with fd := fd, unlink := false })
        (hE.descriptor _ _ _ hd) hnew le_rfl (h.opened _ (lookup_mem hl)) (fun _ _ => rfl)
        (fun hw => ht.writes (lookup_of_signed h ht.signed hl) o
          (Fs.writer_eq.mpr ⟨hl, hw⟩)) rfl rfl

theorem Inv.createFile (hE : Careful E) (h : Inv fs₀ fs (b :: bs)) :
    let r := b.createFile E fs
    Inv fs₀ r.2.2 (r.2.1 :: bs) ∧ (r.1 = true → 0 < r.2.1.fd) ∧ (0 < b.fd → r.2.1.fd = b.fd) := by
  intro r
  have hr : r = b.createFile E fs := rfl
  rw [Body.createFile] at hr
  split_ifs at hr with hfd
  · rw [hr]
    exact ⟨h, fun _ => hfd, fun _ => rfl⟩
  have ht := h.tied b List.mem_cons_self
  have hu : b.unlink = false := Bool.eq_false_iff.mpr fun hu => hfd (ht.linked hu)
  have hrest := h.release hu
  rw [if_neg hfd] at hrest
  rw [Fs.mkstemp] at hr
  cases ha : fs.allocate E with
  | none =>
    rw [ha] at hr
    dsimp only at hr
    rw [if_neg (by decide)] at hr
    rw [hr]
    exact ⟨(hrest.calls _).cons rfl hu, fun hf => absurd hf (by simp), fun hp => absurd hp hfd⟩
  | some fd =>
    obtain ⟨hd, hnew⟩ := Fs.allocate_spec ha
    have hpos := hE.descriptor _ _ _ hd
    rw [ha] at hr
    dsimp only at hr
    rw [if_pos hpos] at hr
    have hname := hE.tmpName fs.calls (fs.names.map Prod.fst)
    generalize E.tmpName fs.calls (fs.names.map Prod.fst) = name at hr hname
    have hi := (hrest.calls (fs.calls + 1)).install (w := true)
      (b := { b with fd := fd, filename := name, unlink := false }) hpos hnew (fun _ => h.inodes)
      rfl rfl
    rw [hr]
    exact ⟨Inv.link (b := { b with fd := fd, filename := name, unlink := true }) hi hpos hname rfl
      rfl, fun _ => hpos, fun hp => absurd hp hfd⟩

theorem Inv.add (hE : Careful E) (h : Inv fs₀ fs (b :: bs)) (p : Bytes) :
    let r := b.add E fs p
    Inv fs₀ r.2.2 (r.2.1 :: bs) ∧ (0 < b.fd → r.2.1.fd = b.fd) := by
  rw [Body.add]
  split_ifs with hb
  · obtain ⟨hi, hpos, hfd⟩ := h.createFile hE
    rw [Body.bufferOnDisk]
    generalize b.createFile E fs = r at hi hpos hfd ⊢
    obtain ⟨_ | _, b', fs'⟩ := r
    · exact ⟨hi, hfd⟩
    · have hw := hi.write (E := E) List.mem_cons_self (hpos rfl) p
      dsimp only
      generalize fs'.write E b'.fd p = w at hw ⊢
      split_ifs
      · exact ⟨hw.replace rfl rfl rfl, hfd⟩
      · exact ⟨hw, hfd⟩
  · exact ⟨h.replace rfl rfl rfl, fun _ => rfl⟩

theorem clear_fd (hs : 0 < b.fd ∨ b.fd = -1) (fs : Fs) :
    (b.clear fs).1.fd = -1 ∧ (b.clear fs).1.unlink = false := by
  by_cases hfd : b.fd > 0
  · simp only [Body.clear, hfd, if_true]
    exact ⟨trivial, trivial⟩
  · simp only [Body.clear, hfd, if_false]
    exact ⟨hs.resolve_left hfd, trivial⟩

theorem Inv.setFile (hE : Careful E) (h : Inv fs₀ fs (b :: bs)) (name : Bytes) :
    let r := b.setFile E fs name
    Inv fs₀ r.2.2 (r.2.1 :: bs) ∧ (r.1 = false → r.2.1 = b) := by
  have hfail : Inv fs₀ { fs with calls := fs.calls + 1 } (b :: bs) := h.calls _
  have hneg : ((-1 : ℤ) < 0) = True := by simp
  rw [Body.setFile, Fs.openRead]
  cases hl : fs.names.lookup name with
  | none =>
    simp only [hneg, if_true]
    exact ⟨hfail, fun _ => trivial⟩
  | some i =>
    cases ha : fs.allocate E with
    | none =>
      simp only [hneg, if_true]
      exact ⟨hfail, fun _ => trivial⟩
    | some fd =>
      obtain ⟨hd, hnew⟩ := Fs.allocate_spec ha
      have hpos := hE.descriptor _ _ _ hd
      dsimp only
      rw [if_neg hpos.le.not_gt]
      refine ⟨?_, fun hf => absurd hf (by simp)⟩
      let c : Body := { Body.new with fd := fd }
      have hopen : Inv fs₀ (Fs.install { fs with calls := fs.calls + 1 } fd i false)
        (c :: b :: bs) :=
        hfail.install hpos hnew (by simp) rfl rfl
      have hclear := (hopen.perm (List.Perm.swap b c bs)).clear
      have hu := (clear_fd (h.tied b List.mem_cons_self).signed
        (Fs.install { fs with calls := fs.calls + 1 } fd i false)).2
      have hc := hclear.tied c List.mem_cons_self
      exact {
        hclear with
        spilled := by
          have hs := hclear.spilled
          rw [spills_cons, if_neg (by simp [c, Body.new])] at hs
          rw [spills_cons, if_neg (by simp [hu])]
          exact hs
        tied := List.forall_mem_cons.mpr ⟨⟨hc.signed, fun _ => hpos, hc.writes⟩, hclear.tail⟩ }

/-- The files are as they should be, and what was obtained is either closed or still held. -/
structure Sound (fs₀ : Fs) (h : Heap) : Prop where
  inv : Inv fs₀ h.fs h.bodies
  balance : h.obtained.Perm (h.closed ++ held h.bodies)

theorem held_middle (l : List Body) (b : Body) (r : List Body) :
    (held (l ++ b :: r)).Perm (b.owned ++ held (l ++ r)) := by
  rw [← held_cons]
  exact held_perm List.perm_middle

/-- The books are kept when the body in the middle hands over what it owns. -/
theorem balance_middle {l r : List Body} {b b' : Body} {os cs n c : List ℤ}
    (h : os.Perm (cs ++ held (l ++ b :: r))) (ho : (n ++ b.owned).Perm (c ++ b'.owned)) :
    (n ++ os).Perm ((c ++ cs) ++ held (l ++ b' :: r)) := by
  have h₁ := h.trans ((held_middle l b r).append_left cs)
  have h₂ := (held_middle l b' r).append_left (c ++ cs)
  refine ((h₁.append_left n).trans ?_).trans h₂.symm
  rw [List.perm_iff_count] at ho ⊢
  intro fd
  have hc := ho fd
  simp only [List.count_append] at hc ⊢
  omega

theorem balance_drop {l r : List Body} {b : Body} {os cs : List ℤ}
    (h : os.Perm (cs ++ held (l ++ b :: r))) : os.Perm ((b.owned ++ cs) ++ held (l ++ r)) := by
  refine (h.trans ((held_middle l b r).append_left cs)).trans ?_
  rw [← List.append_assoc]
  exact (List.perm_append_comm).append_right _

theorem Sound.step (hE : Careful E) {h h' : Heap} (hs : Sound fs₀ h) (hr : Step E h h') :
    Sound fs₀ h' := by
  obtain ⟨hi, hb⟩ := hs
  cases hr with
  | construct fs bs os cs => exact ⟨hi.cons rfl rfl, hb⟩
  | copy fs os cs l b r =>
    have hc := (hi.perm List.perm_middle).copy hE
    refine ⟨hc.perm (List.perm_middle.symm.cons _), ?_⟩
    dsimp only at hb ⊢
    rw [held_cons]
    refine (hb.append_left _).trans ?_
    rw [← List.append_assoc, ← List.append_assoc]
    exact (List.perm_append_comm).append_right _
  | add fs os cs l b r p =>
    obtain ⟨hc, hfd⟩ := (hi.perm List.perm_middle).add hE p
    refine ⟨hc.perm List.perm_middle.symm, balance_middle (c := []) hb ?_⟩
    rw [List.nil_append]
    split_ifs with hpos
    · rw [Body.owned, Body.owned, hfd hpos, List.nil_append]
    · rw [owned_of_le (not_lt.mp hpos), List.append_nil]
  | setFile fs os cs l b r name hok =>
    obtain ⟨hc, -⟩ := (hi.perm List.perm_middle).setFile hE name
    exact ⟨hc.perm List.perm_middle.symm, balance_middle hb List.perm_append_comm⟩
  | setFileFails fs os cs l b r name hf =>
    obtain ⟨hc, hsame⟩ := (hi.perm List.perm_middle).setFile hE name
    refine ⟨hc.perm List.perm_middle.symm, ?_⟩
    dsimp only
    rw [hsame hf]
    exact hb
  | clear fs os cs l b r =>
    have hp := hi.perm List.perm_middle
    obtain ⟨hfd, hu⟩ := clear_fd (hp.tied b List.mem_cons_self).signed fs
    refine ⟨(hp.clear.cons hfd hu).perm List.perm_middle.symm, balance_middle (n := []) hb ?_⟩
    rw [owned_of_le (b := (b.clear fs).1) (by omega), List.nil_append, List.append_nil]
  | destroy fs os cs l b r =>
    exact ⟨(hi.perm List.perm_middle).clear, balance_drop hb⟩

/-- What the bodies owe to the files in each state of a run from `fs₀`. -/
structure Accounted (fs₀ : Fs) (h : Heap) : Prop where
  /-- A linked spill file has one owner. -/
  owner : ∀ e ∈ h.fs.names, fs₀.nextInode ≤ e.2 →
    h.bodies.countP (fun b => b.unlink ∧ b.filename = e.1) = 1
  /-- What a body is to unlink is a linked spill file. -/
  linked : ∀ b ∈ h.bodies, b.unlink = true →
    ∃ e ∈ h.fs.names, e.1 = b.filename ∧ fs₀.nextInode ≤ e.2
  distinct : (held h.bodies).Nodup
  opened : ∀ fd ∈ held h.bodies, fd ∈ h.fs.descs.map Prod.fst ∧ fd ∉ fs₀.descs.map Prod.fst
  closed : ∀ fd, h.obtained.count fd = h.closed.count fd + (held h.bodies).count fd
  untouched : ∀ i < fs₀.nextInode, h.fs.files i = fs₀.files i ∧
    ∀ name, (name, i) ∈ h.fs.names ↔ (name, i) ∈ fs₀.names
  gone : h.bodies = [] → h.fs.names = fs₀.names ∧
    (h.fs.descs.map Prod.fst).Perm (fs₀.descs.map Prod.fst)
  sized : ∀ b ∈ h.bodies, b.data.length ≤ b.size

theorem spills_count (bs : List Body) (name : Bytes) :
    (spills bs).count name = bs.countP fun b => b.unlink ∧ b.filename = name := by
  induction bs with
  | nil => rfl
  | cons b bs ih =>
    rw [spills_cons, List.countP_cons, ← ih]
    by_cases hu : b.unlink = true
    · rw [if_pos hu, List.count_cons]
      simp only [hu, true_and, beq_iff_eq, decide_eq_true_eq]
    · rw [if_neg hu, if_neg (by simp [hu]), Nat.add_zero]

theorem Sound.accounted {h : Heap} (hs : Sound fs₀ h) : Accounted fs₀ h where
  owner e he hle := by
    have hm : e.1 ∈ (h.fs.names.filter (fs₀.nextInode ≤ ·.2)).map Prod.fst :=
      List.mem_map_of_mem (List.mem_filter.mpr ⟨he, decide_eq_true hle⟩)
    rw [← spills_count, ← hs.inv.spilled.count_eq]
    exact List.count_eq_one_of_mem (hs.inv.names.sublist (List.filter_sublist.map _)) hm
  linked b hb hu := by
    have hm : b.filename ∈ spills h.bodies :=
      List.mem_map_of_mem (List.mem_filter.mpr ⟨hb, hu⟩)
    obtain ⟨e, he, hn⟩ := List.mem_map.mp (hs.inv.spilled.mem_iff.mpr hm)
    obtain ⟨hm, hle⟩ := List.mem_filter.mp he
    exact ⟨e, hm, hn, of_decide_eq_true hle⟩
  distinct := (List.nodup_append.mp (hs.inv.descs.nodup_iff.mp hs.inv.distinct)).1
  opened fd hfd := by
    have hd := List.nodup_append.mp (hs.inv.descs.nodup_iff.mp hs.inv.distinct)
    exact ⟨hs.inv.descs.mem_iff.mpr (List.mem_append_left _ hfd),
      fun hm => hd.2.2 fd hfd fd hm rfl⟩
  closed fd := by
    rw [hs.balance.count_eq, List.count_append]
  untouched i hi := by
    refine ⟨hs.inv.files i hi, fun name => ?_⟩
    rw [← hs.inv.kept, List.mem_filter]
    simp [hi]
  gone hb := by
    have hsp := hs.inv.spilled
    have hd := hs.inv.descs
    rw [hb] at hsp hd
    refine ⟨?_, hd⟩
    have hnone := List.map_eq_nil_iff.mp hsp.eq_nil
    rw [← hs.inv.kept, eq_comm, List.filter_eq_self]
    intro e he
    have := List.filter_eq_nil_iff.mp hnone e he
    simpa using this
  sized b _ := b.sized

/-- In every state of every run each spill file has one owner, each descriptor is closed once, no
other file is written to or unlinked, and nothing is left behind. -/
theorem run_accounted (hE : Careful E) (h₀ : fs₀.WellFormed) {h : Heap}
    (hr : Relation.ReflTransGen (Step E) (start fs₀) h) : Accounted fs₀ h := by
  suffices hs : Sound fs₀ h from hs.accounted
  induction hr with
  | refl => exact ⟨start_inv h₀, .refl _⟩
  | tail _ hstep ih => exact ih.step hE hstep

/-- `Env.linux` with names of their own for the files of `mkstemp`. -/
def careful : Env := { Env.linux with
  tmpName := fun _ names => List.replicate ((names.map List.length).foldr max 0 + 1) 0 }

theorem length_le_max {name : Bytes} {names : List Bytes} (h : name ∈ names) :
    name.length ≤ (names.map List.length).foldr max 0 := by
  induction names with
  | nil => exact absurd h List.not_mem_nil
  | cons n names ih =>
    obtain rfl | h := List.mem_cons.mp h
    · exact le_max_left _ _
    · exact (ih h).trans (le_max_right _ _)

theorem careful_spec : Careful careful where
  descriptor n ds fd h := by
    obtain ⟨hpos, -⟩ := le_foldr_max ds
    obtain rfl := Option.some.inj h
    omega
  tmpName n names h := by
    have hle := length_le_max h
    simp only [careful, List.length_replicate] at hle
    omega

theorem careful_reliable : careful.Reliable :=
  ⟨⟨Env.linux_reliable.descriptor, Env.linux_reliable.write⟩, Env.linux_reliable.write_le⟩

/-- A body whose memory part is full. -/
def filled : Body := Body.new.keep (List.replicate 8192 7)

theorem add_filled (fs : Fs) : Body.new.add careful fs (List.replicate 8192 7) =
      (8192, filled, fs) ∧
    filled.data.length = MAX_BUFFER_SIZE ∧ filled.size = MAX_BUFFER_SIZE := by
  obtain ⟨h, hd, hs⟩ := Body.add_full careful fs (z := List.replicate 8192 7) List.length_replicate
  refine ⟨?_, ?_, ?_⟩
  · rw [h, List.length_replicate]
    rfl
  · rw [filled, hd]
    exact List.length_replicate
  · rw [filled, hs]
    exact List.length_replicate

theorem filled_add (p : Bytes) (fs : Fs) :
    filled.add careful fs p = filled.bufferOnDisk careful fs p := by
  rw [Body.add, if_pos (add_filled fs).2.1]

/-- A body that spills is copied, cleared and destroyed, and then its copy is. -/
theorem run_accounted_spill : ∃ h, Relation.ReflTransGen (Step careful) (start .new) h ∧
    h.bodies = [] ∧ h.obtained = [2, 1] ∧ h.closed = [2, 1] ∧ Accounted .new h := by
  have hrun : Relation.ReflTransGen (Step careful) (start .new) _ :=
    ((((((Relation.ReflTransGen.single (.construct .new [] [] [])).tail
      (.add _ _ _ [] _ [] (List.replicate 8192 7))).tail
      (.add _ _ _ [] _ [] [1, 2, 3])).tail
      (.copy _ _ _ [] _ [])).tail
      (.clear _ _ _ [_] _ [])).tail
      (.destroy _ _ _ [_] _ [])).tail
      (.destroy _ _ _ [] _ [])
  refine ⟨_, hrun, rfl, ?_, ?_, run_accounted careful_spec Fs.new_wellFormed hrun⟩
  · simp only [(add_filled _).1, filled_add]
    decide +kernel
  · simp only [(add_filled _).1, filled_add]
    decide +kernel

end Heap

end Stutter
