import Stutter.Bytes

namespace Stutter

/-- An open file description, which `dup(2)` shares. -/
structure OpenFile where
  inode : ℕ
  offset : ℕ
  writable : Bool

/-- The files and the descriptors of the process. `calls` counts the calls that ask for a new
descriptor, `idle` the writes that moved nothing. -/
structure Fs where
  files : ℕ → Bytes
  names : List (Bytes × ℕ)
  opened : ℕ → OpenFile
  descs : List (ℤ × ℕ)
  nextInode : ℕ
  nextOpened : ℕ
  calls : ℕ
  idle : ℕ

/-- How the calls that can fail come out. A `write(2)` is told apart by the file, the offset, the
number of idle writes before it and the count asked for, which no two writes of a run share. -/
structure Env where
  descriptor : ℕ → List ℤ → Option ℤ
  tmpName : ℕ → List Bytes → Bytes
  write : ℕ → ℕ → ℕ → ℕ → Option ℕ
  fstat : ℕ → ℤ → Bool

namespace Fs

def new : Fs := ⟨fun _ => [], [], fun _ => ⟨0, 0, false⟩, [], 0, 0, 0, 0⟩

/-- A new descriptor: not negative and not open already. -/
def allocate (E : Env) (fs : Fs) : Option ℤ :=
  (E.descriptor fs.calls (fs.descs.map Prod.fst)).filter fun fd =>
    0 ≤ fd ∧ fd ∉ fs.descs.map Prod.fst

def opening (fs : Fs) (fd : ℤ) : Option OpenFile := (fs.descs.lookup fd).map fs.opened

/-- The bytes of the file behind a descriptor. -/
def contents (fs : Fs) (fd : ℤ) : Bytes := ((fs.opening fd).map fun f => fs.files f.inode).getD []

/-- A new description of the file `inode` behind the descriptor `fd`. -/
def install (fs : Fs) (fd : ℤ) (inode : ℕ) (writable : Bool) : Fs := { fs with
  opened := Function.update fs.opened fs.nextOpened ⟨inode, 0, writable⟩
  descs := (fd, fs.nextOpened) :: fs.descs
  nextOpened := fs.nextOpened + 1 }

/-- `mkstemp(3)`: the name, the descriptor or -1. -/
def mkstemp (E : Env) (fs : Fs) : Bytes × ℤ × Fs :=
  let name := E.tmpName fs.calls (fs.names.map Prod.fst)
  let fs' := { fs with calls := fs.calls + 1 }
  match fs.allocate E with
  | none => (name, -1, fs')
  | some fd =>
    let made := { fs' with
      files := Function.update fs.files fs.nextInode []
      names := (name, fs.nextInode) :: fs.names
      nextInode := fs.nextInode + 1 }
    (name, fd, made.install fd fs.nextInode true)

/-- `open(2)` with `O_RDONLY`. -/
def openRead (E : Env) (fs : Fs) (name : Bytes) : ℤ × Fs :=
  let fs' := { fs with calls := fs.calls + 1 }
  match fs.names.lookup name, fs.allocate E with
  | some inode, some fd => (fd, fs'.install fd inode false)
  | _, _ => (-1, fs')

/-- `dup(2)`: another descriptor of the same description. -/
def dup (E : Env) (fs : Fs) (fd : ℤ) : ℤ × Fs :=
  match fs.descs.lookup fd with
  | none => (-1, fs)
  | some o =>
    let fs' := { fs with calls := fs.calls + 1 }
    match fs.allocate E with
    | none => (-1, fs')
    | some fd' => (fd', { fs' with descs := (fd', o) :: fs.descs })

def close (fs : Fs) (fd : ℤ) : Fs := { fs with descs := fs.descs.filter (·.1 ≠ fd) }

def unlink (fs : Fs) (name : Bytes) : Fs := { fs with names := fs.names.filter (·.1 ≠ name) }

/-- `st_size`, if `fstat(2)` succeeds. -/
def fstat (E : Env) (fs : Fs) (fd : ℤ) : Option ℕ :=
  if (fs.opening fd).isSome ∧ E.fstat fs.calls fd then some (fs.contents fd).length else none

/-- The bytes `p` put into a file at `offset`; a gap before them is filled with zeros. -/
def overwrite (file : Bytes) (offset : ℕ) (p : Bytes) : Bytes :=
  file.take offset ++ List.replicate (offset - file.length) 0 ++ p ++ file.drop (offset + p.length)

/-- `write(2)`: the count or -1. -/
def write (E : Env) (fs : Fs) (fd : ℤ) (p : Bytes) : ℤ × Fs :=
  match fs.descs.lookup fd with
  | none => (-1, fs)
  | some o =>
    let f := fs.opened o
    if !f.writable then (-1, fs)
    else match E.write f.inode f.offset fs.idle p.length with
    | none => (-1, { fs with idle := fs.idle + 1 })
    | some k =>
      let q := p.take k
      (q.length, { fs with
        files := Function.update fs.files f.inode (overwrite (fs.files f.inode) f.offset q)
        opened := Function.update fs.opened o { f with offset := f.offset + q.length }
        idle := if q = [] then fs.idle + 1 else fs.idle })

theorem overwrite_end (file p : Bytes) : overwrite file file.length p = file ++ p := by
  simp [overwrite]

theorem overwrite_overwrite (file : Bytes) (offset : ℕ) (p q : Bytes) :
    overwrite (overwrite file offset p) (offset + p.length) q =
      overwrite file offset (p ++ q) := by
  have hl : (file.take offset ++ List.replicate (offset - file.length) 0).length = offset := by
    simp only [List.length_append, List.length_take, List.length_replicate]
    omega
  have hl' : (file.take offset ++ List.replicate (offset - file.length) 0 ++ p).length =
      offset + p.length := by rw [List.length_append, hl]
  have hz : offset + p.length - (overwrite file offset p).length = 0 := by
    rw [overwrite, List.length_append, hl']
    omega
  rw [overwrite, hz, overwrite, List.take_left' hl', List.drop_append, hl', overwrite]
  simp only [List.replicate_zero, List.append_nil, List.append_assoc, List.length_append,
    List.append_cancel_left_eq]
  rw [List.drop_eq_nil_of_le (by simp only [List.length_append] at hl' ⊢; omega),
    List.nil_append, List.drop_drop]
  congr 1
  omega

theorem contents_of {fs : Fs} {fd : ℤ} {o : ℕ} (h : fs.descs.lookup fd = some o) :
    fs.contents fd = fs.files (fs.opened o).inode := by
  simp only [contents, opening, h, Option.map_some, Option.getD_some]

/-- The state after all of `p` was written through the description `o`. -/
def written (fs : Fs) (o : ℕ) (p : Bytes) : Fs :=
  if p = [] then fs
  else
    let f := fs.opened o
    { fs with
      files := Function.update fs.files f.inode (overwrite (fs.files f.inode) f.offset p)
      opened := Function.update fs.opened o { f with offset := f.offset + p.length } }

@[simp] theorem written_nil (fs : Fs) (o : ℕ) : fs.written o [] = fs := rfl

@[simp] theorem descs_written (fs : Fs) (o : ℕ) (p : Bytes) :
    (fs.written o p).descs = fs.descs := by
  rw [written]
  split_ifs <;> rfl

@[simp] theorem idle_written (fs : Fs) (o : ℕ) (p : Bytes) : (fs.written o p).idle = fs.idle := by
  rw [written]
  split_ifs <;> rfl

@[simp] theorem opened_written (fs : Fs) (o : ℕ) (p : Bytes) : (fs.written o p).opened o =
    { fs.opened o with offset := (fs.opened o).offset + p.length } := by
  rw [written]
  split_ifs with h
  · rw [h]
    rfl
  · exact Function.update_self ..

theorem written_append (fs : Fs) (o : ℕ) (p q : Bytes) :
    (fs.written o p).written o q = fs.written o (p ++ q) := by
  by_cases hp : p = []
  · rw [hp, written_nil, List.nil_append]
  by_cases hq : q = []
  · rw [hq, written_nil, List.append_nil]
  have ho := opened_written fs o p
  have hpq : p ++ q ≠ [] := List.append_ne_nil_of_left_ne_nil hp q
  rw [written, if_neg hq, ho, written, if_neg hp, written, if_neg hpq]
  simp only [Function.update_self, Function.update_idem, overwrite_overwrite, List.length_append,
    Nat.add_assoc]

/-- The description behind a descriptor that is open for writing. -/
def writer (fs : Fs) (fd : ℤ) : Option ℕ :=
  (fs.descs.lookup fd).filter fun o => (fs.opened o).writable

theorem writer_eq {fs : Fs} {fd : ℤ} {o : ℕ} :
    fs.writer fd = some o ↔ fs.descs.lookup fd = some o ∧ (fs.opened o).writable = true :=
  Option.filter_eq_some_iff

theorem writer_written {fs : Fs} {fd : ℤ} {o : ℕ} (h : fs.writer fd = some o) (p : Bytes) :
    (fs.written o p).writer fd = some o := by
  obtain ⟨h₁, h₂⟩ := writer_eq.mp h
  exact writer_eq.mpr ⟨by rw [descs_written, h₁], by rw [opened_written, h₂]⟩

theorem write_of_writer {E : Env} {fs : Fs} {fd : ℤ} {o : ℕ} (h : fs.writer fd = some o) {p : Bytes}
    {k : ℕ} (hk : E.write (fs.opened o).inode (fs.opened o).offset fs.idle p.length = some k)
    (h0 : 0 < k) (hle : k ≤ p.length) :
    fs.write E fd p = ((k : ℤ), fs.written o (p.take k)) := by
  obtain ⟨hl, hw⟩ := writer_eq.mp h
  have hne : p.take k ≠ [] := by
    rw [ne_eq, List.take_eq_nil_iff]
    rintro (rfl | rfl)
    · exact absurd rfl h0.ne'
    · exact absurd hle h0.not_ge
  simp only [write, hl, hw, hk, Bool.not_true, Bool.false_eq_true, if_false, hne,
    List.length_take_of_le hle, written]

theorem write_of_none {E : Env} {fs : Fs} {fd : ℤ} (h : fs.writer fd = none) (p : Bytes) :
    fs.write E fd p = (-1, fs) := by
  rw [write]
  cases hl : fs.descs.lookup fd with
  | none => rfl
  | some o =>
    have hw : (fs.opened o).writable = false := by
      rw [writer, hl, Option.filter_eq_none_iff] at h
      exact Bool.eq_false_iff.mpr (h o rfl)
    simp only [hw, Bool.not_false, if_true]

theorem write_le (E : Env) (fs : Fs) (fd : ℤ) (p : Bytes) :
    -1 ≤ (fs.write E fd p).1 ∧ (fs.write E fd p).1 ≤ p.length := by
  have hp : (-1 : ℤ) ≤ p.length := by omega
  rw [write]
  cases fs.descs.lookup fd with
  | none => exact ⟨le_rfl, hp⟩
  | some o =>
    dsimp only
    split_ifs
    · exact ⟨le_rfl, hp⟩
    · cases E.write (fs.opened o).inode (fs.opened o).offset fs.idle p.length with
      | none => exact ⟨le_rfl, hp⟩
      | some k =>
        dsimp only
        rw [List.length_take]
        omega

/-- `fd` is open for writing, and its offset is the end of the file. -/
structure Appends (fs : Fs) (fd : ℤ) (o : ℕ) : Prop where
  writer : fs.writer fd = some o
  offset : (fs.opened o).offset = (fs.files (fs.opened o).inode).length

theorem Appends.contents {fs : Fs} {fd : ℤ} {o : ℕ} (h : fs.Appends fd o) (p : Bytes) :
    (fs.written o p).contents fd = fs.contents fd ++ p := by
  by_cases hp : p = []
  · rw [hp, written_nil, List.append_nil]
  rw [contents_of (writer_eq.mp (writer_written h.writer p)).1,
    contents_of (writer_eq.mp h.writer).1, opened_written, written, if_neg hp]
  dsimp only
  rw [Function.update_self, h.offset, overwrite_end]

theorem Appends.written {fs : Fs} {fd : ℤ} {o : ℕ} (h : fs.Appends fd o) (p : Bytes) :
    (fs.written o p).Appends fd o where
  writer := writer_written h.writer p
  offset := by
    have hc := congrArg List.length (h.contents p)
    rw [contents_of (writer_eq.mp (writer_written h.writer p)).1,
      contents_of (writer_eq.mp h.writer).1, List.length_append, ← h.offset] at hc
    rw [hc, opened_written]

/-- A write at the end of a file: the bytes `q` that it took. -/
theorem write_appends {E : Env} {fs : Fs} {fd : ℤ} {o : ℕ} (h : fs.Appends fd o) (p : Bytes) :
    ∃ q, (fs.write E fd p).1.toNat = q.length ∧ q = p.take q.length ∧
      (fs.write E fd p).2.Appends fd o ∧ (fs.write E fd p).2.descs = fs.descs ∧
      (fs.write E fd p).2.opened = Function.update fs.opened o
        { fs.opened o with offset := (fs.opened o).offset + q.length } ∧
      (fs.write E fd p).2.files = Function.update fs.files (fs.opened o).inode
        (fs.files (fs.opened o).inode ++ q) ∧
      (∀ k : ℕ, (∀ n, E.write (fs.opened o).inode (fs.opened o).offset fs.idle p.length = some n →
        n ≤ k) → (fs.write E fd p).1 ≤ k) := by
  obtain ⟨hl, hwr⟩ := writer_eq.mp h.writer
  have hw := h.writer
  cases hk : E.write (fs.opened o).inode (fs.opened o).offset fs.idle p.length with
  | none =>
    have he : fs.write E fd p = (-1, { fs with idle := fs.idle + 1 }) := by
      simp only [write, hl, hwr, hk, Bool.not_true, Bool.false_eq_true, if_false]
    rw [he]
    refine ⟨[], rfl, rfl, ⟨h.writer, h.offset⟩, rfl, ?_, ?_, fun k _ => ?_⟩
    · exact (Function.update_eq_self o fs.opened).symm
    · rw [List.append_nil, Function.update_eq_self]
    · exact le_trans (show (-1 : ℤ) ≤ 0 by decide) (Int.natCast_nonneg k)
  | some k =>
    have he : fs.write E fd p = (((p.take k).length : ℤ), { fs with
        files := Function.update fs.files (fs.opened o).inode
          (fs.files (fs.opened o).inode ++ p.take k)
        opened := Function.update fs.opened o
          { fs.opened o with offset := (fs.opened o).offset + (p.take k).length }
        idle := if p.take k = [] then fs.idle + 1 else fs.idle }) := by
      simp only [write, hl, hwr, hk, Bool.not_true, Bool.false_eq_true, if_false]
      rw [h.offset, overwrite_end]
    rw [he]
    refine ⟨p.take k, rfl, ?_, ⟨?_, ?_⟩, rfl, rfl, rfl, fun n hn => ?_⟩
    · rw [List.length_take, ← List.take_eq_take_min]
    · exact writer_eq.mpr ⟨hl, by simp only [Function.update_self, hwr]⟩
    · simp only [Function.update_self, List.length_append, h.offset]
    · have := hn k rfl
      rw [List.length_take]
      omega

end Fs

end Stutter
