import Stutter.Storage

namespace Stutter.Body

variable {E : Env}

/-- A body that began empty in `fs₀` and was given `content`. -/
structure Holds (fs₀ : Fs) (content : Bytes) (b : Body) (fs : Fs) : Prop where
  data : b.data = content.take MAX_BUFFER_SIZE
  size : b.size = content.length
  disk : b.fd ≤ 0 ∧ content.length ≤ MAX_BUFFER_SIZE ∧ fs = fs₀ ∨
    0 < b.fd ∧ ∃ o, fs.Appends b.fd o ∧ (fs.opened o).inode = fs₀.nextInode ∧
      fs.idle = fs₀.idle ∧ fs.contents b.fd = content.drop MAX_BUFFER_SIZE

theorem IsEmpty.holds {b : Body} (h : b.IsEmpty) (fs : Fs) : b.Holds fs [] fs :=
  ⟨h.data, h.size, .inl ⟨h.fd, Nat.zero_le _, rfl⟩⟩

theorem Holds.view {fs₀ fs : Fs} {content : Bytes} {b : Body} (h : b.Holds fs₀ content fs) :
    b.view fs = View.of content := by
  have hd : b.sizeOnDisk = content.length - MAX_BUFFER_SIZE := by
    rw [sizeOnDisk, h.size, h.data, List.length_take]
    omega
  have hf : b.file fs = content.drop MAX_BUFFER_SIZE := by
    rw [file]
    obtain ⟨hfd, hle, -⟩ | ⟨hfd, _, -, -, -, hc⟩ := h.disk
    · rw [if_neg (not_lt.mpr hfd), List.drop_eq_nil_of_le hle]
    · rw [if_pos hfd, hc]
  rw [Body.view, h.data, hf, h.size, hd, View.of]

theorem Holds.content {fs₀ fs : Fs} {content : Bytes} {b : Body} (h : b.Holds fs₀ content fs) :
    b.content fs = content := by
  have hv := h.view
  simp only [Body.view, View.of, View.mk.injEq] at hv
  obtain ⟨hdata, hfile, -, hsize⟩ := hv
  rw [Body.content, hdata, hfile, hsize, ← List.length_drop, List.take_length,
    List.take_append_drop]

theorem Holds.overflow {fs₀ fs : Fs} {content : Bytes} {b : Body} (h : b.Holds fs₀ content fs)
    (p : Bytes) : (b.keep p).data = (content ++ p).take MAX_BUFFER_SIZE ∧
      (content ++ p).drop MAX_BUFFER_SIZE = content.drop MAX_BUFFER_SIZE ++ b.overflow p ∧
      (b.overflow p).length = content.length + p.length - max content.length MAX_BUFFER_SIZE := by
  have hi : b.insertion p = min p.length (MAX_BUFFER_SIZE - content.length) := by
    rw [insertion_eq, h.data, List.length_take]
    omega
  refine ⟨?_, ?_, ?_⟩
  · have ht : p.take (min p.length (MAX_BUFFER_SIZE - content.length)) =
        p.take (MAX_BUFFER_SIZE - content.length) := by
      rw [min_comm, ← List.take_eq_take_min]
    rw [keep_data, hi, ht, h.data, List.take_append]
  · rw [Body.overflow, hi, List.drop_append]
    congr 1
    obtain hle | hle := le_total p.length (MAX_BUFFER_SIZE - content.length)
    · rw [min_eq_left hle, List.drop_length, List.drop_eq_nil_of_le hle]
    · rw [min_eq_right hle]
  · rw [Body.overflow, hi, List.length_drop]
    omega

/-- The file that the overflow of the next fragment goes to. -/
theorem Holds.file {fs₀ fs fs' : Fs} {content p : Bytes} {b b' : Body} (h : b.Holds fs₀ content fs)
    (hc : (b.keep p).createFile E fs = (true, b', fs')) : ∃ o,
      fs'.Appends b'.fd o ∧ (fs'.opened o).inode = fs₀.nextInode ∧
      fs'.idle = fs₀.idle ∧ fs'.contents b'.fd = content.drop MAX_BUFFER_SIZE ∧
      (fs'.opened o).offset = content.length - MAX_BUFFER_SIZE := by
  obtain ⟨-, -, -, hnew, hold⟩ := createFile_true hc
  obtain ⟨hfd', hle, rfl⟩ | ⟨hfd', o, ha, hino, hidle, hcont⟩ := h.disk
  · obtain ⟨ha, hino, hcont, hidle⟩ := hnew hfd'
    have hoff := ha.offset
    rw [← Fs.contents_of (Fs.writer_eq.mp ha.writer).1, hcont] at hoff
    refine ⟨_, ha, hino, hidle, ?_, ?_⟩
    · rw [hcont, List.drop_eq_nil_of_le hle]
    · rw [hoff, List.length_nil, Nat.sub_eq_zero_of_le hle]
  · obtain ⟨rfl, rfl⟩ := hold hfd'
    have hoff := ha.offset
    rw [← Fs.contents_of (Fs.writer_eq.mp ha.writer).1, hcont, List.length_drop] at hoff
    exact ⟨o, ha, hino, hidle, hcont, hoff⟩

theorem Holds.created (hE : E.Healthy) {fs₀ fs : Fs} {content : Bytes} {b : Body}
    (h : b.Holds fs₀ content fs) (p : Bytes) : ∃ b' fs' o,
      (b.keep p).createFile E fs = (true, b', fs') ∧ 0 < b'.fd ∧ b'.data = (b.keep p).data ∧
      b'.size = (b.keep p).size ∧ fs'.Appends b'.fd o ∧ (fs'.opened o).inode = fs₀.nextInode ∧
      fs'.idle = fs₀.idle ∧ fs'.contents b'.fd = content.drop MAX_BUFFER_SIZE ∧
      (fs'.opened o).offset = content.length - MAX_BUFFER_SIZE := by
  obtain ⟨b', fs', hc, hfd, hdata, hsize, -⟩ := createFile_healthy hE (b.keep p) fs
  obtain ⟨o, ho⟩ := h.file hc
  exact ⟨b', fs', o, hc, hfd, hdata, hsize, ho⟩

theorem insertion_add_overflow (b : Body) (p : Bytes) :
    b.insertion p + (b.overflow p).length = p.length := by
  rw [Body.overflow, List.length_drop, insertion_eq]
  omega

/-- One more fragment that fits into memory. -/
theorem Holds.kept {fs₀ fs : Fs} {content p : Bytes} {b : Body} (h : b.Holds fs₀ content fs)
    (ho : b.overflow p = []) : (b.keep p).Holds fs₀ (content ++ p) fs := by
  obtain ⟨hdata, hdrop, hlen⟩ := h.overflow p
  have hins := b.insertion_add_overflow p
  rw [ho, List.length_nil] at hins
  rw [ho, List.append_nil] at hdrop
  rw [ho, List.length_nil] at hlen
  refine ⟨hdata, by rw [keep_size, h.size, List.length_append, ← hins]; rfl, ?_⟩
  obtain ⟨hfd', hle, rfl⟩ | ⟨hfd', o, ha, hino, hidle, hcont⟩ := h.disk
  · exact .inl ⟨hfd', by rw [List.length_append]; omega, rfl⟩
  · exact .inr ⟨hfd', o, ha, hino, hidle, hdrop ▸ hcont⟩

/-- One more fragment whose overflow is written to the file. -/
theorem Holds.spilled {fs₀ fs fs' : Fs} {content p : Bytes} {b b' : Body} {o : ℕ}
    (h : b.Holds fs₀ content fs) (hc : (b.keep p).createFile E fs = (true, b', fs'))
    (hw : fs'.writer b'.fd = some o) :
    (b'.grow (b.overflow p).length).Holds fs₀ (content ++ p) (fs'.written o (b.overflow p)) := by
  obtain ⟨hdata, hdrop, -⟩ := h.overflow p
  obtain ⟨hfd, hdata', hsize, -⟩ := createFile_true hc
  obtain ⟨o', ha, hino, hidle, hcont, -⟩ := h.file hc
  obtain rfl := Option.some.inj (hw.symm.trans ha.writer)
  refine ⟨by rw [grow_data, hdata', hdata], ?_, .inr ⟨hfd, o, ?_⟩⟩
  · rw [grow_size, hsize, keep_size, h.size, List.length_append, Nat.add_assoc,
      insertion_add_overflow]
  · exact ⟨ha.written _, by rw [Fs.opened_written, hino], by rw [Fs.idle_written, hidle],
      by rw [grow_fd, ha.contents, hcont, hdrop]⟩

/-- One more fragment, if its writes fit. -/
theorem Holds.step (hE : E.Healthy) {fs₀ fs : Fs} {content : Bytes} {b : Body}
    (h : b.Holds fs₀ content fs) {p : Bytes}
    (hf : E.Fits fs₀.nextInode fs₀.idle (content.length - MAX_BUFFER_SIZE)
      (content.length + p.length - max content.length MAX_BUFFER_SIZE)) :
    ∃ b' fs', addBody E b fs p = some (b', fs') ∧ b'.Holds fs₀ (content ++ p) fs' := by
  obtain ⟨b', fs', o, hc, -, -, -, ha, hino, hidle, -, hoff⟩ := h.created hE p
  have hw : b.Writes E fs p := by
    intro ok b₁ fs₁ o₁ hc₁ hw₁
    obtain ⟨-, rfl, rfl⟩ := Prod.mk.injEq .. ▸ hc.symm.trans hc₁
    obtain rfl := Option.some.inj (ha.writer.symm.trans hw₁)
    rwa [hino, hidle, hoff, (h.overflow p).2.2]
  refine ⟨(b.store E fs p).1, (b.store E fs p).2, addBody_eq hE hw, ?_⟩
  rw [store]
  split_ifs with ho
  · exact h.kept ho
  · rw [spill, hc]
    simp only [ha.writer]
    exact h.spilled hc ha.writer

/-- Fragments are stored as the one that they are cut from. -/
theorem addAll_eq (hE : E.Reliable) (b : Body) (fs : Fs) (frags : List Bytes) :
    addAll E b fs frags = some (b.store E fs frags.flatten) := by
  induction frags generalizing b fs with
  | nil =>
    have hn : b.store E fs [] = (b, fs) :=
      Option.some.inj ((addBody_reliable hE b fs []).symm.trans (addLoop_done rfl ..))
    rw [List.flatten_nil, hn]
    rfl
  | cons frag frags ih =>
    rw [List.flatten_cons, store_append hE.toHealthy, ← ih]
    exact congrArg (Option.bind · _) (addBody_reliable hE b fs frag)

/-- Fragments added to an empty body are appended, however short the writes are, and however the
fragments are cut the body is the same. -/
theorem addAll_view (hE : E.Reliable) {b : Body} (hb : b.IsEmpty) (fs : Fs) (frags : List Bytes) :
    ∃ b' fs', addAll E b fs frags = some (b', fs') ∧ b'.view fs' = View.of frags.flatten ∧
      ∀ frags' : List Bytes, frags'.flatten = frags.flatten →
        addAll E b fs frags' = some (b', fs') := by
  obtain ⟨b', fs', hr, hh⟩ := (hb.holds fs).step hE.toHealthy (p := frags.flatten) (hE.fits ..)
  rw [addBody_reliable hE] at hr
  refine ⟨b', fs', by rw [addAll_eq hE, hr], hh.view, fun frags' hf => ?_⟩
  rw [addAll_eq hE, hf, hr]

end Stutter.Body

namespace Stutter

/-- A kernel that writes one byte at a time. -/
def Env.trickling : Env := { Env.prompt with write := fun _ _ _ n => some (min n 1) }

theorem Env.trickling_reliable : Env.trickling.Reliable where
  descriptor := Env.prompt_healthy.descriptor
  write _ _ _ n hn := ⟨_, rfl, lt_min hn Nat.one_pos, min_le_left _ _⟩
  write_le _ _ _ n k hk := by
    obtain rfl := Option.some.inj hk
    exact le_trans (Int.ofNat_le.mpr (min_le_right _ _)) (by decide)

/-- The bytes that fill the memory part, but for one. -/
def almostFull : Bytes := List.replicate 8191 7

/-- The second fragment does not fit into memory, and three bytes are written one by one. -/
theorem Body.addAll_view_spilled : ∃ b' fs',
    addAll .trickling .new .new [almostFull, [1, 2], [], [3, 4]] = some (b', fs') ∧
    b'.view fs' = ⟨almostFull ++ [1], [2, 3, 4], 8195, 3⟩ ∧
    addAll .trickling .new .new [almostFull ++ [1, 2, 3], [4]] = some (b', fs') := by
  obtain ⟨b', fs', hr, hv, hcut⟩ := addAll_view Env.trickling_reliable new_isEmpty .new
    [almostFull, [1, 2], [], [3, 4]]
  have hflat : [almostFull, [1, 2], [], [3, 4]].flatten = (almostFull ++ [1]) ++ [2, 3, 4] := by
    simp
  have hlen : (almostFull ++ [1]).length = MAX_BUFFER_SIZE := by
    rw [List.length_append, almostFull, List.length_replicate]
    rfl
  refine ⟨b', fs', hr, ?_, hcut _ (by simp)⟩
  rw [hv, hflat, View.of, List.take_left' hlen, List.drop_left' hlen, List.length_append, hlen]
  rfl

end Stutter
