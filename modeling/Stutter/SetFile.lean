import Stutter.Lifecycle
import Stutter.Sending
import Stutter.Stored

namespace Stutter.Body

variable {E : Env}

/-- A fragment for a body that is full and whose file cannot be written. -/
theorem addBody_readOnly {b : Body} {fs : Fs} (hfd : 0 < b.fd) (hw : fs.writer b.fd = none)
    (p : Bytes) : addBody E b fs p = some (b.keep p, fs) := by
  by_cases ho : b.overflow p = []
  · exact addBody_memory ho fs
  have hc : (b.keep p).createFile E fs = (true, b.keep p, fs) := if_pos hfd
  have hneg : toInt32 (-1) = -1 := toInt32_of_le (by decide) (by decide)
  obtain ⟨fuel, -, hd, hrun⟩ := addBody_file ho hc
  rw [hrun, addLoop, if_neg hd.ne, add, if_pos (keep_overflow ho), bufferOnDisk, hc]
  simp only [keep_fd, Fs.write_of_none hw, hneg]
  rfl

/-- Fragments for such a body: what does not fit into memory is lost. -/
theorem addAll_readOnly {b : Body} {fs : Fs} (hfd : 0 < b.fd) (hw : fs.writer b.fd = none)
    (frags : List Bytes) : ∃ b', addAll E b fs frags = some (b', fs) ∧ b'.fd = b.fd ∧
      b'.data = (b.data ++ frags.flatten).take MAX_BUFFER_SIZE ∧
      b'.sizeOnDisk = b.sizeOnDisk := by
  induction frags generalizing b with
  | nil =>
    refine ⟨b, rfl, rfl, ?_, rfl⟩
    rw [List.flatten_nil, List.append_nil, List.take_of_length_le b.bounded]
  | cons frag frags ih =>
    obtain ⟨b', hr, hfd', hdata, hsize⟩ := ih (b := b.keep frag) hfd hw
    refine ⟨b', (congrArg (Option.bind · _) (addBody_readOnly hfd hw frag)).trans hr, hfd', ?_, ?_⟩
    · have hk : frag.take (b.insertion frag) = frag.take (MAX_BUFFER_SIZE - b.data.length) := by
        rw [insertion_eq, min_comm, ← List.take_eq_take_min]
      rw [hdata, keep_data, hk, List.flatten_cons, ← List.append_assoc]
      have hb := b.bounded
      obtain hle | hle := le_total frag.length (MAX_BUFFER_SIZE - b.data.length)
      · rw [List.take_of_length_le hle]
      · rw [List.take_append_of_le_length, List.take_of_length_le, List.take_append_of_le_length,
          List.take_append, List.take_of_length_le hb]
        · rw [List.length_append]
          omega
        · rw [List.length_append, List.length_take]
          omega
        · rw [List.length_append, List.length_take]
          omega
    · rw [hsize, sizeOnDisk, sizeOnDisk, keep_data, keep_size, length_insertion]
      omega

theorem opened_clear (b : Body) (fs : Fs) : (b.clear fs).2.opened = fs.opened ∧
    ∀ fd o, (b.clear fs).2.descs.lookup fd = some o → fs.descs.lookup fd = some o := by
  rw [clear]
  dsimp only
  split_ifs <;> exact ⟨rfl, fun fd o h => by first | exact h | exact Fs.lookup_filter_ne _ _ _ h⟩

/-- A body behind a `set_file` that succeeded. -/
structure IsFile (E : Env) (b : Body) (fs : Fs) : Prop where
  data : b.data = []
  reader : fs.writer b.fd = none
  size : b.size = if E.fstat fs.calls b.fd then (fs.contents b.fd).length else 0

theorem setFile_isFile {b b' : Body} {fs fs' : Fs} {name : Bytes}
    (h : b.setFile E fs name = (true, b', fs')) : b'.IsFile E fs' := by
  rw [setFile] at h
  generalize hop : fs.openRead E name = x at h
  obtain ⟨fd, fs₁⟩ := x
  dsimp only at h
  split_ifs at h with hneg
  · exact Bool.noConfusion (congrArg Prod.fst h)
  obtain ⟨-, rfl, rfl⟩ := Prod.mk.injEq .. ▸ Prod.mk.injEq .. ▸ h
  obtain ⟨hopened, hlookup⟩ := b.opened_clear fs₁
  have hsize : (b.clear fs₁).1.size = 0 := (b.clear_isEmpty fs₁).size
  refine ⟨?_, ?_, ?_⟩
  · rfl
  · by_contra hw
    obtain ⟨o, ho⟩ := Option.ne_none_iff_exists'.mp hw
    obtain ⟨hl, hwr⟩ := Fs.writer_eq.mp ho
    have hl' := hlookup _ _ hl
    rw [hopened] at hwr
    rw [Fs.openRead] at hop
    dsimp only at hop hl'
    split at hop
    · obtain ⟨rfl, rfl⟩ := Prod.mk.injEq .. ▸ hop
      simp only [Fs.install, List.lookup_cons, beq_self_eq_true, Option.some.injEq] at hl' hwr
      subst hl'
      simp at hwr
    · obtain ⟨rfl, -⟩ := Prod.mk.injEq .. ▸ hop
      exact hneg (by decide)
  · dsimp only
    rw [hsize, Fs.fstat]
    by_cases ho : ((b.clear fs₁).2.opening fd).isSome
    · by_cases hs : E.fstat (b.clear fs₁).2.calls fd = true
      · rw [if_pos ⟨ho, hs⟩, if_pos hs]
        rfl
      · rw [if_neg fun hc => hs hc.2, if_neg hs]
        rfl
    · have hc : (b.clear fs₁).2.contents fd = [] := by
        rw [Fs.contents, Option.not_isSome_iff_eq_none.mp ho]
        rfl
      rw [if_neg fun hc => ho hc.1, hc]
      split_ifs <;> rfl

theorem setFile_fd {b b' : Body} {fs fs' : Fs} {name : Bytes}
    (h : b.setFile E fs name = (true, b', fs')) : 0 ≤ b'.fd := by
  rw [setFile] at h
  generalize fs.openRead E name = x at h
  obtain ⟨fd, fs₁⟩ := x
  dsimp only at h
  split_ifs at h with hneg
  · exact Bool.noConfusion (congrArg Prod.fst h)
  obtain ⟨-, rfl, -⟩ := Prod.mk.injEq .. ▸ Prod.mk.injEq .. ▸ h
  exact not_lt.mp hneg

/-- The body counts `n` bytes more than it holds, at least. -/
structure Ahead (n : ℕ) (b : Body) (fs : Fs) : Prop where
  counted : b.data.length + (b.file fs).length + n ≤ b.size
  appends : 0 < b.fd → ∃ o, fs.Appends b.fd o

theorem Ahead.createFile {n : ℕ} {b b' : Body} {fs fs' : Fs} {ok : Bool} (h : b.Ahead n fs)
    (hc : b.createFile E fs = (ok, b', fs')) : b'.Ahead n fs' := by
  obtain ⟨hdata, hsize, hfd⟩ := createFile_frame hc
  have hcount := h.counted
  cases ok with
  | false =>
    have hneg : ¬ 0 < b'.fd := fun hpos => Bool.false_ne_true (hfd.mpr hpos)
    refine ⟨?_, fun hpos => absurd hpos hneg⟩
    rw [hdata, hsize, file, if_neg hneg, List.length_nil]
    omega
  | true =>
    obtain ⟨hpos, -, -, hnew, hold⟩ := createFile_true hc
    by_cases hb : 0 < b.fd
    · obtain ⟨rfl, rfl⟩ := hold hb
      exact h
    · have hcr := hnew (not_lt.mp hb)
      refine ⟨?_, fun _ => ⟨_, hcr.appends⟩⟩
      rw [hdata, hsize, file, if_pos hpos, hcr.contents, List.length_nil]
      omega

/-- Each byte that is written is counted, so the body stays ahead. -/
theorem Ahead.add (hE : ∀ m, E.Fitting m) {n : ℕ} {b : Body} {fs : Fs} (h : b.Ahead n fs)
    (p : Bytes) : (b.add E fs p).2.1.Ahead n (b.add E fs p).2.2 := by
  rw [Body.add]
  split_ifs
  · rw [bufferOnDisk]
    generalize hc : b.createFile E fs = c
    obtain ⟨ok, b', fs'⟩ := c
    have hb := h.createFile hc
    cases ok with
    | false => exact hb
    | true =>
      have hpos := (createFile_true hc).1
      obtain ⟨o, ha⟩ := hb.appends hpos
      obtain ⟨q, hq, -, ha', -, hopened, hfiles, hle⟩ := Fs.write_appends (E := E) ha p
      have hcont : (fs'.write E b'.fd p).2.contents b'.fd = fs'.contents b'.fd ++ q := by
        rw [Fs.contents_of (Fs.writer_eq.mp ha'.writer).1, hopened, hfiles,
          Fs.contents_of (Fs.writer_eq.mp ha.writer).1]
        simp only [Function.update_self]
      have hint : toInt32 (fs'.write E b'.fd p).1 = (fs'.write E b'.fd p).1 := by
        have hlow := (fs'.write_le E b'.fd p).1
        have hmax := hle INT_MAX.toNat fun k hk =>
          Int.le_toNat (by decide) |>.mpr (hE p.length _ _ _ _ _ le_rfl hk)
        rw [Int.toNat_of_nonneg (by decide)] at hmax
        exact toInt32_of_le (le_trans (by decide) hlow) hmax
      have hcount := hb.counted
      rw [file, if_pos hpos] at hcount
      have hgrown : (b'.grow q.length).Ahead n (fs'.write E b'.fd p).2 := by
        refine ⟨?_, fun _ => ⟨o, ha'⟩⟩
        rw [file, grow_fd, if_pos hpos, hcont, List.length_append, grow_data, grow_size]
        omega
      dsimp only
      rw [hint]
      split_ifs with hret
      · rwa [hq]
      · rw [Int.toNat_of_nonpos (not_lt.mp hret)] at hq
        rwa [← hq] at hgrown
  · refine ⟨?_, h.appends⟩
    have hcount := h.counted
    have hfile : (b.bufferInMemory p).2.file fs = b.file fs := rfl
    change (b.bufferInMemory p).2.data.length + ((b.bufferInMemory p).2.file fs).length + n ≤
      b.size + b.insertion p
    rw [hfile, show (b.bufferInMemory p).2.data.length = b.data.length + b.insertion p from
      length_insertion b p]
    omega

theorem Ahead.loop (hE : ∀ m, E.Fitting m) {n : ℕ} {p : Bytes} {fuel done : ℕ} {b b' : Body}
    {fs fs' : Fs} (h : b.Ahead n fs) (hr : addLoop E p fuel done b fs = some (b', fs')) :
    b'.Ahead n fs' := by
  induction fuel generalizing done b fs with
  | zero =>
    rw [addLoop] at hr
    split_ifs at hr
    cases hr
    exact h
  | succ fuel ih =>
    rw [addLoop] at hr
    split_ifs at hr
    · cases hr
      exact h
    have hadd := h.add hE (p.drop done)
    generalize b.add E fs (p.drop done) = a at hr hadd
    obtain ⟨added, b₁, fs₁⟩ := a
    dsimp only at hr hadd
    split_ifs at hr
    · cases hr
      exact hadd
    · exact ih hadd hr

theorem Ahead.addAll (hE : ∀ m, E.Fitting m) {n : ℕ} {frags : List Bytes} {b b' : Body}
    {fs fs' : Fs} (h : b.Ahead n fs) (hr : addAll E b fs frags = some (b', fs')) :
    b'.Ahead n fs' := by
  induction frags generalizing b fs with
  | nil =>
    cases hr
    exact h
  | cons frag frags ih =>
    obtain ⟨⟨b₁, fs₁⟩, h₁, hr⟩ := Option.bind_eq_some_iff.mp hr
    exact ih (h.loop hE h₁) hr

/-- The bytes that are sent are those of the file and then those of the fragments, and `size` is
their number. -/
def Appended (E : Env) (b : Body) (fs : Fs) (frags : List Bytes) : Prop :=
  ∃ b' fs', addAll E b fs frags = some (b', fs') ∧
    b'.content fs' = fs.contents b.fd ++ frags.flatten ∧
    b'.size = (fs.contents b.fd).length + frags.flatten.length

/-- Behind a file with a descriptor that is sent. -/
theorem IsFile.appended_iff {b : Body} {fs : Fs} (h : b.IsFile E fs) (hfd : 0 < b.fd)
    (frags : List Bytes) : Appended E b fs frags ↔
      (E.fstat fs.calls b.fd = true ∨ fs.contents b.fd = []) ∧
        frags.flatten.length ≤ MAX_BUFFER_SIZE ∧
        frags.flatten ++ fs.contents b.fd = fs.contents b.fd ++ frags.flatten := by
  obtain ⟨b', hr, hfd', hdata', hdisk⟩ := addAll_readOnly (E := E) hfd h.reader frags
  have hsize := h.size
  unfold Appended
  generalize hf : fs.contents b.fd = file at hsize ⊢
  have hle : b.size ≤ file.length ∧ (b.size = file.length ↔
      E.fstat fs.calls b.fd = true ∨ file = []) := by
    rw [hsize]
    split_ifs with hs
    · exact ⟨le_rfl, iff_of_true rfl (.inl hs)⟩
    · refine ⟨Nat.zero_le _, ?_⟩
      rw [or_iff_right hs, eq_comm, List.length_eq_zero_iff]
  rw [h.data, List.nil_append] at hdata'
  have hd : b.sizeOnDisk = b.size := by rw [sizeOnDisk, h.data, List.length_nil, Nat.sub_zero]
  have hsize' : b'.size = min MAX_BUFFER_SIZE frags.flatten.length + b.size := by
    have hs := b'.sized
    rw [← hd, ← hdisk, sizeOnDisk, hdata', List.length_take]
    rw [hdata', List.length_take] at hs
    omega
  have hcontent : b'.content fs = frags.flatten.take MAX_BUFFER_SIZE ++ file.take b.size := by
    rw [content, hdata', hdisk, hd, Body.file, hfd', if_pos hfd, hf]
  rw [← hle.2]
  constructor
  · rintro ⟨b₁, fs₁, hr₁, hc, hs⟩
    obtain ⟨rfl, rfl⟩ := Prod.mk.injEq .. ▸ Option.some.inj (hr.symm.trans hr₁)
    have hlen : frags.flatten.length ≤ MAX_BUFFER_SIZE ∧ b.size = file.length := by omega
    rw [hcontent, hlen.2, List.take_length, List.take_of_length_le hlen.1] at hc
    exact ⟨hlen.2, hlen.1, hc⟩
  · rintro ⟨hs, hlen, hc⟩
    refine ⟨b', fs, hr, ?_, by omega⟩
    rw [hcontent, hs, List.take_length, List.take_of_length_le hlen, hc]

theorem IsFile.isEmpty {b : Body} {fs : Fs} (h : b.IsFile E fs) (hfd : ¬ 0 < b.fd)
    (hf : fs.contents b.fd = []) : b.IsEmpty :=
  ⟨h.data, by rw [h.size, hf, List.length_nil, ite_self], not_lt.mp hfd⟩

/-- Behind a file with the descriptor 0, which `send_buffered_body` and `create_file` take for
none. -/
theorem IsFile.appended_zero (hE : E.Bounded) {b : Body} {fs : Fs} (h : b.IsFile E fs)
    (hfd : ¬ 0 < b.fd) (frags : List Bytes) : Appended E b fs frags ↔
      fs.contents b.fd = [] ∧ ∀ a ∈ Arrival.all E frags b fs, a.Stored E := by
  constructor
  · rintro ⟨b', fs', hr, hc, hs⟩
    have hf : fs.contents b.fd = [] := by
      have hahead : b.Ahead b.size fs := by
        refine ⟨?_, fun hpos => absurd hpos hfd⟩
        rw [h.data, file, if_neg hfd, List.length_nil, Nat.add_zero, Nat.zero_add]
      have hcount := (hahead.addAll hE.fitting hr).counted
      have hle : (b'.content fs').length ≤ b'.data.length + (b'.file fs').length := by
        rw [content, List.length_append, List.length_take]
        omega
      have hsize := size_addAll hr
      rw [hc, List.length_append] at hle
      exact List.eq_nil_of_length_eq_zero (by omega)
    refine ⟨hf, ?_⟩
    rw [hf, List.nil_append, ← Arrival.bytes_all E frags b fs] at hc
    exact (((h.isEmpty hfd hf).filled fs).addAll hE.counts hr).content_iff
      (fun _ _ => hE.fitting _) |>.mp hc
  · rintro ⟨hf, hstored⟩
    obtain ⟨b', fs', hr⟩ := addAll_some (E := E) b fs frags
    have hfilled := ((h.isEmpty hfd hf).filled fs).addAll hE.counts hr
    have hc := (hfilled.content_iff fun _ _ => hE.fitting _).mpr hstored
    rw [List.nil_append, Arrival.bytes_all] at hc
    refine ⟨b', fs', hr, by rw [hf, hc, List.nil_append], ?_⟩
    have hlen := b'.length_content fs'
    have hsize := hfilled.size
    rw [List.nil_append, Arrival.bytes_all] at hsize
    rw [hc] at hlen
    rw [hf, List.length_nil, Nat.zero_add]
    exact le_antisymm hsize hlen

/-- What is added to a file comes behind it, exactly if the descriptor is positive, the length of
the file is known, all fits into memory and the order makes no difference, or the descriptor is 0,
the file is empty and what is added is stored. -/
theorem setFile_append_iff {b b₀ : Body} {fs fs₀ : Fs} {name : Bytes}
    (h : b.setFile E fs name = (true, b₀, fs₀)) (hE : b₀.fd = 0 → E.Bounded) (frags : List Bytes) :
    Appended E b₀ fs₀ frags ↔
      0 < b₀.fd ∧ (E.fstat fs₀.calls b₀.fd = true ∨ fs₀.contents b₀.fd = []) ∧
        frags.flatten.length ≤ MAX_BUFFER_SIZE ∧
        frags.flatten ++ fs₀.contents b₀.fd = fs₀.contents b₀.fd ++ frags.flatten ∨
      b₀.fd = 0 ∧ fs₀.contents b₀.fd = [] ∧ ∀ a ∈ Arrival.all E frags b₀ fs₀, a.Stored E := by
  have hfile := setFile_isFile h
  obtain hfd | hfd := (setFile_fd h).lt_or_eq
  · exact (hfile.appended_iff hfd frags).trans ⟨fun hc => .inl ⟨hfd, hc⟩, fun hc =>
      hc.elim And.right fun hc => absurd hc.1 hfd.ne'⟩
  · have hz : ¬ 0 < b₀.fd := not_lt.mpr hfd.symm.le
    exact (hfile.appended_zero (hE hfd.symm) hz frags).trans ⟨fun hc => .inr ⟨hfd.symm, hc⟩,
      fun hc => hc.elim (fun hc => absurd hc.1 hz) And.right⟩

/-- A file of two bytes under the name `f`. -/
def named : Fs := { Fs.new with
  files := fun _ => ascii "ab", names := [(ascii "f", 0)], nextInode := 1 }

/-- The bytes of the file again, in two pieces. -/
def again : List Bytes := [ascii "a", ascii "b"]

theorem setFile_append_iff_again : ∃ b₀ fs₀,
    new.setFile .linux named (ascii "f") = (true, b₀, fs₀) ∧ Appended .linux b₀ fs₀ again :=
  ⟨_, _, rfl, (setFile_append_iff
    (show new.setFile .linux named (ascii "f") = (true, _, _) from rfl)
    (fun _ => Env.linux_bounded) again).mpr (.inl (by decide))⟩

/-- What is added comes first. -/
theorem setFile_append_before : ∃ b₀ fs₀, new.setFile .linux named (ascii "f") = (true, b₀, fs₀) ∧
    fs₀.contents b₀.fd = ascii "ab" ∧ (addAll .linux b₀ fs₀ [ascii "c"]).map
      (fun r => r.1.content r.2) = some (ascii "cab") :=
  ⟨_, _, rfl, by decide, by decide⟩

end Stutter.Body
