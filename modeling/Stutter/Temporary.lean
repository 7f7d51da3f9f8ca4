import Stutter.Client
import Stutter.Copies
import Stutter.Joyent.Keeps

namespace Stutter

open Joyent

/-- The files behind open descriptors have been made, too. -/
structure Fs.Made (fs : Fs) : Prop extends fs.WellFormed where
  inode : ∀ d ∈ fs.descs, (fs.opened d.2).inode < fs.nextInode

theorem Fs.new_made : Fs.new.Made := { Fs.new_wellFormed with inode := by simp [Fs.new] }

theorem Fs.write_opened (E : Env) (fs : Fs) (fd : ℤ) (p : Bytes) {o : ℕ}
    (h : fs.descs.lookup fd ≠ some o) : (fs.write E fd p).2.opened o = fs.opened o := by
  rw [write]
  cases hl : fs.descs.lookup fd with
  | none => rfl
  | some o' =>
    have hne : o ≠ o' := by
      rintro rfl
      exact h hl
    dsimp only
    split_ifs
    · rfl
    · cases E.write (fs.opened o').inode (fs.opened o').offset fs.idle p.length with
      | none => rfl
      | some k => exact Function.update_of_ne hne ..

namespace Body

variable {E : Env} {b : Body} {fs₀ fs : Fs}

/-- A file that the body has now is newer than `fs₀`, and nothing else that was there then has
changed. -/
structure Apart (fs₀ : Fs) (b : Body) (fs : Fs) : Prop where
  nextOpened : fs₀.nextOpened ≤ fs.nextOpened
  nextInode : fs₀.nextInode ≤ fs.nextInode
  same : ∀ fd, 0 < fd → fd ≠ b.fd → fs₀.Same fs fd
  own : 0 < b.fd → fs₀.descs.lookup b.fd = none ∧ ∃ o, fs.descs.lookup b.fd = some o ∧
    fs₀.nextOpened ≤ o ∧ fs₀.nextInode ≤ (fs.opened o).inode

theorem Apart.new (fs : Fs) : new.Apart fs fs :=
  ⟨le_rfl, le_rfl, fun _ _ _ => .refl .., fun h => absurd h (by decide)⟩

/-- What is in memory does not matter. -/
theorem Apart.of_fd {b' : Body} (h : b.Apart fs₀ fs) (hfd : b'.fd = b.fd) : b'.Apart fs₀ fs := by
  refine ⟨h.nextOpened, h.nextInode, ?_, ?_⟩ <;> rw [hfd]
  · exact h.same
  · exact h.own

theorem Apart.createFile (h₀ : fs₀.Made) (h : b.Apart fs₀ fs) :
    (b.createFile E fs).2.1.Apart fs₀ (b.createFile E fs).2.2 := by
  rw [Body.createFile]
  by_cases hfd : b.fd > 0
  · rw [if_pos hfd]
    exact h
  rw [if_neg hfd, Fs.mkstemp]
  have hall : ∀ fd, 0 < fd → fs₀.Same fs fd := fun fd hp => h.same fd hp (by omega)
  cases ha : fs.allocate E with
  | none =>
    dsimp only
    rw [if_neg (by decide)]
    refine ⟨h.nextOpened, h.nextInode, fun fd hp _ => ?_, fun hp => ?_⟩
    · obtain ⟨hl, ho, hf⟩ := hall fd hp
      exact ⟨hl, ho, hf⟩
    · change (0 : ℤ) < -1 at hp
      omega
  | some fd' =>
    have hnew : fs.descs.lookup fd' = none := by
      rw [Fs.allocate, Option.filter_eq_some_iff] at ha
      obtain ⟨-, hn⟩ := ha
      simp only [decide_eq_true_eq] at hn
      exact Fs.lookup_of_not_mem hn.2
    have hinode : ∀ o, o < fs₀.nextOpened → o ≠ fs.nextOpened := fun o ho => by
      have := h.nextOpened
      omega
    have hsame : ∀ fd, 0 < fd → fd ≠ fd' → fs₀.Same (Fs.install { fs with
        calls := fs.calls + 1
        files := Function.update fs.files fs.nextInode []
        names := (E.tmpName fs.calls (fs.names.map Prod.fst), fs.nextInode) :: fs.names
        nextInode := fs.nextInode + 1 } fd' fs.nextInode true) fd := by
      intro fd hp hne
      obtain ⟨hl, ho, hf⟩ := hall fd hp
      refine ⟨?_, fun o hlo => ?_, fun o hlo => ?_⟩
      · rw [Fs.install]
        dsimp only
        rw [List.lookup_cons, beq_false_of_ne hne, hl]
      · rw [← ho o hlo]
        exact Function.update_of_ne (hinode o (h₀.opened _ (Heap.lookup_mem hlo))) ..
      · rw [← hf o hlo]
        have hi : (fs₀.opened o).inode < fs₀.nextInode := h₀.inode _ (Heap.lookup_mem hlo)
        have := h.nextInode
        exact Function.update_of_ne (by omega) ..
    dsimp only
    by_cases hp : fd' > 0
    · rw [if_pos hp]
      refine ⟨Nat.le_succ_of_le h.nextOpened, Nat.le_succ_of_le h.nextInode, hsame, fun _ => ?_⟩
      refine ⟨(hall fd' hp).lookup ▸ hnew, fs.nextOpened, List.lookup_cons_self, h.nextOpened, ?_⟩
      simp only [Fs.install, Function.update_self]
      exact h.nextInode
    · rw [if_neg hp]
      exact ⟨Nat.le_succ_of_le h.nextOpened, Nat.le_succ_of_le h.nextInode,
        fun fd h0 _ => hsame fd h0 (by omega), fun h0 => absurd h0 hp⟩

theorem Apart.write (h₀ : fs₀.Made) (h : b.Apart fs₀ fs) (hp : 0 < b.fd) (p : Bytes) :
    b.Apart fs₀ (fs.write E b.fd p).2 := by
  obtain ⟨hnone, o, hl, ho, hi⟩ := h.own hp
  obtain ⟨-, hd, hno, hni, hop, hfiles⟩ := fs.write_frame E b.fd p
  refine ⟨hno ▸ h.nextOpened, hni ▸ h.nextInode, fun fd h0 hne => ?_, fun _ => ?_⟩
  · obtain ⟨hl', ho', hf'⟩ := h.same fd h0 hne
    refine ⟨hd ▸ hl', fun o' hlo => ?_, fun o' hlo => ?_⟩
    · have hlt := h₀.opened _ (Heap.lookup_mem hlo)
      rw [Fs.write_opened E fs b.fd p (by rw [hl, ne_eq, Option.some_inj]; omega)]
      exact ho' o' hlo
    · have hlt : (fs₀.opened o').inode < fs₀.nextInode := h₀.inode _ (Heap.lookup_mem hlo)
      rw [hfiles _ fun o'' hw => ?_]
      · exact hf' o' hlo
      · obtain rfl := Option.some.inj ((Fs.writer_eq.mp hw).1.symm.trans hl)
        omega
  · exact ⟨hnone, o, hd ▸ hl, ho, by rw [(hop o).1]; exact hi⟩

theorem Apart.add (h₀ : fs₀.Made) (h : b.Apart fs₀ fs) (p : Bytes) :
    (b.add E fs p).2.1.Apart fs₀ (b.add E fs p).2.2 := by
  rw [Body.add]
  split_ifs
  · rw [bufferOnDisk]
    have hc := h.createFile (E := E) h₀
    generalize hr : b.createFile E fs = r at hc
    obtain ⟨_ | _, b', fs'⟩ := r
    · exact hc
    · have hpos := (createFile_frame hr).2.2.mp rfl
      have hw := hc.write (E := E) h₀ hpos p
      dsimp only
      split_ifs
      · exact hw.of_fd rfl
      · exact hw
  · exact h.of_fd rfl

theorem Apart.addLoop (h₀ : fs₀.Made) {p : Bytes} {fuel done : ℕ} {b' : Body} {fs' : Fs}
    (h : b.Apart fs₀ fs) (hr : addLoop E p fuel done b fs = some (b', fs')) : b'.Apart fs₀ fs' := by
  induction fuel generalizing done b fs with
  | zero =>
    rw [Body.addLoop] at hr
    split_ifs at hr
    obtain ⟨rfl, rfl⟩ := Prod.mk.injEq .. ▸ Option.some.inj hr
    exact h
  | succ fuel ih =>
    rw [Body.addLoop] at hr
    split_ifs at hr
    · obtain ⟨rfl, rfl⟩ := Prod.mk.injEq .. ▸ Option.some.inj hr
      exact h
    · have ha := h.add (E := E) h₀ (p.drop done)
      generalize b.add E fs (p.drop done) = r at hr ha
      obtain ⟨n, b₁, fs₁⟩ := r
      dsimp only at hr ha
      split_ifs at hr
      · obtain ⟨rfl, rfl⟩ := Prod.mk.injEq .. ▸ Option.some.inj hr
        exact ha
      · exact ih ha hr

theorem file_kept {fs' : Fs} (h : 0 < b.fd → fs.Same fs' b.fd) : b.file fs' = b.file fs := by
  by_cases hp : 0 < b.fd
  · exact file_same (h hp)
  · rw [file, file, if_neg hp, if_neg hp]

/-- Without the body nothing has changed. -/
theorem Apart.clear (h : b.Apart fs₀ fs) {fd : ℤ} (hp : 0 < fd) : fs₀.Same (b.clear fs).2 fd := by
  have hu : ∀ fs' : Fs, fs'.Same (if b.unlink then fs'.unlink b.filename else fs') fd :=
    fun fs' => by
    split_ifs
    · exact ⟨rfl, fun _ _ => rfl, fun _ _ => rfl⟩
    · exact .refl ..
  rw [Body.clear]
  by_cases hb : b.fd > 0
  · simp only [if_pos hb]
    refine .trans ?_ (hu _)
    obtain rfl | hne := eq_or_ne fd b.fd
    · obtain ⟨hnone, -⟩ := h.own hp
      have hold : ∀ o, fs₀.descs.lookup b.fd ≠ some o := by
        intro o ho
        cases hnone.symm.trans ho
      refine ⟨?_, fun o ho => absurd ho (hold o), fun o ho => absurd ho (hold o)⟩
      rw [hnone, List.lookup_eq_none_iff]
      intro e he
      have hef := (List.mem_filter.mp he).2
      simp only [decide_eq_true_eq] at hef
      exact bne_iff_ne.mpr (Ne.symm hef)
    · exact (h.same fd hp hne).trans (Fs.same_close hne)
  · simp only [if_neg hb]
    exact (h.same fd hp (by omega)).trans (hu fs)

end Body

namespace Client

variable {E : Env} {fs₀ : Fs}

/-- The reply of a parser has its file to itself. -/
structure Apart (fs₀ : Fs) (u : Session Bool) : Prop where
  mode : u.mode = .response
  body : u.reply.message.body.Apart fs₀ u.fs

theorem Apart.of_same {u v : Session Bool} (h : Apart fs₀ u) (hm : v.mode = u.mode)
    (hb : v.reply.message.body = u.reply.message.body) (hf : v.fs = u.fs) : Apart fs₀ v :=
  ⟨hm.trans h.mode, hb ▸ hf ▸ h.body⟩

theorem Apart.save {u : Session Bool} (h : Apart fs₀ u) : Apart fs₀ u.saveLastHeader := by
  obtain ⟨m, e, k, v, g, req, rep, fs, cx⟩ := u
  obtain rfl : m = .response := h.mode
  cases g <;> exact h.of_same rfl rfl rfl

theorem keeps_apart (h₀ : fs₀.Made) : (Session.settings E onMsgComplete).Keeps (Apart fs₀) where
  data k frag u h := by
    cases k with
    | url =>
      have hu : u.addUrlFragment frag = u :=
        if_neg fun hm => absurd (hm.1.symm.trans h.mode) (by decide)
      change Apart fs₀ (u.addUrlFragment frag)
      rw [hu]
      exact h
    | headerField => exact h.save.of_same rfl rfl rfl
    | headerValue => exact h.of_same rfl rfl rfl
    | body =>
      change Apart fs₀ (u.addBodyFragment E frag)
      rw [Session.addBodyFragment]
      split_ifs
      · obtain ⟨m, e, k, v, g, req, rep, fs, cx⟩ := u
        obtain rfl : m = .response := h.mode
        refine ⟨rfl, ?_⟩
        obtain ⟨b', fs', hb⟩ := Body.addBody_some (E := E) rep.message.body fs frag
        change (rep.message.addBody E fs frag).1.body.Apart fs₀ (rep.message.addBody E fs frag).2
        rw [Message.addBody, hb]
        exact h.body.addLoop h₀ hb
      · exact h
  headers _ _ h := h.save
  complete {p u r p' u'} hc h := by
    obtain ⟨-, -, rfl⟩ := Prod.mk.injEq .. ▸ Prod.mk.injEq .. ▸ Option.some.inj hc
    obtain ⟨m, e, k, v, g, req, rep, fs, cx⟩ := u
    obtain rfl : m = .response := h.mode
    obtain ⟨message, code, status, major, minor⟩ := rep
    exact h.of_same rfl (Eq.trans (b := message.body) rfl rfl) rfl

theorem readLoop_apart (h₀ : fs₀.Made) {fuel : ℕ} {p p' : HttpParser} {u u' : Session Bool}
    {w w' : Socket} {ok : Bool} (hu : Apart fs₀ u)
    (h : readLoop E fuel p u w = some (ok, p', u', w')) : Apart fs₀ u' := by
  induction fuel generalizing p u w with
  | zero =>
    rw [readLoop] at h
    split_ifs at h
    obtain ⟨-, -, rfl, -⟩ :=
      Prod.mk.injEq .. ▸ Prod.mk.injEq .. ▸ Prod.mk.injEq .. ▸ Option.some.inj h
    exact hu
  | succ fuel ih =>
    rw [readLoop] at h
    split_ifs at h
    · obtain ⟨-, -, rfl, -⟩ :=
        Prod.mk.injEq .. ▸ Prod.mk.injEq .. ▸ Prod.mk.injEq .. ▸ Option.some.inj h
      exact hu
    generalize w.read 1024 = x at h
    obtain ⟨chunk, w₁⟩ := x
    dsimp only at h
    split_ifs at h
    · obtain ⟨-, -, rfl, -⟩ :=
        Prod.mk.injEq .. ▸ Prod.mk.injEq .. ▸ Prod.mk.injEq .. ▸ Option.some.inj h
      exact hu
    obtain ⟨⟨e, q, v⟩, ha, hb⟩ := Option.bind_eq_some_iff.mp h
    obtain ⟨⟨n, q', v'⟩, hx, he⟩ := Option.map_eq_some_iff.mp ha
    obtain ⟨-, rfl, rfl⟩ := Prod.mk.injEq .. ▸ Prod.mk.injEq .. ▸ he
    have hv := execute_all (keeps_apart h₀) hu chunk n q' v' hx
    dsimp only at hb
    split_ifs at hb
    · obtain ⟨-, -, rfl, -⟩ :=
        Prod.mk.injEq .. ▸ Prod.mk.injEq .. ▸ Prod.mk.injEq .. ▸ Option.some.inj hb
      exact hv
    · exact ih hv hb

/-- The wait destroys its reply, with the file of it. -/
theorem waitFor100_same {c c' : Client} {s s' : System} {ok : Bool} (h₀ : s.fs.Made)
    (h : c.waitFor100 E s = some (ok, c', s')) {fd : ℤ} (hp : 0 < fd) : s.fs.Same s'.fs fd := by
  obtain ⟨⟨ok', p, u, w⟩, hr, he⟩ := Option.map_eq_some_iff.mp h
  obtain ⟨-, -, rfl⟩ := Prod.mk.injEq .. ▸ Prod.mk.injEq .. ▸ he
  exact (readLoop_apart h₀ ⟨rfl, .new s.fs⟩ hr).body.clear hp

end Client

end Stutter
