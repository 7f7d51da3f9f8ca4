import Stutter.Connection

namespace Stutter

/-- Writes that take a byte at least, and a `sendfile` that takes all it is asked for. -/
structure Strategy.Full (W : Strategy) : Prop where
  write : ∀ turn n, 0 < n → 0 < W.write turn n
  sendfile : ∀ turn (n : ℕ), (n : ℤ) ≤ W.sendfile turn n

namespace Socket

variable {W : Strategy}

theorem out_wrote (s : Socket) (p : Bytes) (t : ℕ) :
    out { s with turn := t, log := s.log ++ [.wrote p] } = s.out ++ p := by
  simp only [out, List.flatMap_append, List.flatMap_cons, List.flatMap_nil, Event.written,
    List.append_nil]

/-- `send_raw` sends everything, in one write or in many. -/
theorem writeLoop_full (hW : W.Full) {fuel : ℕ} {p : Bytes} (hf : p.length ≤ fuel) (s : Socket) :
    ∃ s', writeLoop W fuel s p = (true, s') ∧ s'.out = s.out ++ p := by
  induction fuel generalizing p s with
  | zero =>
    obtain rfl := List.length_eq_zero_iff.mp (Nat.le_zero.mp hf)
    exact ⟨s, rfl, (List.append_nil _).symm⟩
  | succ fuel ih =>
    rcases p with _ | ⟨ch, p⟩
    · exact ⟨s, rfl, (List.append_nil _).symm⟩
    have hw := hW.write s.turn (ch :: p).length (by simp)
    rw [writeLoop, write]
    swap
    · simp
    dsimp only
    generalize hn : min (W.write s.turn (ch :: p).length) ((ch :: p).length : ℤ) = n
    have h0 : 0 < n := hn ▸ lt_min hw (by simp)
    rw [if_pos h0, if_neg h0.not_ge]
    obtain ⟨s', hr, ho⟩ := ih (p := (ch :: p).drop n.toNat) (by
      rw [List.length_drop]
      omega) { s with turn := s.turn + 1, log := s.log ++ [.wrote ((ch :: p).take n.toNat)] }
    exact ⟨s', hr, by rw [ho, out_wrote, List.append_assoc, List.take_append_drop]⟩

/-- The part of a body on disk is sent at once. -/
theorem sendBufferedBody_full (hW : W.Full) (s : Socket) {b : Body} {fs : Fs}
    (hb : b.sizeOnDisk ≤ (b.file fs).length) :
    ∃ s', s.sendBufferedBody W fs b = (true, s') ∧
      s'.out = s.out ++ (b.file fs).take b.sizeOnDisk := by
  rw [sendBufferedBody]
  rw [Body.file] at hb ⊢
  by_cases hfd : b.fd ≤ 0
  · rw [if_pos hfd, if_neg (not_lt.mpr hfd), List.take_nil]
    exact ⟨s, rfl, (List.append_nil _).symm⟩
  rw [if_pos (not_le.mp hfd)] at hb
  rw [if_neg hfd, if_pos (not_le.mp hfd)]
  generalize fs.contents b.fd = file at hb ⊢
  cases hn : b.sizeOnDisk with
  | zero => exact ⟨s, rfl, by rw [List.take_zero, List.append_nil]⟩
  | succ n =>
    have hlen : ((file.drop 0).take (n + 1)).length = n + 1 := by
      rw [List.drop_zero, List.length_take]
      omega
    have hmin : min (W.sendfile s.turn (n + 1)) ((n + 1 : ℕ) : ℤ) = (n + 1 : ℕ) :=
      min_eq_right (hW.sendfile ..)
    have hpos : ((n + 1 : ℕ) : ℤ) > 0 := by omega
    rw [sendfileLoop, sendfile]
    swap
    · exact Nat.succ_ne_zero n
    dsimp only
    rw [hlen, hmin, if_pos hpos, if_neg (not_le.mpr hpos), Int.toNat_natCast, Nat.sub_self,
      List.drop_zero, List.take_take, Nat.min_self]
    refine ⟨_, ?_, out_wrote s _ (s.turn + 1)⟩
    cases n <;> rfl

end Socket

/-- The bytes that a reply is on the wire: the buffer that `prepare` makes, then the file. -/
def Reply.wire (r : Reply) (fs : Fs) : Bytes := r.head ++ r.message.body.content fs

namespace Reply

@[simp] theorem body_prepareHeaders (r : Reply) : r.prepareHeaders.body = r.message.body := by
  rw [prepareHeaders]
  split_ifs <;> rfl

@[simp] theorem body_prepare (r : Reply) : r.prepare.message.body = r.message.body :=
  body_prepareHeaders r

@[simp] theorem data_prepare (r : Reply) :
    r.prepare.message.data = r.head ++ r.message.body.data := by
  rw [← body_prepareHeaders]
  rfl

end Reply

/-- The file behind the body has all that the body counts on disk. -/
def Body.Whole (b : Body) (fs : Fs) : Prop := b.sizeOnDisk ≤ (b.file fs).length

/-- A reply is sent as a whole, and once. -/
theorem Connection.send_full {W : Strategy} (hW : W.Full) (s : Socket) {fs : Fs} {r : Reply}
    (hb : r.message.body.Whole fs) :
    ∃ s', send W s fs r = (true, r.prepare, s') ∧ s'.out = s.out ++ r.wire fs := by
  obtain ⟨s₁, h₁, ho₁⟩ := Socket.writeLoop_full hW (p := r.prepare.message.data) le_rfl s
  obtain ⟨s₂, h₂, ho₂⟩ := s₁.sendBufferedBody_full hW hb
  refine ⟨s₂, ?_, ?_⟩
  · rw [send, sendHeaders, h₁]
    dsimp only
    rw [Reply.body_prepare, h₂]
  · rw [ho₂, ho₁, Reply.data_prepare, Reply.wire, Body.content]
    simp only [List.append_assoc]

end Stutter
