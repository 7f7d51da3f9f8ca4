import Stutter.Sending

namespace Stutter

namespace Socket

variable {W : Strategy}

/-- What `safe_sendfile` takes, with `done` bytes of `file` sent: the loop has moved the offset on
twice. -/
def found (file : Bytes) (done : ℕ) : Bytes := (file.drop (done + done)).take (file.length - done)

/-- Each call that takes bytes finds those that come next, although it looks for them at twice the
offset. -/
def Repeats (W : Strategy) (file : Bytes) : ℕ → ℕ → ℕ → Prop
  | 0, _, _ => True
  | fuel + 1, turn, done =>
    let p := found file done
    let ret := min (W.sendfile turn (file.length - done)) p.length
    ret ≤ 0 ∨ p.take ret.toNat = (file.drop done).take ret.toNat ∧
      Repeats W file fuel (turn + 1) (done + ret.toNat)

/-- One call, and what the loop does behind it. -/
theorem sendfileLoop_succ (W : Strategy) (file : Bytes) (fuel : ℕ) (s : Socket) {done : ℕ}
    (h : done < file.length) :
    sendfileLoop W file (fuel + 1) s (done + done) (file.length - done) =
      let p := found file done
      let ret := min (W.sendfile s.turn (file.length - done)) (p.length : ℤ)
      if ret ≤ 0 then (false, { s with turn := s.turn + 1 })
      else sendfileLoop W file fuel
        { s with turn := s.turn + 1, log := s.log ++ [.wrote (p.take ret.toNat)] }
        (done + ret.toNat + (done + ret.toNat)) (file.length - (done + ret.toNat)) := by
  obtain ⟨remain, hr⟩ : ∃ remain, file.length - done = remain + 1 :=
    ⟨file.length - done - 1, by omega⟩
  have ho : ∀ k, done + done + k + k = done + k + (done + k) := fun k => by omega
  rw [found, hr, sendfileLoop, sendfile]
  swap
  · exact Nat.succ_ne_zero _
  dsimp only
  generalize min (W.sendfile s.turn (remain + 1))
    (((file.drop (done + done)).take (remain + 1)).length : ℤ) = ret
  by_cases h0 : ret ≤ 0
  · rw [if_pos h0, if_pos h0, if_neg (not_lt.mpr h0)]
  · rw [if_neg h0, if_neg h0, if_pos (not_le.mp h0), ho, ← hr, Nat.sub_sub]

theorem prefix_step {file p sent : Bytes} {done k : ℕ} (hk : k ≤ p.length)
    (hp : done + p.length ≤ file.length) :
    p.take k ++ sent <+: file.drop done ↔
      p.take k = (file.drop done).take k ∧ sent <+: file.drop (done + k) := by
  have hl : (p.take k).length = k := by rw [List.length_take]; omega
  have hd : file.drop done = (file.drop done).take k ++ file.drop (done + k) := by
    rw [← List.drop_drop, List.take_append_drop]
  have hl' : ((file.drop done).take k).length = k := by
    rw [List.length_take, List.length_drop]
    omega
  constructor
  · rintro ⟨t, ht⟩
    rw [hd, List.append_assoc] at ht
    obtain ⟨h₁, h₂⟩ := List.append_inj ht (hl.trans hl'.symm)
    exact ⟨h₁, t, h₂⟩
  · rintro ⟨h₁, t, h₂⟩
    refine ⟨t, ?_⟩
    rw [List.append_assoc, h₂, h₁, ← hd]

/-- The loop of `send_buffered_body` with `done` bytes sent: it comes to its end, and `sent` is what
it still writes. -/
theorem sendfileLoop_spec (W : Strategy) (file : Bytes) {fuel done : ℕ}
    (hf : file.length ≤ fuel + done) (hd : done ≤ file.length) (s : Socket) :
    ∃ ok s' sent, (∀ more, sendfileLoop W file (fuel + more) s (done + done) (file.length - done) =
        (ok, s')) ∧ s'.out = s.out ++ sent ∧
      (ok = true → sent.length = file.length - done) ∧
      (ok = false → sent.length < file.length - done) ∧
      (Repeats W file fuel s.turn done ↔ sent <+: file.drop done) := by
  induction fuel generalizing done s with
  | zero =>
    have hz : file.length - done = 0 := by omega
    refine ⟨true, s, [], fun more => ?_, (List.append_nil _).symm, fun _ => hz.symm,
      fun hf => (by cases hf),
      iff_of_true trivial List.nil_prefix⟩
    rw [hz]
    cases 0 + more <;> rfl
  | succ fuel ih =>
    obtain hlt | rfl := hd.lt_or_eq
    swap
    · refine ⟨true, s, [], fun more => ?_, (List.append_nil _).symm, fun _ => by simp,
        fun hf => (by cases hf), ?_⟩
      · rw [Nat.sub_self, Nat.succ_add_eq_add_succ]
        rfl
      · refine iff_of_true (.inl ?_) List.nil_prefix
        rw [found, Nat.sub_self, List.take_zero]
        exact min_le_right _ _
    have hstep := fun more => sendfileLoop_succ W file (fuel + more) s hlt
    rw [Repeats]
    dsimp only at hstep ⊢
    have hfound : done + (found file done).length ≤ file.length := by
      rw [found, List.length_take]
      omega
    generalize hr : min (W.sendfile s.turn (file.length - done)) ((found file done).length : ℤ) =
      ret
      at hstep ⊢
    have hret : ret ≤ (found file done).length := hr ▸ min_le_right _ _
    by_cases h0 : ret ≤ 0
    · refine ⟨false, { s with turn := s.turn + 1 }, [], fun more => ?_, (List.append_nil _).symm,
        nofun, fun _ => by simpa using hlt, iff_of_true (.inl h0) List.nil_prefix⟩
      rw [Nat.succ_add, hstep, if_pos h0]
    · obtain ⟨ok, s', sent, hloop, hout, htrue, hfalse, hrep⟩ := ih
        (show file.length ≤ fuel + (done + ret.toNat) by omega) (by omega)
        { s with turn := s.turn + 1, log := s.log ++ [.wrote ((found file done).take ret.toNat)] }
      have hlen : ((found file done).take ret.toNat).length = ret.toNat := by
        rw [List.length_take]
        omega
      refine ⟨ok, s', (found file done).take ret.toNat ++ sent, fun more => ?_, ?_, fun h => ?_,
        fun h => ?_, ?_⟩
      · rw [Nat.succ_add, hstep, if_neg h0, hloop]
      · rw [hout, out_wrote, List.append_assoc]
      · rw [List.length_append, hlen, htrue h]
        omega
      · have := hfalse h
        rw [List.length_append, hlen]
        omega
      · rw [prefix_step (by omega) hfound, ← hrep, or_iff_right h0]

/-- What is expected of `send_buffered_body`: it comes to its end, says whether all was sent, and
has otherwise sent a part from the start. -/
structure Transmits (W : Strategy) (s : Socket) (fs : Fs) (b : Body) : Prop where
  ends : 0 < b.fd → ∀ more, sendfileLoop W (fs.contents b.fd)
    (b.sizeOnDisk + more) s 0 b.sizeOnDisk =
    s.sendBufferedBody W fs b
  sent : ∃ sent, (s.sendBufferedBody W fs b).2.out = s.out ++ sent ∧
    ((s.sendBufferedBody W fs b).1 = true ↔ sent = fs.contents b.fd) ∧
    ((s.sendBufferedBody W fs b).1 = false →
      sent <+: fs.contents b.fd ∧ sent ≠ fs.contents b.fd)

/-- The part of a body on disk is sent as it is, exactly if each call finds the bytes that come next
although the offset was moved on twice. -/
theorem transmits_iff {W : Strategy} {s : Socket} {fs : Fs} {b : Body}
    (h : (fs.contents b.fd).length = b.sizeOnDisk) : Transmits W s fs b ↔ b.sizeOnDisk = 0 ∨
      0 < b.fd ∧ Repeats W (fs.contents b.fd) b.sizeOnDisk s.turn 0 := by
  by_cases hfd : 0 < b.fd
  swap
  · have hs : s.sendBufferedBody W fs b = (true, s) := by
      rw [sendBufferedBody, if_pos (not_lt.mp hfd)]
    rw [or_iff_left fun hc => hfd hc.1, ← h]
    constructor
    · rintro ⟨-, sent, hout, htrue, -⟩
      rw [hs] at hout htrue
      rw [← htrue.mp rfl, List.self_eq_append_right.mp hout]
      rfl
    · intro hz
      refine ⟨fun hc => absurd hc hfd, [], ?_, ?_, ?_⟩
      · rw [hs, List.append_nil]
      · rw [hs, List.eq_nil_of_length_eq_zero hz]
        exact iff_of_true rfl rfl
      · rw [hs]
        intro hf
        cases hf
  obtain ⟨ok, s', sent, hloop, hout, htrue, hfalse, hrep⟩ := sendfileLoop_spec W (fs.contents b.fd)
    (show _ ≤ b.sizeOnDisk + 0 from h.le) (Nat.zero_le _) s
  rw [h] at hloop htrue hfalse
  have hs : s.sendBufferedBody W fs b = (ok, s') := by
    rw [sendBufferedBody, if_neg (not_le.mpr hfd)]
    exact hloop 0
  have hz : b.sizeOnDisk = 0 → Repeats W (fs.contents b.fd) b.sizeOnDisk s.turn 0 := fun hz => by
    rw [hz]
    trivial
  rw [and_iff_right hfd, or_iff_right_of_imp hz, hrep, List.drop_zero]
  constructor
  · rintro ⟨-, sent', hout', htrue', hfalse'⟩
    rw [hs] at hout' htrue' hfalse'
    obtain rfl := List.append_cancel_left (hout.symm.trans hout')
    cases ok with
    | true => exact (htrue'.mp rfl) ▸ List.prefix_rfl
    | false => exact (hfalse' rfl).1
  · intro hp
    refine ⟨fun _ more => (hloop more).trans hs.symm, sent, ?_, ?_, ?_⟩ <;> rw [hs]
    · exact hout
    · constructor
      · intro hok
        exact hp.eq_of_length ((htrue hok).trans h.symm)
      · rintro rfl
        cases ok with
        | true => rfl
        | false => exact absurd h (hfalse rfl).ne
    · intro hok
      refine ⟨hp, ?_⟩
      rintro rfl
      exact absurd h (hfalse hok).ne

/-- Four bytes behind the descriptor 3, and a body of them. -/
def fourBytes : Fs where
  files := fun _ => [1, 2, 3, 4]
  names := []
  opened := fun _ => ⟨0, 0, true⟩
  descs := [(3, 0)]
  nextInode := 1
  nextOpened := 1
  calls := 1
  idle := 0

def fourOnDisk : Body := ⟨[], [], 3, 4, false, Body.new.bounded, by decide⟩

theorem transmits_iff_whole : Transmits ⟨fun _ n => n, fun _ n => n⟩
    (.new []) fourBytes fourOnDisk ↔
    fourOnDisk.sizeOnDisk = 0 ∨ 0 < fourOnDisk.fd ∧ Repeats ⟨fun _ n => n, fun _ n => n⟩
      (fourBytes.contents fourOnDisk.fd) fourOnDisk.sizeOnDisk 0 0 :=
  transmits_iff (s := .new []) (by decide)

/-- With short counts every second byte is sent, and then it fails. -/
theorem transmits_skips : fourBytes.contents fourOnDisk.fd = [1, 2, 3, 4] ∧
    (((Socket.new []).sendBufferedBody ⟨fun _ n => n, fun _ _ => 1⟩ fourBytes fourOnDisk).1,
      ((Socket.new []).sendBufferedBody ⟨fun _ n => n, fun _ _ => 1⟩ fourBytes fourOnDisk).2.out) =
        (false, [1, 3]) := by
  decide

end Socket

end Stutter
