import Stutter.Sending

namespace Stutter

/-- A socket, with the slices that were offered to `safe_write`. -/
structure Offering where
  socket : Socket
  offers : List Bytes

namespace Offering

/-- `safe_write`. -/
def safeWrite (W : Strategy) (s : Offering) (p : Bytes) : ℤ × Offering :=
  match s.socket.write W p with
  | (ret, socket) => (ret, ⟨socket, s.offers ++ [p]⟩)

theorem safeWrite_spec (W : Strategy) (s : Offering) {p : Bytes} {ret : ℤ} {s' : Offering}
    (h : s.safeWrite W p = (ret, s')) : ret ≤ p.length ∧ s'.offers = s.offers ++ [p] ∧
      s.socket.write W p = (ret, s'.socket) ∧
      s'.socket.out = s.socket.out ++ p.take ret.toNat := by
  have hlog : (s.socket.write W p).2.out =
      s.socket.out ++ p.take (s.socket.write W p).1.toNat := by
    rw [Socket.write]
    dsimp only
    split_ifs with h0
    · exact Socket.out_wrote ..
    · rw [Int.toNat_of_nonpos (not_lt.mp h0), List.take_zero, List.append_nil]
      rfl
  have hle : (s.socket.write W p).1 ≤ p.length := min_le_right ..
  rw [safeWrite] at h
  generalize s.socket.write W p = x at h hlog hle
  obtain ⟨r, socket⟩ := x
  obtain ⟨rfl, rfl⟩ := Prod.mk.injEq .. ▸ h
  exact ⟨hle, rfl, rfl, hlog⟩

end Offering

/-- The loop of `IOStrategy::send_raw`, with `done` bytes written; `none` if the fuel runs out. -/
def IOStrategy.sendRawLoop (W : Strategy) (data : Bytes) (sz : ℕ) :
    ℕ → ℕ → Offering → Option (Bool × Offering)
  | fuel, done, s =>
    if done = sz then some (true, s)
    else match fuel with
    | 0 => none
    | fuel + 1 =>
      match s.safeWrite W ((data.drop done).take (sz - done)) with
      | (ret, s) =>
        if ret ≤ 0 then some (false, s) else sendRawLoop W data sz fuel (done + ret.toNat) s

def IOStrategy.sendRaw (W : Strategy) (fuel : ℕ) (s : Offering) (data : Bytes) :
    Option (Bool × Offering) :=
  sendRawLoop W data data.length fuel 0 s

/-- The loop of `Connection::send_headers`; the iterator is what it has before it. -/
def Connection.sendHeadersLoop (W : Strategy) : ℕ → Bytes → Offering → Option (Bool × Offering)
  | fuel, i, s =>
    if i = [] then some (true, s)
    else match fuel with
    | 0 => none
    | fuel + 1 =>
      match s.safeWrite W i with
      | (sent, s) =>
        if sent ≤ 0 then some (false, s) else sendHeadersLoop W fuel (i.drop sent.toNat) s

def Connection.sendHeadersOf (W : Strategy) (fuel : ℕ) (s : Offering) (r : Reply) :
    Option (Bool × Offering) :=
  sendHeadersLoop W fuel r.message.data s

namespace WriteLoops

variable {W : Strategy}

/-- The index and the iterator stand at the same byte. -/
theorem sendRawLoop_eq {data : Bytes} (fuel : ℕ) {done : ℕ} (hd : done ≤ data.length)
    (s : Offering) : IOStrategy.sendRawLoop W data data.length fuel done s =
      Connection.sendHeadersLoop W fuel (data.drop done) s := by
  have hend : data.drop done = [] ↔ done = data.length := by
    rw [List.drop_eq_nil_iff]
    omega
  induction fuel generalizing done s with
  | zero =>
    rw [IOStrategy.sendRawLoop, Connection.sendHeadersLoop]
    split_ifs with h₁ h₂ h₂
    · rfl
    · exact absurd (hend.mpr h₁) h₂
    · exact absurd (hend.mp h₂) h₁
    · rfl
  | succ fuel ih =>
    rw [IOStrategy.sendRawLoop, Connection.sendHeadersLoop]
    by_cases h : done = data.length
    · rw [if_pos h, if_pos (hend.mpr h)]
    rw [if_neg h, if_neg fun hnil => h (hend.mp hnil)]
    have hslice : (data.drop done).take (data.length - done) = data.drop done := by
      rw [← List.length_drop, List.take_length]
    rw [hslice]
    generalize hw : s.safeWrite W (data.drop done) = x
    obtain ⟨ret, s'⟩ := x
    obtain ⟨hle, -⟩ := s.safeWrite_spec W hw
    rw [List.length_drop] at hle
    dsimp only
    by_cases h0 : ret ≤ 0
    · rw [if_pos h0, if_pos h0]
    · have hd' : done + ret.toNat ≤ data.length := by omega
      rw [if_neg h0, if_neg h0, List.drop_drop]
      apply ih hd'
      rw [List.drop_eq_nil_iff]
      omega

theorem sendHeadersLoop_nil (fuel : ℕ) (s : Offering) :
    Connection.sendHeadersLoop W fuel [] s = some (true, s) := by
  cases fuel <;> rw [Connection.sendHeadersLoop, if_pos rfl]

/-- What the loop of `send_headers` does: it ends, and has written what its result says. -/
theorem sendHeadersLoop_spec {fuel : ℕ} {i : Bytes} (hf : i.length ≤ fuel) (s : Offering) :
    ∃ ok s' sent, (∀ more, Connection.sendHeadersLoop W (fuel + more) i s = some (ok, s')) ∧
      s'.socket.out = s.socket.out ++ sent ∧ sent <+: i ∧ (ok = true ↔ sent = i) ∧
      s.socket.writeLoop W fuel i = (ok, s'.socket) := by
  induction fuel generalizing i s with
  | zero =>
    obtain rfl := List.length_eq_zero_iff.mp (Nat.le_zero.mp hf)
    exact ⟨true, s, [], fun more => sendHeadersLoop_nil _ s, (List.append_nil _).symm,
      List.nil_prefix, iff_of_true rfl rfl, rfl⟩
  | succ fuel ih =>
    by_cases hi : i = []
    · subst hi
      exact ⟨true, s, [], fun more => sendHeadersLoop_nil _ s, (List.append_nil _).symm,
        List.nil_prefix, iff_of_true rfl rfl, rfl⟩
    generalize hw : s.safeWrite W i = x
    obtain ⟨ret, s₁⟩ := x
    obtain ⟨hle, -, hwrite, hout⟩ := s.safeWrite_spec W hw
    have hrun : ∀ more, Connection.sendHeadersLoop W (fuel + 1 + more) i s = if ret ≤ 0 then
        some (false, s₁) else Connection.sendHeadersLoop W (fuel + more) (i.drop ret.toNat) s₁ := by
      intro more
      rw [Nat.succ_add, Connection.sendHeadersLoop, if_neg hi]
      dsimp only
      rw [hw]
    have hloop : s.socket.writeLoop W (fuel + 1) i = if ret ≤ 0 then (false, s₁.socket)
        else s₁.socket.writeLoop W fuel (i.drop ret.toNat) := by
      rw [Socket.writeLoop.eq_def]
      cases i with
      | nil => exact absurd rfl hi
      | cons ch i =>
        dsimp only
        rw [hwrite]
    by_cases h0 : ret ≤ 0
    · refine ⟨false, s₁, [], fun more => (hrun more).trans (if_pos h0), ?_, List.nil_prefix,
        iff_of_false Bool.false_ne_true (Ne.symm hi), hloop.trans (if_pos h0)⟩
      rw [hout, Int.toNat_of_nonpos h0, List.take_zero]
    · obtain ⟨ok, s', sent, hrest, hout', hpre, hok, hsock⟩ := ih (i := i.drop ret.toNat) (by
        rw [List.length_drop]
        omega) s₁
      have hsplit : i = i.take ret.toNat ++ i.drop ret.toNat := (List.take_append_drop ..).symm
      refine ⟨ok, s', i.take ret.toNat ++ sent,
        fun more => (hrun more).trans ((if_neg h0).trans (hrest more)), ?_, ?_, ?_,
        hloop.trans ((if_neg h0).trans hsock)⟩
      · rw [hout', hout, List.append_assoc]
      · obtain ⟨t, ht⟩ := hpre
        refine ⟨t, ?_⟩
        rw [List.append_assoc, ht, ← hsplit]
      · rw [hok]
        constructor
        · intro h
          rw [h, ← hsplit]
        · intro h
          exact List.append_cancel_left (h.trans hsplit)

/-- The two loops do the same, end, and say whether they have written the whole block; what they do
is `Socket.sendRaw`. -/
theorem loops_agree (W : Strategy) (s : Offering) (r : Reply) : ∃ ok s' sent,
    (∀ fuel, r.message.data.length ≤ fuel →
      IOStrategy.sendRaw W fuel s r.message.data = some (ok, s') ∧
      Connection.sendHeadersOf W fuel s r = some (ok, s')) ∧
    s'.socket.out = s.socket.out ++ sent ∧ sent <+: r.message.data ∧
    (ok = true ↔ sent = r.message.data) ∧ s.socket.sendRaw W r.message.data = (ok, s'.socket) := by
  obtain ⟨ok, s', sent, hrun, hout, hpre, hok, hsock⟩ :=
    sendHeadersLoop_spec (W := W) (i := r.message.data) le_rfl s
  have hheaders : ∀ fuel, r.message.data.length ≤ fuel →
      Connection.sendHeadersOf W fuel s r = some (ok, s') := by
    intro fuel hf
    have h := hrun (fuel - r.message.data.length)
    rwa [Nat.add_sub_of_le hf] at h
  refine ⟨ok, s', sent, fun fuel hf => ⟨?_, hheaders fuel hf⟩, hout, hpre, hok, hsock⟩
  rw [IOStrategy.sendRaw, sendRawLoop_eq fuel (Nat.zero_le _), List.drop_zero]
  exact hheaders fuel hf

/-- Short writes, and one that fails. -/
example : (IOStrategy.sendRaw ⟨fun n _ => [2, 1, 0].getD n 9, fun _ _ => 0⟩ 5
    ⟨.new [], []⟩ [1, 2, 3, 4, 5]).map (fun x => (x.1, x.2.offers, x.2.socket.out)) =
      some (false, [[1, 2, 3, 4, 5], [3, 4, 5], [4, 5]], [1, 2, 3]) := by decide

end WriteLoops

end Stutter
