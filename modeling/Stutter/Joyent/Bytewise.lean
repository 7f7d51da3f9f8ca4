import Stutter.Joyent.Marks

namespace Stutter.Joyent

variable {σ : Type}

namespace Marks

theorem get_push (m : Marks) (bs : Bytes) (k : Mark) :
    (m.push bs).get k = (m.get k).map (· ++ bs) := by cases k <;> rfl

theorem push_set_none (m : Marks) (bs : Bytes) (k : Mark) :
    (m.push bs).set k .none = (m.set k .none).push bs := by cases k <;> rfl

theorem mark_push (m : Marks) (bs : Bytes) (k : Mark) :
    ((m.mark k).push bs).mark k = (m.mark k).push bs := by
  rcases m with ⟨_ | _, _ | _, _ | _, _ | _⟩ <;> cases k <;> rfl

theorem get_mark_isSome (m : Marks) (k : Mark) : ∃ frag, (m.mark k).get k = some frag := by
  rcases m with ⟨_ | _, _ | _, _ | _, _ | _⟩ <;> cases k <;> exact ⟨_, rfl⟩

end Marks

def Cfg.push (c : Cfg σ) (bs : Bytes) : Cfg σ := { c with marks := c.marks.push bs }

@[simp] theorem Cfg.push_parser (c : Cfg σ) (bs : Bytes) : (c.push bs).parser = c.parser := rfl

@[simp] theorem Cfg.push_user (c : Cfg σ) (bs : Bytes) : (c.push bs).user = c.user := rfl

/-- A turn that reads one byte, and the rest of the loop. -/
def Flow.andThen (S : Settings σ) (pos : ℕ) (ch : UInt8) (bs : Bytes) : Flow σ → Result σ
  | .next c skip => loop S (c.push [ch]) skip (pos + 1) bs
  | .fail c e => some (pos, { c.parser with httpErrno := e }, c.user)
  | .ret c adv => some (pos + adv, c.parser, c.user)
  | .abort => none

theorem loop_eq_andThen (S : Settings σ) (c : Cfg σ) (pos : ℕ) (ch : UInt8) (bs : Bytes) :
    loop S c 0 pos (ch :: bs) = (turn S c ch bs).andThen S pos ch bs := by
  rw [loop]
  cases turn S c ch bs <;> rfl

/-- The states that read more than one byte in a turn. -/
def State.bulk : State → Bool
  | .bodyIdentity | .bodyIdentityEof | .chunkData => true
  | _ => false

theorem exec_rest (S : Settings σ) (c : Cfg σ) (ch : UInt8) (rest : Bytes)
    (h : c.parser.state.bulk = false) : exec S c ch rest = exec S c ch [] := by
  cases hs : c.parser.state <;> simp only [exec, hs] <;> simp [hs, State.bulk] at h

theorem turn_rest (S : Settings σ) (c : Cfg σ) (ch : UInt8) (rest : Bytes)
    (h : c.parser.state.bulk = false) : turn S c ch rest = turn S c ch [] := by
  simp only [turn, exec_rest S c ch rest h, exec_rest S c.countByte ch rest h]

theorem turn_bulk (S : Settings σ) (c : Cfg σ) (ch : UInt8) (rest : Bytes)
    (h : c.parser.state.bulk = true) : turn S c ch rest = exec S c ch rest := by
  have hp : c.parser.state.parsingHeader = false := by
    revert h
    cases c.parser.state <;> simp [State.bulk, State.parsingHeader]
  simp [turn, hp]

/-- The turn that completes a message after `t + 1` bytes, from the byte after its first. -/
theorem completeMessage_andThen (S : Settings σ) (c : Cfg σ) (pos t : ℕ) (ch b : UInt8)
    (bs : Bytes) :
    (completeMessage S (t + 1 + 1) c (.next · (t + 1))).andThen S pos ch (b :: bs) =
      (completeMessage S (t + 1) (c.push [ch]) (.next · t)).andThen S (pos + 1) b bs := by
  have hpos : pos + (t + 1 + 1) = pos + 1 + (t + 1) := by omega
  simp only [completeMessage, callbackMessageComplete, Cfg.goto, Cfg.push, HttpParser.goto]
  by_cases he : c.parser.httpErrno = .ok
  · cases S.onMessageComplete { c.parser with state := c.parser.newMessage } c.user with
    | none => simp [he, Flow.andThen]
    | some r =>
      rcases r with ⟨r, p, u⟩
      by_cases hr :
          (if r ≠ 0 then { p with httpErrno := .cbMessageComplete } else p).httpErrno = .ok
      · simp only [he, hr, ne_eq, not_true_eq_false, if_false, Flow.andThen, loop]
        rfl
      · simp only [he, hr, ne_eq, not_true_eq_false, not_false_eq_true, if_false, if_true,
          Flow.andThen, hpos]
  · simp [he, Flow.andThen]

theorem callbackBody_andThen (S : Settings σ) (c : Cfg σ) (pos t : ℕ) (ch b : UInt8)
    (xs bs : Bytes) {frag : Bytes} (hf : c.marks.get .body = some frag) :
    (callbackData S .body (ch :: xs) (t + 1) c
        fun c => completeMessage S (t + 1 + 1) c (.next · (t + 1))).andThen S pos ch (b :: bs) =
      (callbackData S .body xs t (c.push [ch])
        fun c => completeMessage S (t + 1) c (.next · t)).andThen S (pos + 1) b bs := by
  have hp : (c.push [ch]).marks.get .body = some (frag ++ [ch]) := by
    simp [Cfg.push, Marks.get_push, hf]
  simp only [callbackData, hf, hp, Cfg.push_parser, Cfg.push_user, List.append_assoc,
    List.singleton_append]
  by_cases he : c.parser.httpErrno = .ok
  · by_cases hr : (S.onData .body (frag ++ ch :: xs) c.user).1 = 0
    · simp only [he, hr, ne_eq, not_true_eq_false, if_false]
      rw [completeMessage_andThen]
      simp only [Cfg.push, Marks.push_set_none]
    · simp only [he, hr, ne_eq, not_true_eq_false, not_false_eq_true, if_false, if_true,
        Flow.andThen]
      rw [show pos + (t + 1) = pos + 1 + t by omega]
  · simp [he, Flow.andThen]

theorem mark_andThen (S : Settings σ) (p p' : HttpParser) (u : σ) (m : Marks) (pos t : ℕ)
    (ch b : UInt8) (bs : Bytes) (h : p = p') :
    (Flow.next ⟨p, u, m⟩ (t + 1)).andThen S pos ch (b :: bs) =
      (Flow.next ⟨p', u, m.push [ch]⟩ t).andThen S (pos + 1) b bs := by
  subst h
  rfl

/-- With more than one byte left to read and to be had, a bulk read is one byte and the bulk read of
the next turn. -/
theorem bulk_split {n : ℕ} (hn : n ≤ ULLONG_MAX) (h0 : ¬ (n = 0 ∨ n = ULLONG_MAX)) (h1 : ¬ n = 1)
    (ch b : UInt8) (bs : Bytes) : ¬ (n - 1 = 0 ∨ n - 1 = ULLONG_MAX) ∧ min n 1 = 1 ∧
      ∃ t, min (n - 1) (List.length (b :: bs)) = t + 1 ∧
        min n (List.length (ch :: b :: bs)) = t + 1 + 1 ∧ n - (t + 1 + 1) = n - 1 - (t + 1) := by
  refine ⟨by omega, by omega, min (n - 1) (List.length (b :: bs)) - 1, ?_, ?_, ?_⟩ <;>
  · simp only [List.length_cons]
    omega

/-- Reading many bytes of an identity body at once is reading one byte, then the others. -/
theorem bodyIdentity_step (S : Settings σ) (c : Cfg σ) (pos : ℕ) (ch : UInt8) (bs : Bytes)
    (hc : c.parser.contentLength ≤ ULLONG_MAX) (hs : c.parser.state = .bodyIdentity) :
    (bodyIdentity S c ch bs).andThen S pos ch bs =
      (bodyIdentity S c ch []).andThen S pos ch bs := by
  cases bs with
  | nil => rfl
  | cons b bs =>
    obtain ⟨frag, hf⟩ := Marks.get_mark_isSome c.marks .body
    by_cases h0 : c.parser.contentLength = 0 ∨ c.parser.contentLength = ULLONG_MAX
    · simp [bodyIdentity, h0]
    -- with one byte left both turns take just that
    by_cases h1 : c.parser.contentLength = 1
    · simp [bodyIdentity, h1]
    obtain ⟨h2, hfirst, t, ht, hmin, hn⟩ := bulk_split hc h0 h1 ch b bs
    have hone : bodyIdentity S c ch [] = .next { c.mark .body with parser :=
        { c.parser with contentLength := c.parser.contentLength - 1 } } 0 := by
      simp [bodyIdentity, h0, hfirst, Cfg.mark]
      omega
    -- the byte alone, and then the bulk read of the next turn
    rw [hone, Flow.andThen, loop_eq_andThen, turn_bulk, exec]
    · simp only [Cfg.push, hs]
      rw [bodyIdentity, bodyIdentity, if_neg h0, if_neg h2, hmin, ht]
      simp only [hn, Cfg.mark, Marks.mark_push, List.take_succ_cons, Nat.add_sub_cancel]
      split_ifs
      · rw [callbackBody_andThen S _ _ _ _ _ _ _ hf]
        simp only [Cfg.push, HttpParser.goto]
      · exact mark_andThen _ _ _ _ _ _ _ _ _ _ (by rw [← hs])
    · simp [Cfg.push, hs, State.bulk]

theorem chunkData_step (S : Settings σ) (c : Cfg σ) (pos : ℕ) (ch : UInt8) (bs : Bytes)
    (hc : c.parser.contentLength ≤ ULLONG_MAX) (hs : c.parser.state = .chunkData) :
    (chunkData c ch bs).andThen S pos ch bs = (chunkData c ch []).andThen S pos ch bs := by
  cases bs with
  | nil => rfl
  | cons b bs =>
    by_cases hch : c.parser.flags.chunked = false
    · simp [chunkData, hch]
    by_cases h0 : c.parser.contentLength = 0 ∨ c.parser.contentLength = ULLONG_MAX
    · simp [chunkData, h0, hch]
    by_cases h1 : c.parser.contentLength = 1
    · simp [chunkData, h1]
    obtain ⟨h2, hfirst, t, ht, hmin, hn⟩ := bulk_split hc h0 h1 ch b bs
    have hone : chunkData c ch [] = .next { c.mark .body with parser :=
        { c.parser with contentLength := c.parser.contentLength - 1 } } 0 := by
      simp [chunkData, h0, hch, hfirst, Cfg.mark]
      omega
    rw [hone, Flow.andThen, loop_eq_andThen, turn_bulk, exec]
    · simp only [Cfg.push, hs]
      rw [chunkData, chunkData, if_neg (by simpa using hch), if_neg h0, if_neg (by simpa using hch),
        if_neg h2, hmin, ht]
      simp only [hn, Cfg.mark, Marks.mark_push, Nat.add_sub_cancel]
      exact mark_andThen _ _ _ _ _ _ _ _ _ _ (by rw [← hs])
    · simp [Cfg.push, hs, State.bulk]

/-- The loop reads one byte after the other: the bulk reads of the bodies are a shortcut. -/
theorem loop_cons (S : Settings σ) (c : Cfg σ) (pos : ℕ) (ch : UInt8) (bs : Bytes)
    (hc : c.parser.contentLength ≤ ULLONG_MAX) :
    loop S c 0 pos (ch :: bs) = (turn S c ch []).andThen S pos ch bs := by
  rw [loop_eq_andThen]
  -- only in the bodies does a turn look at what follows its byte
  by_cases hb : c.parser.state.bulk = false
  · rw [turn_rest S c ch bs hb]
  · rw [Bool.not_eq_false] at hb
    rw [turn_bulk S c ch bs hb, turn_bulk S c ch [] hb, exec, exec]
    cases hs : c.parser.state <;> simp only [hs, State.bulk, Bool.false_eq_true] at hb
    · exact chunkData_step S c pos ch bs hc hs
    · exact bodyIdentity_step S c pos ch bs hc hs
    · cases bs with
      | nil => rfl
      | cons b bs =>
        simp only [List.length_cons, List.length_nil, Flow.andThen]
        rw [loop_eq_andThen, turn_bulk, exec]
        · simp only [Cfg.push, Cfg.mark, hs, Marks.mark_push]
          rfl
        · simp [Cfg.push, Cfg.mark, hs, State.bulk]

theorem leftover_shift (S : Settings σ) (len k : ℕ) (c : Cfg σ) :
    leftover S (len + k) c = (leftover S len c).map fun r => (r.1 + k, r.2) := by
  unfold leftover
  split_ifs
  · rfl
  dsimp only
  generalize callbackData S .headerField [] 0 c _ = flow
  cases flow with
  | next d skip => rfl
  | fail d e => rfl
  | ret d adv => exact congrArg (fun n => some (n, d.parser, d.user)) (Nat.add_right_comm ..)
  | abort => rfl

/-- The position counts the bytes that are read, and nothing else depends on it. -/
theorem loop_shift (S : Settings σ) (c : Cfg σ) (skip pos k : ℕ) (data : Bytes) :
    loop S c skip (pos + k) data = (loop S c skip pos data).map fun r => (r.1 + k, r.2) := by
  induction data generalizing c skip pos with
  | nil => cases skip <;> exact leftover_shift S pos k c
  | cons ch data ih =>
    have hpos : pos + k + 1 = pos + 1 + k := Nat.add_right_comm ..
    cases skip with
    | succ skip =>
      rw [loop, loop, hpos]
      exact ih ..
    | zero =>
      rw [loop_eq_andThen, loop_eq_andThen]
      cases turn S c ch data with
      | next d skip =>
        rw [Flow.andThen, Flow.andThen, hpos]
        exact ih ..
      | fail d e => rfl
      | ret d adv => exact congrArg (fun n => some (n, d.parser, d.user)) (Nat.add_right_comm ..)
      | abort => rfl

/-- Where a buffer is read to its end does not depend on what was read before. -/
theorem loop_all_iff {S : Settings σ} {c : Cfg σ} {pos pos' : ℕ} {data : Bytes}
    {t : HttpParser × σ} : loop S c 0 pos data = some (pos + data.length, t) ↔
      loop S c 0 pos' data = some (pos' + data.length, t) := by
  have h : ∀ k, loop S c 0 k data = some (k + data.length, t) ↔
      loop S c 0 0 data = some (data.length, t) := by
    intro k
    have hk := loop_shift S c 0 0 k data
    rw [Nat.zero_add] at hk
    rw [hk]
    constructor
    · intro h
      obtain ⟨⟨n, t'⟩, hl, he⟩ := Option.map_eq_some_iff.mp h
      obtain ⟨hn, rfl⟩ := Prod.mk.injEq .. ▸ he
      rw [hl, show n = data.length by omega]
    · intro h
      rw [h, Option.map_some, Nat.add_comm]
  exact (h pos).trans (h pos').symm

end Stutter.Joyent
