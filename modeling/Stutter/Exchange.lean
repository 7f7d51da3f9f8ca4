import Stutter.Sending
import Stutter.Temporary

namespace Stutter

open Joyent

namespace Socket

variable {W : Strategy} {s s' s'' : Socket} {p q : Bytes}

/-- What a socket has done since: it has written `p`, and read nothing. -/
structure Wrote (s s' : Socket) (p : Bytes) : Prop where
  inbox : s'.inbox = s.inbox
  log : s.log <+: s'.log
  out : s'.out = s.out ++ p

theorem Wrote.refl (s : Socket) : s.Wrote s [] :=
  ⟨rfl, List.prefix_refl _, (List.append_nil _).symm⟩

theorem Wrote.trans (h : s.Wrote s' p) (h' : s'.Wrote s'' q) : s.Wrote s'' (p ++ q) :=
  ⟨h'.inbox.trans h.inbox, h.log.trans h'.log, by rw [h'.out, h.out, List.append_assoc]⟩

/-- One write that took bytes. -/
theorem Wrote.one (s : Socket) (p : Bytes) (t : ℕ) :
    s.Wrote { s with turn := t, log := s.log ++ [.wrote p] } p :=
  ⟨rfl, List.prefix_append .., out_wrote s p t⟩

/-- A `send_raw` that succeeds has written everything. -/
theorem writeLoop_wrote {fuel : ℕ} (h : writeLoop W fuel s p = (true, s')) : s.Wrote s' p := by
  induction fuel generalizing s p with
  | zero =>
    cases p with
    | nil =>
      obtain ⟨-, rfl⟩ := Prod.mk.injEq .. ▸ h
      exact .refl s
    | cons ch p => cases congrArg Prod.fst h
  | succ fuel ih =>
    cases p with
    | nil =>
      obtain ⟨-, rfl⟩ := Prod.mk.injEq .. ▸ h
      exact .refl s
    | cons ch p =>
      rw [writeLoop, write] at h
      swap
      · simp
      dsimp only at h
      generalize min (W.write s.turn (ch :: p).length) ((ch :: p).length : ℤ) = n at h
      by_cases h0 : n ≤ 0
      · rw [if_pos h0] at h
        cases congrArg Prod.fst h
      rw [if_neg h0, if_pos (not_le.mp h0)] at h
      have hw := (Wrote.one s ((ch :: p).take n.toNat) (s.turn + 1)).trans (ih h)
      rwa [List.take_append_drop] at hw

theorem sendRaw_wrote (h : s.sendRaw W p = (true, s')) : s.Wrote s' p := writeLoop_wrote h

/-- Behind the end of the file nothing is sent. -/
theorem sendfileLoop_behind (W : Strategy) {file : Bytes} {offset remain : ℕ}
    (ho : file.length ≤ offset) (hr : 0 < remain) (fuel : ℕ) (s : Socket) :
    ∃ s', sendfileLoop W file fuel s offset remain = (false, s') ∧ s'.inbox = s.inbox ∧
      s.log <+: s'.log ∧ s'.out = s.out := by
  obtain ⟨k, rfl⟩ : ∃ k, remain = k + 1 := ⟨remain - 1, by omega⟩
  cases fuel with
  | zero => exact ⟨s, rfl, rfl, List.prefix_refl _, rfl⟩
  | succ fuel =>
    have hmin : min (W.sendfile s.turn (k + 1)) (([] : Bytes).length : ℤ) ≤ 0 := min_le_right _ _
    rw [sendfileLoop, sendfile]
    swap
    · exact Nat.succ_ne_zero k
    rw [List.drop_eq_nil_of_le ho, List.take_nil]
    dsimp only
    rw [if_pos hmin, if_neg (not_lt.mpr hmin)]
    exact ⟨_, rfl, rfl, List.prefix_refl _, rfl⟩

/-- Where `sendfile` takes all it is asked for, the first call of the loop decides. -/
theorem sendfileLoop_first (hW : ∀ turn (n : ℕ), (n : ℤ) ≤ W.sendfile turn n) (file : Bytes) (n : ℕ)
    (s : Socket) : ∃ s', sendfileLoop W file (n + 1) s 0 (n + 1) =
        (decide ((file.take (n + 1)).length = n + 1), s') ∧ s'.inbox = s.inbox ∧
      s.log <+: s'.log ∧ s'.out = s.out ++ file.take (n + 1) := by
  have hmin : min (W.sendfile s.turn (n + 1)) (((file.drop 0).take (n + 1)).length : ℤ) =
      ((file.take (n + 1)).length : ℤ) := by
    have hle := hW s.turn (n + 1)
    rw [List.drop_zero, List.length_take]
    omega
  rw [sendfileLoop, sendfile]
  swap
  · exact Nat.succ_ne_zero n
  dsimp only
  rw [hmin, Int.toNat_natCast, List.drop_zero, List.take_length]
  by_cases h0 : ((file.take (n + 1)).length : ℤ) ≤ 0
  · have hnil : file.take (n + 1) = [] := List.eq_nil_of_length_eq_zero (by omega)
    rw [if_pos h0, if_neg (not_lt.mpr h0), hnil]
    exact ⟨_, rfl, rfl, List.prefix_refl _, (List.append_nil _).symm⟩
  rw [if_neg h0, if_pos (not_le.mp h0)]
  have hout := Wrote.one s (file.take (n + 1)) (s.turn + 1)
  by_cases hlen : (file.take (n + 1)).length = n + 1
  · rw [decide_eq_true hlen, hlen, Nat.sub_self]
    exact ⟨_, by cases n <;> rfl, hout.inbox, hout.log, hout.out⟩
  · -- the next call is behind the end of the file, and takes nothing
    rw [List.length_take] at h0 hlen
    obtain ⟨s', hloop, hinbox, hlog, hsame⟩ := sendfileLoop_behind W
      (show file.length ≤ 0 + (file.take (n + 1)).length + (file.take (n + 1)).length by
        rw [List.length_take]; omega)
      (show 0 < n + 1 - (file.take (n + 1)).length by rw [List.length_take]; omega) n
      { s with turn := s.turn + 1, log := s.log ++ [.wrote (file.take (n + 1))] }
    rw [decide_eq_false (by rwa [List.length_take])]
    exact ⟨s', hloop, hinbox.trans hout.inbox, hout.log.trans hlog, hsame.trans hout.out⟩

/-- What is sent of a body on disk, and whether that is all. -/
theorem sendBufferedBody_out (hW : ∀ turn (n : ℕ), (n : ℤ) ≤ W.sendfile turn n) (s : Socket)
    (b : Body)
    (fs : Fs) : s.Wrote (s.sendBufferedBody W fs b).2 ((b.file fs).take b.sizeOnDisk) := by
  rw [sendBufferedBody, Body.file]
  by_cases hfd : b.fd ≤ 0
  · rw [if_pos hfd, if_neg (not_lt.mpr hfd), List.take_nil]
    exact .refl s
  rw [if_neg hfd, if_pos (not_le.mp hfd)]
  cases b.sizeOnDisk with
  | zero =>
    rw [sendfileLoop]
    exact .refl s
  | succ n =>
    obtain ⟨s', hloop, hinbox, hlog, hout⟩ := sendfileLoop_first hW (fs.contents b.fd) n s
    rw [hloop]
    exact ⟨hinbox, hlog, hout⟩

/-- A part on disk that is sent is sent whole. -/
theorem sendBufferedBody_wrote (hW : ∀ turn (n : ℕ), (n : ℤ) ≤ W.sendfile turn n) {b : Body}
    {fs : Fs}
    (h : s.sendBufferedBody W fs b = (true, s')) :
    s.Wrote s' ((b.file fs).take b.sizeOnDisk) := by
  have hw := sendBufferedBody_out hW s b fs
  rwa [h] at hw

/-- What a socket has done since: it has read, and written nothing. -/
structure Read (s s' : Socket) : Prop where
  log : s.log <+: s'.log
  out : s'.out = s.out

theorem read_read (s : Socket) (size : ℕ) : s.Read (s.read size).2 := by
  rw [read]
  cases s.inbox with
  | nil => exact ⟨List.prefix_refl _, rfl⟩
  | cons p rest =>
    refine ⟨List.prefix_append .., ?_⟩
    rw [out, List.flatMap_append]
    exact List.append_nil _

theorem Read.trans (h : s.Read s') (h' : s'.Read s'') : s.Read s'' :=
  ⟨h.log.trans h'.log, h'.out.trans h.out⟩

end Socket

namespace Client

variable {E : Env} {W : Strategy} {N : Network} {c c' : Client} {s s' : System} {r r' : Request}

theorem readLoop_read {fuel : ℕ} {p p' : HttpParser} {u u' : Session Bool} {w w' : Socket}
    {ok : Bool}
    (h : readLoop E fuel p u w = some (ok, p', u', w')) : w.Read w' := by
  induction fuel generalizing p u w with
  | zero =>
    rw [readLoop] at h
    split_ifs at h
    obtain ⟨-, -, -, rfl⟩ :=
      Prod.mk.injEq .. ▸ Prod.mk.injEq .. ▸ Prod.mk.injEq .. ▸ Option.some.inj h
    exact ⟨List.prefix_refl _, rfl⟩
  | succ fuel ih =>
    rw [readLoop] at h
    split_ifs at h
    · obtain ⟨-, -, -, rfl⟩ :=
        Prod.mk.injEq .. ▸ Prod.mk.injEq .. ▸ Prod.mk.injEq .. ▸ Option.some.inj h
      exact ⟨List.prefix_refl _, rfl⟩
    have hr := w.read_read 1024
    generalize w.read 1024 = x at h hr
    obtain ⟨chunk, w₁⟩ := x
    dsimp only at h
    split_ifs at h
    · obtain ⟨-, -, -, rfl⟩ :=
        Prod.mk.injEq .. ▸ Prod.mk.injEq .. ▸ Prod.mk.injEq .. ▸ Option.some.inj h
      exact hr
    obtain ⟨⟨e, q, v⟩, -, hb⟩ := Option.bind_eq_some_iff.mp h
    dsimp only at hb
    split_ifs at hb
    · obtain ⟨-, -, -, rfl⟩ :=
        Prod.mk.injEq .. ▸ Prod.mk.injEq .. ▸ Prod.mk.injEq .. ▸ Option.some.inj hb
      exact hr
    · exact hr.trans (ih hb)

theorem connect_spec {ok : Bool} (h : c.connect N s = (ok, c', s')) :
    s'.wires = s.wires ∧ s'.fs = s.fs ∧ c'.host = c.host := by
  rw [connect] at h
  generalize (c.pool s).get N c.fd s.sockets = x at h
  obtain ⟨ok', pool, fd, sockets⟩ := x
  obtain ⟨-, rfl, rfl⟩ := Prod.mk.injEq .. ▸ Prod.mk.injEq .. ▸ h
  exact ⟨rfl, rfl, rfl⟩

theorem sendHeaders_spec (h : c.sendHeaders W s r = (true, s')) :
    ∃ w, (s.wires c.fd).Wrote w r.message.data ∧ s' = s.setWire c.fd w := by
  rw [sendHeaders] at h
  generalize hx : (s.wires c.fd).sendRaw W r.message.data = x at h
  obtain ⟨ok, w⟩ := x
  obtain ⟨rfl, rfl⟩ := Prod.mk.injEq .. ▸ h
  exact ⟨w, Socket.sendRaw_wrote hx, rfl⟩

theorem waitFor100_spec (h : c.waitFor100 E s = some (true, c', s')) : c'.fd = c.fd ∧
    ∃ p u w, readReply E .new s.fs (s.wires c.fd) = some (true, p, u, w) ∧ u.reply.code = 100 ∧
      s'.wires = Function.update s.wires c.fd w := by
  obtain ⟨⟨ok, p, u, w⟩, hr, he⟩ := Option.map_eq_some_iff.mp h
  obtain ⟨hok, rfl, rfl⟩ := Prod.mk.injEq .. ▸ Prod.mk.injEq .. ▸ he
  obtain ⟨rfl, hcode⟩ := (Bool.and_eq_true ..).mp hok
  exact ⟨rfl, p, u, w, hr, of_decide_eq_true hcode, rfl⟩

theorem sendBody_spec (hW : ∀ turn (n : ℕ), (n : ℤ) ≤ W.sendfile turn n)
    (h : c.sendBody W s r = (true, s')) : ∃ w, (s.wires c.fd).Wrote w
      ((if r.require100 = true then r.message.body.data else []) ++
        (r.message.body.file s.fs).take r.message.body.sizeOnDisk) ∧ s' = s.setWire c.fd w := by
  have hfirst : ∃ w, (if r.require100 then (s.wires c.fd).sendRaw W r.message.body.data
        else (true, s.wires c.fd)) = (true, w) ∧
      (s.wires c.fd).Wrote w (if r.require100 = true then r.message.body.data else []) ∧
      ((w.sendBufferedBody W s.fs r.message.body).1,
        s.setWire c.fd (w.sendBufferedBody W s.fs r.message.body).2) = (true, s') := by
    rw [sendBody] at h
    dsimp only at h
    by_cases hq : r.require100 = true
    · rw [if_pos hq] at h ⊢
      generalize hx : (s.wires c.fd).sendRaw W r.message.body.data = x at h
      obtain ⟨_ | _, w⟩ := x
      · cases congrArg Prod.fst h
      · rw [if_pos hq]
        exact ⟨w, rfl, Socket.sendRaw_wrote hx, h⟩
    · rw [if_neg hq] at h ⊢
      rw [if_neg hq]
      exact ⟨_, rfl, .refl _, h⟩
  obtain ⟨w, -, hw, hr⟩ := hfirst
  generalize hx : w.sendBufferedBody W s.fs r.message.body = x at hr
  obtain ⟨ok, w'⟩ := x
  obtain ⟨rfl, rfl⟩ := Prod.mk.injEq .. ▸ hr
  exact ⟨w', hw.trans (Socket.sendBufferedBody_wrote hW hx), rfl⟩

theorem receive_spec {reply reply' : Reply} {ok : Bool}
    (h : c.receive E s reply = some (ok, c', s', reply')) :
    c'.fd = c.fd ∧ ∃ p u w, readReply E reply s.fs (s.wires c.fd) = some (ok, p, u, w) ∧
      u.reply = reply' ∧ u.fs = s'.fs ∧ s'.wires = Function.update s.wires c.fd w := by
  obtain ⟨⟨ok', p, u, w⟩, hr, he⟩ := Option.map_eq_some_iff.mp h
  obtain ⟨rfl, rfl, rfl, rfl⟩ := Prod.mk.injEq .. ▸ Prod.mk.injEq .. ▸ Prod.mk.injEq .. ▸ he
  exact ⟨rfl, p, u, w, hr, rfl, rfl, rfl⟩

/-- A `send` that gets to the response, step by step. -/
theorem ask_none (h : c.ask E W N s r = some (none, c', s', r')) :
    r' = (r.setHost c.host).prepare ∧ ∃ c₁ s₁ s₂ s₃,
      connect N { c with done := false } s = (true, c₁, s₁) ∧
      c₁.sendHeaders W s₁ r' = (true, s₂) ∧
      (if r'.require100 then c₁.waitFor100 E s₂ else some (true, c₁, s₂)) = some (true, c', s₃) ∧
      c'.sendBody W s₃ r' = (true, s') := by
  rw [ask] at h
  dsimp only at h
  generalize connect N { c with done := false } s = x at h
  obtain ⟨_ | _, c₁, s₁⟩ := x <;> dsimp only at h
  · cases congrArg Prod.fst (Option.some.inj h)
  generalize hh : c₁.sendHeaders W s₁ (r.setHost c.host).prepare = y at h
  obtain ⟨_ | _, s₂⟩ := y <;> dsimp only at h
  · cases congrArg Prod.fst (Option.some.inj h)
  obtain ⟨⟨ok, c₃, s₃⟩, hw, hr⟩ := Option.map_eq_some_iff.mp h
  cases ok with
  | false => cases congrArg Prod.fst hr
  | true =>
    dsimp only at hr
    generalize hb : c₃.sendBody W s₃ (r.setHost c.host).prepare = z at hr
    obtain ⟨_ | _, s₄⟩ := z
    · cases congrArg Prod.fst hr
    obtain ⟨-, rfl, rfl, rfl⟩ := Prod.mk.injEq .. ▸ Prod.mk.injEq .. ▸ Prod.mk.injEq .. ▸ hr
    exact ⟨rfl, c₁, s₁, s₂, s₃, rfl, hh, hw, hb⟩

/-- A `send` that succeeds has got to the response, and has received it. -/
theorem send_true {reply reply' : Reply}
    (h : c.send E W N s r reply = some (true, c', s', r', reply')) : ∃ c₁ s₁ s₂,
      c.ask E W N s r = some (none, c₁, s₁, r') ∧
      c₁.receive E s₁ reply = some (true, c', s₂, reply') ∧ s' = c'.releaseSocket s₂ := by
  obtain ⟨⟨e, c₁, s₁, r₁⟩, ha, hr⟩ := Option.bind_eq_some_iff.mp h
  cases e with
  | some e => cases congrArg Prod.fst (Option.some.inj hr)
  | none =>
    obtain ⟨⟨ok, c₂, s₂, reply₂⟩, hrec, he⟩ := Option.map_eq_some_iff.mp hr
    cases ok with
    | false => cases congrArg Prod.fst he
    | true =>
      obtain ⟨-, rfl, rfl, rfl, rfl⟩ := Prod.mk.injEq .. ▸ Prod.mk.injEq .. ▸ Prod.mk.injEq .. ▸
        Prod.mk.injEq .. ▸ he
      exact ⟨c₁, s₁, s₂, ha, hrec, rfl⟩

end Client

end Stutter
