import Stutter.Joyent.Body
import Stutter.Joyent.Related
import Stutter.Joyent.Stops

namespace Stutter.Joyent

variable {σ : Type} {S : Settings σ} {good : σ → Prop}

/-- A body fragment that the loop goes on with: it goes on as well where the fragment was
delivered before. -/
theorem feed_body (hS : S.Lawful good) {p : HttpParser} {u : σ} {frag : Bytes} {ch : UInt8}
    {d : Cfg σ} {skip : ℕ} (hp : p.Sound) (hb : p.state.inBody = true) (hne : frag ≠ [])
    (h : turn S ⟨p, u, .single .body frag⟩ ch [] = .next d skip) :
    ∃ t, feed S (p, S.data .body frag u) ch = some t := by
  have happ : ∀ g, (S.onData .body (frag ++ g) u).2 =
      (S.onData .body g (S.data .body frag u)).2 :=
    fun g => hS.data_append _ _ g u hne (.inl rfl)
  unfold feed
  simp only [turn] at h ⊢
  -- no byte is counted in a body, so `turn` is `exec` there
  cases hs : p.state <;> simp only [hs, State.inBody, Bool.false_eq_true] at hb <;>
    simp only [hs, State.parsingHeader, Bool.not_false, if_true, exec, entryMarks] at h ⊢
  case chunkData =>
    rw [chunkData_single _ _ _ (Marks.mark_single _ _)] at h
    rw [chunkData_single _ _ _ (Marks.mark_none _)]
    split_ifs at h ⊢
    all_goals exact ⟨_, rfl⟩
  case chunkDataAlmostDone =>
    simp only [chunkDataAlmostDone] at h ⊢
    split_ifs at h ⊢
    rw [callbackData_none (by exact hp.errno) rfl]
    exact ⟨_, rfl⟩
  case bodyIdentity =>
    rw [bodyIdentity_single hS hp.errno _ _ (Marks.mark_single _ _)] at h
    rw [bodyIdentity_single hS hp.errno _ _ (Marks.mark_none _), List.nil_append]
    split_ifs at h ⊢
    · rw [happ] at h
      rw [h]
      exact ⟨_, rfl⟩
    · exact ⟨_, rfl⟩
  case bodyIdentityEof => exact ⟨_, rfl⟩

/-- Where the loop goes on, so does the byte-wise run that it is behind. -/
theorem Lag.feed (hS : S.Lawful good) {c d : Cfg σ} {s : HttpParser × σ} {ch : UInt8} {skip : ℕ}
    (hp : s.1.Sound) (hl : Lag S c s) (h : turn S c ch [] = .next d skip) :
    ∃ t, feed S s ch = some t := by
  cases hl with
  | level hm =>
    unfold Joyent.feed
    rw [entryMarks_eq, hm]
    rw [h]
    exact ⟨_, rfl⟩
  | @behind p k u frag hne hm =>
    obtain hk | ⟨rfl, hb⟩ := hm.of_single
    · unfold Joyent.feed
      rw [entryMarks_eq, hk]
      cases turn_uniform hS hp.errno hk ch with
      | keeps q hq | delivers q hq =>
        rw [hq]
        exact ⟨_, rfl⟩
      | ends hq => exact absurd h (hq _ _ _ _)
    · exact feed_body hS hp hb hne h

/-- A turn that does not end the loop before the last byte goes on. -/
theorem andThen_whole {f : Flow σ} {data : Bytes} {ch : UInt8} {pos : ℕ} {t : HttpParser × σ}
    (hf : f.Stops S) (h : f.andThen S pos ch data = some (pos + (data.length + 1), t))
    (he : t.1.httpErrno = .ok)
    (ht : ∀ q v, q.upgrade = true → S.onMessageComplete q v ≠ some (0, t)) :
    ∃ d skip, f = .next d skip ∧
      loop S (d.push [ch]) skip (pos + 1) data = some (pos + 1 + data.length, t) := by
  cases f with
  | next d skip =>
    refine ⟨d, skip, rfl, h.trans ?_⟩
    congr 2
    omega
  | fail d e =>
    have hn : pos = pos + (data.length + 1) := congrArg Prod.fst (Option.some.inj h)
    omega
  | ret d adv =>
    obtain ⟨-, rfl⟩ := Prod.mk.injEq .. ▸ Option.some.inj h
    obtain hn | ⟨q, v, hup, hc⟩ := hf
    · exact absurd he hn
    · exact absurd hc (ht q v hup)
  | abort => cases h

/-- A buffer that the loop reads whole, without an error and without a message that ends it, is
read byte by byte as well. -/
theorem runs_of_loop (hS : S.Lawful good) (hgood : ∀ u, good u) {data : Bytes} {c : Cfg σ}
    {s t : HttpParser × σ} {pos : ℕ} (hp : s.1.Sound) (hl : Lag S c s)
    (h : loop S c 0 pos data = some (pos + data.length, t)) (he : t.1.httpErrno = .ok)
    (ht : ∀ q v, q.upgrade = true → S.onMessageComplete q v ≠ some (0, t)) :
    Runs S good s data t := by
  induction data generalizing c s pos with
  | nil =>
    have hn : loop S c 0 pos [] = leftover S pos c := rfl
    rw [hn, leftover_lag hS hp hl] at h
    obtain ⟨-, rfl⟩ := Prod.mk.injEq .. ▸ Option.some.inj h
    exact .nil s
  | cons ch data ih =>
    have hc : c.parser.contentLength ≤ ULLONG_MAX := by
      obtain rfl := hl.flush
      exact hp.length
    rw [loop_cons S c pos ch data hc] at h
    -- the loop goes on, so the run takes the byte, and they are as far apart as before
    obtain ⟨d, skip, hf, hloop⟩ := andThen_whole (turn_stops c ch []) h he ht
    obtain ⟨r, hr⟩ := hl.feed hS hp hf
    obtain ⟨d', hd', hl', hp'⟩ := turn_lag hS hp hl hr (hgood r.2)
    obtain ⟨rfl, rfl⟩ := Flow.next.inj (hf.symm.trans hd')
    exact .cons hr (hgood _) (ih hp' hl' hloop)

theorem runs_of_execute (hS : S.Lawful good) (hgood : ∀ u, good u) {data : Bytes}
    {s t : HttpParser × σ} (hp : s.1.Sound) (hne : data ≠ [])
    (h : httpParserExecute S s.1 s.2 data = some (data.length, t)) (he : t.1.httpErrno = .ok)
    (ht : ∀ q v, q.upgrade = true → S.onMessageComplete q v ≠ some (0, t)) :
    Runs S good s data t := by
  obtain ⟨ch, data, rfl⟩ := List.exists_cons_of_ne_nil hne
  rw [httpParserExecute, if_neg (not_not.mpr hp.errno), if_neg hne, ← Nat.zero_add (_ :: _).length,
    loop_cons _ _ _ _ _ hp.length] at h
  obtain ⟨d, skip, hf, hloop⟩ := andThen_whole (turn_stops _ ch []) h he ht
  have hr : feed S s ch = some (d.parser, (d.push [ch]).flush S) := by
    unfold feed
    rw [hf]
    rfl
  obtain ⟨d', hd', hl, hp'⟩ := turn_entry hS hp hr
  obtain ⟨rfl, rfl⟩ := Flow.next.inj (hf.symm.trans hd')
  exact .cons hr (hgood _) (runs_of_loop hS hgood hp' hl hloop he ht)

/-- Outside a fragment the loop is where the byte-wise run is. -/
theorem Lag.eq_level {c : Cfg σ} {r : HttpParser × σ} (h : Lag S c r) (hm : r.1.state.mark = none)
    (hb : r.1.state.inBody = false) : c = ⟨r.1, r.2, .none⟩ := by
  cases h with
  | level h => rfl
  | behind u frag hf h =>
    obtain hk | ⟨-, hk⟩ := h.of_single
    · cases hm.symm.trans hk
    · cases hb.symm.trans hk

/-- A buffer, from the end of a byte-wise run on that is outside a fragment. -/
theorem execute_level (hS : S.Lawful good) {s r : HttpParser × σ} {as rest : Bytes}
    (hp : s.1.Sound) (hne : as ++ rest ≠ []) (hr : Runs S good s as r)
    (hm : r.1.state.mark = none) (hb : r.1.state.inBody = false) :
    httpParserExecute S s.1 s.2 (as ++ rest) = loop S ⟨r.1, r.2, .none⟩ 0 as.length rest := by
  by_cases has : as = []
  · subst has
    obtain _ | _ := hr
    rw [List.nil_append] at hne ⊢
    rw [httpParserExecute, if_neg (not_not.mpr hp.errno), if_neg hne, entryMarks_eq, hm]
    rfl
  · obtain ⟨c, hl, -, hrest⟩ := execute_append hS hp has hr
    rw [hrest, hl.eq_level hm hb]

/-- The buffers are read in turn; there is no result where one is not read whole. -/
def executeAll (S : Settings σ) : List Bytes → HttpParser × σ → Option (HttpParser × σ)
  | [], s => some s
  | data :: reads, s => (httpParserExecute S s.1 s.2 data).bind fun (n, t) =>
    if n = data.length then executeAll S reads t else none

theorem executeAll_cons {s t : HttpParser × σ} {data : Bytes}
    (h : httpParserExecute S s.1 s.2 data = some (data.length, t)) (reads : List Bytes) :
    executeAll S (data :: reads) s = executeAll S reads t := by
  rw [executeAll, h, Option.bind_some]
  exact if_pos rfl

/-- Callbacks that keep a relation keep it over all buffers. -/
theorem executeAll_rel {τ : Type} {T : Settings τ} {R : σ → τ → Prop}
    (hS : S.Related T R fun _ => False) {p : HttpParser} {u : σ} {v : τ} (h : R u v)
    (reads : List Bytes) : match executeAll S reads (p, u), executeAll T reads (p, v) with
      | some (p', u'), some (q', v') => p' = q' ∧ R u' v'
      | none, none => True
      | _, _ => False := by
  induction reads generalizing p u v with
  | nil => exact ⟨rfl, h⟩
  | cons data reads ih =>
    have hx := execute_rel (p := p) hS (Settings.loopKeeps_false _) h data
    rw [executeAll, executeAll]
    dsimp only
    generalize httpParserExecute S p u data = a at hx
    generalize httpParserExecute T p v data = b at hx
    obtain _ | ⟨n, p', u'⟩ := a <;> obtain _ | ⟨m, q', v'⟩ := b
    · trivial
    · exact hx.elim
    · exact hx.elim
    · obtain ⟨rfl, rfl, hv⟩ := hx
      simp only [Option.bind_some]
      by_cases hn : n = data.length
      · rw [if_pos hn, if_pos hn]
        exact ih hv
      · rw [if_neg hn, if_neg hn]
        trivial

/-- Whatever the cut, the end is that of the byte-wise run. -/
theorem executeAll_of_runs (hS : S.Lawful good) {reads : List Bytes} {s t : HttpParser × σ}
    (hp : s.1.Sound) (hne : ∀ d ∈ reads, d ≠ []) (hr : Runs S good s reads.flatten t) :
    executeAll S reads s = some t := by
  induction reads generalizing s with
  | nil =>
    obtain _ | _ := hr
    rfl
  | cons data reads ih =>
    rw [List.flatten_cons] at hr
    obtain ⟨r, h₁, h₂⟩ := hr.split
    rw [executeAll_cons (execute_of_runs hS hp (hne data List.mem_cons_self) h₁)]
    exact ih (h₁.sound hS hp) (fun d hd => hne d (List.mem_cons_of_mem _ hd)) h₂

/-- At this byte the loop ends with an error, whatever the callbacks have got. -/
def Refuses (p : HttpParser) (ch : UInt8) : Prop :=
  ∀ {σ : Type} (S : Settings σ) (c : Cfg σ) (pos : ℕ) (rest : Bytes), c.parser = p →
    ∃ t, loop S c 0 pos (ch :: rest) = some (pos, t)

/-- Up to some byte all cuts are alike: there the loop is behind the byte-wise run, or has just
begun. -/
theorem executeAll_upTo (hS : S.Lawful good) {reads : List Bytes} {as rest : Bytes} {ch : UInt8}
    {s r : HttpParser × σ} (hp : s.1.Sound) (hne : ∀ d ∈ reads, d ≠ [])
    (hcut : reads.flatten = as ++ ch :: rest) (hr : Runs S good s as r) :
    ∃ c pos more reads', more ++ reads'.flatten = rest ∧ (∀ d ∈ reads', d ≠ []) ∧
      (Lag S c r ∨ c = ⟨r.1, r.2, entryMarks r.1.state⟩) ∧
      executeAll S reads s = (loop S c 0 pos (ch :: more)).bind fun (n, t) =>
        if n = pos + (more.length + 1) then executeAll S reads' t else none := by
  induction reads generalizing s as with
  | nil => exact absurd hcut (by simp)
  | cons data reads ih =>
    have hd := hne data List.mem_cons_self
    have hne' : ∀ d ∈ reads, d ≠ [] := fun d hd => hne d (List.mem_cons_of_mem _ hd)
    rw [List.flatten_cons] at hcut
    obtain ⟨more, rfl, hmore⟩ | ⟨more, rfl, hmore⟩ := List.append_eq_append_iff.mp hcut
    · -- the buffer ends before the byte
      obtain ⟨r', h₁, h₂⟩ := hr.split
      rw [executeAll_cons (execute_of_runs hS hp hd h₁)]
      exact ih (h₁.sound hS hp) hne' hmore h₂
    obtain _ | ⟨c, more⟩ := more
    · -- the buffer ends right before the byte
      rw [List.append_nil] at hd ⊢
      rw [executeAll_cons (execute_of_runs hS hp hd hr)]
      have hmore' : reads.flatten = [] ++ ch :: rest := hmore.symm
      exact ih (hr.sound hS hp) hne' hmore' (.nil r)
    obtain ⟨rfl, rfl⟩ := List.cons.inj hmore
    -- the byte is in the buffer, at its start or behind a part of the run
    by_cases has : as = []
    · subst has
      obtain _ | _ := hr
      refine ⟨_, 0, more, reads, rfl, hne', .inr rfl, ?_⟩
      rw [executeAll, httpParserExecute, if_neg (not_not.mpr hp.errno), if_neg hd]
      simp only [List.nil_append, List.length_cons, Nat.zero_add]
    · obtain ⟨c, hl, -, hrest⟩ := execute_append hS hp has hr
      refine ⟨c, as.length, more, reads, rfl, hne', .inl hl, ?_⟩
      rw [executeAll, hrest]
      simp only [List.length_append, List.length_cons]

/-- Whatever the cut, a byte that is refused is not read. -/
theorem executeAll_refused (hS : S.Lawful good) {reads : List Bytes} {as rest : Bytes} {ch : UInt8}
    {s r : HttpParser × σ} (hp : s.1.Sound) (hne : ∀ d ∈ reads, d ≠ [])
    (hcut : reads.flatten = as ++ ch :: rest) (hr : Runs S good s as r) (hx : Refuses r.1 ch) :
    executeAll S reads s = none := by
  obtain ⟨c, pos, more, reads', -, -, hc, hex⟩ := executeAll_upTo hS hp hne hcut hr
  have hcp : c.parser = r.1 := by
    obtain hl | rfl := hc
    · obtain rfl := hl.flush
      rfl
    · rfl
  obtain ⟨t, ht⟩ := hx S c pos more hcp
  rw [hex, ht, Option.bind_some]
  exact if_neg (by omega)

/-- Whatever the cut, the last byte of all is read in the same way, outside a fragment. -/
theorem executeAll_last (hS : S.Lawful good) {reads : List Bytes} {as : Bytes} {ch : UInt8}
    {s r t : HttpParser × σ} (hp : s.1.Sound) (hne : ∀ d ∈ reads, d ≠ [])
    (hcut : reads.flatten = as ++ [ch]) (hr : Runs S good s as r) (hm : r.1.state.mark = none)
    (hb : r.1.state.inBody = false)
    (hl : ∀ pos, loop S ⟨r.1, r.2, .none⟩ 0 pos [ch] = some (pos + 1, t)) :
    executeAll S reads s = some t := by
  obtain ⟨c, pos, more, reads', hmore, hne', hc, hex⟩ := executeAll_upTo hS hp hne hcut hr
  obtain ⟨rfl, hnil⟩ := List.append_eq_nil_iff.mp hmore
  have hreads : reads' = [] := by
    cases reads' with
    | nil => rfl
    | cons d ds =>
      rw [List.flatten_cons] at hnil
      exact absurd (List.append_eq_nil_iff.mp hnil).1 (hne' d List.mem_cons_self)
  have hcr : c = ⟨r.1, r.2, .none⟩ := by
    obtain hlag | rfl := hc
    · exact hlag.eq_level hm hb
    · rw [entryMarks_eq, hm]
  rw [hex, hcr, hl, Option.bind_some, hreads]
  exact if_pos rfl

end Stutter.Joyent
