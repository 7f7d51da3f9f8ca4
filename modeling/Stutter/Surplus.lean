import Stutter.Bodiless

namespace Stutter

open Joyent

instance (reads : List Bytes) : Decidable (Pieces reads) :=
  inferInstanceAs (Decidable (∀ d ∈ reads, _))

/-- What is read beyond the first `n` bytes, in the read in which they end. -/
def surplus : ℕ → List Bytes → Bytes
  | _, [] => []
  | n, d :: reads => if n ≤ d.length then d.drop n else surplus (n - d.length) reads

/-- The reads behind the one in which the first `n` bytes end. -/
def behind : ℕ → List Bytes → List Bytes
  | _, [] => []
  | n, d :: reads => if n ≤ d.length then reads else behind (n - d.length) reads

/-- The read in which some bytes end. -/
theorem surplus_cut {reads : List Bytes} {as bs : Bytes} (hne : as ≠ [])
    (hcut : reads.flatten = as ++ bs) : ∃ xs d more ys, reads = xs ++ (d ++ more) :: ys ∧ d ≠ [] ∧
      xs.flatten ++ d = as ∧ surplus as.length reads = more ∧ behind as.length reads = ys ∧
      more ++ ys.flatten = bs := by
  induction reads generalizing as with
  | nil => exact absurd (List.append_eq_nil_iff.mp hcut.symm).1 hne
  | cons e reads ih =>
    rw [List.flatten_cons] at hcut
    -- the bytes end in this read or go on behind it
    by_cases hle : as.length ≤ e.length
    · obtain ⟨more, rfl, hbs⟩ : ∃ more, e = as ++ more ∧ bs = more ++ reads.flatten := by
        obtain ⟨more, hmore⟩ := List.prefix_of_prefix_length_le (List.prefix_append as bs)
          (hcut ▸ List.prefix_append e reads.flatten) hle
        have hall : as ++ bs = as ++ (more ++ reads.flatten) := by
          rw [← hcut, ← hmore, List.append_assoc]
        exact ⟨more, hmore.symm, List.append_cancel_left hall⟩
      exact ⟨[], as, more, reads, rfl, hne, rfl, by rw [surplus, if_pos hle, List.drop_left],
        by rw [behind, if_pos hle], hbs.symm⟩
    · obtain ⟨as', rfl, hflat⟩ : ∃ as', as = e ++ as' ∧ reads.flatten = as' ++ bs := by
        obtain ⟨as', has⟩ := List.prefix_of_prefix_length_le
          (hcut ▸ List.prefix_append e reads.flatten) (List.prefix_append as bs)
          (Nat.le_of_not_le hle)
        have hall : e ++ reads.flatten = e ++ (as' ++ bs) := by
          rw [hcut, ← has, List.append_assoc]
        exact ⟨as', has.symm, List.append_cancel_left hall⟩
      rw [List.length_append] at hle
      have hne' : as' ≠ [] := by
        rintro rfl
        exact hle (Nat.le_refl _)
      obtain ⟨xs, d, more, ys, rfl, hd, hxs, hs, hl, hbs⟩ := ih hne' hflat
      refine ⟨e :: xs, d, more, ys, rfl, hd, by rw [List.flatten_cons, List.append_assoc, hxs], ?_,
        ?_, hbs⟩
      · rw [surplus, List.length_append, if_neg hle, Nat.add_sub_cancel_left, hs]
      · rw [behind, List.length_append, if_neg hle, Nat.add_sub_cancel_left, hl]

/-- Where nothing follows the bytes, nothing is read beyond them. -/
theorem surplus_all {reads : List Bytes} {as : Bytes} (hp : ∀ d ∈ reads, d ≠ []) (hne : as ≠ [])
    (hcut : reads.flatten = as) : surplus as.length reads = [] ∧ behind as.length reads = [] := by
  obtain ⟨xs, d, more, ys, rfl, -, -, hs, hb, hrest⟩ :=
    surplus_cut hne (hcut.trans (List.append_nil as).symm)
  obtain ⟨hmore, hys⟩ := List.append_eq_nil_iff.mp hrest
  refine ⟨hs.trans hmore, hb.trans ?_⟩
  cases ys with
  | nil => rfl
  | cons y ys =>
    refine absurd (List.append_eq_nil_iff.mp hys).1 (hp y ?_)
    exact List.mem_append_right _ (List.mem_cons_of_mem _ List.mem_cons_self)

namespace Found

theorem codes_data (k : Mark) (frag : Bytes) (f : Found) : (f.data k frag).codes = f.codes := by
  cases k with
  | headerField => exact codes_save f
  | url | headerValue | body => rfl

/-- Up to the end of a message. -/
theorem silent : settings.Lawful fun f => f.codes = [] where
  data_ok := lawful.data_ok
  data_append k f g u hf _ := lawful.data_append k f g u hf (.inr trivial)
  data_whole k f g u hf hg := by
    refine ⟨?_, (lawful.data_whole k f g u hf trivial).2⟩
    have hc : (u.data k (f ++ g)).codes = [] := hg
    rw [codes_data] at hc
    exact (codes_data k f u).trans hc
  data_good k f u _ hu := (codes_data k f u).trans hu
  headers_ok := lawful.headers_ok
  headers_eq := lawful.headers_eq
  headers_good _ u hu := (codes_save u).trans hu
  complete := lawful.complete

theorem init_sound (t : ParserType) : (HttpParser.init t).Sound := ⟨rfl, Nat.zero_le _⟩

variable {as bs : Bytes} {w w' : Socket} {p : HttpParser} {f : Found}

/-- Bytes that are read without the end of a message are not enough. -/
theorem readReply_silent {t : HttpParser × Found}
    (h : Runs settings (fun f => f.codes = []) (.init .response, .new) w.inbox.flatten t)
    (hp : Pieces w.inbox) : readReply w ≠ some (true, p, f, w') := by
  intro hr
  obtain ⟨xs, hxs, hex, hcodes⟩ := readLoop_true hp (s := (.init .response, .new)) hr
  rw [hxs] at h hp
  rw [List.flatten_append] at h
  obtain ⟨r, h₁, -⟩ := h.split
  obtain rfl := Option.some.inj
    ((executeAll_of_runs silent (init_sound .response) hp.left.ne h₁).symm.trans hex)
  exact hcodes (h₁.isGood rfl)

/-- Nor are those in which a byte is refused before. -/
theorem readReply_halts
    (h : Halts settings (fun f => f.codes = []) (.init .response, .new) as) (hp : Pieces w.inbox)
    (hcut : w.inbox.flatten = as ++ bs) : readReply w ≠ some (true, p, f, w') := by
  intro hr
  obtain ⟨cs, ch, rest, r, rfl, hruns, hx⟩ := h
  obtain ⟨xs, hxs, hex, hcodes⟩ := readLoop_true hp (s := (.init .response, .new)) hr
  rw [hxs] at hcut hp
  rw [List.flatten_append, List.append_assoc] at hcut
  -- the message has ended before the byte that is refused, or the byte was read
  obtain ⟨more, hmore, -⟩ | ⟨more, hmore, hrest⟩ := List.append_eq_append_iff.mp hcut
  · rw [hmore] at hruns
    obtain ⟨r', h₁, -⟩ := hruns.split
    obtain rfl := Option.some.inj
      ((executeAll_of_runs silent (init_sound .response) hp.left.ne h₁).symm.trans hex)
    exact hcodes (h₁.isGood rfl)
  · obtain _ | ⟨c, more⟩ := more
    · rw [List.append_nil] at hmore
      rw [← hmore] at hruns
      obtain rfl := Option.some.inj
        ((executeAll_of_runs silent (init_sound .response) hp.left.ne hruns).symm.trans hex)
      exact hcodes (hruns.isGood rfl)
    · obtain ⟨rfl, -⟩ := List.cons.inj hrest
      rw [executeAll_refused silent (init_sound .response) hp.left.ne hmore hruns hx] at hex
      cases hex

/-- `http_parser` ends its first message with the last byte of `as`, and `F` says how it ends a
buffer in which it has read so many bytes up to there, and in which more of them follow. -/
structure Ends (as : Bytes) (F : ℕ → Bytes → Result Found) : Prop where
  ne : as ≠ []
  read : ∀ xs d, d ≠ [] → xs ++ d = as → ∃ s,
    Runs settings (fun f => f.codes = []) (.init .response, .new) xs s ∧
      ∀ more, httpParserExecute settings s.1 s.2 (d ++ more) = F d.length more
  codes : ∀ {n more m p f}, F n more = some (m, p, f) → f.codes ≠ []

/-- What is read without a code had none before. -/
theorem runs_silent {s t : HttpParser × Found} {bs : Bytes}
    (h : Runs settings (fun _ => True) s bs t) (hs : s.1.Sound) (ht : t.2.codes = []) :
    Runs settings (fun f => f.codes = []) s bs t := by
  induction h with
  | nil s => exact .nil s
  | @cons s t r ch bs hf hg hr ih =>
    have hsound := Runs.sound lawful (.one hf hg) hs
    exact .cons hf (codes_of_runs hr hsound ht) (ih hsound ht)

/-- The piece that is not empty at the end has the last byte. -/
theorem last_piece {xs d ps : Bytes} {ch : UInt8} (hd : d ≠ []) (h : xs ++ d = ps ++ [ch]) :
    ∃ ds, d = ds ++ [ch] ∧ ps = xs ++ ds := by
  obtain ⟨ds, c, rfl⟩ : ∃ ds c, d = ds ++ [c] := ⟨_, _, (List.dropLast_append_getLast hd).symm⟩
  rw [← List.append_assoc] at h
  obtain ⟨rfl, hc⟩ := List.append_inj' h rfl
  exact ⟨ds, congrArg (ds ++ ·) hc, rfl⟩

/-- A message that ends within the buffer, so that the loop goes on behind it. -/
theorem ends_of_runs {r t : HttpParser × Found} {ps : Bytes} {ch : UInt8}
    (hr : Runs settings (fun f => f.codes = []) (.init .response, .new) ps r)
    (hf : feed settings r ch = some t) (ht : t.2.codes ≠ []) (hm : t.1.state.mark = none)
    (hb : t.1.state.inBody = false) :
    Ends (ps ++ [ch]) fun pos more => loop settings ⟨t.1, t.2, .none⟩ 0 pos more where
  ne := List.append_ne_nil_of_right_ne_nil _ (List.cons_ne_nil _ _)
  read xs d hd hxs := by
    obtain ⟨ds, rfl, rfl⟩ := last_piece hd hxs
    obtain ⟨s, h₁, h₂⟩ := hr.split
    refine ⟨s, h₁, fun more => ?_⟩
    have hall := (h₂.mono fun _ _ => trivial).append (.one hf (show True from trivial))
    exact execute_level lawful (h₁.sound silent (init_sound .response))
      (List.append_ne_nil_of_left_ne_nil hd _) hall hm hb
  codes {n more m p f} h := loop_all keeps_codes more ht 0 n m p f h

/-- A message that ends with its head, behind which the buffer is left if `b`. -/
theorem ends_of_head {r t : HttpParser × Found} {ps : Bytes} {ch : UInt8} {b : Bool}
    (hr : Runs settings (fun f => f.codes = []) (.init .response, .new) ps r)
    (hm : r.1.state.mark = none) (hb : r.1.state.inBody = false) (ht : t.2.codes ≠ [])
    (hl : ∀ pos more, loop settings ⟨r.1, r.2, .none⟩ 0 pos (ch :: more) =
      if b = true then some (pos + 1, t) else loop settings ⟨t.1, t.2, .none⟩ 0 (pos + 1) more) :
    Ends (ps ++ [ch]) fun pos more =>
      if b = true then some (pos, t) else loop settings ⟨t.1, t.2, .none⟩ 0 pos more where
  ne := List.append_ne_nil_of_right_ne_nil _ (List.cons_ne_nil _ _)
  read xs d hd hxs := by
    obtain ⟨ds, rfl, rfl⟩ := last_piece hd hxs
    obtain ⟨s, h₁, h₂⟩ := hr.split
    refine ⟨s, h₁, fun more => ?_⟩
    rw [List.append_assoc, List.singleton_append, execute_level silent
      (h₁.sound silent (init_sound .response))
      (List.append_ne_nil_of_right_ne_nil _ (List.cons_ne_nil _ _)) h₂ hm hb, hl,
      List.length_append]
    rfl
  codes {n more m p f} h := by
    split_ifs at h with hup
    · obtain ⟨-, rfl⟩ := Prod.mk.injEq .. ▸ Option.some.inj h
      exact ht
    · exact loop_all keeps_codes more ht 0 n m p f h

/-- Whatever the cut, what counts is what follows the message in the read in which it ends. -/
theorem Ends.readReply {F : ℕ → Bytes → Result Found} (h : Ends as F) (hp : Pieces w.inbox)
    (hcut : w.inbox.flatten = as ++ bs) : ∃ (d more : Bytes) (w' : Socket), d ≠ [] ∧
      surplus as.length w.inbox = more ∧ behind as.length w.inbox = w'.inbox ∧
      more ++ w'.inbox.flatten = bs ∧
      Found.readReply w = (F d.length more).map fun (n, p, f) =>
        (decide (n = d.length + more.length), p, f, w') := by
  obtain ⟨xs, d, more, ys, hin, hd, hxs, hs, hl, hbs⟩ := surplus_cut h.ne hcut
  obtain ⟨s, hruns, hrest⟩ := h.read _ d hd hxs
  rw [hin] at hp
  -- the reads `xs` end no message, so the loop gets to the read that does
  have hx := executeAll_of_runs silent (init_sound .response) hp.left.ne hruns
  obtain ⟨fuel, w₁, hin₁, hf₁, hloop⟩ := readLoop_reads hp.left hin (Nat.lt_succ_self w.unread) hx
    fun zs ws hzs hws => by
      rw [hzs, List.flatten_append] at hruns
      obtain ⟨r, h₁, -⟩ := hruns.split
      have hl := hp.left
      rw [hzs] at hl
      exact ⟨r, executeAll_of_runs silent (init_sound .response) hl.left.ne h₁, h₁.isGood rfl⟩
  obtain ⟨hne, hlen⟩ := hp (d ++ more) (List.mem_append_right _ List.mem_cons_self)
  refine ⟨d, more, { w₁ with inbox := ys, log := w₁.log ++ [.read (d ++ more)] }, hd, hs, hl,
    hbs, ?_⟩
  obtain _ | fuel := fuel
  · exact absurd hf₁ (Nat.not_lt_zero _)
  unfold Found.readReply
  rw [hloop, readLoop, if_neg (not_not.mpr (hruns.isGood rfl)), w₁.read_piece hin₁ hlen]
  dsimp only
  rw [if_neg hne, hrest more]
  cases hF : F d.length more with
  | none => rfl
  | some r =>
    obtain ⟨n, q, g⟩ := r
    rw [Option.bind_some, Option.map_some, List.length_append]
    dsimp only
    by_cases hn : n = d.length + more.length
    · rw [if_neg (not_not.mpr hn), readLoop_done (h.codes hF), decide_eq_true hn]
    · rw [if_pos hn, decide_eq_false hn]

end Found

end Stutter
