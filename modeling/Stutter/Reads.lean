import Stutter.Heads
import Stutter.Process

namespace Stutter

open Joyent

/-- Pieces that a read of at most 1024 bytes can give. -/
def Pieces (reads : List Bytes) : Prop := ∀ d ∈ reads, d ≠ [] ∧ d.length ≤ 1024

namespace Pieces

variable {d : Bytes} {reads xs ys : List Bytes}

theorem head (h : Pieces (d :: reads)) : d ≠ [] ∧ d.length ≤ 1024 := h d List.mem_cons_self

theorem tail (h : Pieces (d :: reads)) : Pieces reads := fun e he => h e (List.mem_cons_of_mem _ he)

theorem ne (h : Pieces reads) : ∀ d ∈ reads, d ≠ [] := fun d hd => (h d hd).1

theorem left (h : Pieces (xs ++ ys)) : Pieces xs := fun d hd => h d (List.mem_append_left _ hd)

/-- One byte after the other. -/
theorem singles (bs : Bytes) : Pieces (bs.map fun b => [b]) := by
  intro d hd
  obtain ⟨b, -, rfl⟩ := List.mem_map.mp hd
  exact ⟨List.cons_ne_nil _ _, by simp⟩

theorem flatten_singles (bs : Bytes) : (bs.map fun b => [b]).flatten = bs := by
  induction bs with
  | nil => rfl
  | cons b bs ih => rw [List.map_cons, List.flatten_cons, ih, List.singleton_append]

end Pieces

namespace Socket

/-- A piece is read as it is. -/
theorem read_piece {w : Socket} {d : Bytes} {rest : List Bytes} (hin : w.inbox = d :: rest)
    (hd : d.length ≤ 1024) :
    w.read 1024 = (d, { w with inbox := rest, log := w.log ++ [.read d] }) := by
  unfold read
  rw [hin]
  dsimp only
  rw [if_pos hd, List.take_of_length_le hd]

theorem read_nil {w : Socket} (hin : w.inbox = []) : w.read 1024 = ([], w) := by
  unfold read
  rw [hin]

end Socket

namespace Found

variable {reads later : List Bytes} {w w' : Socket} {fuel : ℕ} {s t : HttpParser × Found}

theorem readLoop_done {p : HttpParser} {f : Found} (h : f.codes ≠ []) (fuel : ℕ) (w : Socket) :
    readLoop fuel p f w = some (true, p, f, w) := by
  cases fuel <;> rw [readLoop, if_pos h]

/-- The loop over reads that are taken whole, none of which but the last may end a message. -/
theorem readLoop_reads (hne : Pieces reads) (hin : w.inbox = reads ++ later) (hf : w.unread < fuel)
    (hx : executeAll settings reads s = some t)
    (hc : ∀ xs ys, reads = xs ++ ys → ys ≠ [] → ∃ r, executeAll settings xs s = some r ∧
      r.2.codes = []) :
    ∃ fuel' w', w'.inbox = later ∧ w'.unread < fuel' ∧
      readLoop fuel s.1 s.2 w = readLoop fuel' t.1 t.2 w' := by
  induction reads generalizing w fuel s with
  | nil =>
    obtain rfl := Option.some.inj hx
    exact ⟨fuel, w, hin, hf, rfl⟩
  | cons d reads ih =>
    obtain ⟨hd, hlen⟩ := hne.head
    obtain ⟨r, hr, hcodes⟩ := hc [] (d :: reads) rfl (List.cons_ne_nil _ _)
    obtain rfl := Option.some.inj hr
    obtain ⟨⟨n, p, f⟩, hex, hrest⟩ := Option.bind_eq_some_iff.mp hx
    dsimp only at hrest
    split_ifs at hrest with hn
    subst hn
    have hread := w.read_piece hin hlen
    have hless : Socket.unread { w with
        inbox := reads ++ later, log := w.log ++ [.read d] } < w.unread := by
      unfold Socket.unread
      dsimp only
      rw [hin, List.cons_append, List.flatten_cons, List.length_append]
      have := List.length_pos_of_ne_nil hd
      omega
    obtain _ | fuel := fuel
    · exact absurd hf (Nat.not_lt_zero _)
    obtain ⟨fuel', w', hin', hf', hloop⟩ := ih hne.tail
      (w := { w with inbox := reads ++ later, log := w.log ++ [.read d] })
      (s := (p, f)) rfl (Nat.lt_of_lt_of_le hless (Nat.lt_succ_iff.mp hf)) hrest
      fun xs ys he hys => by
        obtain ⟨r, hr, hcodes'⟩ := hc (d :: xs) ys (by rw [he]; rfl) hys
        rw [executeAll_cons hex] at hr
        exact ⟨r, hr, hcodes'⟩
    refine ⟨fuel', w', hin', hf', ?_⟩
    rw [readLoop, if_neg (not_not.mpr hcodes), hread]
    dsimp only
    rw [if_neg hd, hex, Option.bind_some, if_neg (not_not.mpr rfl)]
    exact hloop

/-- A loop that ends well has taken reads whole, up to one in which a message ended. -/
theorem readLoop_true (hne : Pieces w.inbox) {p : HttpParser} {f : Found}
    (h : readLoop fuel s.1 s.2 w = some (true, p, f, w')) :
    ∃ xs, w.inbox = xs ++ w'.inbox ∧ executeAll settings xs s = some (p, f) ∧ f.codes ≠ [] := by
  induction fuel generalizing w s with
  | zero =>
    rw [readLoop] at h
    split_ifs at h with hc
    obtain ⟨-, rfl, rfl, rfl⟩ := Prod.mk.injEq .. ▸ Prod.mk.injEq .. ▸ Prod.mk.injEq .. ▸
      Option.some.inj h
    exact ⟨[], rfl, rfl, hc⟩
  | succ fuel ih =>
    rw [readLoop] at h
    split_ifs at h with hc
    · obtain ⟨-, rfl, rfl, rfl⟩ := Prod.mk.injEq .. ▸ Prod.mk.injEq .. ▸ Prod.mk.injEq .. ▸
        Option.some.inj h
      exact ⟨[], rfl, rfl, hc⟩
    cases hin : w.inbox with
    | nil =>
      rw [Socket.read_nil hin] at h
      dsimp only at h
      rw [if_pos rfl] at h
      cases congrArg Prod.fst (Option.some.inj h)
    | cons d rest =>
      rw [hin] at hne
      obtain ⟨hd, hlen⟩ := hne.head
      rw [w.read_piece hin hlen] at h
      dsimp only at h
      rw [if_neg hd] at h
      obtain ⟨⟨n, q, g⟩, hex, hrest⟩ := Option.bind_eq_some_iff.mp h
      dsimp only at hrest
      split_ifs at hrest with hn
      · cases congrArg Prod.fst (Option.some.inj hrest)
      · obtain ⟨xs, hxs, hall, hcodes⟩ := ih (s := (q, g)) (by exact hne.tail) hrest
        refine ⟨d :: xs, congrArg (d :: ·) hxs, ?_, hcodes⟩
        rw [executeAll_cons (by rw [hex, not_not.mp hn])]
        exact hall

end Found

namespace Session

/-- `m_done` and `m_error` of a parser of responses, by what was found. -/
structure Tracks (u : Session Bool) (f : Found) : Prop where
  mode : u.mode = .response
  error : u.error = .ok
  cx : u.cx = decide (f.codes ≠ [])

variable {E : Env} {u : Session Bool} {f : Found}

theorem Tracks.save (h : u.Tracks f) : u.saveLastHeader.Tracks f.save := by
  have hm : u.storeHeader.mode ≠ .request := by
    rw [mode_storeHeader, h.mode]
    decide
  refine ⟨?_, ?_, ?_⟩
  · rw [mode_saveLastHeader, h.mode]
  · unfold saveLastHeader checkHeaders
    rw [if_neg hm, error_storeHeader, h.error]
  · rw [cx_saveLastHeader, Found.codes_save, h.cx]

theorem Tracks.data (h : u.Tracks f) (k : Mark) (frag : Bytes) :
    (u.onData E k frag).Tracks (f.data k frag) := by
  cases k with
  | url =>
    rw [onData, addUrlFragment_response (by rw [h.mode]; decide)]
    exact h
  | headerField =>
    obtain ⟨hm, he, hc⟩ := h.save
    exact ⟨hm, he, hc⟩
  | headerValue => exact ⟨h.mode, h.error, h.cx⟩
  | body =>
    refine ⟨?_, (addBodyFragment_error u frag).trans h.error, (cx_onData E .body frag u).trans h.cx⟩
    change (u.addBodyFragment E frag).mode = _
    unfold addBodyFragment
    split_ifs
    · exact (mode_setMsg ..).trans h.mode
    · exact h.mode

theorem Tracks.complete (h : u.Tracks f) (p : HttpParser) :
    Tracks { u.complete p with cx := true } { f with codes := f.codes ++ [p.statusCode] } := by
  rw [complete_response h.mode]
  refine ⟨h.mode, h.error, ?_⟩
  exact (decide_eq_true (List.append_ne_nil_of_right_ne_nil _ (List.cons_ne_nil _ _))).symm

theorem Tracks.related (E : Env) : (settings E Client.onMsgComplete).Related Found.settings Tracks
    fun _ => False where
  data k frag _ _ h := ⟨rfl, h.data k frag⟩
  headers _ _ _ h := ⟨rfl, h.save⟩
  complete p _ _ h := ⟨rfl, rfl, h.complete p⟩
  spoiled := Settings.keeps_false _

theorem Tracks.new (reply : Reply) (fs : Fs) :
    Tracks { Session.new .response fs false with reply := reply } .new := ⟨rfl, rfl, rfl⟩

end Session

end Stutter
