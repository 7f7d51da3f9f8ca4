import Stutter.Joyent.Asserts
import Stutter.Joyent.Cuts

namespace Stutter.Joyent

variable {σ : Type} {S : Settings σ} {s t : HttpParser × σ} {reads : List Bytes}

/-- Callbacks of which the last one leaves the parser alone. -/
def Settings.Leaves (S : Settings σ) : Prop :=
  ∀ {p u r q v}, S.onMessageComplete p u = some (r, q, v) → q = p

/-- No buffer ends where a message has asked for another protocol. -/
def Plainly (S : Settings σ) (reads : List Bytes) (s : HttpParser × σ) : Prop :=
  ∀ xs ys r, reads = xs ++ ys → executeAll S xs s = some r → r.1.upgrade = false

/-- A buffer that is read whole in a parser that has met an error is empty. -/
theorem executeAll_errno {data : Bytes} (hne : data ≠ []) (he : s.1.httpErrno ≠ .ok) :
    executeAll S (data :: reads) s = none := by
  rw [executeAll, httpParserExecute, if_pos he, Option.bind_some]
  exact if_neg fun h => hne (List.eq_nil_of_length_eq_zero h.symm)

/-- Buffers that are all read whole are read byte by byte. -/
theorem runs_of_executeAll (hS : S.Lawful fun _ => True) (hL : S.Leaves) (hp : s.1.Sound)
    (hne : ∀ d ∈ reads, d ≠ []) (h : executeAll S reads s = some t) (he : t.1.httpErrno = .ok)
    (hup : Plainly S reads s) : Runs S (fun _ => True) s reads.flatten t := by
  induction reads generalizing s with
  | nil =>
    obtain rfl := Option.some.inj h
    exact .nil s
  | cons data reads ih =>
    obtain ⟨⟨n, r⟩, hx, hrest⟩ := Option.bind_eq_some_iff.mp h
    dsimp only at hrest
    split_ifs at hrest with hn
    subst hn
    have hd := hne data List.mem_cons_self
    have hne' : ∀ d ∈ reads, d ≠ [] := fun d hd => hne d (List.mem_cons_of_mem _ hd)
    have hr : r.1.httpErrno = .ok := by
      -- an error in this buffer is still there in the next one, or at the end
      by_contra hr
      cases reads with
      | nil =>
        obtain rfl := Option.some.inj hrest
        exact hr he
      | cons e reads =>
        rw [executeAll_errno (hne' e List.mem_cons_self) hr] at hrest
        cases hrest
    have hupr : r.1.upgrade = false := hup [data] reads r rfl (by rw [executeAll_cons hx]; rfl)
    have hruns := runs_of_execute hS (fun _ => trivial) hp hd hx hr fun q v hq hc => by
      rw [← hL hc, hupr] at hq
      cases hq
    refine hruns.append (ih (hruns.sound hS hp) hne' hrest fun xs ys r' hxs hr' => ?_)
    exact hup (data :: xs) ys r' (by rw [hxs]; rfl) (by rw [executeAll_cons hx]; exact hr')

/-- The cut does not matter: bytes that are read whole in one cut, without an error and without
another protocol, are read whole in every cut, and with the same end. -/
theorem executeAll_recut (hS : S.Lawful fun _ => True) (hL : S.Leaves) (hp : s.1.Sound)
    (hne : ∀ d ∈ reads, d ≠ []) (h : executeAll S reads s = some t) (he : t.1.httpErrno = .ok)
    (hup : Plainly S reads s) {reads' : List Bytes} (hne' : ∀ d ∈ reads', d ≠ [])
    (hcut : reads'.flatten = reads.flatten) : executeAll S reads' s = some t := by
  have hr := runs_of_executeAll hS hL hp hne h he hup
  rw [← hcut] at hr
  exact executeAll_of_runs hS hp hne' hr

theorem Settings.recording_lawful : Settings.recording.Lawful fun _ => True where
  data_ok _ _ _ := rfl
  data_append k f g u _ _ := record_append k f g u
  data_whole k f g u _ _ := ⟨trivial, record_append k f g u⟩
  data_good _ _ _ _ _ := trivial
  headers_ok _ _ := rfl
  headers_eq _ _ _ := rfl
  headers_good _ _ _ := trivial
  complete h := by
    obtain ⟨rfl, rfl, -⟩ := Prod.mk.injEq .. ▸ Prod.mk.injEq .. ▸ Option.some.inj h
    exact ⟨rfl, .inl rfl⟩

theorem Settings.recording_leaves : Settings.recording.Leaves := by
  intro p u r q v h
  obtain ⟨-, rfl, -⟩ := Prod.mk.injEq .. ▸ Prod.mk.injEq .. ▸ Option.some.inj h
  rfl

/-- A request, cut within its URL and within the name of a header. -/
theorem executeAll_recut_get : ∃ t,
    executeAll Settings.recording [ascii "GET /index HTTP/1.1\r\nHost: a\r\n\r\n"]
      (.init .request, []) = some t ∧
    t.2 = [(.headerValue, ascii "a"), (.headerField, ascii "Host"), (.url, ascii "/index")] ∧
    executeAll Settings.recording
      [ascii "GET /in", ascii "dex HTTP/1.1\r\nHo", ascii "st: a\r\n\r\n"]
      (.init .request, []) = some t := by
  have hrun : (executeAll Settings.recording [ascii "GET /index HTTP/1.1\r\nHost: a\r\n\r\n"]
      (.init .request, [])).map (fun t => (t.1.httpErrno, t.1.upgrade, t.2)) = some (.ok, false,
        [(.headerValue, ascii "a"), (.headerField, ascii "Host"), (.url, ascii "/index")]) := by
    decide +kernel
  obtain ⟨t, ht, hr⟩ := Option.map_eq_some_iff.mp hrun
  obtain ⟨he, hup, hu⟩ := Prod.mk.injEq .. ▸ Prod.mk.injEq .. ▸ hr
  refine ⟨t, ht, hu, executeAll_recut Settings.recording_lawful Settings.recording_leaves
    ⟨rfl, Nat.zero_le _⟩ (by decide +kernel) ht he ?_ (by decide +kernel) (by decide +kernel)⟩
  intro xs ys r hxs hr
  obtain _ | ⟨d, xs⟩ := xs
  · obtain rfl := Option.some.inj hr
    rfl
  · obtain ⟨rfl, hnil⟩ := List.cons.inj hxs
    obtain ⟨rfl, -⟩ := List.append_eq_nil_iff.mp hnil.symm
    obtain rfl := Option.some.inj (hr.symm.trans ht)
    exact hup

end Stutter.Joyent
