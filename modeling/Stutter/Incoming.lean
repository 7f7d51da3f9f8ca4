import Stutter.Fragments
import Stutter.Framed

namespace Stutter

open Joyent

/-- A request of HTTP/1.1 as a client writes it, without trailers. -/
structure Incoming where
  method : Method
  url : Bytes
  lines : List HeaderLine
  entity : Entity

namespace Incoming

/-- Up to the blank line and with it. -/
def head (i : Incoming) : Bytes := requestHead i.method i.url i.lines ++ crlf

def bytes (i : Incoming) : Bytes := i.head ++ i.entity.bytes

def fields (i : Incoming) : List (Bytes × Bytes) := i.lines.map fun l => (l.name, l.value)

/-- The header map of the request. -/
def headers (i : Incoming) : Headers := SortedMap.empty.insertAll i.fields

/-- The request is well formed, and within the limits of the server. -/
structure WellFormed (i : Incoming) : Prop where
  verb : i.method.isVerb = true
  url : isUrl i.url = true
  short : i.url.length ≤ MAX_URI_LENGTH
  head : i.head.length ≤ maxHeaderSize
  framed : i.entity.FramedBy i.lines
  upload : ∀ body, i.entity = .length body → (body.length : ℤ) ≤ MAX_UPLOAD_SIZE

/-- The parts of the request, uncut. -/
def fragments (i : Incoming) : Fragments where
  url := [i.url]
  headers := i.lines.map fun l => ([l.name], [l.value])
  body := if i.entity.body = [] then [] else [i.entity.body]

theorem fragments_called (i : Incoming) : i.fragments.Called := by
  intro h hh
  obtain ⟨l, -, rfl⟩ := List.mem_map.mp hh
  exact ⟨List.cons_ne_nil _ _, List.cons_ne_nil _ _⟩

@[simp] theorem lines_fragments (i : Incoming) : i.fragments.lines = i.fields := by
  rw [fragments, Fragments.lines, List.map_map, fields]
  refine List.map_congr_left fun l _ => ?_
  simp only [Function.comp_apply, List.flatten_cons, List.flatten_nil, List.append_nil]

@[simp] theorem url_fragments (i : Incoming) : i.fragments.url.flatten = i.url :=
  List.append_nil _

@[simp] theorem body_fragments (i : Incoming) : i.fragments.body.flatten = i.entity.body := by
  rw [fragments]
  split_ifs with h
  · exact h.symm
  · exact List.append_nil _

/-- What is stored under a name is the value of a line. -/
theorem get_fields {i : Incoming} {es : List (Bytes × Bytes)} (h : es <+: i.fields) (key : Bytes) :
    (((SortedMap.empty : Headers).insertAll es).get key).getD [] = [] ∨
      ∃ l ∈ i.lines, l.Named key ∧
        (((SortedMap.empty : Headers).insertAll es).get key).getD [] = l.value := by
  rw [SortedMap.get_insertAll_list, SortedMap.get_empty, Option.or_none]
  generalize hf : List.find? _ _ = o
  cases o with
  | none => exact .inl rfl
  | some e =>
    have he := h.subset (List.mem_reverse.mp (List.mem_of_find?_eq_some hf))
    obtain ⟨l, hl, rfl⟩ := List.mem_map.mp he
    have hk := List.find?_some hf
    simp only [decide_eq_true_eq] at hk
    exact .inr ⟨l, hl, hk, rfl⟩

/-- The length that is stored keeps the limit, after each line. -/
theorem WellFormed.upload_le {i : Incoming} (h : i.WellFormed) {es : List (Bytes × Bytes)}
    (hes : es <+: i.fields) :
    0 ≤ atol ((((SortedMap.empty : Headers).insertAll es).get Message.contentLength).getD []) ∧
      atol ((((SortedMap.empty : Headers).insertAll es).get Message.contentLength).getD []) ≤
        MAX_UPLOAD_SIZE := by
  obtain hv | ⟨l, hl, hk, hv⟩ := get_fields hes Message.contentLength
  · rw [hv]
    decide
  rw [hv]
  have hf := h.framed
  cases he : i.entity with
  | empty =>
    rw [he] at hf
    exact absurd hk (hf.2 l hl).1
  | chunked cs last =>
    rw [he] at hf
    exact absurd hk (hf.2.2.2 l hl)
  | length body =>
    rw [he] at hf
    have hn := hf.1.length l hl hk
    have hu := h.upload body he
    rw [atol_numeral hn.ne hn.num, hn.eq]
    exact ⟨le_min (by decide) (Int.natCast_nonneg _), (min_le_right _ _).trans hu⟩

variable {χ : Type} {E : Env}

/-- The callbacks of the request are those of its parts. -/
theorem deliver_fragments (i : Incoming) (fn : Session.Callback χ) (u : Session χ) :
    (Session.settings E fn).bodyData i.entity.body ((Session.settings E fn).headers
      ((Session.settings E fn).lines i.lines ((Session.settings E fn).data .url i.url u))) =
    Session.deliver E u i.fragments := by
  have hl : ∀ (ls : List HeaderLine) (u : Session χ), (Session.settings E fn).lines ls u =
      (ls.map fun l => ([l.name], [l.value])).foldl (Session.deliverHeader E) u := by
    intro ls
    induction ls with
    | nil => exact fun _ => rfl
    | cons l ls ih => exact fun u => ih _
  rw [hl, Session.deliver, fragments, Settings.bodyData]
  by_cases hb : i.entity.body = []
  · rw [if_pos hb, if_pos hb]
    rfl
  · rw [if_neg hb, if_neg hb]
    rfl

theorem WellFormed.url_fits {i : Incoming} (h : i.WellFormed) {u : Session χ} (hu : u.Fresh) :
    (u.onData E .url i.url).error ≠ .uriTooLong := by
  refine (Session.addUrlFragment_fits hu.mode).mpr ⟨?_, ?_⟩
  · rw [hu.error]
    decide
  · rw [hu.url, List.length_nil, Nat.zero_add]
    exact h.short

/-- A new parser reads the request to its end. `good` is what holds of the session meanwhile. -/
theorem WellFormed.finishes {i : Incoming} (h : i.WellFormed) {S : Settings (Session χ)}
    {fn : Session.Callback χ} (hS : S = Session.settings E fn) {good : Session χ → Prop}
    (hL : S.Lawful good) {u : Session χ} (hg : good u) (hgu : good (S.data .url i.url u)) :
    ∃ q, q.type = .request ∧ q.method = i.method ∧ q.httpMajor = 1 ∧ q.httpMinor = 1 ∧
      Finishes S good (.init .request, u) i.bytes q (Session.deliver E u i.fragments) := by
  obtain ⟨f, hf, hup, hfit⟩ := h.framed.fits (p := .init .request) fun _ => rfl
  obtain ⟨q, ht, hm, hmaj, hmin, hfin⟩ := request_finishes hL
    (p := .init .request) (u := u) hg rfl rfl h.verb h.url hgu hf hup
    (by rw [show (HttpParser.init .request).nread = 0 from rfl, Nat.zero_add]; exact h.head) hfit
  subst hS
  rw [deliver_fragments, ← List.append_assoc] at hfin
  exact ⟨q, ht, hm, hmaj, hmin, hfin⟩

end Incoming

end Stutter
