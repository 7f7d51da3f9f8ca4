import Stutter.Buffering
import Stutter.Callbacks

namespace Stutter

open Joyent

/-- A message as its callbacks get it: the URL, each name and each value, and the body in pieces. -/
structure Fragments where
  url : List Bytes
  headers : List (List Bytes × List Bytes)
  body : List Bytes

namespace Fragments

/-- The header lines, uncut. -/
def lines (c : Fragments) : List (Bytes × Bytes) :=
  c.headers.map fun h => (h.1.flatten, h.2.flatten)

/-- Each name and each value comes in at least one piece. -/
def Called (c : Fragments) : Prop := ∀ h ∈ c.headers, h.1 ≠ [] ∧ h.2 ≠ []

end Fragments

namespace Session

variable {χ : Type} {E : Env}

def deliverHeader (E : Env) (u : Session χ) (h : List Bytes × List Bytes) : Session χ :=
  let u := h.1.foldl (fun u frag => u.onData E .headerField frag) u
  h.2.foldl (fun u frag => u.onData E .headerValue frag) u

/-- The callbacks of a message in their order, up to `on_message_complete`. -/
def deliver (E : Env) (u : Session χ) (c : Fragments) : Session χ :=
  let u := c.url.foldl (fun u frag => u.onData E .url frag) u
  let u := (c.headers.foldl (deliverHeader E) u).saveLastHeader
  c.body.foldl (fun u frag => u.onData E .body frag) u

/-- A parser behind `reset`, in mode `request`, over an empty request. -/
structure Fresh (u : Session χ) : Prop where
  mode : u.mode = .request
  error : u.error = .ok
  key : u.headerKey = []
  val : u.headerVal = []
  gotval : u.headerGotval = false
  headers : u.request.message.headers = .empty
  url : u.request.url = []
  body : u.request.message.body.IsEmpty

/-- The limits that the headers of a request have to keep. -/
def WithinLimits (m : Headers) : Prop :=
  0 ≤ atol ((m.get Message.contentLength).getD []) ∧
    atol ((m.get Message.contentLength).getD []) ≤ MAX_UPLOAD_SIZE ∧
    (m.get Message.expect).getD [] ≠ Message.oneHundredContinue

/-- `m_error` after the headers `hs`, over those in `m`. -/
def errorAfter : Headers → ParseError → List (Bytes × Bytes) → ParseError
  | m, e, [] => verdict ⟨m, [], .new⟩ e
  | m, e, h :: hs => errorAfter (m.insert h.1 h.2) (verdict ⟨m, [], .new⟩ e) hs

theorem verdict_ok (m : Message) (e : ParseError) :
    verdict m e = .ok ↔ e = .ok ∧ WithinLimits m.headers := by
  change _ ↔ e = .ok ∧ 0 ≤ atol (m.getHeader Message.contentLength) ∧
    atol (m.getHeader Message.contentLength) ≤ MAX_UPLOAD_SIZE ∧
      m.getHeader Message.expect ≠ Message.oneHundredContinue
  rw [verdict]
  by_cases h₁ : atol (m.getHeader Message.contentLength) < 0 ∨
      atol (m.getHeader Message.contentLength) > MAX_UPLOAD_SIZE
  · rw [if_pos h₁]
    exact ⟨fun h => absurd h (by decide), fun h => by omega⟩
  by_cases h₂ : m.getHeader Message.expect = Message.oneHundredContinue
  · rw [if_neg h₁, if_pos h₂]
    exact ⟨fun h => absurd h (by decide), fun h => absurd h₂ h.2.2.2⟩
  · rw [if_neg h₁, if_neg h₂]
    exact ⟨fun h => ⟨h, by omega, by omega, h₂⟩, fun h => h.1⟩

theorem errorAfter_ok (m : Headers) (e : ParseError) (hs : List (Bytes × Bytes)) :
    errorAfter m e hs = .ok ↔ e = .ok ∧ ∀ l, l <+: hs → WithinLimits (m.insertAll l) := by
  induction hs generalizing m e with
  | nil =>
    rw [errorAfter, verdict_ok]
    refine and_congr_right fun _ => ⟨fun h l hl => ?_, fun h => h [] List.prefix_rfl⟩
    rwa [List.prefix_nil.mp hl]
  | cons h hs ih =>
    rw [errorAfter, ih, verdict_ok, and_assoc]
    refine and_congr_right fun _ => ⟨fun hall l hl => ?_, fun hall => ⟨hall [] List.nil_prefix, ?_⟩⟩
    · obtain _ | ⟨h', l⟩ := l
      · exact hall.1
      · obtain ⟨rfl, hl'⟩ := List.cons_prefix_cons.mp hl
        exact hall.2 l hl'
    · exact fun l hl => hall (h :: l) (List.cons_prefix_cons.mpr ⟨rfl, hl⟩)

/-- The session `u` with the headers `m` stored, no header pending, and `m_error` `e`. -/
def having (u : Session χ) (m : Headers) (e : ParseError) : Session χ := { u with
  request := { u.request with message := { u.request.message with headers := m } }
  headerKey := [], headerVal := [], headerGotval := false, error := e }

theorem storeHeader_request {u : Session χ} (hm : u.mode = .request) (hg : u.headerGotval = true) :
    u.storeHeader =
      u.having (u.request.message.headers.insert u.headerKey u.headerVal) u.error := by
  rw [storeHeader, if_pos hg]
  rcases u with ⟨_ | _⟩
  · rfl
  · cases hm

theorem checkHeaders_having {u : Session χ} (hm : u.mode = .request) (m : Headers)
    (e : ParseError) : (u.having m e).checkHeaders = u.having m (verdict ⟨m, [], .new⟩ e) := by
  rw [checkHeaders, if_pos (by exact hm)]
  rfl

theorem names_fold {u : Session χ} (hm : u.mode = .request) (m : Headers) (e : ParseError)
    (he : verdict ⟨m, [], .new⟩ e = e) (key : Bytes) (ns : List Bytes) :
    ns.foldl (fun u frag => u.onData E .headerField frag) ((u.having m e).setKey key) =
      (u.having m e).setKey (key ++ ns.flatten) := by
  induction ns generalizing key with
  | nil => rw [List.foldl_nil, List.flatten_nil, List.append_nil]
  | cons n ns ih =>
    have hone : ((u.having m e).setKey key).onData E .headerField n =
        (u.having m e).setKey (key ++ n) := by
      rw [onData, saveLastHeader, storeHeader_of_not rfl, checkHeaders_setKey,
        checkHeaders_having hm, he]
      rfl
    rw [List.foldl_cons, hone, ih, List.flatten_cons, List.append_assoc]

theorem values_fold (u : Session χ) (v : Bytes) (vs : List Bytes) :
    vs.foldl (fun u frag => u.onData E .headerValue frag)
      { u with headerVal := v, headerGotval := true } =
        { u with headerVal := v ++ vs.flatten, headerGotval := true } := by
  induction vs generalizing v with
  | nil => rw [List.foldl_nil, List.flatten_nil, List.append_nil]
  | cons w vs ih =>
    rw [List.foldl_cons, List.flatten_cons, ← List.append_assoc]
    exact ih (v ++ w)

/-- One header, with the one before it still pending. -/
theorem deliverHeader_storeHeader {u b : Session χ} (hm : b.mode = .request) {m : Headers}
    {e : ParseError} (hu : u.storeHeader = b.having m e) {h : List Bytes × List Bytes}
    (hn : h.1 ≠ []) (hv : h.2 ≠ []) : (deliverHeader E u h).storeHeader =
      b.having (m.insert h.1.flatten h.2.flatten) (verdict ⟨m, [], .new⟩ e) := by
  obtain ⟨_ | ⟨n, ns⟩, _ | ⟨v, vs⟩⟩ := h
  · exact absurd rfl hn
  · exact absurd rfl hn
  · exact absurd rfl hv
  have hone : u.onData E .headerField n =
      (b.having m (verdict ⟨m, [], .new⟩ e)).setKey n := by
    rw [onData, saveLastHeader, hu, checkHeaders_having hm]
    rfl
  rw [deliverHeader]
  dsimp only
  rw [List.foldl_cons, List.foldl_cons, hone, names_fold hm _ _ (verdict_verdict ..)]
  have hval := values_fold (E := E)
    ((b.having m (verdict ⟨m, [], .new⟩ e)).setKey (n ++ ns.flatten)) v vs
  rw [show (((b.having m (verdict ⟨m, [], .new⟩ e)).setKey (n ++ ns.flatten)).onData E
    .headerValue v) = { (b.having m (verdict ⟨m, [], .new⟩ e)).setKey (n ++ ns.flatten) with
      headerVal := v, headerGotval := true } from rfl]
  dsimp only
  rw [hval, storeHeader_request (by exact hm) rfl]
  rfl

theorem headers_fold {u b : Session χ} (hm : b.mode = .request) {m : Headers} {e : ParseError}
    (hu : u.storeHeader = b.having m e) {hs : List (List Bytes × List Bytes)}
    (hc : ∀ h ∈ hs, h.1 ≠ [] ∧ h.2 ≠ []) :
    (hs.foldl (deliverHeader E) u).saveLastHeader =
      b.having (m.insertAll (hs.map fun h => (h.1.flatten, h.2.flatten)))
        (errorAfter m e (hs.map fun h => (h.1.flatten, h.2.flatten))) := by
  induction hs generalizing u m e with
  | nil =>
    rw [List.foldl_nil, saveLastHeader, hu, checkHeaders_having hm]
    rfl
  | cons h hs ih =>
    obtain ⟨hn, hv⟩ := hc h List.mem_cons_self
    rw [List.foldl_cons, ih (deliverHeader_storeHeader hm hu hn hv) fun h hh =>
      hc h (List.mem_cons_of_mem _ hh)]
    rfl

def withUrl (u : Session χ) (url : Bytes) (e : ParseError) : Session χ :=
  { u with request := { u.request with url := url }, error := e }

/-- The URL of a request, which is cut off where it is too long. -/
theorem url_fold {u : Session χ} (hm : u.mode = .request) (he : u.error = .ok)
    (frags : List Bytes) :
    (u.request.url.length + frags.flatten.length ≤ MAX_URI_LENGTH →
      frags.foldl (fun u frag => u.onData E .url frag) u =
        u.withUrl (u.request.url ++ frags.flatten) .ok) ∧
    (u.request.url.length ≤ MAX_URI_LENGTH →
      MAX_URI_LENGTH < u.request.url.length + frags.flatten.length →
      ∃ url, frags.foldl (fun u frag => u.onData E .url frag) u = u.withUrl url .uriTooLong) := by
  induction frags generalizing u with
  | nil =>
    refine ⟨fun _ => ?_, fun hle hlt => absurd hlt (by simpa using hle)⟩
    rw [List.foldl_nil, List.flatten_nil, List.append_nil, withUrl, ← he]
  | cons f frags ih =>
    have hne : u.error ≠ .uriTooLong := by rw [he]; decide
    rw [List.foldl_cons, List.flatten_cons, List.length_append]
    by_cases hf : u.request.url.length + f.length ≤ MAX_URI_LENGTH
    · have hone : u.onData E .url f = u.withUrl (u.request.url ++ f) .ok := by
        rw [onData, addUrlFragment_eq hm hne hf, withUrl, ← he]
        rfl
      obtain ⟨h₁, h₂⟩ := ih (u := u.withUrl (u.request.url ++ f) .ok) hm rfl
      simp only [withUrl, List.length_append, List.append_assoc] at h₁ h₂
      rw [hone]
      refine ⟨fun hle => ?_, fun _ hlt => ?_⟩
      · simp only [withUrl]
        rw [h₁ (by omega)]
      · simp only [withUrl]
        exact h₂ hf (by omega)
    · have hone : u.onData E .url f = u.withUrl u.request.url .uriTooLong := by
        rw [onData, addUrlFragment, if_pos ⟨hm, hne⟩, if_pos (not_le.mp hf)]
        rfl
      have hstay : frags.foldl (fun u frag => u.onData E .url frag)
          (u.withUrl u.request.url .uriTooLong) = u.withUrl u.request.url .uriTooLong := by
        clear ih
        induction frags with
        | nil => rfl
        | cons g frags ih =>
          rw [List.foldl_cons, onData, addUrlFragment, if_neg fun h => h.2 rfl, ih]
      exact ⟨fun hle => by omega, fun _ _ => ⟨_, by rw [hone, hstay]⟩⟩

/-- The body of a request that is not refused. -/
theorem body_fold (hE : E.Reliable) {u : Session χ} (hm : u.mode = .request)
    (he : u.error ≠ .bodyTooLarge) {fs₀ : Fs} {content : Bytes}
    (hb : u.request.message.body.Holds fs₀ content u.fs) (frags : List Bytes) :
    ∃ body fs, frags.foldl (fun u frag => u.onData E .body frag) u =
        { u with
          request := { u.request with message := { u.request.message with body := body } }
          fs := fs } ∧ body.Holds fs₀ (content ++ frags.flatten) fs := by
  induction frags generalizing u content with
  | nil =>
    refine ⟨u.request.message.body, u.fs, rfl, ?_⟩
    rwa [List.flatten_nil, List.append_nil]
  | cons f frags ih =>
    obtain ⟨body, fs, hadd, hb'⟩ := hb.step hE.toHealthy (hE.fits ..)
    have hone : u.onData E .body f = { u with
        request := { u.request with message := { u.request.message with body := body } }
        fs := fs } := by
      rw [onData, addBodyFragment, if_pos he, Message.addBody, msg, hm]
      dsimp only
      rw [hadd, setMsg, hm]
    obtain ⟨body', fs', hrest, hb''⟩ := ih (u := { u with
        request := { u.request with message := { u.request.message with body := body } }
        fs := fs }) hm he hb'
    rw [List.foldl_cons, hone, hrest, List.flatten_cons, ← List.append_assoc]
    exact ⟨body', fs', rfl, hb''⟩

theorem body_fold_error (u : Session χ) (frags : List Bytes) :
    (frags.foldl (fun u frag => u.onData E .body frag) u).error = u.error := by
  induction frags generalizing u with
  | nil => rfl
  | cons f frags ih => rw [List.foldl_cons, ih, onData, addBodyFragment_error]

/-- `m_error` at the end of a message, from its uncut parts. -/
def errorOf (url : Bytes) (lines : List (Bytes × Bytes)) : ParseError :=
  errorAfter .empty (if url.length ≤ MAX_URI_LENGTH then .ok else .uriTooLong) lines

theorem errorOf_ok (url : Bytes) (lines : List (Bytes × Bytes)) :
    errorOf url lines = .ok ↔ url.length ≤ MAX_URI_LENGTH ∧
      ∀ l, l <+: lines → WithinLimits (SortedMap.empty.insertAll l) := by
  rw [errorOf, errorAfter_ok]
  refine and_congr_left fun _ => ?_
  split_ifs with h
  · exact ⟨fun _ => h, fun _ => rfl⟩
  · exact ⟨fun hu => absurd hu (by decide), fun hu => absurd hu h⟩

theorem Fresh.having {u : Session χ} (h : u.Fresh) (url : Bytes) (e : ParseError) :
    (u.withUrl url e).storeHeader = (u.withUrl url e).having .empty e := by
  have hg := h.gotval
  have hk := h.key
  have hv := h.val
  have hh := h.headers
  rcases u with ⟨_, _, _, _, _, ⟨⟨_, _, _⟩, _, _, _, _, _⟩, _, _, _⟩
  dsimp only at hg hk hv hh
  subst hg hk hv hh
  rfl

/-- A message that is delivered to a fresh parser. -/
theorem deliver_eq (hE : E.Reliable) {u : Session χ} (hu : u.Fresh) {c : Fragments}
    (hc : c.Called) : (deliver E u c).error = errorOf c.url.flatten c.lines ∧
      (errorOf c.url.flatten c.lines = .ok → ∃ body fs, deliver E u c =
        { (u.withUrl c.url.flatten .ok).having (SortedMap.empty.insertAll c.lines) .ok with
          request := { u.request with
            message := ⟨SortedMap.empty.insertAll c.lines, u.request.message.data, body⟩
            url := c.url.flatten }
          fs := fs } ∧ body.Holds u.fs c.body.flatten fs) := by
  obtain ⟨h₁, h₂⟩ := url_fold (E := E) hu.mode hu.error c.url
  rw [hu.url, List.length_nil, Nat.zero_add] at h₁ h₂
  rw [List.nil_append] at h₁
  by_cases hl : c.url.flatten.length ≤ MAX_URI_LENGTH
  · have hh := headers_fold (E := E) (by exact hu.mode) (hu.having c.url.flatten .ok) hc
    have he : errorOf c.url.flatten c.lines = errorAfter .empty .ok c.lines := by
      rw [errorOf, if_pos hl]
    rw [deliver, h₁ hl]
    dsimp only
    rw [hh, body_fold_error]
    refine ⟨he.symm, fun hok => ?_⟩
    rw [he] at hok
    change errorAfter .empty .ok (c.headers.map fun h => (h.1.flatten, h.2.flatten)) = .ok at hok
    rw [hok]
    obtain ⟨body, fs, hb, hholds⟩ := body_fold hE (u := (u.withUrl c.url.flatten .ok).having
      (SortedMap.empty.insertAll (c.headers.map fun h => (h.1.flatten, h.2.flatten))) .ok)
      (by exact hu.mode) (by simp [Session.having]) (hu.body.holds u.fs) c.body
    exact ⟨body, fs, hb, hholds⟩
  · obtain ⟨url, hurl⟩ := h₂ (Nat.zero_le _) (not_le.mp hl)
    have hh := headers_fold (E := E) (by exact hu.mode) (hu.having url .uriTooLong) hc
    have he : errorOf c.url.flatten c.lines = errorAfter .empty .uriTooLong c.lines := by
      rw [errorOf, if_neg hl]
    rw [deliver, hurl]
    dsimp only
    rw [hh, body_fold_error]
    refine ⟨he.symm, fun hok => ?_⟩
    rw [he, errorAfter_ok] at hok
    exact absurd hok.1 (by decide)

/-- What every callback keeps is kept by a message. -/
theorem deliver_keeps {P : Session χ → Prop} (hd : ∀ u k frag, P u → P (u.onData E k frag))
    (hs : ∀ u, P u → P u.saveLastHeader) {u : Session χ} (h : P u) (c : Fragments) :
    P (deliver E u c) := by
  have hfold : ∀ (k : Mark) (frags : List Bytes) (u : Session χ), P u →
      P (frags.foldl (fun u frag => u.onData E k frag) u) := by
    intro k frags
    induction frags with
    | nil => exact fun _ h => h
    | cons f frags ih => exact fun u h => ih _ (hd u k f h)
  have hheaders : ∀ (hs : List (List Bytes × List Bytes)) (u : Session χ), P u →
      P (hs.foldl (deliverHeader E) u) := by
    intro hs
    induction hs with
    | nil => exact fun _ h => h
    | cons x xs ih => exact fun u h => ih _ (hfold _ _ _ (hfold _ _ _ h))
  exact hfold _ _ _ (hs _ (hheaders _ _ (hfold _ _ _ h)))

/-- The last check of the headers decides. -/
theorem errorAfter_last (m : Headers) (e : ParseError) (hs : List (Bytes × Bytes)) :
    ∃ e', errorAfter m e hs = verdict ⟨m.insertAll hs, [], .new⟩ e' := by
  induction hs generalizing m e with
  | nil => exact ⟨e, rfl⟩
  | cons h hs ih => exact ih _ _

theorem complete_request {u : Session χ} (hm : u.mode = .request) (p : HttpParser) :
    (u.complete p).error = u.error ∧ (u.complete p).request.url = u.request.url ∧
      (u.complete p).request.message = u.request.message ∧ (u.complete p).fs = u.fs := by
  have hq : u.request.extractQueryString.url = u.request.url ∧
      u.request.extractQueryString.message = u.request.message := by
    rw [Request.extractQueryString]
    split <;> exact ⟨rfl, rfl⟩
  rw [complete, hm]
  exact ⟨rfl, hq.1, hq.2, rfl⟩

theorem complete_error (u : Session χ) (p : HttpParser) : (u.complete p).error = u.error := by
  rw [complete]
  cases u.mode <;> rfl

/-- How the parts of a message are cut into callbacks makes no difference: not for `m_error`, and
not for the request, if it is accepted. -/
theorem deliver_uncut (hE : E.Reliable) {u : Session χ} (hu : u.Fresh) (p : HttpParser)
    {c c' : Fragments} (hc : c.Called) (hc' : c'.Called) (hurl : c'.url.flatten = c.url.flatten)
    (hlines : c'.lines = c.lines) :
    ((deliver E u c').complete p).error = ((deliver E u c).complete p).error ∧
    (((deliver E u c).complete p).error = .ok ↔ c.url.flatten.length ≤ MAX_URI_LENGTH ∧
      ∀ l, l <+: c.lines → WithinLimits (SortedMap.empty.insertAll l)) ∧
    (((deliver E u c).complete p).error = .ok →
      ((deliver E u c).complete p).request.url = c.url.flatten ∧
      ((deliver E u c).complete p).request.message.body.view ((deliver E u c).complete p).fs =
        .of c.body.flatten ∧
      ∀ k, ((deliver E u c).complete p).request.message.getHeader k =
        ((c.lines.reverse.find? fun h => nocase h.1 = nocase k).map Prod.snd).getD []) := by
  obtain ⟨he, hok⟩ := deliver_eq hE hu hc
  obtain ⟨he', -⟩ := deliver_eq hE hu hc'
  rw [complete_error, complete_error, he, he', hurl, hlines]
  refine ⟨rfl, errorOf_ok _ _, fun h => ?_⟩
  obtain ⟨body, fs, hd, hb⟩ := hok h
  obtain ⟨-, hu', hm', hf'⟩ := complete_request (u := deliver E u c) (by rw [hd]; exact hu.mode) p
  rw [hu', hm', hf', hd]
  refine ⟨rfl, hb.view, fun k => ?_⟩
  simp only [Message.getHeader, SortedMap.get_insertAll_list, SortedMap.get_empty, Option.or_none]
  congr!

theorem new_fresh (fs : Fs) (cx : χ) : (new .request fs cx).Fresh :=
  ⟨rfl, rfl, rfl, rfl, rfl, rfl, rfl, Body.new_isEmpty⟩

/-- A `Host` header whole and in pieces, some of them empty. -/
theorem deliver_uncut_host : ((deliver .linux (new .request .new ()) ⟨[ascii "/", ascii "x"],
      [([ascii "Ho", [], ascii "st"], [[], ascii "a"])], []⟩).complete (.init .request)).error =
    ((deliver .linux (new .request .new ()) ⟨[ascii "/x"], [([ascii "Host"], [ascii "a"])],
      []⟩).complete (.init .request)).error :=
  (deliver_uncut Env.linux_reliable (new_fresh _ _) _
    (c := ⟨[ascii "/x"], [([ascii "Host"], [ascii "a"])], []⟩)
    (by simp [Fragments.Called]) (by simp [Fragments.Called]) (by decide) (by decide)).1

end Session

end Stutter
