import Stutter.Uploads

namespace Stutter

open Joyent

/-- A callback of a parser. At the end of a message `m_fun` leaves the objects that are given here,
and says whether it was successful; a call that resets the parser is not one of these. -/
inductive ParserEvent (χ : Type) where
  | data (k : Mark) (frag : Bytes)
  | headersComplete
  | messageComplete (ok : Bool) (request : Request) (reply : Reply) (fs : Fs) (cx : χ)

namespace ParserEvent

variable {χ : Type}

/-- What it adds to the URL. -/
def url : ParserEvent χ → Bytes
  | .data .url frag => frag
  | _ => []

/-- It has `save_last_header` called. -/
def Saves : ParserEvent χ → Prop
  | .data .headerField _ | .headersComplete => True
  | _ => False

def Completes : ParserEvent χ → Prop
  | .messageComplete .. => True
  | _ => False

end ParserEvent

namespace Session

variable {χ : Type} {E : Env} {u : Session χ}

def event (E : Env) (u : Session χ) : ParserEvent χ → Session χ
  | .data k frag => u.onData E k frag
  | .headersComplete => u.saveLastHeader
  | .messageComplete ok request reply fs cx => { u with
      request := request, reply := reply, fs := fs, cx := cx
      error := if ok then u.error else .handlerFailure }

/-- One callback after another. -/
def events (E : Env) (u : Session χ) (es : List (ParserEvent χ)) : Session χ := es.foldl (event E) u

/-- The callbacks that `http_parser` is given are these. -/
theorem onData_event (fn : Callback χ) (k : Mark) (frag : Bytes) :
    (settings E fn).onData k frag u = (0, u.event E (.data k frag)) := rfl

theorem onHeadersComplete_event (fn : Callback χ) (p : HttpParser) :
    (settings E fn).onHeadersComplete p u = (0, u.event E .headersComplete) := rfl

theorem onMessageComplete_event {fn : Callback χ} {p p' : HttpParser} {ok : Bool}
    {request : Request} {reply : Reply} {fs : Fs} {cx : χ}
    (h : fn p (u.complete p) = some (ok, p', { u.complete p with
      request := request, reply := reply, fs := fs, cx := cx })) :
    (settings E fn).onMessageComplete p u =
      some (0, p', u.event E (.messageComplete ok request reply fs cx)) := by
  change callback fn p u = _
  rw [callback, h, Option.map_some, complete]
  obtain ⟨mode, -⟩ := u
  cases mode <;> cases ok <;> rfl

theorem events_append (u : Session χ) (xs ys : List (ParserEvent χ)) :
    u.events E (xs ++ ys) = (u.events E xs).events E ys := List.foldl_append ..

theorem mode_event (hm : u.mode = .request) (x : ParserEvent χ) :
    (u.event E x).mode = .request := by
  cases x with
  | data k frag => exact (onData_request E hm k frag).1
  | headersComplete => exact (saveLastHeader_request hm).1
  | messageComplete => exact hm

theorem mode_events (hm : u.mode = .request) (es : List (ParserEvent χ)) :
    (u.events E es).mode = .request := by
  induction es generalizing u with
  | nil => exact hm
  | cons x es ih => exact ih (mode_event hm x)

/-- The length is out of range. -/
def TooLarge (m : Message) : Prop :=
  atol (m.getHeader Message.contentLength) < 0 ∨
    atol (m.getHeader Message.contentLength) > MAX_UPLOAD_SIZE

def Expects (m : Message) : Prop := m.getHeader Message.expect = Message.oneHundredContinue

instance (m : Message) : Decidable (TooLarge m) := inferInstanceAs (Decidable (_ ∨ _))

instance (m : Message) : Decidable (Expects m) := inferInstanceAs (Decidable (_ = _))

/-- The headers call for no other error than the one that is there. -/
def Settled (m : Message) (e : ParseError) : Prop :=
  (TooLarge m → e = .bodyTooLarge) ∧ (¬ TooLarge m → Expects m → e = .need100Continue)

instance (m : Message) (e : ParseError) : Decidable (Settled m e) :=
  inferInstanceAs (Decidable (_ ∧ _))

theorem verdict_eq_iff (m : Message) (e : ParseError) : verdict m e = e ↔ Settled m e := by
  unfold verdict Settled TooLarge Expects
  dsimp only
  split_ifs with h₁ h₂
  · exact ⟨fun h => ⟨fun _ => h.symm, fun hn => absurd h₁ hn⟩, fun h => (h.1 h₁).symm⟩
  · exact ⟨fun h => ⟨fun hl => absurd hl h₁, fun _ _ => h.symm⟩, fun h => (h.2 h₁ h₂).symm⟩
  · exact ⟨fun _ => ⟨fun hl => absurd hl h₁, fun _ hx => absurd hx h₂⟩, fun _ => rfl⟩

/-- The callback finds no error yet, or none besides the one there is. -/
def Spares (u : Session χ) : ParserEvent χ → Prop
  | .data .url frag => u.error = .ok ∨ u.error = .uriTooLong ∨
      u.request.url.length + frag.length ≤ MAX_URI_LENGTH
  | .data .headerField _ | .headersComplete =>
      u.error = .ok ∨ Settled u.storeHeader.request.message u.error
  | .data .headerValue _ | .data .body _ => True
  | .messageComplete ok _ _ _ _ => u.error = .ok ∨ u.error = .handlerFailure ∨ ok = true

theorem error_saveLastHeader (hm : u.mode = .request) :
    u.saveLastHeader.error = verdict u.storeHeader.request.message u.error := by
  rw [saveLastHeader, checkHeaders, if_pos (by rw [mode_storeHeader, hm])]
  dsimp only
  rw [error_storeHeader]

theorem error_url (hm : u.mode = .request) (frag : Bytes) : (u.addUrlFragment frag).error =
    if MAX_URI_LENGTH < u.request.url.length + frag.length then .uriTooLong else u.error := by
  rw [addUrlFragment]
  by_cases he : u.error = .uriTooLong
  · rw [if_neg fun h => h.2 he, he]
    split_ifs <;> rfl
  · rw [if_pos ⟨hm, he⟩]
    split_ifs <;> rfl

/-- A callback that finds an error leaves it be, exactly if it spares it. -/
theorem event_keeps_iff (hm : u.mode = .request) (x : ParserEvent χ) :
    (u.error ≠ .ok → (u.event E x).error = u.error) ↔ u.Spares x := by
  have hsave : (u.error ≠ .ok → u.saveLastHeader.error = u.error) ↔
      u.error = .ok ∨ Settled u.storeHeader.request.message u.error := by
    rw [error_saveLastHeader hm, verdict_eq_iff, ne_eq, ← or_iff_not_imp_left]
  cases x with
  | headersComplete => exact hsave
  | messageComplete ok request reply fs cx =>
    change (u.error ≠ .ok → (if ok = true then u.error else .handlerFailure) = u.error) ↔
      (u.error = .ok ∨ u.error = .handlerFailure ∨ ok = true)
    rw [ne_eq, ← or_iff_not_imp_left]
    refine or_congr_right ?_
    split_ifs with hok
    · exact iff_of_true rfl (.inr hok)
    · rw [or_iff_left hok]
      exact eq_comm
  | data k frag =>
    cases k with
    | headerField => exact hsave
    | headerValue => exact iff_of_true (fun _ => rfl) trivial
    | body => exact iff_of_true (fun _ => addBodyFragment_error u frag) trivial
    | url =>
      change (u.error ≠ .ok → (u.addUrlFragment frag).error = u.error) ↔ (u.error = .ok ∨
        u.error = .uriTooLong ∨ u.request.url.length + frag.length ≤ MAX_URI_LENGTH)
      rw [error_url hm, ne_eq, ← or_iff_not_imp_left]
      refine or_congr_right ?_
      split_ifs with hlong
      · rw [or_iff_left (not_le.mpr hlong)]
        exact eq_comm
      · exact iff_of_true rfl (.inr (not_lt.mp hlong))

/-- No callback that finds an error replaces it, exactly if each of them spares it. -/
theorem events_keep_iff (hm : u.mode = .request) (es : List (ParserEvent χ)) :
    (∀ xs ys zs, es = xs ++ ys ++ zs → (u.events E xs).error ≠ .ok →
      (u.events E (xs ++ ys)).error = (u.events E xs).error) ↔
    ∀ xs x ys, es = xs ++ x :: ys → (u.events E xs).Spares x := by
  constructor
  · intro h xs x ys he
    apply (event_keeps_iff (E := E) (mode_events hm xs) x).mp
    intro hne
    have hx := h xs [x] ys (by rw [he, List.append_assoc]; rfl) hne
    rwa [events_append] at hx
  · intro h xs ys
    -- from the left: what has come so far is in `xs`, what is to come in `ys`
    induction ys generalizing xs with
    | nil =>
      intro zs _ _
      rw [List.append_nil]
    | cons y ys ih =>
      intro zs he hne
      have hy : (u.events E (xs ++ [y])).error = (u.events E xs).error := by
        rw [events_append]
        exact (event_keeps_iff (mode_events hm xs) y).mpr
          (h xs y (ys ++ zs) (by rw [he, List.append_assoc]; rfl)) hne
      have hrest := ih (xs ++ [y]) zs (by rw [he, List.append_cons xs y ys]) (by rwa [hy])
      rwa [← List.append_cons, hy] at hrest

theorem event_large (hm : u.mode = .request) {x : ParserEvent χ} (hx : x.Saves)
    (hl : atol (u.storeHeader.request.message.getHeader Message.contentLength) >
      MAX_UPLOAD_SIZE) : (u.events E [x]).error = .bodyTooLarge := by
  have hs : u.saveLastHeader.error = .bodyTooLarge := by
    rw [error_saveLastHeader hm, verdict, if_pos (.inr hl)]
  cases x with
  | headersComplete => exact hs
  | messageComplete => exact absurd hx id
  | data k frag =>
    cases k with
    | headerField => exact hs
    | url => exact absurd hx id
    | headerValue => exact absurd hx id
    | body => exact absurd hx id

theorem spares_nil : ∀ xs x ys, [] = xs ++ x :: ys → (u.events E xs).Spares x := by
  intro xs x ys he
  exact absurd he.symm (List.append_ne_nil_of_right_ne_nil xs (List.cons_ne_nil x ys))

theorem spares_cons {x : ParserEvent χ} {es : List (ParserEvent χ)} (hx : u.Spares x)
    (h : ∀ xs y ys, es = xs ++ y :: ys → ((u.event E x).events E xs).Spares y) :
    ∀ xs y ys, x :: es = xs ++ y :: ys → (u.events E xs).Spares y := by
  intro xs y ys he
  cases xs with
  | nil =>
    obtain ⟨rfl, -⟩ := List.cons.inj he
    exact hx
  | cons z xs =>
    obtain ⟨rfl, he'⟩ := List.cons.inj he
    exact h xs y ys he'

/-- The URL has been taken whole, or the error says that it was not. -/
def UrlTaken (u : Session χ) (n : ℕ) : Prop :=
  u.error = .uriTooLong ∨ u.request.url.length = n ∧ n ≤ MAX_URI_LENGTH

theorem url_storeHeader (hm : u.mode = .request) : u.storeHeader.request.url = u.request.url := by
  unfold storeHeader setMsg
  rw [hm]
  split_ifs <;> rfl

theorem UrlTaken.event (hm : u.mode = .request) {x : ParserEvent χ} (hx : ¬ x.Completes)
    (hs : u.Spares x) {n : ℕ} (h : u.UrlTaken n) : (u.event E x).UrlTaken (n + x.url.length) := by
  have hsave (hs : u.error = .ok ∨ Settled u.storeHeader.request.message u.error) :
      u.saveLastHeader.UrlTaken n := by
    rcases h with he | ⟨hl, hn⟩
    · left
      rw [error_saveLastHeader hm, he, verdict_eq_iff, ← he]
      exact hs.resolve_left (by rw [he]; decide)
    · right
      refine ⟨?_, hn⟩
      unfold saveLastHeader checkHeaders
      split_ifs <;> rw [url_storeHeader hm, hl]
  cases x with
  | headersComplete => exact hsave hs
  | messageComplete => exact absurd trivial hx
  | data k frag =>
    cases k with
    | headerField => exact hsave hs
    | headerValue => exact h
    | body =>
      refine h.imp (fun he => (addBodyFragment_error u frag).trans he) fun hl => ⟨?_, hl.2⟩
      change (u.addBodyFragment E frag).request.url.length = n
      unfold addBodyFragment setMsg
      rw [hm]
      split_ifs <;> exact hl.1
    | url =>
      change (u.addUrlFragment frag).UrlTaken (n + frag.length)
      by_cases hlong : MAX_URI_LENGTH < u.request.url.length + frag.length
      · left
        rw [error_url hm, if_pos hlong]
      · by_cases he : u.error = .uriTooLong
        · left
          rw [error_url hm, if_neg hlong, he]
        · right
          obtain ⟨hl, hn⟩ := h.resolve_left he
          unfold addUrlFragment Request.addUrlFragment
          rw [if_pos ⟨hm, he⟩, if_neg hlong]
          dsimp only
          rw [List.length_append]
          omega

/-- The URL of a request that has no other error first. -/
theorem UrlTaken.events (hm : u.mode = .request) {es : List (ParserEvent χ)}
    (hes : ∀ x ∈ es, ¬ x.Completes)
    (hs : ∀ xs x ys, es = xs ++ x :: ys → (u.events E xs).Spares x) {n : ℕ} (h : u.UrlTaken n) :
    (u.events E es).UrlTaken (n + (es.flatMap ParserEvent.url).length) := by
  induction es generalizing u n with
  | nil => exact h
  | cons x es ih =>
    have hx := h.event (E := E) hm (hes x List.mem_cons_self) (hs [] x es rfl)
    have hrest := ih (mode_event hm x) (fun y hy => hes y (List.mem_cons_of_mem _ hy))
      (fun xs y ys he => hs (x :: xs) y ys (by rw [he]; rfl)) hx
    rwa [List.flatMap_cons, List.length_append, ← Nat.add_assoc]

end Session

namespace Connection

variable {ω : Type} {S : Server ω} {u : Objects ω}

open Session

/-- The request that the callbacks have left is answered with the code `code`. -/
def AnsweredWith (S : Server ω) (u : Objects ω) (code : ℤ) : Prop :=
  ∀ p, ∃ v, answer S (u.complete p) = some v ∧ (checkClose p v).reply.code = code

theorem answeredWith_error (he : u.error ≠ .ok) {code : ℤ}
    (hc : (processError u.error u.reply).code = code) (hm : u.mode = .request) :
    AnsweredWith S u code := by
  intro p
  have hr : (u.complete p).reply = u.reply := by
    unfold complete
    rw [hm]
  refine ⟨_, by rw [answer, if_pos (by rwa [complete_error])], ?_⟩
  rw [code_checkClose, complete_error, hr, hc]

theorem answeredWith_uri (hm : u.mode = .request) (he : u.error = .uriTooLong) :
    AnsweredWith S u 414 := by
  apply answeredWith_error (by rw [he]; decide) _ hm
  rw [he]
  change toInt16 414 = 414
  decide

theorem answeredWith_large (hm : u.mode = .request) (he : u.error = .bodyTooLarge) :
    AnsweredWith S u 413 := by
  apply answeredWith_error (by rw [he]; decide) _ hm
  rw [he]
  change toInt16 413 = 413
  decide

/-- The parser has been reset: it has found no error, and no header is pending. -/
structure Fresh (u : Objects ω) : Prop where
  error : u.error = .ok
  key : u.headerKey = []
  val : u.headerVal = []
  gotval : u.headerGotval = false

/-- The callbacks that have come since the parser was reset have made the objects what they are. -/
def Heard (E : Env) (u : Objects ω) : Prop := ∃ u₀ es, Fresh u₀ ∧ u = u₀.events E es

theorem Heard.event {E : Env} (h : Heard E u) (x : ParserEvent (Connection ω)) :
    Heard E (u.event E x) := by
  obtain ⟨u₀, es, h₀, rfl⟩ := h
  exact ⟨u₀, es ++ [x], h₀, (events_append u₀ es [x]).symm⟩

/-- `process` resets the parser, or fails and leaves what it keeps alone. -/
theorem process_fresh {p p' : HttpParser} {u' : Objects ω} {ok : Bool}
    (h : process S p u = some (ok, p', u')) : ok = true ∧ Fresh u' ∨ ok = false ∧
      u' = { u with request := u'.request, reply := u'.reply, fs := u'.fs, cx := u'.cx } := by
  obtain ⟨u₁, ha, hr⟩ := Option.map_eq_some_iff.mp h
  have h₁ : u₁ = { u with request := u₁.request, reply := u₁.reply, fs := u₁.fs, cx := u₁.cx } := by
    rw [answer] at ha
    split_ifs at ha
    · obtain rfl := Option.some.inj ha
      rfl
    · obtain ⟨handle, -, rfl⟩ := Option.map_eq_some_iff.mp ha
      rfl
  have h₂ : checkClose p u₁ = { u with
      request := (checkClose p u₁).request, reply := (checkClose p u₁).reply
      fs := (checkClose p u₁).fs, cx := (checkClose p u₁).cx } := by
    rw [h₁, checkClose]
    split_ifs <;> rfl
  rw [respond, h₂] at hr
  generalize send S.io _ _ _ = x at hr
  obtain ⟨_ | _, reply, socket⟩ := x
  · obtain ⟨rfl, -, rfl⟩ := Prod.mk.injEq .. ▸ Prod.mk.injEq .. ▸ hr
    exact .inr ⟨rfl, rfl⟩
  · obtain ⟨rfl, -, rfl⟩ := Prod.mk.injEq .. ▸ Prod.mk.injEq .. ▸ hr
    exact .inl ⟨rfl, rfl, rfl, rfl, rfl⟩

theorem keeps_heard : (settings S.env (process S)).Keeps (Heard S.env) where
  data k frag u h := by
    rw [onData_event]
    exact h.event (.data k frag)
  headers p u h := by
    rw [onHeadersComplete_event]
    exact h.event .headersComplete
  complete {p u r p' u'} hc h := by
    obtain ⟨⟨ok, q, v⟩, hf, he⟩ := Option.map_eq_some_iff.mp hc
    obtain ⟨rfl, hv⟩ | ⟨rfl, hv⟩ := process_fresh hf
    · obtain ⟨-, -, rfl⟩ := Prod.mk.injEq .. ▸ Prod.mk.injEq .. ▸ he
      exact ⟨v, [], hv, rfl⟩
    · rw [hv] at hf
      rw [onMessageComplete_event hf] at hc
      obtain ⟨-, -, rfl⟩ := Prod.mk.injEq .. ▸ Prod.mk.injEq .. ▸ Option.some.inj hc
      exact h.event _

/-- In every run, what the reads have left of a connection such callbacks have made of it. -/
theorem Reading.heard {fs : Fs} {w : ω} {s : HttpParser × Objects ω} (h : Reading S fs w s) :
    Heard S.env s.2 := by
  induction h with
  | start => exact ⟨_, [], ⟨rfl, rfl, rfl, rfl⟩, rfl⟩
  | @read s s' chunk before h ih =>
    obtain ⟨-, ha, -⟩ := turn_reads before.need h
    obtain ⟨n, hx⟩ := add_execute ha
    exact execute_all keeps_heard ih chunk _ _ _ hx

/-- The first violation in the callbacks `es` decides the error reply. -/
structure FirstDecides (S : Server ω) (u : Objects ω) (es : List (ParserEvent (Connection ω))) :
    Prop where
  keeps : ∀ xs ys zs, es = xs ++ ys ++ zs → (u.events S.env xs).error ≠ .ok →
    (u.events S.env (xs ++ ys)).error = (u.events S.env xs).error
  uri : (∀ x ∈ es, ¬ x.Completes) → u.request.url.length ≤ MAX_URI_LENGTH →
    MAX_URI_LENGTH < u.request.url.length + (es.flatMap ParserEvent.url).length →
    AnsweredWith S (u.events S.env es) 414
  large : ∀ xs x ys, es = xs ++ x :: ys → (∀ y ∈ ys, ¬ y.Completes) → x.Saves →
    (u.events S.env xs).error = .ok →
    atol ((u.events S.env xs).storeHeader.request.message.getHeader Message.contentLength) >
      MAX_UPLOAD_SIZE →
    AnsweredWith S (u.events S.env es) 413

theorem firstDecides_iff (S : Server ω) (hm : u.mode = .request)
    (es : List (ParserEvent (Connection ω))) : FirstDecides S u es ↔
      ∀ xs x ys, es = xs ++ x :: ys → (u.events S.env xs).Spares x := by
  rw [← events_keep_iff hm]
  refine ⟨fun h => h.keeps, fun h => ⟨h, ?_, ?_⟩⟩
  · intro hes hle hlt
    have ht := UrlTaken.events (E := S.env) hm hes ((events_keep_iff hm es).mp h)
      (.inr ⟨rfl, hle⟩)
    exact answeredWith_uri (mode_events hm es)
      (ht.resolve_right fun hn => absurd hn.2 (not_le.mpr hlt))
  · rintro xs x ys rfl - hx hok hlarge
    have hm' := mode_events (E := S.env) hm xs
    have hone : (u.events S.env (xs ++ [x])).error = .bodyTooLarge := by
      rw [events_append]
      exact event_large hm' hx hlarge
    have hall := h (xs ++ [x]) ys [] (by simp) (by rw [hone]; decide)
    rw [← List.append_cons, hone] at hall
    exact answeredWith_large (mode_events hm _) hall

/-- A URL that is too long, and a header without consequence. -/
theorem firstDecides_host : FirstDecides (keeper Unit) (accepted .new ()).2
    [.data .url (List.replicate 4097 47), .data .headerField (ascii "Host"),
      .data .headerValue (ascii "a"), .headersComplete] := by
  apply (firstDecides_iff (keeper Unit) rfl _).mpr
  refine spares_cons (.inl rfl) (spares_cons ?_ (spares_cons trivial (spares_cons ?_ spares_nil)))
  · exact .inr (by decide +kernel)
  · exact .inr (by decide +kernel)

/-- A URL that is too long, and a length that is too large: the answer is 413. -/
theorem not_firstDecides : ¬ FirstDecides (keeper Unit) (accepted .new ()).2
    [.data .url (List.replicate 4097 47), .data .headerField (ascii "Content-Length"),
      .data .headerValue (ascii "2000000"), .headersComplete] := by
  intro h
  have huri := h.uri (by simp only [List.forall_mem_cons, ParserEvent.Completes]; simp) (by decide)
    (by decide +kernel)
  have hlarge : AnsweredWith (keeper Unit) ((accepted .new ()).2.events (keeper Unit).env
      [.data .url (List.replicate 4097 47), .data .headerField (ascii "Content-Length"),
        .data .headerValue (ascii "2000000"), .headersComplete]) 413 :=
    answeredWith_large (by decide +kernel) (by decide +kernel)
  obtain ⟨v, hv, hcode⟩ := huri (.init .request)
  obtain ⟨w, hw, hcode'⟩ := hlarge (.init .request)
  obtain rfl := Option.some.inj (hv.symm.trans hw)
  exact absurd (hcode.symm.trans hcode') (by decide)

end Connection

end Stutter
