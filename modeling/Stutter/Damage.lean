import Stutter.Uploads

namespace Stutter

open Joyent

/-- A kernel that has no descriptor at first. -/
def Env.refusing : Env :=
  { Env.linux with descriptor := fun n ds => if n = 0 then none else Env.linux.descriptor n ds }

namespace Connection

variable {ω : Type} {S : Server ω}

/-- The fragments of the body that comes, and those of the bodies before it. -/
structure Delivery where
  current : List Arrival
  done : List (List Arrival)

namespace Delivery

def new : Delivery := ⟨[], []⟩

def data (k : Mark) (frag : Bytes) (u : Objects ω) (d : Delivery) : Delivery :=
  match k with
  | .body => { d with current := d.current ++ [⟨u.request.message.body, u.fs, frag⟩] }
  | _ => d

def ghost : Ghost (Objects ω) Delivery where
  data := data
  headers _ d := d
  complete _ _ _ d := ⟨[], d.done ++ [d.current]⟩

end Delivery

/-- If a handler is given the request, it finds in the body what was delivered exactly if all of
that was stored. -/
def Exchange.Intact (E : Env) (e : Exchange) (l : List Arrival) : Prop :=
  ∀ q fs, e.handled = some (q, fs) → (∀ a ∈ l, (a.frag.length : ℤ) ≤ INT_MAX) →
    (q.message.body.content fs = Arrival.bytes l ↔ ∀ a ∈ l, a.Stored E)

/-- What the delivery says of its connection. -/
structure Delivered (E : Env) (x : Objects ω × Delivery) : Prop where
  mode : x.1.mode = .request
  filled : x.1.error = .ok → x.1.request.message.body.Filled E x.2.current x.1.fs
  record : List.Forall₂ (Exchange.Intact E) x.1.cx.record x.2.done

namespace Delivered

variable {E : Env} {u : Objects ω} {d : Delivery}

theorem fs_storeHeader (u : Objects ω) : u.storeHeader.fs = u.fs := by
  rw [Session.storeHeader]
  split_ifs
  · rw [Session.setMsg]
    cases u.mode <;> rfl
  · rfl

theorem headers (h : Delivered E (u, d)) : Delivered E (u.saveLastHeader, d) := by
  have hm : u.storeHeader.mode = .request := (Session.mode_storeHeader u).trans h.mode
  have hs : u.saveLastHeader = { u.storeHeader with
      error := Session.verdict u.storeHeader.request.message u.error } := by
    rw [Session.saveLastHeader, Session.checkHeaders, if_pos hm, Session.error_storeHeader]
  refine ⟨(Session.mode_saveLastHeader u).trans h.mode, fun he => ?_, ?_⟩
  · dsimp only at he ⊢
    rw [hs] at he ⊢
    dsimp only at he ⊢
    rw [body_storeHeader h.mode, fs_storeHeader]
    exact h.filled ((Session.verdict_ok _ _).mp he).1
  · have hc := Session.cx_saveLastHeader u
    dsimp only
    rw [hc]
    exact h.record

theorem url (h : Delivered E (u, d)) (frag : Bytes) : Delivered E (u.addUrlFragment frag, d) := by
  rw [Session.addUrlFragment]
  split_ifs
  · exact ⟨h.mode, fun he => (by cases he), h.record⟩
  · exact ⟨h.mode, h.filled, h.record⟩
  · exact h

theorem body (hE : E.Counts) (h : Delivered E (u, d)) (frag : Bytes) :
    Delivered E (u.addBodyFragment E frag, d.data .body frag u) := by
  rw [Session.addBodyFragment]
  split_ifs with he
  · obtain ⟨b, fs', hb⟩ := Body.addBody_some (E := E) u.request.message.body u.fs frag
    have hu : u.msg = u.request.message := by rw [Session.msg, h.mode]
    have hset : ∀ m', u.setMsg m' = { u with request := { u.request with message := m' } } :=
      fun m' => by rw [Session.setMsg, h.mode]
    rw [hu, Message.addBody, hb]
    dsimp only
    rw [hset]
    exact ⟨h.mode, fun hok => (h.filled hok).add hE hb, h.record⟩
  · refine ⟨h.mode, fun hok => ?_, h.record⟩
    exact absurd (show u.error = .bodyTooLarge from not_not.mp he) (by
      rw [show u.error = .ok from hok]
      decide)

theorem complete (hE : S.env.Counts) (h : Delivered S.env (u, d)) {p p' : HttpParser} {r : ℤ}
    {u' : Objects ω} (hc : Session.callback (process S) p u = some (r, p', u')) :
    Delivered S.env (u', ⟨[], d.done ++ [d.current]⟩) := by
  obtain ⟨⟨ok, q, v⟩, hf, he⟩ := Option.map_eq_some_iff.mp hc
  obtain ⟨-, rfl, hv⟩ := Prod.mk.injEq .. ▸ Prod.mk.injEq .. ▸ he
  obtain ⟨herr, -, hmsg, hfs⟩ := Session.complete_request h.mode p
  have hmode : (u.complete p).mode = .request := by rw [Session.complete, h.mode]
  obtain ⟨u₁, ha, hp⟩ := process_spec hf
  have hrec := hp.record
  rw [Session.cx_complete] at hrec
  have hintact : List.Forall₂ (Exchange.Intact S.env) v.cx.record (d.done ++ [d.current]) := by
    rw [hrec]
    refine List.rel_append h.record (.cons (fun q fs hq hp => ?_) .nil)
    rw [given] at hq
    split_ifs at hq with hok
    obtain ⟨rfl, rfl⟩ := Prod.mk.injEq .. ▸ Option.some.inj hq
    rw [not_not, herr] at hok
    rw [hmsg, hfs]
    exact (h.filled hok).content_iff fun a ha => hE.fitting (hp a ha)
  subst hv
  cases ok with
  | false => exact ⟨hp.mode.trans hmode, fun he => (by cases he), hintact⟩
  | true =>
    obtain ⟨-, -, hclean, -⟩ := process_clean hmode hf
    refine ⟨hclean.mode, fun _ => ?_, hintact⟩
    obtain ⟨b, hb, hr⟩ := hclean.request
    dsimp only
    rw [if_pos rfl, hr]
    exact hb.filled _

end Delivered

theorem watched_delivered (hE : S.env.Counts) : Watched S Delivery.ghost (Delivered S.env) where
  keeps := {
    data := fun k frag x h => by
      cases k with
      | url => exact h.url frag
      | headerField =>
        obtain ⟨hm, hf, hr⟩ := h.headers
        exact ⟨hm, hf, hr⟩
      | headerValue => exact ⟨h.mode, h.filled, h.record⟩
      | body => exact h.body hE frag
    headers := fun p x h => h.headers
    complete := fun hc h => by
      obtain ⟨⟨r, p, u⟩, hf, he⟩ := Option.map_eq_some_iff.mp hc
      obtain ⟨-, -, rfl⟩ := Prod.mk.injEq .. ▸ Prod.mk.injEq .. ▸ he
      exact h.complete hE hf }
  aside _ _ _ _ h := ⟨h.mode, h.filled, h.record⟩

/-- In every run, a handler that is given a request finds in its body the bytes that were delivered,
in order, exactly if all of them were stored. -/
theorem intact_iff (hE : S.env.Counts) {reads : List Bytes} {fs : Fs} {w : ω} {halted : Bool}
    {p : HttpParser} {u : Objects ω} (h : exec S reads (accepted fs w) = some (halted, p, u)) :
    List.Forall₂ (Exchange.Intact S.env) u.cx.record
      (watch S Delivery.ghost reads (accepted fs w) .new).done :=
  ((watched_delivered hE).exec h
    ⟨rfl, fun _ => Body.new_isEmpty.filled fs, .nil⟩).record

theorem intact_iff_uploads : ∃ p u,
    exec (keeper Unit) uploads (accepted .new ()) = some (false, p, u) ∧
    List.Forall₂ (Exchange.Intact .linux) u.cx.record
      (watch (keeper Unit) Delivery.ghost uploads (accepted .new ()) .new).done := by
  have hok : (exec (keeper Unit) uploads (accepted .new ())).map Prod.fst = some false := by
    decide +kernel
  obtain ⟨⟨halted, p, u⟩, h, hf⟩ := Option.map_eq_some_iff.mp hok
  obtain rfl : halted = false := hf
  exact ⟨p, u, h, intact_iff Env.linux_counts h⟩

/-- An upload of two bytes more than fit into memory. -/
def hole : List Bytes :=
  ascii "PUT / HTTP/1.1\r\nContent-Length: 8194\r\n\r\n" ::
    (List.replicate 8 (List.replicate 1024 0) ++ [[1], [2]])

def lacking : Server Unit := { keeper Unit with env := .refusing }

/-- The byte for which there was no file is left out, and the request is handed over. -/
theorem intact_hole : ∃ p u, exec lacking hole (accepted .new ()) = some (false, p, u) ∧
    (∃ e ∈ u.cx.record, ∃ q fs, e.handled = some (q, fs) ∧
      (q.message.body.content fs).drop 8192 = [2]) ∧
    (watch lacking Delivery.ghost hole (accepted .new ()) .new).done.map
      (fun l => (Arrival.bytes l).drop 8192) = [[1, 2]] := by
  have hrun : (exec lacking hole (accepted .new ())).map (fun r => (r.1, r.2.2.cx.record.map
      fun e => e.handled.map fun q => (q.1.message.body.content q.2).drop 8192)) =
      some (false, [some [2]]) := by
    decide +kernel
  obtain ⟨⟨halted, p, u⟩, h, hr⟩ := Option.map_eq_some_iff.mp hrun
  obtain ⟨rfl, hrec⟩ := Prod.mk.injEq .. ▸ hr
  refine ⟨p, u, h, ?_, by decide +kernel⟩
  obtain ⟨e, he, hh⟩ := List.mem_map.mp (hrec ▸ List.mem_singleton_self _)
  obtain ⟨⟨q, fs⟩, hq, hb⟩ := Option.map_eq_some_iff.mp hh
  exact ⟨e, he, q, fs, hq, hb⟩

end Connection

end Stutter
