import Stutter.Closing
import Stutter.Joyent.Ghost
import Stutter.Joyent.Upgrade
import Stutter.Sending

namespace Stutter

open Joyent

namespace Connection

variable {ω : Type} {S : Server ω}

/-- A state in which `exec` waits for the next read. -/
inductive Reading (S : Server ω) (fs : Fs) (w : ω) : HttpParser × Objects ω → Prop
  | start : Reading S fs w (accepted fs w)
  | read {s s' : HttpParser × Objects ω} {chunk : Bytes} (before : Reading S fs w s)
    (h : turn S s chunk = some (false, s')) : Reading S fs w s'

theorem add_need {s s' : HttpParser × Objects ω} {chunk : Bytes} (h : add S s chunk = some s')
    (hs : s.2.cx.state ≠ .need100Continue) : s'.2.cx.state ≠ .need100Continue := by
  rw [add, Session.add, Option.map_map] at h
  obtain ⟨⟨n, p, u⟩, hx, rfl⟩ := Option.map_eq_some_iff.mp h
  exact execute_all (Session.keeps_cx (P := fun x : Connection ω => x.state ≠ .need100Continue)
    process_need) hs chunk _ _ _ hx

/-- A turn is what the parser does, for nobody asks for a 100 response. -/
theorem turn_eq {s : HttpParser × Objects ω} {chunk : Bytes} (hne : chunk ≠ [])
    (hs : s.2.cx.state ≠ .need100Continue) :
    turn S s chunk = (add S s chunk).map fun t => (t.2.cx.state.halts, t) := by
  rw [turn, if_neg hne]
  cases h : add S s chunk with
  | none => rfl
  | some t => simp only [Option.map_some, if_neg (add_need h hs)]

theorem turn_reads {s s' : HttpParser × Objects ω} {chunk : Bytes}
    (hs : s.2.cx.state ≠ .need100Continue) (h : turn S s chunk = some (false, s')) :
    chunk ≠ [] ∧ add S s chunk = some s' ∧ s'.2.cx.state.halts = false := by
  have hne : chunk ≠ [] := by
    rintro rfl
    rw [turn, if_pos rfl] at h
    exact Bool.noConfusion (congrArg Prod.fst (Option.some.inj h))
  rw [turn_eq hne hs] at h
  obtain ⟨t, ha, ht⟩ := Option.map_eq_some_iff.mp h
  obtain ⟨hh, rfl⟩ := Prod.mk.injEq .. ▸ ht
  exact ⟨hne, ha, hh⟩

theorem Reading.ready {fs : Fs} {w : ω} {s : HttpParser × Objects ω} (h : Reading S fs w s) :
    s.2.cx.state = .readyForData := by
  induction h with
  | start => rfl
  | @read s s' chunk before h ih =>
    have hn : s.2.cx.state ≠ .need100Continue := by
      rw [ih]
      exact ConnectionState.noConfusion
    obtain ⟨-, ha, hh⟩ := turn_reads hn h
    have hn' := add_need ha hn
    cases hst : s'.2.cx.state <;> rw [hst] at hh hn' <;> first
      | rfl
      | exact absurd rfl hn'
      | exact absurd hh (by decide)

theorem Reading.need {fs : Fs} {w : ω} {s : HttpParser × Objects ω} (h : Reading S fs w s) :
    s.2.cx.state ≠ .need100Continue := by
  rw [h.ready]
  exact ConnectionState.noConfusion

/-- What ends the connection at the request that `process` is called for: it is refused, or asks for
it, or its reply is not written. -/
def EndsAt (S : Server ω) (p : HttpParser) (u : Objects ω) : Prop :=
  u.error ≠ .ok ∨ ∃ u₁, answer S u = some u₁ ∧ (Closes p u₁.request ∨
    (send S.io u.cx.socket (checkClose p u₁).fs (checkClose p u₁).reply).1 = false)

/-- The request that `process` is called for is answered with a 400, all of which is written. -/
def BadRequest (S : Server ω) (p : HttpParser) (u : Objects ω) : Prop :=
  ∃ u₁, answer S u = some u₁ ∧ u₁.reply.code = 400 ∧
    (send S.io u.cx.socket (checkClose p u₁).fs (checkClose p u₁).reply).1 = true

theorem process_halts_iff {p p' : HttpParser} {u u' : Objects ω} {ok : Bool}
    (h : process S p u = some (ok, p', u')) :
    u'.cx.state.halts = true ↔ u.cx.state.halts = true ∨ EndsAt S p u := by
  classical
  obtain ⟨u₁, ha, hp⟩ := process_spec h
  rw [hp.state, checkClose_state, (answer_frame ha).2.2.2]
  constructor
  · intro hh
    cases ok with
    | false => exact .inr (.inr ⟨u₁, ha, .inr hp.sent⟩)
    | true =>
      rw [if_pos rfl] at hh
      split_ifs at hh with hc he
      · exact .inr (.inr ⟨u₁, ha, .inl hc⟩)
      · exact .inr (.inl he)
      · exact .inl hh
  · intro hh
    cases ok with
    | false => rfl
    | true =>
      rw [if_pos rfl]
      obtain hh | he | ⟨u₂, ha', hc | hs⟩ := hh
      · split_ifs
        · rfl
        · rfl
        · exact hh
      · split_ifs <;> rfl
      · obtain rfl := Option.some.inj (ha.symm.trans ha')
        rw [if_pos hc]
        rfl
      · obtain rfl := Option.some.inj (ha.symm.trans ha')
        rw [hp.sent] at hs
        exact absurd hs (by decide)

theorem bad_iff {p p' : HttpParser} {u u' : Objects ω} {ok : Bool}
    (h : process S p u = some (ok, p', u')) :
    ∃ e, u'.cx.record = u.cx.record ++ [e] ∧
      (e.reply.code = 400 ∧ e.sent = true ↔ BadRequest S p u) := by
  obtain ⟨u₁, ha, hp⟩ := process_spec h
  refine ⟨_, hp.record, ?_⟩
  dsimp only
  rw [code_checkClose, ← hp.sent]
  constructor
  · rintro ⟨hc, hs⟩
    exact ⟨u₁, ha, hc, hs⟩
  · rintro ⟨u₂, ha', hc, hs⟩
    obtain rfl := Option.some.inj (ha.symm.trans ha')
    exact ⟨hc, hs⟩

/-- The calls of `process`, with the parser and the objects that each is given. -/
def noted : Ghost (Objects ω) (List (HttpParser × Objects ω)) where
  data _ _ _ g := g
  headers _ g := g
  complete p u _ g := g ++ [(p, u.complete p)]

/-- The callbacks of the parser, with the calls of `process` noted. -/
abbrev notes (S : Server ω) : Settings (Objects ω × List (HttpParser × Objects ω)) :=
  (Session.settings S.env (process S)).beside noted

/-- The calls of `process` while a read is parsed. -/
def calls (S : Server ω) (s : HttpParser × Objects ω) (chunk : Bytes) :
    List (HttpParser × Objects ω) :=
  match httpParserExecute (notes S) s.1 (s.2, []) chunk with
  | none => []
  | some (_, _, _, g) => g

theorem notes_complete {p p' : HttpParser} {x x' : Objects ω × List (HttpParser × Objects ω)}
    {r : ℤ} (h : (notes S).onMessageComplete p x = some (r, p', x')) :
    ∃ ok u', process S p (x.1.complete p) = some (ok, p', u') ∧ r = 0 ∧ x'.1.cx = u'.cx ∧
      x'.2 = x.2 ++ [(p, x.1.complete p)] := by
  obtain ⟨⟨r', q, v⟩, hc, he⟩ := Option.map_eq_some_iff.mp h
  obtain ⟨rfl, rfl, rfl⟩ := Prod.mk.injEq .. ▸ Prod.mk.injEq .. ▸ he
  obtain ⟨⟨ok, q', v'⟩, hp, he⟩ := Option.map_eq_some_iff.mp hc
  obtain ⟨rfl, rfl, rfl⟩ := Prod.mk.injEq .. ▸ Prod.mk.injEq .. ▸ he
  refine ⟨ok, v', hp, rfl, ?_, rfl⟩
  cases ok <;> rfl

/-- What the calls say of the connection: whether it is to end, and whether a 400 was written. -/
structure Noted (S : Server ω) (before : List Exchange) (cx : Connection ω)
    (calls : List (HttpParser × Objects ω)) : Prop where
  halts : cx.state.halts = true ↔ ∃ c ∈ calls, EndsAt S c.1 c.2
  record : ∃ es, cx.record = before ++ es ∧
    ((∃ e ∈ es, e.reply.code = 400 ∧ e.sent = true) ↔ ∃ c ∈ calls, BadRequest S c.1 c.2)

theorem keeps_noted (before : List Exchange) :
    (notes S).Keeps fun x => Noted S before x.1.cx x.2 where
  data k frag x h := by
    change Noted S before (x.1.onData S.env k frag).cx x.2
    rwa [Session.cx_onData]
  headers p x h := by
    change Noted S before x.1.saveLastHeader.cx x.2
    rwa [Session.cx_saveLastHeader]
  complete {p x r p' x'} hc h := by
    obtain ⟨ok, u', hp, -, hcx, hg⟩ := notes_complete hc
    obtain ⟨es, hr, hbad⟩ := h.record
    obtain ⟨e, hrec, he⟩ := bad_iff hp
    have hx : (x.1.complete p).cx = x.1.cx := Session.cx_complete x.1 p
    rw [hcx, hg]
    constructor
    · rw [process_halts_iff hp, hx, h.halts]
      simp only [List.mem_append, List.mem_singleton, or_and_right, exists_or, exists_eq_left]
    · refine ⟨es ++ [e], by rw [hrec, hx, hr, List.append_assoc], ?_⟩
      simp only [List.mem_append, List.mem_singleton, or_and_right, exists_or, exists_eq_left, hbad,
        he]

/-- No call so far is for a request after which another protocol follows. -/
theorem level_notes :
    (notes S).Level fun x => ∀ c ∈ x.2, c.1.upgrade = false where
  data k frag x h := h
  headers p x h := h
  complete {p x r p' x'} hc := by
    obtain ⟨ok, u', hp, hr, -, hg⟩ := notes_complete hc
    obtain ⟨u₁, -, hproc⟩ := process_spec hp
    refine ⟨hr, ?_, fun hup h c hm => ?_⟩
    · rw [hproc.parser]
      cases ok
      · exact .inl rfl
      · exact .inr ⟨_, rfl⟩
    · rw [hg] at hm
      obtain hm | hm := List.mem_append.mp hm
      · exact h c hm
      · obtain rfl := List.mem_singleton.mp hm
        exact hup

/-- The read is the last: `exec` returns behind it, and what the parser has refused is answered with
a 400. -/
def Ended (S : Server ω) (s : HttpParser × Objects ω) (chunk : Bytes) : Prop :=
  ∃ t s', add S s chunk = some t ∧ turn S s chunk = some (true, s') ∧
    (t.1.httpErrno ≠ .ok →
      (∃ e ∈ t.2.cx.record.drop s.2.cx.record.length, e.reply.code = 400 ∧ e.sent = true) ∨
      ∃ r fs, Reply.code r = 400 ∧ s'.2.cx.socket.out = t.2.cx.socket.out ++ r.wire fs)

theorem wire_ne (r : Reply) (fs : Fs) : r.wire fs ≠ [] := by
  rw [Reply.wire, Reply.head]
  simp [ascii]

theorem add_execute {s t : HttpParser × Objects ω} {chunk : Bytes} (h : add S s chunk = some t) :
    ∃ n, httpParserExecute (Session.settings S.env (process S)) s.1 s.2 chunk = some (n, t) := by
  rw [add, Session.add, Option.map_map] at h
  obtain ⟨⟨n, p, u⟩, hx, rfl⟩ := Option.map_eq_some_iff.mp h
  exact ⟨n, hx⟩

theorem notes_execute {s t : HttpParser × Objects ω} {chunk : Bytes} {n : ℕ}
    (h : httpParserExecute (Session.settings S.env (process S)) s.1 s.2 chunk = some (n, t)) :
    httpParserExecute (notes S) s.1 (s.2, []) chunk =
      some (n, t.1, t.2, calls S s chunk) := by
  obtain ⟨g, hg⟩ := execute_beside noted (by exact h) []
  rw [calls, hg]

/-- Between two reads the parser is not behind a head that asks for another protocol. -/
theorem Reading.level {fs : Fs} {w : ω} {s : HttpParser × Objects ω} (h : Reading S fs w s) :
    s.1.httpErrno = .ok → s.1.Level := by
  induction h with
  | start => exact fun _ => init_level _
  | @read s s' chunk before h ih =>
    obtain ⟨hne, ha, -⟩ := turn_reads before.need h
    obtain ⟨n, hx⟩ := add_execute ha
    refine Settings.Left.level level_notes (execute_left level_notes ih ?_ hne (notes_execute hx))
    exact fun c hc => absurd hc List.not_mem_nil

theorem Reading.noted {fs : Fs} {w : ω} {s t : HttpParser × Objects ω} (hr : Reading S fs w s)
    {chunk : Bytes} {n : ℕ}
    (h : httpParserExecute (Session.settings S.env (process S)) s.1 s.2 chunk = some (n, t)) :
    Noted S s.2.cx.record t.2.cx (calls S s chunk) := by
  refine execute_all (keeps_noted s.2.cx.record) ?_ chunk _ _ _ (notes_execute h)
  refine ⟨iff_of_false (by rw [hr.ready]; decide) ?_, [], (List.append_nil _).symm,
    iff_of_false ?_ ?_⟩ <;>
  · rintro ⟨c, hc, -⟩
    exact List.not_mem_nil hc

/-- Behind an upgrade the parser has not failed. -/
theorem Reading.upgraded {fs : Fs} {w : ω} {s t : HttpParser × Objects ω} (hr : Reading S fs w s)
    {chunk : Bytes} (hne : chunk ≠ []) {n : ℕ}
    (h : httpParserExecute (Session.settings S.env (process S)) s.1 s.2 chunk = some (n, t))
    (hup : ∃ c ∈ calls S s chunk, c.1.upgrade = true) : t.1.httpErrno = .ok := by
  obtain ⟨c, hc, hup⟩ := hup
  obtain ⟨hnone, -⟩ | ⟨q, x, -, hok, -, -, hm⟩ := execute_left level_notes hr.level
    (fun c hc => absurd hc List.not_mem_nil) hne (notes_execute h)
  · exact absurd ((hnone c hc).symm.trans hup) Bool.false_ne_true
  · obtain ⟨-, hp | ⟨t, hp⟩, -⟩ := level_notes.complete hm
    · rw [hp]
      exact hok
    · rw [hp]
      rfl

/-- In every run: where the parser leaves bytes of a read over, the connection ends as it should
exactly if a request of the read ends it, and the parser has stopped behind the head of an upgrade
or a request of the read is answered with a 400. -/
theorem ended_iff {fs : Fs} {w : ω} {s : HttpParser × Objects ω} (hr : Reading S fs w s)
    {chunk : Bytes} {n : ℕ} {p' : HttpParser} {u' : Objects ω}
    (h : httpParserExecute (Session.settings S.env (process S)) s.1 s.2 chunk = some (n, p', u'))
    (hn : n < chunk.length) :
    Ended S s chunk ↔ (∃ c ∈ calls S s chunk, EndsAt S c.1 c.2) ∧
      ((∃ c ∈ calls S s chunk, c.1.upgrade = true) ∨
        ∃ c ∈ calls S s chunk, BadRequest S c.1 c.2) := by
  have hne : chunk ≠ [] := by
    rintro rfl
    exact absurd hn (Nat.not_lt_zero n)
  have hadd : add S s chunk = some (p', u') := by
    rw [add, Session.add, h]
    rfl
  have hturn : turn S s chunk = some (u'.cx.state.halts, p', u') := by
    rw [turn_eq hne hr.need, hadd]
    rfl
  have hnote := hr.noted h
  obtain ⟨es, hrec, hbad⟩ := hnote.record
  have hdrop : u'.cx.record.drop s.2.cx.record.length = es := by rw [hrec, List.drop_left]
  constructor
  · rintro ⟨t, s', ha, ht, hrefused⟩
    obtain rfl := Option.some.inj (hadd.symm.trans ha)
    obtain ⟨hh, rfl⟩ := Prod.mk.injEq .. ▸ Option.some.inj (hturn.symm.trans ht)
    refine ⟨hnote.halts.mp hh, ?_⟩
    obtain he | ⟨q, x, hq, hc⟩ := execute_stops (notes_execute h) hn
    · obtain h400 | ⟨r, fs, -, hout⟩ := hrefused he
      · rw [hdrop] at h400
        exact .inr (hbad.mp h400)
      · exact absurd (List.self_eq_append_right.mp hout) (wire_ne r fs)
    · obtain ⟨ok, v, -, -, -, hg⟩ := notes_complete hc
      refine .inl ⟨(q, x.1.complete q), ?_, hq⟩
      rw [show calls S s chunk = _ from hg]
      exact List.mem_append_right _ (List.mem_singleton_self _)
  · rintro ⟨hends, hcall⟩
    refine ⟨(p', u'), (p', u'), hadd, by rw [hturn, hnote.halts.mpr hends], fun he => ?_⟩
    obtain hup | h400 := hcall
    · exact absurd (hr.upgraded hne h hup) he
    · exact .inl (by rw [hdrop]; exact hbad.mpr h400)

/-- A request whose `Expect` is refused with a 400, and a byte that no request begins with. -/
def refused : Bytes := ascii "GET / HTTP/1.1\r\nExpect: 100-continue\r\n\r\n" ++ [1]

theorem ended_iff_refused : ∃ n p' u', httpParserExecute
      (Session.settings (keeper Unit).env (process (keeper Unit))) (accepted .new ()).1
      (accepted .new ()).2 refused = some (n, p', u') ∧
    n < refused.length ∧ p'.httpErrno ≠ .ok ∧ Ended (keeper Unit) (accepted .new ()) refused := by
  have hrun : (httpParserExecute (Session.settings (keeper Unit).env (process (keeper Unit)))
      (accepted .new ()).1 (accepted .new ()).2 refused).map (fun r => (r.1, r.2.1.httpErrno)) =
      some (40, .invalidMethod) := by
    decide +kernel
  obtain ⟨⟨n, p', u'⟩, h, hn⟩ := Option.map_eq_some_iff.mp hrun
  obtain ⟨rfl, hbad⟩ := Prod.mk.injEq .. ▸ hn
  have hcalls : (calls (keeper Unit) (accepted .new ()) refused).map (fun c =>
      (c.2.error, (answer (keeper Unit) c.2).map fun u => (u.reply.code,
        (send (keeper Unit).io c.2.cx.socket (checkClose c.1 u).fs (checkClose c.1 u).reply).1))) =
      [(.need100Continue, some (400, true))] := by
    decide +kernel
  obtain ⟨c, hc, he⟩ := List.map_eq_singleton_iff.mp hcalls
  obtain ⟨he, ha⟩ := Prod.mk.injEq .. ▸ he
  obtain ⟨u, ha, hs⟩ := Option.map_eq_some_iff.mp ha
  obtain ⟨hcode, hs⟩ := Prod.mk.injEq .. ▸ hs
  have hm : c ∈ calls (keeper Unit) (accepted .new ()) refused := by
    rw [hc]
    exact List.mem_singleton_self c
  have hlt : 40 < refused.length := by decide
  refine ⟨40, p', u', h, hlt, by rw [hbad]; decide, (ended_iff .start h hlt).mpr ⟨?_, .inr ?_⟩⟩
  · exact ⟨c, hm, .inl (by rw [he]; decide)⟩
  · exact ⟨c, hm, u, ha, hcode, hs⟩

/-- Malformed input is not answered, and `exec` reads on; behind an upgrade later bytes are parsed
as if nothing was left over. -/
theorem unread_dropped :
    ((exec (keeper Unit) [[1], ascii "GET / HTTP/1.1\r\n\r\n"] (accepted .new ())).map fun r =>
      (r.1, r.2.2.cx.socket.out)) = some (false, []) ∧
    ((exec (keeper Unit) [ascii "GET / HTTP/1.1\r\nUpgrade: x\r\n\r\nmore",
      ascii "GET / HTTP/1.1\r\n\r\n"] (accepted .new ())).map fun r =>
        (r.1, r.2.2.cx.record.length)) = some (false, 2) := by
  constructor <;> decide +kernel

end Connection

end Stutter
