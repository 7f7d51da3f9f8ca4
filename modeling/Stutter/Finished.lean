import Stutter.Expecting
import Stutter.Unread

namespace Stutter

open Joyent

namespace Connection

variable {ω : Type} {S : Server ω}

/-- Each call of `process` is one more exchange. -/
theorem process_record {p p' : HttpParser} {u u' : Objects ω} {ok : Bool}
    (h : process S p u = some (ok, p', u')) :
    u'.cx.record.length = u.cx.record.length + 1 := by
  obtain ⟨u₁, -, hp⟩ := process_spec h
  rw [hp.record, List.length_append, List.length_singleton]

theorem keeps_still (S : Server ω) (c : Connection ω) :
    (Session.settings S.env (process S)).silent.Keeps fun u => u.cx = c where
  data k frag u h := (Session.cx_onData S.env k frag u).trans h
  headers _ u h := (Session.cx_saveLastHeader u).trans h
  complete h := nomatch h

theorem complete_record {p p' : HttpParser} {u u' : Objects ω} {r : ℤ}
    (h : (Session.settings S.env (process S)).onMessageComplete p u = some (r, p', u')) :
    u'.cx.record.length = u.cx.record.length + 1 := by
  obtain ⟨⟨ok, p, v⟩, hf, he⟩ := Option.map_eq_some_iff.mp h
  obtain ⟨-, -, rfl⟩ := Prod.mk.injEq .. ▸ Prod.mk.injEq .. ▸ he
  have hr := process_record hf
  rw [Session.cx_complete] at hr
  cases ok <;> exact hr

/-- What is left of a read leaves the connection alone, exactly if no message ends in it. -/
theorem rest_still {c : Cfg (Objects ω)} {skip pos n : ℕ} {rest : Bytes} {p : HttpParser}
    {v : Objects ω}
    (h : loop (Session.settings S.env (process S)) c skip pos rest = some (n, p, v)) :
    (loop (Session.settings S.env (process S)).silent c skip pos rest).isSome ∧
        v.cx = c.user.cx ∨
      loop (Session.settings S.env (process S)).silent c skip pos rest = none ∧
        c.user.cx.record.length < v.cx.record.length := by
  have hb : (Session.settings S.env (process S)).Keeps
      fun u => c.user.cx.record.length < u.cx.record.length :=
    Session.keeps_cx (P := fun x : Connection ω => c.user.cx.record.length < x.record.length)
      fun hp hu => by
        rw [process_record hp]
        omega
  obtain ⟨hs, hv⟩ | ⟨hs, hv⟩ := loop_silent (keeps_still S c.user.cx) hb
    (fun hc hu => by
      rw [complete_record hc, hu]
      omega) rfl h
  · exact .inl ⟨by rw [hs]; rfl, hv⟩
  · exact .inr ⟨hs, hv⟩

/-- In every run, from any point of a read at which the connection is to end: nothing is answered
and nothing written any more, and `exec` returns, exactly if no message ends in what is left of the
read. -/
theorem finished_iff {fs : Fs} {w : ω} {s : HttpParser × Objects ω} (hr : Reading S fs w s)
    {chunk : Bytes} (hne : chunk ≠ []) {c : Cfg (Objects ω)} {skip pos n : ℕ} {rest : Bytes}
    (hpass : httpParserExecute (Session.settings S.env (process S)) s.1 s.2 chunk =
      loop (Session.settings S.env (process S)) c skip pos rest)
    (hf : c.user.cx.state.halts = true) {p : HttpParser} {v : Objects ω}
    (h : loop (Session.settings S.env (process S)) c skip pos rest = some (n, p, v))
    (later : List Bytes) :
    (∃ t, exec S (chunk :: later) s = some (true, t) ∧ t.2.cx.record = c.user.cx.record ∧
      t.2.cx.socket.out = c.user.cx.socket.out) ↔
    (loop (Session.settings S.env (process S)).silent c skip pos rest).isSome := by
  have hadd : add S s chunk = some (p, v) := by
    rw [add, Session.add, hpass, h]
    rfl
  have hhalts : v.cx.state.halts = true :=
    loop_all (Session.keeps_cx (P := fun x : Connection ω => x.state.halts = true) process_halts)
      rest hf skip pos _ _ _ h
  have hexec : exec S (chunk :: later) s = some (true, p, v) := by
    rw [exec, turn_eq hne hr.need, hadd]
    simp only [Option.map_some, Option.bind_some, hhalts, if_true]
  obtain ⟨hs, hv⟩ | ⟨hs, hv⟩ := rest_still h
  · exact iff_of_true ⟨(p, v), hexec, by rw [hv], by rw [hv]⟩ hs
  · refine iff_of_false ?_ (by rw [hs]; exact Bool.false_ne_true)
    rintro ⟨t, ht, hrec, -⟩
    obtain ⟨-, rfl⟩ := Prod.mk.injEq .. ▸ Option.some.inj (hexec.symm.trans ht)
    rw [hrec] at hv
    exact lt_irrefl _ hv

/-- A part of the next message. -/
def begun : Bytes := ascii "PUT /x HTTP/1.1\r\nContent-Length: 2\r\n\r\nh"

/-- A request that is refused, with a part of another behind it in the same read. -/
theorem finished_iff_begun : ∃ c : Cfg (Objects Unit), c.user.cx.state.halts = true ∧
    httpParserExecute (Session.settings (keeper Unit).env (process (keeper Unit)))
      (accepted .new ()).1 (accepted .new ()).2 (patient.bytes ++ begun) =
      loop (Session.settings (keeper Unit).env (process (keeper Unit))) c 0 patient.bytes.length
        begun ∧
    ∀ later, (∃ t, exec (keeper Unit) ((patient.bytes ++ begun) :: later) (accepted .new ()) =
        some (true, t) ∧
      t.2.cx.record = c.user.cx.record ∧ t.2.cx.socket.out = c.user.cx.socket.out) ↔
    (loop (Session.settings (keeper Unit).env (process (keeper Unit))).silent c 0
      patient.bytes.length begun).isSome := by
  obtain ⟨q, v, r, u', hfin, hc, hcl, -, hst, -⟩ := expecting_awaits (S := keeper Unit)
    Env.linux_reliable keeper_full patient_wellFormed
    (show (patient.headers.get Message.expect).getD [] = _ by decide +kernel)
    (accepted_clean .new ())
  have hne : patient.bytes ≠ [] := by decide
  obtain ⟨d, hd, -, hrest⟩ := execute_append (lawful Env.linux_reliable)
    (s := (.init .request, (accepted .new ()).2)) ⟨rfl, Nat.zero_le _⟩ hne
    ((hfin.mono fun _ => And.left).runs hc (by rw [hcl.error]; decide))
  have hcx : d.user.cx = u'.cx := by
    cases hd with
    | level => rfl
    | behind u frag => exact (Session.cx_onData ..).symm
  have hst : d.user.cx.state.halts = true := by
    rw [hcx]
    exact hst
  have hrun : (httpParserExecute (Session.settings (keeper Unit).env (process (keeper Unit)))
      (accepted .new ()).1 (accepted .new ()).2 (patient.bytes ++ begun)).isSome := by
    decide +kernel
  obtain ⟨⟨n, p, w⟩, hx⟩ := Option.isSome_iff_exists.mp hrun
  refine ⟨d, hst, hrest begun, fun later => ?_⟩
  exact finished_iff .start (List.append_ne_nil_of_left_ne_nil hne _) (hrest begun) hst
    ((hrest begun).symm.trans hx) later

/-- A connection that is to close, and one whose reply was sent in part: what follows in the same
read is answered. -/
theorem finished_goes_on :
    ((exec (keeper Unit) [ascii "GET / HTTP/1.0\r\n\r\nGET / HTTP/1.1\r\n\r\n"]
      (accepted .new ())).map fun r => r.2.2.cx.record.map fun e => e.handled.isSome) =
        some [true, true] ∧
    ((exec { keeper Unit with io := ⟨fun turn n => if turn = 1 then -1 else min n 9, fun _ n => n⟩ }
      [ascii "GET / HTTP/1.1\r\n\r\nGET / HTTP/1.1\r\n\r\n"] (accepted .new ())).map fun r =>
        r.2.2.cx.socket.out) = some (ascii "HTTP/1.1 " ++
        ascii ("HTTP/1.1 400 Bad request\r\nConnection: keep-alive\r\n" ++
          "Content-Length: 0\r\n\r\n")) := by
  constructor <;> decide +kernel

end Connection

end Stutter
