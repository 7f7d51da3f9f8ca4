import Stutter.Process

namespace Stutter

open Joyent

variable {ω : Type}

/-- `ErrorHandler::handle`. -/
def errorHandler (status : ℤ) (msg : Bytes) : Handler ω := fun req reply fs world =>
  (req, reply.setStatus status msg, fs, world)

/-- A route: the prefix and its handler. -/
abbrev Route (ω : Type) := Bytes × Handler ω

namespace Dispatcher

def new : Dispatcher ω := ⟨[]⟩

/-- One `add` after another. -/
def addAll (d : Dispatcher ω) (routes : List (Route ω)) : Dispatcher ω :=
  routes.foldl (fun d r => d.add r.1 r.2) d

theorem handlers_addAll (d : Dispatcher ω) (routes : List (Route ω)) :
    (d.addAll routes).handlers = d.handlers ++ routes := by
  induction routes generalizing d with
  | nil => exact (List.append_nil _).symm
  | cons r routes ih =>
    change ((d.add r.1 r.2).addAll routes).handlers = _
    rw [ih, add, List.append_assoc]
    rfl

/-- The guard and the counted comparison are the test for a prefix. -/
theorem matches_iff (pre url : Bytes) :
    (pre.length ≤ url.length ∧ pre = url.take pre.length) ↔ pre <+: url := by
  constructor
  · rintro ⟨-, h⟩
    exact List.prefix_iff_eq_take.mpr h
  · intro h
    exact ⟨h.length_le, List.prefix_iff_eq_take.mp h⟩

/-- The route is the earliest with a prefix of the URL. -/
structure Earliest (routes : List (Route ω)) (url : Bytes) (r : Route ω) : Prop where
  split : ∃ earlier later, routes = earlier ++ r :: later ∧ ∀ r' ∈ earlier, ¬ r'.1 <+: url
  pre : r.1 <+: url

theorem get_of_earliest {d : Dispatcher ω} {url : Bytes} {r : Route ω}
    (h : Earliest d.handlers url r) : d.get url = some r.2 := by
  obtain ⟨⟨earlier, later, hd, hno⟩, hpre⟩ := h
  have hfind : d.handlers.find? (fun h => h.1.length ≤ url.length ∧ h.1 = url.take h.1.length) =
      some r := by
    rw [List.find?_eq_some_iff_append]
    refine ⟨decide_eq_true ((matches_iff _ _).mpr hpre), earlier, later, hd, fun r' hr' => ?_⟩
    rw [Bool.not_eq_true', decide_eq_false_iff_not, matches_iff]
    exact hno r' hr'
  rw [get, hfind]
  rfl

/-- Behind a route without a prefix, none is looked at. -/
theorem exists_earliest (routes : List (Route ω)) (h : Handler ω) (later : List (Route ω))
    (url : Bytes) : ∃ r, Earliest (routes ++ ([], h) :: later) url r ∧
      Earliest (routes ++ [([], h)]) url r := by
  induction routes with
  | nil =>
    refine ⟨([], h), ⟨⟨[], later, rfl, ?_⟩, List.nil_prefix⟩, ⟨[], [], rfl, ?_⟩,
      List.nil_prefix⟩ <;>
    · intro r hr
      exact absurd hr List.not_mem_nil
  | cons r routes ih =>
    by_cases hr : r.1 <+: url
    · refine ⟨r, ⟨⟨[], _, rfl, ?_⟩, hr⟩, ⟨[], _, rfl, ?_⟩, hr⟩ <;>
      · intro r' hr'
        exact absurd hr' List.not_mem_nil
    · have hcons : ∀ {earlier : List (Route ω)}, (∀ r' ∈ earlier, ¬ r'.1 <+: url) →
          ∀ r' ∈ r :: earlier, ¬ r'.1 <+: url := by
        intro earlier hno r' hr'
        cases hr' with
        | head => exact hr
        | tail _ hm => exact hno r' hm
      obtain ⟨r₀, ⟨⟨e₁, l₁, h₁, hn₁⟩, hp⟩, ⟨e₂, l₂, h₂, hn₂⟩, -⟩ := ih
      exact ⟨r₀, ⟨⟨r :: e₁, l₁, congrArg (r :: ·) h₁, hcons hn₁⟩, hp⟩,
        ⟨r :: e₂, l₂, congrArg (r :: ·) h₂, hcons hn₂⟩, hp⟩

end Dispatcher

namespace Server

/-- The part of `start` that adds the catch-all; then the loop is entered. -/
def start (S : Server ω) : Server ω :=
  { S with router := S.router.add [] (errorHandler 403 (ascii "Forbidden")) }

/-- A server with the routes `before`, started, and the routes that were added later. -/
def routed (E : Env) (io : Strategy) (before after : List (Route ω)) : Server ω :=
  let S := start ⟨Dispatcher.new.addAll before, E, io⟩
  { S with router := S.router.addAll after }

theorem handlers_routed (E : Env) (io : Strategy) (before after : List (Route ω)) :
    (routed E io before after).router.handlers =
      before ++ ([], errorHandler 403 (ascii "Forbidden")) :: after := by
  rw [routed]
  dsimp only
  rw [Dispatcher.handlers_addAll, start, Dispatcher.add, Dispatcher.handlers_addAll,
    List.append_assoc]
  rfl

/-- Every URL has its route: the earliest that fits of those that were there at the start, with the
catch-all behind them. No request is without a handler, and what is added later changes nothing. -/
theorem routed_get (E : Env) (io : Strategy) (before after : List (Route ω)) :
    (∀ url, ∃ r, Dispatcher.Earliest (before ++
      [([], errorHandler 403 (ascii "Forbidden"))]) url r ∧
      (routed E io before after).router.get url = some r.2 ∧ r.1.length ≤ url.length) ∧
    (∀ url, (routed E io before after).router.get url = (routed E io before []).router.get url) ∧
    ∀ p u, (Connection.process (routed E io before after) p u).isSome = true := by
  have hget : ∀ more url, ∃ r,
      Dispatcher.Earliest (before ++ [([], errorHandler 403 (ascii "Forbidden"))]) url r ∧
      (routed E io before more).router.get url = some r.2 := by
    intro more url
    obtain ⟨r, hr, hr'⟩ := Dispatcher.exists_earliest before
      (errorHandler 403 (ascii "Forbidden")) more url
    rw [← handlers_routed E io before more] at hr
    exact ⟨r, hr', Dispatcher.get_of_earliest hr⟩
  refine ⟨fun url => ?_, fun url => ?_, fun p u => ?_⟩
  · obtain ⟨r, hr, hg⟩ := hget after url
    exact ⟨r, hr, hg, hr.pre.length_le⟩
  · obtain ⟨r, hr, hr'⟩ := Dispatcher.exists_earliest before
      (errorHandler 403 (ascii "Forbidden")) after url
    rw [← handlers_routed E io before after] at hr
    have hnil : Dispatcher.Earliest (routed E io before []).router.handlers url r := by
      rw [handlers_routed]
      exact hr'
    rw [Dispatcher.get_of_earliest hr, Dispatcher.get_of_earliest hnil]
  · rw [Connection.process, Option.isSome_map, Connection.answer]
    split_ifs
    · rfl
    · obtain ⟨r, -, hg⟩ := hget after u.request.url
      rw [hg]
      rfl

/-- A shorter URL goes to the catch-all, a longer one to the route. -/
example : ((routed .linux ⟨fun _ n => n, fun _ n => n⟩ [(ascii "/hello", errorHandler 200 [])]
    []).router.get (ascii "/hell")).map (fun h => (h Request.new Reply.new Fs.new ()).2.1.code) =
      some 403 := by decide +kernel

end Server

end Stutter
