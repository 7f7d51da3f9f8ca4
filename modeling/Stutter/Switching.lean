import Stutter.EventLoop

namespace Stutter.Switcher

/-- A `ucontext_t`: it continues `thread` where `swapcontext` left it for the `switches`-th time.
The code outside of all coroutines is the thread `none`. -/
structure Context (ι : Type) where
  thread : Option ι
  switches : ℕ

/-- Where a thread stands: before `entry_point`, in a `resume` that it called at `here`, in a
`yield` that its `exec` called at `here`, or in the `yield` at the end of `run`. -/
inductive Frame (ι σ : Type) where
  | entry
  | resuming (j : ι) (prevCtx : Option (Context ι)) (here : σ)
  | yielding (here : σ)
  | leaving

/-- The stack of a thread, and how often the thread has been switched out. -/
structure Stack (ι σ : Type) where
  switches : ℕ
  frame : Frame ι σ

/-- A `Coroutine`; `none` is a member that was not set yet. -/
structure Object (ι : Type) where
  state : Coroutine.State
  value : Option ℤ
  caller : Option (Context ι)
  callee : Option (Context ι)
  ctx : Option (Context ι)

/-- All coroutines; `running` is none if control is lost: a thread has fallen out of `entry_point`,
or was continued where it no longer stands. -/
structure Machine (ι σ : Type) where
  objects : ι → Object ι
  threads : Option ι → Stack ι σ
  running : Option (Option ι)

/-- What the running thread does next, and the place where it does it. -/
inductive Op (ι σ : Type) where
  | resume (j : ι) (here : σ)
  | yield (value : ℤ) (here : σ)
  | ret (value : ℤ)

inductive Event (ι σ : Type) where
  /-- `t` calls `resume` of `j`. -/
  | call (t : Option ι) (here : σ) (j : ι)
  /-- `exec` of `j` is entered. -/
  | enter (j : ι)
  /-- `exec` of `j` goes on behind the `yield` at `here`. -/
  | goesOn (j : ι) (here : σ)
  /-- `exec` of `j` yields. -/
  | yields (j : ι) (value : ℤ) (here : σ)
  /-- `exec` of `j` returns. -/
  | exits (j : ι) (value : ℤ)
  /-- The `resume` of `j` that `t` called at `here` returns. -/
  | returns (t : Option ι) (here : σ) (j : ι) (value : Option ℤ)

/-- Behind the constructors. -/
def Machine.new (ι σ : Type) : Machine ι σ where
  objects i := ⟨.INIT, none, none, none, some ⟨some i, 0⟩⟩
  threads _ := ⟨0, .entry⟩
  running := some none

namespace Machine

variable {ι σ : Type} [DecidableEq ι]

def setObject (m : Machine ι σ) (j : ι) (o : Object ι) : Machine ι σ :=
  { m with objects := Function.update m.objects j o }

/-- The current context of `t`, when `swapcontext` saves it. -/
def saved (m : Machine ι σ) (t : Option ι) : Context ι := ⟨t, (m.threads t).switches + 1⟩

def switchOut (m : Machine ι σ) (t : Option ι) (frame : Frame ι σ) : Machine ι σ :=
  { m with threads := Function.update m.threads t ⟨(m.threads t).switches + 1, frame⟩ }

def lost (m : Machine ι σ) : Machine ι σ := { m with running := none }

/-- The rest of `resume`, behind `swapcontext`. -/
def finishResume (m : Machine ι σ) (t : Option ι) (j : ι) (prevCtx : Option (Context ι))
    (here : σ) :
    Machine ι σ × List (Event ι σ) :=
  let o := m.objects j
  ({ m.setObject j { o with ctx := o.callee, caller := prevCtx } with running := some t },
    [.returns t here j o.value])

/-- `swapcontext` continues `c`. -/
def continueAt (m : Machine ι σ) (c : Option (Context ι)) : Machine ι σ × List (Event ι σ) :=
  match c with
  | none => (m.lost, [])
  | some c =>
    if (m.threads c.thread).switches = c.switches then
      match c.thread, (m.threads c.thread).frame with
      | some i, .entry => ({ m with running := some (some i) }, [.enter i])
      | some i, .yielding here => ({ m with running := some (some i) }, [.goesOn i here])
      | t, .resuming j prevCtx here => m.finishResume t j prevCtx here
      | _, _ => (m.lost, [])
    else (m.lost, [])

/-- `resume` of `j`, which `t` calls. -/
def resume (m : Machine ι σ) (t : Option ι) (j : ι) (here : σ) : Machine ι σ × List (Event ι σ) :=
  let o := m.objects j
  if o.state = .DONE then (m, [.call t here j, .returns t here j (some (-1))])
  else
    let o := if o.state = .INIT then { o with state := .RUNNING } else o
    let m := (m.setObject j { o with caller := some (m.saved t) }).switchOut t
      (.resuming j o.caller here)
    let (m, es) := m.continueAt o.ctx
    (m, .call t here j :: es)

/-- `yield`, which `i` calls for itself; `frame` is where that is. -/
def yield (m : Machine ι σ) (i : ι) (value : ℤ) (frame : Frame ι σ) :
    Machine ι σ × List (Event ι σ) :=
  let o := m.objects i
  let m := (m.setObject i { o with
    value := some value, callee := some (m.saved (some i)) }).switchOut
    (some i) frame
  m.continueAt o.caller

/-- The end of `run`, behind `exec`. -/
def finishRun (m : Machine ι σ) (i : ι) (value : ℤ) : Machine ι σ × List (Event ι σ) :=
  (m.setObject i { m.objects i with state := .DONE }).yield i value .leaving

/-- What the running thread does; the code outside of the coroutines does not yield. -/
def step (m : Machine ι σ) (op : Op ι σ) : Option (Machine ι σ × List (Event ι σ)) :=
  match m.running, op with
  | some t, .resume j here => some (m.resume t j here)
  | some (some i), .yield value here =>
    let (m, es) := m.yield i value (.yielding here)
    some (m, .yields i value here :: es)
  | some (some i), .ret value =>
    let (m, es) := m.finishRun i value
    some (m, .exits i value :: es)
  | _, _ => none

end Machine

namespace Event

variable {ι σ : Type}

/-- The coroutine that it is about. -/
def coroutine : Event ι σ → ι
  | .call _ _ j | .enter j | .goesOn j _ | .yields j _ _ | .exits j _ | .returns _ _ j _ => j

/-- The thread that it has continue. -/
def continues : Event ι σ → Option (Option ι)
  | .enter j | .goesOn j _ => some (some j)
  | .returns t _ _ _ => some t
  | _ => none

def isCall : Event ι σ → Bool
  | .call .. => true
  | _ => false

def isEnter : Event ι σ → Bool
  | .enter _ => true
  | _ => false

/-- What a `resume` returned. -/
def result : Event ι σ → Option (Option ℤ)
  | .returns _ _ _ value => some value
  | _ => none

/-- What `exec` yielded or returned. -/
def given : Event ι σ → Option ℤ
  | .yields _ value _ | .exits _ value => some value
  | _ => none

end Event

/-- Where `exec` of a coroutine is, and the `resume` of it that has not returned. -/
inductive Phase (ι σ : Type) where
  | fresh
  /-- It was resumed: to enter, or to go on. -/
  | called (t : Option ι) (here : σ) (place : Option σ)
  | running (t : Option ι) (here : σ)
  /-- It yielded, or it returned. -/
  | gave (t : Option ι) (here : σ) (value : ℤ) (place : Option σ)
  | suspended (place : σ)
  | finished
  /-- It was resumed after its end. -/
  | refused (t : Option ι) (here : σ)

/-- The `m_state` that belongs to a phase. -/
def Phase.state {ι σ : Type} : Phase ι σ → Coroutine.State
  | .fresh => .INIT
  | .finished | .gave _ _ _ none | .refused _ _ => .DONE
  | _ => .RUNNING

/-- The law of the process `j`: what follows upon what. -/
inductive Follows {ι σ : Type} (j : ι) : Phase ι σ → Event ι σ → Phase ι σ → Prop where
  | first (t here) : Follows j .fresh (.call t here j) (.called t here none)
  | enter (t here) : Follows j (.called t here none) (.enter j) (.running t here)
  | again (t here place) :
      Follows j (.suspended place) (.call t here j) (.called t here (some place))
  | goesOn (t here place) :
      Follows j (.called t here (some place)) (.goesOn j place) (.running t here)
  | yields (t here value place) :
      Follows j (.running t here) (.yields j value place) (.gave t here value (some place))
  | exits (t here value) :
      Follows j (.running t here) (.exits j value) (.gave t here value none)
  | back (t here value place) : Follows j (.gave t here value (some place))
      (.returns t here j (some value)) (.suspended place)
  | last (t here value) :
      Follows j (.gave t here value none) (.returns t here j (some value)) .finished
  | refused (t here) : Follows j .finished (.call t here j) (.refused t here)
  | minusOne (t here) : Follows j (.refused t here) (.returns t here j (some (-1))) .finished

/-- The events so far obey the law of `j`, and have led it into a phase. -/
inductive Process {ι σ : Type} (j : ι) : List (Event ι σ) → Phase ι σ → Prop where
  | new : Process j [] .fresh
  | skip {es ph e} : Process j es ph → e.coroutine ≠ j → Process j (es ++ [e]) ph
  | next {es ph e ph'} : Process j es ph → Follows j ph e ph' → Process j (es ++ [e]) ph'

/-- What the events of a coroutine come to in each phase. -/
def Phase.Books {ι σ : Type} : Phase ι σ → List (Option ℤ) → List ℤ → ℕ → ℕ → Prop
  | .fresh, rs, gs, calls, enters => rs = [] ∧ gs = [] ∧ calls = 0 ∧ enters = 0
  | .called _ _ none, rs, gs, calls, enters => rs = [] ∧ gs = [] ∧ calls = 1 ∧ enters = 0
  | .called _ _ (some _), rs, gs, calls, enters | .running _ _, rs, gs, calls, enters =>
    rs = gs.map some ∧ calls = rs.length + 1 ∧ enters = 1
  | .gave _ _ value _, rs, gs, calls, enters =>
    gs.map some = rs ++ [some value] ∧ calls = rs.length + 1 ∧ enters = 1
  | .suspended _, rs, gs, calls, enters => rs = gs.map some ∧ calls = rs.length ∧ enters = 1
  | .finished, rs, gs, calls, enters =>
    (∃ k, rs = gs.map some ++ List.replicate k (some (-1))) ∧ calls = rs.length ∧ enters = 1
  | .refused _ _, rs, gs, calls, enters =>
    (∃ k, rs = gs.map some ++ List.replicate k (some (-1))) ∧ calls = rs.length + 1 ∧ enters = 1

theorem Follows.coroutine {ι σ : Type} {j : ι} {ph ph' : Phase ι σ} {e : Event ι σ}
    (h : Follows j ph e ph') :
    e.coroutine = j := by
  cases h <;> rfl

theorem Follows.books {ι σ : Type} {j : ι} {ph ph' : Phase ι σ} {e : Event ι σ}
    (h : Follows j ph e ph')
    {rs : List (Option ℤ)} {gs : List ℤ} {calls enters : ℕ} (hb : ph.Books rs gs calls enters) :
    ph'.Books (rs ++ e.result.toList) (gs ++ e.given.toList) (calls + [e].countP Event.isCall)
      (enters + [e].countP Event.isEnter) := by
  cases h with
  | first =>
    obtain ⟨rfl, rfl, rfl, rfl⟩ := hb
    exact ⟨rfl, rfl, rfl, rfl⟩
  | enter =>
    obtain ⟨rfl, rfl, rfl, rfl⟩ := hb
    exact ⟨rfl, rfl, rfl⟩
  | again | goesOn =>
    obtain ⟨rfl, rfl, rfl⟩ := hb
    simp [Phase.Books, Event.result, Event.given, Event.isCall, Event.isEnter]
  | yields | exits =>
    obtain ⟨rfl, rfl, rfl⟩ := hb
    simp [Phase.Books, Event.result, Event.given, Event.isCall, Event.isEnter]
  | back =>
    obtain ⟨hg, rfl, rfl⟩ := hb
    simp [Phase.Books, Event.result, Event.given, Event.isCall, Event.isEnter, hg]
  | last =>
    obtain ⟨hg, rfl, rfl⟩ := hb
    refine ⟨⟨0, ?_⟩, ?_, rfl⟩ <;> simp [Event.result, Event.given, Event.isCall, hg]
  | refused =>
    obtain ⟨⟨k, rfl⟩, rfl, rfl⟩ := hb
    refine ⟨⟨k, ?_⟩, ?_, rfl⟩ <;> simp [Event.result, Event.given, Event.isCall]
  | minusOne =>
    obtain ⟨⟨k, rfl⟩, rfl, rfl⟩ := hb
    refine ⟨⟨k + 1, ?_⟩, ?_, rfl⟩
    · simp [Event.result, Event.given, List.replicate_succ']
    · simp [Event.result, Event.isCall, Nat.add_assoc]

section Trace

variable {ι σ : Type} [DecidableEq ι]

/-- The thread that runs after these events. -/
def control (es : List (Event ι σ)) : Option ι := es.foldl (fun t e => e.continues.getD t) none

def about (j : ι) (es : List (Event ι σ)) : List (Event ι σ) := es.filter (·.coroutine = j)

/-- What the calls of `resume` for `j` have returned. -/
def results (j : ι) (es : List (Event ι σ)) : List (Option ℤ) := (about j es).filterMap Event.result

/-- The values that `exec` of `j` has yielded, and the one it returned. -/
def given (j : ι) (es : List (Event ι σ)) : List ℤ := (about j es).filterMap Event.given

/-- A `resume` of `j` has not returned. -/
def Active (j : ι) (es : List (Event ι σ)) : Prop :=
  (about j es).countP Event.isCall ≠ (results j es).length

instance (j : ι) (es : List (Event ι σ)) : Decidable (Active j es) :=
  inferInstanceAs (Decidable (_ ≠ _))

/-- The coroutine that is resumed is active. -/
def Op.Reenters (es : List (Event ι σ)) : Op ι σ → Prop
  | .resume j _ => Active j es
  | _ => False

instance (es : List (Event ι σ)) : (op : Op ι σ) → Decidable (op.Reenters es)
  | .resume j _ => inferInstanceAs (Decidable (Active j es))
  | .yield .. | .ret _ => inferInstanceAs (Decidable False)

/-- Any run of the machine in which no active coroutine is resumed. -/
inductive Run : List (Event ι σ) → Machine ι σ → Prop where
  | new : Run [] (.new ι σ)
  | step {es es' m m' op} : Run es m → ¬ op.Reenters es →
      m.step op = some (m', es') → Run (es ++ es') m'

omit [DecidableEq ι] in
theorem control_append (es es' : List (Event ι σ)) :
    control (es ++ es') = es'.foldl (fun t e => e.continues.getD t) (control es) :=
  List.foldl_append ..

theorem about_append (j : ι) (es es' : List (Event ι σ)) :
    about j (es ++ es') = about j es ++ about j es' := List.filter_append ..

theorem about_same {j : ι} {e : Event ι σ} (h : e.coroutine = j) : about j [e] = [e] := by
  simp [about, h]

theorem about_other {j : ι} {e : Event ι σ} (h : e.coroutine ≠ j) : about j [e] = [] := by
  simp [about, h]

/-- The books of a process, event after event. -/
theorem Process.books {j : ι} {es : List (Event ι σ)} {ph : Phase ι σ} (h : Process j es ph) :
    ph.Books (results j es) (given j es) ((about j es).countP Event.isCall)
      ((about j es).countP Event.isEnter) := by
  induction h with
  | new => exact ⟨rfl, rfl, rfl, rfl⟩
  | skip _ he ih =>
    unfold results given
    rw [about_append, about_other he, List.append_nil]
    exact ih
  | next _ hf ih =>
    unfold results given
    rw [about_append, about_same hf.coroutine, List.filterMap_append, List.filterMap_append,
      List.countP_append, List.countP_append]
    have hr (e : Event ι σ) : [e].filterMap Event.result = e.result.toList := by
      cases e <;> rfl
    have hg (e : Event ι σ) : [e].filterMap Event.given = e.given.toList := by
      cases e <;> rfl
    rw [hr, hg]
    exact hf.books ih

end Trace

section Stack

variable {ι σ : Type}

/-- The running thread, from the active coroutines: each with the place of the `resume` that it
returns to, the innermost first. -/
def top (chain : List (ι × σ)) : Option ι := chain.head?.map Prod.fst

/-- Each active coroutine has its caller in `m_switcher.caller`, waiting in its `resume`. -/
def Linked (m : Machine ι σ) : List (ι × σ) → Prop
  | [] => True
  | (i, here) :: rest =>
    (m.objects i).caller = some ⟨top rest, (m.threads (top rest)).switches⟩ ∧
      (∃ prevCtx, (m.threads (top rest)).frame = .resuming i prevCtx here) ∧ Linked m rest

/-- Where `j` stands between two operations. -/
def Stands (m : Machine ι σ) (chain : List (ι × σ)) (j : ι) : Phase ι σ → Prop
  | .fresh => j ∉ chain.map Prod.fst ∧ (m.objects j).state = .INIT ∧
      (m.objects j).ctx = some ⟨some j, (m.threads (some j)).switches⟩ ∧
      (m.threads (some j)).frame = .entry
  | .suspended place => j ∉ chain.map Prod.fst ∧ (m.objects j).state = .RUNNING ∧
      (m.objects j).ctx = some ⟨some j, (m.threads (some j)).switches⟩ ∧
      (m.threads (some j)).frame = .yielding place
  | .running t here => (m.objects j).state = .RUNNING ∧
      ∃ xs rest, chain = xs ++ (j, here) :: rest ∧ t = top rest
  | .finished => j ∉ chain.map Prod.fst ∧ (m.objects j).state = .DONE
  | .called .. | .gave .. | .refused .. => False

/-- What holds between two operations. -/
structure Holds (es : List (Event ι σ)) (m : Machine ι σ) (chain : List (ι × σ)) : Prop where
  nodup : (chain.map Prod.fst).Nodup
  running : m.running = some (top chain)
  controls : control es = top chain
  linked : Linked m chain
  stands : ∀ j, ∃ ph, Process j es ph ∧ Stands m chain j ph

theorem top_eq_none_or (chain : List (ι × σ)) :
    top chain = none ∨ ∃ i ∈ chain.map Prod.fst, top chain = some i := by
  cases chain with
  | nil => exact .inl rfl
  | cons c rest => exact .inr ⟨c.1, List.mem_cons_self, rfl⟩

theorem top_ne {chain : List (ι × σ)} {j : ι} (h : j ∉ chain.map Prod.fst) :
    top chain ≠ some j := by
  intro ht
  rcases top_eq_none_or chain with hn | ⟨i, hi, hs⟩
  · exact absurd (hn.symm.trans ht) (by simp)
  · obtain rfl := Option.some.inj (hs.symm.trans ht)
    exact h hi

theorem Linked.congr {m m' : Machine ι σ} {chain : List (ι × σ)} (h : Linked m chain)
    (ho : ∀ i ∈ chain.map Prod.fst, (m'.objects i).caller = (m.objects i).caller)
    (ht : ∀ rest, rest <:+ chain → rest ≠ chain → m'.threads (top rest) = m.threads (top rest)) :
    Linked m' chain := by
  induction chain with
  | nil => trivial
  | cons c rest ih =>
    have hne : rest ≠ c :: rest := fun he => absurd (congrArg List.length he) (by simp)
    obtain ⟨hc, hf, hl⟩ := h
    unfold Linked
    rw [ho _ List.mem_cons_self, ht rest (List.suffix_cons c rest) hne]
    refine ⟨hc, hf, ih hl (fun i hi => ho i (List.mem_cons_of_mem _ hi)) ?_⟩
    intro rest' hs hne'
    refine ht rest' (hs.trans (List.suffix_cons c rest)) fun he => ?_
    have hle := hs.length_le
    rw [he, List.length_cons] at hle
    omega

/-- The thread that is switched out is no other one's caller. -/
theorem top_suffix_ne {chain rest : List (ι × σ)} (hn : (chain.map Prod.fst).Nodup)
    (hs : rest <:+ chain) (hne : rest ≠ chain) : top rest ≠ top chain := by
  cases chain with
  | nil => exact absurd (List.suffix_nil.mp hs) hne
  | cons c tail =>
    have hs' := (List.suffix_cons_iff.mp hs).resolve_left hne
    obtain ⟨hi, -⟩ := List.nodup_cons.mp hn
    exact top_ne fun h => hi ((hs'.map Prod.fst).subset h)

theorem Stands.congr {m m' : Machine ι σ} {chain chain' : List (ι × σ)} {k : ι} {ph : Phase ι σ}
    (h : Stands m chain k ph) (ho : m'.objects k = m.objects k)
    (ht : k ∉ chain.map Prod.fst → m'.threads (some k) = m.threads (some k) ∧
      k ∉ chain'.map Prod.fst)
    (hc : ∀ xs here rest, chain = xs ++ (k, here) :: rest →
      ∃ xs', chain' = xs' ++ (k, here) :: rest) : Stands m' chain' k ph := by
  cases ph with
  | fresh =>
    obtain ⟨hk, hrest⟩ := h
    obtain ⟨hthread, hk'⟩ := ht hk
    unfold Stands
    rw [ho, hthread]
    exact ⟨hk', hrest⟩
  | suspended place =>
    obtain ⟨hk, hrest⟩ := h
    obtain ⟨hthread, hk'⟩ := ht hk
    unfold Stands
    rw [ho, hthread]
    exact ⟨hk', hrest⟩
  | finished =>
    obtain ⟨hk, hrest⟩ := h
    unfold Stands
    rw [ho]
    exact ⟨(ht hk).2, hrest⟩
  | running t here =>
    obtain ⟨hstate, xs, rest, hchain, htop⟩ := h
    obtain ⟨xs', hchain'⟩ := hc xs here rest hchain
    unfold Stands
    rw [ho]
    exact ⟨hstate, xs', rest, hchain', htop⟩
  | called | gave | refused => exact absurd h id

theorem Process.skips {k : ι} {es es' : List (Event ι σ)} {ph : Phase ι σ} (h : Process k es ph)
    (he : ∀ e ∈ es', e.coroutine ≠ k) : Process k (es ++ es') ph := by
  induction es' generalizing es with
  | nil => rwa [List.append_nil]
  | cons e es' ih =>
    rw [List.append_cons]
    exact ih (h.skip (he e List.mem_cons_self)) fun e' h' => he e' (List.mem_cons_of_mem _ h')

theorem Process.nexts {j : ι} {es : List (Event ι σ)} {ph₀ ph₁ ph₂ : Phase ι σ} {a b : Event ι σ}
    (h : Process j es ph₀) (ha : Follows j ph₀ a ph₁) (hb : Follows j ph₁ b ph₂) :
    Process j (es ++ [a, b]) ph₂ := by
  rw [List.append_cons]
  exact (h.next ha).next hb

end Stack

section Simulation

variable {ι σ : Type} [DecidableEq ι]

namespace Machine

/-- `m`, when `resume` of `j` has switched to it. -/
def into (m : Machine ι σ) (t : Option ι) (j : ι) (here : σ) : Machine ι σ :=
  { (m.setObject j { m.objects j with state := .RUNNING, caller := some (m.saved t) }).switchOut t
    (.resuming j (m.objects j).caller here) with running := some (some j) }

/-- `m`, when the `yield` of `i` with the object `o` has switched to `t`, and `resume` returned. -/
def back (m : Machine ι σ) (i : ι) (o : Object ι) (frame : Frame ι σ) (t : Option ι)
    (prevCtx : Option (Context ι)) : Machine ι σ :=
  { (m.setObject i { o with
      callee := some (m.saved (some i))
      ctx := some (m.saved (some i))
      caller := prevCtx }).switchOut
    (some i) frame with running := some t }

theorem threads_switchOut {m : Machine ι σ} {t u : Option ι} (h : u ≠ t) (frame : Frame ι σ) :
    (m.switchOut t frame).threads u = m.threads u := Function.update_of_ne h ..

theorem continueAt_entry {m : Machine ι σ} {j : ι} {n : ℕ}
    (hs : (m.threads (some j)).switches = n) (hf : (m.threads (some j)).frame = .entry) :
    m.continueAt (some ⟨some j, n⟩) = ({ m with running := some (some j) }, [.enter j]) := by
  unfold continueAt
  dsimp only
  rw [if_pos hs, hf]

theorem continueAt_yielding {m : Machine ι σ} {j : ι} {n : ℕ} {place : σ}
    (hs : (m.threads (some j)).switches = n) (hf : (m.threads (some j)).frame = .yielding place) :
    m.continueAt (some ⟨some j, n⟩) = ({ m with running := some (some j) }, [.goesOn j place]) := by
  unfold continueAt
  dsimp only
  rw [if_pos hs, hf]

theorem continueAt_resuming {m : Machine ι σ} {t : Option ι} {n : ℕ} {j : ι}
    {prevCtx : Option (Context ι)} {here : σ} (hs : (m.threads t).switches = n)
    (hf : (m.threads t).frame = .resuming j prevCtx here) :
    m.continueAt (some ⟨t, n⟩) = m.finishResume t j prevCtx here := by
  unfold continueAt
  dsimp only
  rw [if_pos hs, hf]
  cases t <;> rfl

theorem resume_done {m : Machine ι σ} {j : ι} (h : (m.objects j).state = .DONE) (t : Option ι)
    (here : σ) : m.resume t j here = (m, [.call t here j, .returns t here j (some (-1))]) := by
  unfold resume
  exact if_pos h

omit [DecidableEq ι] in
/-- What `resume` makes of the state. -/
theorem resume_state {o : Object ι} (h : o.state ≠ .DONE) :
    (if o.state = .INIT then { o with state := .RUNNING } else o) =
      { o with state := .RUNNING } := by
  obtain ⟨state, value, caller, callee, ctx⟩ := o
  cases state with
  | INIT => rfl
  | RUNNING => rfl
  | DONE => exact absurd rfl h

theorem resume_first {m : Machine ι σ} {t : Option ι} {j : ι} (ht : t ≠ some j)
    (hs : (m.objects j).state = .INIT)
    (hc : (m.objects j).ctx = some ⟨some j, (m.threads (some j)).switches⟩)
    (hf : (m.threads (some j)).frame = .entry) (here : σ) :
    m.resume t j here = (m.into t j here, [.call t here j, .enter j]) := by
  have hd : (m.objects j).state ≠ .DONE := by rw [hs]; decide
  unfold resume
  dsimp only
  rw [if_neg hd, resume_state hd]
  dsimp only
  rw [hc, continueAt_entry (by rw [threads_switchOut ht.symm]; rfl)
    (by rw [threads_switchOut ht.symm]; exact hf), ← hc]
  rfl

theorem resume_again {m : Machine ι σ} {t : Option ι} {j : ι} (ht : t ≠ some j) {place : σ}
    (hs : (m.objects j).state = .RUNNING)
    (hc : (m.objects j).ctx = some ⟨some j, (m.threads (some j)).switches⟩)
    (hf : (m.threads (some j)).frame = .yielding place) (here : σ) :
    m.resume t j here = (m.into t j here, [.call t here j, .goesOn j place]) := by
  have hd : (m.objects j).state ≠ .DONE := by rw [hs]; decide
  unfold resume
  dsimp only
  rw [if_neg hd, resume_state hd]
  dsimp only
  rw [hc, continueAt_yielding (by rw [threads_switchOut ht.symm]; rfl)
    (by rw [threads_switchOut ht.symm]; exact hf), ← hc]
  rfl

theorem yield_eq {m : Machine ι σ} {t : Option ι} {i : ι} (ht : t ≠ some i)
    {prevCtx : Option (Context ι)} {here : σ}
    (hc : (m.objects i).caller = some ⟨t, (m.threads t).switches⟩)
    (hf : (m.threads t).frame = .resuming i prevCtx here) (value : ℤ) (frame : Frame ι σ) :
    m.yield i value frame = (m.back i { m.objects i with value := some value } frame t prevCtx,
      [.returns t here i (some value)]) := by
  unfold yield
  dsimp only
  rw [hc, continueAt_resuming (by rw [threads_switchOut ht]; rfl)
    (by rw [threads_switchOut ht]; exact hf)]
  unfold finishResume back setObject switchOut
  dsimp only
  rw [Function.update_self, Function.update_idem]

end Machine

variable {es es' : List (Event ι σ)} {m m' : Machine ι σ} {chain rest : List (ι × σ)} {i j : ι}
  {here : σ}

/-- A coroutine is resumed: it comes on top of the chain. -/
theorem Holds.into (h : Holds es m chain) (hj : j ∉ chain.map Prod.fst)
    (hc : control (es ++ es') = some j) (he : ∀ e ∈ es', e.coroutine = j)
    (hp : Process j (es ++ es') (.running (top chain) here)) :
    Holds (es ++ es') (m.into (top chain) j here) ((j, here) :: chain) := by
  have hobject (k : ι) (hk : k ≠ j) :
      (m.into (top chain) j here).objects k = m.objects k := Function.update_of_ne hk ..
  have hthread (u : Option ι) (hu : u ≠ top chain) :
      (m.into (top chain) j here).threads u = m.threads u := Function.update_of_ne hu ..
  refine ⟨List.nodup_cons.mpr ⟨hj, h.nodup⟩, rfl, hc, ?_, fun k => ?_⟩
  · have hself : (m.into (top chain) j here).threads (top chain) =
        ⟨(m.threads (top chain)).switches + 1, .resuming j (m.objects j).caller here⟩ :=
      Function.update_self ..
    have hcaller : ((m.into (top chain) j here).objects j).caller = some (m.saved (top chain)) :=
      congrArg Object.caller (Function.update_self j _ m.objects)
    unfold Linked
    rw [hself, hcaller]
    refine ⟨rfl, ⟨_, rfl⟩, h.linked.congr ?_ ?_⟩
    · intro k hk
      rw [hobject k fun hkj => hj (hkj ▸ hk)]
    · intro rest hs hne
      exact hthread _ (top_suffix_ne h.nodup hs hne)
  · by_cases hk : k = j
    · subst hk
      refine ⟨_, hp, congrArg Object.state (Function.update_self k _ m.objects), [], chain, rfl,
        rfl⟩
    · obtain ⟨ph, hph, hst⟩ := h.stands k
      refine ⟨ph, hph.skips fun e hmem => (he e hmem).trans_ne (Ne.symm hk),
        hst.congr (hobject k hk) (fun hnot => ⟨hthread _ (top_ne hnot).symm, ?_⟩) ?_⟩
      · exact fun hmem => (List.mem_cons.mp hmem).elim hk hnot
      · rintro xs place rest rfl
        exact ⟨(j, here) :: xs, rfl⟩

/-- The coroutine on top of the chain gives control back. -/
theorem Holds.back (h : Holds es m ((i, here) :: rest)) {o : Object ι} {frame : Frame ι σ}
    {prevCtx : Option (Context ι)} {ph : Phase ι σ}
    (hc : control (es ++ es') = top rest) (he : ∀ e ∈ es', e.coroutine = i)
    (hp : Process i (es ++ es') ph)
    (hs : Stands (m.back i o frame (top rest) prevCtx) rest i ph) :
    Holds (es ++ es') (m.back i o frame (top rest) prevCtx) rest := by
  obtain ⟨hi, hnodup⟩ := List.nodup_cons.mp h.nodup
  have hobject (k : ι) (hk : k ≠ i) :
      (m.back i o frame (top rest) prevCtx).objects k = m.objects k := Function.update_of_ne hk ..
  have hthread (u : Option ι) (hu : u ≠ some i) :
      (m.back i o frame (top rest) prevCtx).threads u = m.threads u := Function.update_of_ne hu ..
  refine ⟨hnodup, rfl, hc, h.linked.2.2.congr ?_ ?_, fun k => ?_⟩
  · intro k hk
    rw [hobject k fun hki => hi (hki ▸ hk)]
  · intro rest' hsuf _
    exact hthread _ (top_ne fun hmem => hi ((hsuf.map Prod.fst).subset hmem))
  · by_cases hk : k = i
    · subst hk
      exact ⟨ph, hp, hs⟩
    · obtain ⟨ph', hph, hst⟩ := h.stands k
      refine ⟨ph', hph.skips fun e hmem => (he e hmem).trans_ne (Ne.symm hk),
        hst.congr (hobject k hk) (fun hnot => ⟨hthread _ ?_, ?_⟩) ?_⟩
      · exact fun hki => hk (Option.some.inj hki)
      · exact fun hmem => hnot (List.mem_cons_of_mem _ hmem)
      · intro xs place rest' hchain
        cases xs with
        | nil => exact absurd (congrArg Prod.fst (List.cons.inj hchain).1).symm hk
        | cons x xs => exact ⟨xs, (List.cons.inj hchain).2⟩

omit [DecidableEq ι] in
/-- Where the coroutine on top of the chain is. -/
theorem Holds.running_top (h : Holds es m ((i, here) :: rest)) :
    Process i es (.running (top rest) here) ∧ (m.objects i).state = .RUNNING := by
  obtain ⟨ph, hp, hs⟩ := h.stands i
  have hmem : i ∈ ((i, here) :: rest).map Prod.fst := List.mem_cons_self
  cases ph with
  | fresh | suspended | finished => exact absurd hmem hs.1
  | called | gave | refused => exact absurd hs id
  | running t here' =>
    obtain ⟨hstate, xs, rest', hchain, rfl⟩ := hs
    cases xs with
    | nil =>
      obtain ⟨hhere, rfl⟩ := List.cons.inj hchain
      obtain rfl := congrArg Prod.snd hhere
      exact ⟨hp, hstate⟩
    | cons x xs =>
      obtain ⟨hi, -⟩ := List.nodup_cons.mp h.nodup
      obtain ⟨-, rfl⟩ := List.cons.inj hchain
      exact absurd (List.mem_map.mpr ⟨(i, here'), by simp, rfl⟩) hi

theorem Holds.resume (h : Holds es m chain) (hj : ¬ Active j es) (here : σ) :
    ∃ chain', Holds (es ++ (m.resume (top chain) j here).2)
      (m.resume (top chain) j here).1 chain' := by
  obtain ⟨ph, hp, hs⟩ := h.stands j
  cases ph with
  | fresh =>
    obtain ⟨hmem, hstate, hctx, hframe⟩ := hs
    rw [m.resume_first (top_ne hmem) hstate hctx hframe here]
    exact ⟨_, h.into hmem (control_append ..) (by simp [Event.coroutine])
      (hp.nexts (.first ..) (.enter ..))⟩
  | suspended place =>
    obtain ⟨hmem, hstate, hctx, hframe⟩ := hs
    rw [m.resume_again (top_ne hmem) hstate hctx hframe here]
    exact ⟨_, h.into hmem (control_append ..) (by simp [Event.coroutine])
      (hp.nexts (.again ..) (.goesOn ..))⟩
  | finished =>
    rw [m.resume_done hs.2 (top chain) here]
    refine ⟨chain, h.nodup, h.running, control_append .., h.linked, fun k => ?_⟩
    by_cases hk : k = j
    · subst hk
      exact ⟨_, hp.nexts (.refused ..) (.minusOne ..), hs⟩
    · obtain ⟨ph, hph, hst⟩ := h.stands k
      exact ⟨ph, hph.skips (by simpa [Event.coroutine] using Ne.symm hk), hst⟩
  | running t place =>
    obtain ⟨-, hcalls, -⟩ := hp.books
    exact absurd (by unfold Active; omega) hj
  | called | gave | refused => exact absurd hs id

theorem Holds.yield (h : Holds es m ((i, here) :: rest)) (value : ℤ) (place : σ) :
    Holds (es ++ .yields i value place :: (m.yield i value (.yielding place)).2)
      (m.yield i value (.yielding place)).1 rest := by
  obtain ⟨hcaller, ⟨prevCtx, hframe⟩, -⟩ := h.linked
  obtain ⟨hi, -⟩ := List.nodup_cons.mp h.nodup
  obtain ⟨hp, hstate⟩ := h.running_top
  rw [m.yield_eq (top_ne hi) hcaller hframe]
  refine h.back (control_append ..) (by simp [Event.coroutine]) (hp.nexts (.yields ..) (.back ..))
    ⟨hi, ?_, ?_, ?_⟩
  · exact (congrArg Object.state (Function.update_self i _ m.objects)).trans hstate
  · have hthread : (m.back i { m.objects i with value := some value } (.yielding place) (top rest)
        prevCtx).threads (some i) = ⟨(m.threads (some i)).switches + 1, .yielding place⟩ :=
      Function.update_self ..
    rw [hthread]
    exact congrArg Object.ctx (Function.update_self i _ m.objects)
  · exact congrArg Stack.frame (Function.update_self (some i) _ m.threads)

theorem Holds.finishRun (h : Holds es m ((i, here) :: rest)) (value : ℤ) :
    Holds (es ++ .exits i value :: (m.finishRun i value).2) (m.finishRun i value).1 rest := by
  obtain ⟨hcaller, ⟨prevCtx, hframe⟩, -⟩ := h.linked
  obtain ⟨hi, -⟩ := List.nodup_cons.mp h.nodup
  obtain ⟨hp, -⟩ := h.running_top
  have hself : (m.setObject i { m.objects i with state := .DONE }).objects i =
      { m.objects i with state := .DONE } := Function.update_self ..
  have hback (o : Object ι) : (m.setObject i { m.objects i with state := .DONE }).back i o .leaving
      (top rest) prevCtx = m.back i o .leaving (top rest) prevCtx := by
    unfold Machine.back Machine.setObject Machine.switchOut
    dsimp only
    rw [Function.update_idem]
    rfl
  unfold Machine.finishRun
  rw [Machine.yield_eq (top_ne hi) (by rw [hself]; exact hcaller) (by exact hframe), hback]
  refine h.back (control_append ..) (by simp [Event.coroutine]) (hp.nexts (.exits ..) (.last ..))
    ⟨hi, ?_⟩
  rw [hself]
  exact congrArg Object.state (Function.update_self i _ m.objects)

theorem Holds.step {op : Op ι σ} (h : Holds es m chain)
    (hop : ¬ op.Reenters es) (hs : m.step op = some (m', es')) :
    ∃ chain', Holds (es ++ es') m' chain' := by
  unfold Machine.step at hs
  rw [h.running] at hs
  cases op with
  | resume j here =>
    obtain ⟨rfl, rfl⟩ := Prod.mk.injEq .. ▸ Option.some.inj hs
    exact h.resume hop here
  | yield value place =>
    cases chain with
    | nil => exact absurd hs (by simp [top])
    | cons c rest =>
      obtain ⟨rfl, rfl⟩ := Prod.mk.injEq .. ▸ Option.some.inj hs
      exact ⟨rest, h.yield value place⟩
  | ret value =>
    cases chain with
    | nil => exact absurd hs (by simp [top])
    | cons c rest =>
      obtain ⟨rfl, rfl⟩ := Prod.mk.injEq .. ▸ Option.some.inj hs
      exact ⟨rest, h.finishRun value⟩

theorem Run.holds (h : Run es m) : ∃ chain, Holds es m chain := by
  induction h with
  | new => exact ⟨[], List.nodup_nil, rfl, rfl, trivial, fun j => ⟨_, .new, by simp, rfl, rfl, rfl⟩⟩
  | step _ hop hs ih =>
    obtain ⟨chain, hc⟩ := ih
    exact hc.step hop hs

/-- The operations one after another, from a machine that has run through `es`. -/
def perform : List (Op ι σ) → List (Event ι σ) → Machine ι σ →
    Option (List (Event ι σ) × Machine ι σ)
  | [], es, m => some (es, m)
  | op :: ops, es, m =>
    if op.Reenters es then none
    else (m.step op).bind fun (m, es') => perform ops (es ++ es') m

theorem Run.perform {ops : List (Op ι σ)} (h : Run es m) (hp : perform ops es m = some (es', m')) :
    Run es' m' := by
  induction ops generalizing es m with
  | nil =>
    obtain ⟨rfl, rfl⟩ := Prod.mk.injEq .. ▸ Option.some.inj hp
    exact h
  | cons op ops ih =>
    unfold Switcher.perform at hp
    split_ifs at hp with hop
    obtain ⟨⟨m₁, es₁⟩, hs, hrest⟩ := Option.bind_eq_some_iff.mp hp
    exact ih (h.step hop hs) hrest

/-- The law of a coroutine `j`, after the events `es`. -/
structure Obeys (es : List (Event ι σ)) (m : Machine ι σ) (j : ι) : Prop where
  /-- Control is not lost: it is where the last event has it. -/
  running : m.running = some (control es)
  process : ∃ ph, Process j es ph ∧ (m.objects j).state = ph.state
  /-- The `n`-th `resume` has returned the `n`-th value; those after the last one, -1. -/
  results : ∃ k, results j es = (given j es).map some ++ List.replicate k (some (-1)) ∧
    (k ≠ 0 → (m.objects j).state = .DONE)
  once : (about j es).countP Event.isEnter ≤ 1
  /-- A `resume` after the end runs nothing and changes nothing. -/
  done : (m.objects j).state = .DONE → ∀ here, m.step (.resume j here) =
    some (m, [.call (control es) here j, .returns (control es) here j (some (-1))])

theorem trace_law (h : Run es m) (j : ι) : Obeys es m j := by
  obtain ⟨chain, hh⟩ := h.holds
  have hrun : m.running = some (control es) := hh.running.trans (congrArg some hh.controls.symm)
  have hdone (hd : (m.objects j).state = .DONE) (here : σ) : m.step (.resume j here) =
      some (m, [.call (control es) here j, .returns (control es) here j (some (-1))]) := by
    unfold Machine.step
    rw [hrun]
    dsimp only
    rw [m.resume_done hd]
  obtain ⟨ph, hp, hs⟩ := hh.stands j
  have hb := hp.books
  cases ph with
  | fresh =>
    obtain ⟨hr, hg, -, he⟩ := hb
    exact ⟨hrun, ⟨_, hp, hs.2.1⟩, ⟨0, by rw [hr, hg]; rfl, absurd rfl⟩, by omega, hdone⟩
  | running t here =>
    obtain ⟨hr, -, he⟩ := hb
    exact ⟨hrun, ⟨_, hp, hs.1⟩, ⟨0, by rw [hr]; simp, absurd rfl⟩, by omega, hdone⟩
  | suspended place =>
    obtain ⟨hr, -, he⟩ := hb
    exact ⟨hrun, ⟨_, hp, hs.2.1⟩, ⟨0, by rw [hr]; simp, absurd rfl⟩, by omega, hdone⟩
  | finished =>
    obtain ⟨⟨k, hr⟩, -, he⟩ := hb
    exact ⟨hrun, ⟨_, hp, hs.2⟩, ⟨k, hr, fun _ => hs.2⟩, by omega, hdone⟩
  | called | gave | refused => exact absurd hs id

/-- A coroutine resumes another, which goes on for a second caller; both end. -/
theorem trace_law_nested : ∃ (es : List (Event Bool ℕ)) (m : Machine Bool ℕ), Run es m ∧
    results true es = [some 10, some 11, some 12, some (-1)] ∧ given true es = [10, 11, 12] ∧
    Obeys es m true := by
  have hr : (perform [.resume false 0, .resume true 1, .yield 10 2, .yield 20 3, .resume true 4,
      .yield 11 5, .resume false 6, .resume true 7, .ret 12, .ret 21, .resume true 8] []
      (.new Bool ℕ)).map (fun r => (results true r.1, given true r.1)) =
        some ([some 10, some 11, some 12, some (-1)], [10, 11, 12]) := by decide +kernel
  obtain ⟨⟨es, m⟩, hp, he⟩ := Option.map_eq_some_iff.mp hr
  obtain ⟨hres, hgiven⟩ := Prod.mk.injEq .. ▸ he
  exact ⟨es, m, Run.new.perform hp, hres, hgiven, trace_law (Run.new.perform hp) true⟩

end Simulation

end Stutter.Switcher
