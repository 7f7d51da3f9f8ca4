import Stutter.Joyent.Execute

namespace Stutter.Joyent

namespace Marks

/-- The marks with `k` set and no other. -/
def single (k : Mark) (frag : Bytes) : Marks := Marks.none.set k (some frag)

@[simp] theorem get_none (k : Mark) : Marks.none.get k = .none := by cases k <;> rfl

@[simp] theorem get_single (k : Mark) (frag : Bytes) : (single k frag).get k = some frag := by
  cases k <;> rfl

theorem get_single_ne {k j : Mark} (h : j ≠ k) (frag : Bytes) :
    (single k frag).get j = .none := by
  cases k <;> cases j <;> first | rfl | exact absurd rfl h

theorem single_inj {k j : Mark} {f g : Bytes} (h : single k f = single j g) : k = j ∧ f = g := by
  cases k <;> cases j <;> simp_all [single, set, Marks.none]

@[simp] theorem set_single (k : Mark) (frag : Bytes) :
    (single k frag).set k .none = Marks.none := by cases k <;> rfl

@[simp] theorem mark_none (k : Mark) : Marks.none.mark k = single k [] := by cases k <;> rfl

@[simp] theorem mark_single (k : Mark) (frag : Bytes) :
    (single k frag).mark k = single k frag := by cases k <;> rfl

@[simp] theorem push_none (bs : Bytes) : Marks.none.push bs = Marks.none := rfl

@[simp] theorem push_single (k : Mark) (frag bs : Bytes) :
    (single k frag).push bs = single k (frag ++ bs) := by cases k <;> rfl

@[simp] theorem count_none : Marks.none.count = 0 := rfl

@[simp] theorem count_single (k : Mark) (frag : Bytes) : (single k frag).count = 1 := by
  cases k <;> rfl

end Marks

/-- The mark that the state keeps across a read boundary. -/
def State.mark : State → Option Mark
  | .headerField => some .headerField
  | .headerValue => some .headerValue
  | .reqPath | .reqSchema | .reqSchemaSlash | .reqSchemaSlashSlash | .reqServerStart
  | .reqServer | .reqServerWithAt | .reqQueryStringStart | .reqQueryString
  | .reqFragmentStart | .reqFragment => some .url
  | _ => none

/-- The states in which a body fragment can be pending. -/
def State.inBody : State → Bool
  | .bodyIdentity | .bodyIdentityEof | .chunkData | .chunkDataAlmostDone => true
  | _ => false

theorem entryMarks_eq (s : State) :
    entryMarks s = match s.mark with | some k => Marks.single k [] | none => Marks.none := by
  cases s <;> rfl

/-- Between two turns of the loop: the marks are those of the state. -/
inductive Marked : State → Marks → Prop
  | mark {s k} (frag) (h : s.mark = some k) : Marked s (.single k frag)
  | body {s} (frag) (h : s.inBody = true) : Marked s (.single .body frag)
  | none {s} (h : s.mark = none) : Marked s .none

theorem marked_entryMarks (s : State) : Marked s (entryMarks s) := by
  rw [entryMarks_eq]
  cases h : s.mark with
  | none => exact .none h
  | some k => exact .mark [] h

end Stutter.Joyent
