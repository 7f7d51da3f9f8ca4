import Stutter.Joyent.Plain

namespace Stutter.Joyent

/-- The header that a name stands for, as `header_state` has it behind the colon. -/
def HeaderState.ofName (name : Bytes) : HeaderState :=
  let l := name.map token
  if l = ascii "connection" ∨ l = ascii "proxy-connection" then .connection
  else if l = ascii "content-length" then .contentLength
  else if l = ascii "transfer-encoding" then .transferEncoding
  else if l = ascii "upgrade" then .upgrade
  else .general

/-- Whether a value is `word`, in any case and with spaces behind it. -/
def isWord (word value : Bytes) : Bool :=
  (value.take word.length).map lower = word && (value.drop word.length).all (· = SP)

/-- The digits of a `Content-Length` after the first; spaces between them are passed over. -/
def lengthFrom : ℕ → Bytes → Option ℕ
  | t, [] => some t
  | t, ch :: rest =>
    if ch = SP then lengthFrom t rest
    else if !isNum ch then none
    else
      let t' := (t * 10 % 2 ^ 64 + digit ch) % 2 ^ 64
      if t' < t ∨ t' = ULLONG_MAX then none else lengthFrom t' rest

def lengthOf : Bytes → Option ℕ
  | [] => none
  | ch :: rest => if isNum ch then lengthFrom (digit ch) rest else none

/-- What the header lines say of the body. -/
structure Framing where
  flags : Flags
  contentLength : ℕ
  deriving DecidableEq

def HttpParser.framing (p : HttpParser) : Framing := ⟨p.flags, p.contentLength⟩

/-- What one header line adds; `none` if it is refused. -/
def Framing.line (f : Framing) (name value : Bytes) : Option Framing :=
  if value = [] then some f
  else match HeaderState.ofName name with
  | .connection =>
    if isWord (ascii "keep-alive") value then some { f with flags.connectionKeepAlive := true }
    else if isWord (ascii "close") value then some { f with flags.connectionClose := true }
    else some f
  | .transferEncoding =>
    if isWord (ascii "chunked") value then some { f with flags.chunked := true } else some f
  | .contentLength => (lengthOf value).map fun n => { f with contentLength := n }
  | .upgrade => some { f with flags.upgrade := true }
  | _ => some f

/-- What `header_state` becomes at the colon, if the rest of the name is `rest`. -/
def HeaderState.name (i : ℕ) (rest : Bytes) : HeaderState → HeaderState
  | .c =>
    if rest = ascii "onnection" then .connection
    else if rest = ascii "ontent-length" then .contentLength else .general
  | .co =>
    if rest = ascii "nnection" then .connection
    else if rest = ascii "ntent-length" then .contentLength else .general
  | .con =>
    if rest = ascii "nection" then .connection
    else if rest = ascii "tent-length" then .contentLength else .general
  | .matchingConnection =>
    if rest = (ascii "connection").drop (i + 1) then .connection else .general
  | .matchingProxyConnection =>
    if rest = (ascii "proxy-connection").drop (i + 1) then .connection else .general
  | .matchingContentLength =>
    if rest = (ascii "content-length").drop (i + 1) then .contentLength else .general
  | .matchingTransferEncoding =>
    if rest = (ascii "transfer-encoding").drop (i + 1) then .transferEncoding else .general
  | .matchingUpgrade => if rest = (ascii "upgrade").drop (i + 1) then .upgrade else .general
  | .connection => if rest = [] then .connection else .general
  | .contentLength => if rest = [] then .contentLength else .general
  | .transferEncoding => if rest = [] then .transferEncoding else .general
  | .upgrade => if rest = [] then .upgrade else .general
  | _ => .general

/-- The `header_state`s of a name, with the `index` each can have. -/
def HeaderState.InName (i : ℕ) : HeaderState → Prop
  | .c => i = 0
  | .co => i = 1
  | .con => i = 2
  | .matchingConnection => i + 1 < (ascii "connection").length ∧ 3 ≤ i
  | .matchingProxyConnection => i + 1 < (ascii "proxy-connection").length
  | .matchingContentLength => i + 1 < (ascii "content-length").length ∧ 3 ≤ i
  | .matchingTransferEncoding => i + 1 < (ascii "transfer-encoding").length
  | .matchingUpgrade => i + 1 < (ascii "upgrade").length
  | .general | .connection | .contentLength | .transferEncoding | .upgrade => True
  | _ => False

theorem matchNext_eq {p : HttpParser} (c : UInt8) {word : Bytes} (full : HeaderState)
    (h : p.index + 1 < word.length) :
    matchNext p c word full = { p with
      index := p.index + 1
      headerState := if c ≠ word.getD (p.index + 1) 0 then .general
        else if p.index + 1 = word.length - 1 then full else p.headerState } := by
  have hle : ¬ p.index + 1 > word.length := by omega
  simp only [matchNext, hle, false_or]
  split_ifs <;> rfl

theorem cons_eq_drop {c : UInt8} {rest word : Bytes} {i : ℕ} (h : i < word.length) :
    c :: rest = word.drop i ↔ c = word.getD i 0 ∧ rest = word.drop (i + 1) := by
  rw [List.drop_eq_getElem_cons h, List.cons.injEq, List.getD_eq_getElem _ _ h]

/-- One more byte of a name that can still be `word`. -/
theorem matchNext_name {p : HttpParser} {c : UInt8} {word : Bytes} {full : HeaderState}
    (h : p.index + 1 < word.length) (rest : Bytes) (hfull : full.name (p.index + 1) rest =
      if rest = [] then full else .general)
    (hp : p.headerState.name (p.index + 1) rest =
      if rest = word.drop (p.index + 1 + 1) then full else .general)
    (hp' : p.headerState.name p.index (c :: rest) =
      if c :: rest = word.drop (p.index + 1) then full else .general) :
    (matchNext p c word full).headerState.name (matchNext p c word full).index rest =
      p.headerState.name p.index (c :: rest) := by
  rw [matchNext_eq c full h, hp']
  simp only [cons_eq_drop h]
  by_cases hc : c = word.getD (p.index + 1) 0
  · by_cases hi : p.index + 1 = word.length - 1
    · have hd : word.drop (p.index + 1 + 1) = [] := List.drop_eq_nil_of_le (by omega)
      simp only [hc, ne_eq, not_true_eq_false, if_false, hi, if_true, true_and]
      rw [← hi, hd, hfull]
    · simp only [hc, ne_eq, not_true_eq_false, if_false, hi, true_and, hp]
  · simp only [hc, ne_eq, not_false_eq_true, if_true, false_and, if_false]
    rfl

theorem matchNext_inName {p : HttpParser} {c : UInt8} {word : Bytes} {full : HeaderState}
    (h : p.index + 1 < word.length) (hfull : full.InName (p.index + 1))
    (hp : p.index + 1 + 1 < word.length → p.headerState.InName (p.index + 1)) :
    (matchNext p c word full).headerState.InName (matchNext p c word full).index := by
  rw [matchNext_eq c full h]
  dsimp only
  split_ifs with hc hi
  · trivial
  · exact hfull
  · exact hp (by omega)

/-- A byte of a name leaves a `header_state` that stands for the same name. -/
theorem headerNameNext_name {p : HttpParser} {ch : UInt8} (hc : token ch ≠ 0)
    (h : p.headerState.InName p.index) : ∃ q, headerNameNext p ch (token ch) = .ok q ∧
      q = { p with headerState := q.headerState, index := q.index } ∧
      q.headerState.InName q.index ∧
      ∀ rest, q.headerState.name q.index rest = p.headerState.name p.index (token ch :: rest) := by
  have hm : ∀ w f, p.index + 1 < w.length → matchNext p (token ch) w f = { p with
      headerState := (matchNext p (token ch) w f).headerState
      index := (matchNext p (token ch) w f).index } := fun w f hw => by
    rw [matchNext_eq _ _ hw]
  cases hs : p.headerState <;> rw [hs] at h <;> simp only [headerNameNext, hs]
  case general => exact ⟨p, rfl, rfl, by rw [hs]; trivial, fun rest => by rw [hs]; rfl⟩
  case c =>
    have hi : p.index = 0 := h
    have h₁ : ascii "onnection" = 'o'.toUInt8 :: ascii "nnection" := by decide
    have h₂ : ascii "ontent-length" = 'o'.toUInt8 :: ascii "ntent-length" := by decide
    refine ⟨_, rfl, rfl, ?_, fun rest => ?_⟩ <;> dsimp only <;> split_ifs with ho
    · exact congrArg (· + 1) hi
    · trivial
    · simp only [HeaderState.name, h₁, h₂, ho, List.cons.injEq, true_and]
    · simp only [HeaderState.name, h₁, h₂, List.cons.injEq, ho, false_and, if_false]
  case co =>
    have hi : p.index = 1 := h
    have h₁ : ascii "nnection" = 'n'.toUInt8 :: ascii "nection" := by decide
    have h₂ : ascii "ntent-length" = 'n'.toUInt8 :: ascii "tent-length" := by decide
    refine ⟨_, rfl, rfl, ?_, fun rest => ?_⟩ <;> dsimp only <;> split_ifs with ho
    · exact congrArg (· + 1) hi
    · trivial
    · simp only [HeaderState.name, h₁, h₂, ho, List.cons.injEq, true_and]
    · simp only [HeaderState.name, h₁, h₂, List.cons.injEq, ho, false_and, if_false]
  case con =>
    have hi : p.index = 2 := h
    have h₁ : ascii "nection" = 'n'.toUInt8 :: (ascii "connection").drop 4 := by decide
    have h₂ : ascii "tent-length" = 't'.toUInt8 :: (ascii "content-length").drop 4 := by decide
    have hnt : 'n'.toUInt8 ≠ 't'.toUInt8 := by decide
    refine ⟨_, rfl, rfl, ?_, fun rest => ?_⟩ <;> dsimp only <;> split_ifs with ho ht
    · rw [hi]; exact ⟨by decide, by decide⟩
    · rw [hi]; exact ⟨by decide, by decide⟩
    · trivial
    · simp only [HeaderState.name, h₁, h₂, ho, List.cons.injEq, true_and, hnt, false_and, if_false,
        hi]
    · simp only [HeaderState.name, h₁, h₂, ht, List.cons.injEq, true_and, hnt.symm, false_and,
        if_false, hi]
    · simp only [HeaderState.name, h₁, h₂, List.cons.injEq, ho, ht, false_and, if_false]
  case matchingConnection =>
    obtain ⟨hi, hj⟩ := h
    refine ⟨_, rfl, hm _ _ hi, matchNext_inName hi trivial ?_, fun rest => ?_⟩
    · rw [hs]
      exact fun h => ⟨h, by omega⟩
    · rw [matchNext_name hi rest rfl (by rw [hs]; rfl) (by rw [hs]; rfl), hs]
  case matchingContentLength =>
    obtain ⟨hi, hj⟩ := h
    refine ⟨_, rfl, hm _ _ hi, matchNext_inName hi trivial ?_, fun rest => ?_⟩
    · rw [hs]
      exact fun h => ⟨h, by omega⟩
    · rw [matchNext_name hi rest rfl (by rw [hs]; rfl) (by rw [hs]; rfl), hs]
  case matchingProxyConnection | matchingTransferEncoding | matchingUpgrade =>
    refine ⟨_, rfl, hm _ _ h, matchNext_inName h trivial ?_, fun rest => ?_⟩
    · rw [hs]
      exact id
    · rw [matchNext_name h rest rfl (by rw [hs]; rfl) (by rw [hs]; rfl), hs]
  case connection | contentLength | transferEncoding | upgrade =>
    have hsp : ch ≠ SP := fun h => hc (by rw [h]; decide)
    exact ⟨_, rfl, by rw [if_pos hsp], by rw [if_pos hsp]; trivial, fun rest => by
      rw [if_pos hsp]; simp only [HeaderState.name, reduceCtorEq, if_false]⟩
  all_goals exact absurd h id

theorem headerNameStart_inName (c : UInt8) : (headerNameStart c).InName 0 := by
  rw [headerNameStart]
  split_ifs <;> first | trivial | (rw [HeaderState.InName]; decide)

theorem headerNameStart_name (ch : UInt8) (rest : Bytes) :
    (headerNameStart (token ch)).name 0 (rest.map token) = .ofName (ch :: rest) := by
  have hc : ascii "connection" = 'c'.toUInt8 :: ascii "onnection" := by decide
  have hl : ascii "content-length" = 'c'.toUInt8 :: ascii "ontent-length" := by decide
  have hp : ascii "proxy-connection" = 'p'.toUInt8 :: ascii "roxy-connection" := by decide
  have ht : ascii "transfer-encoding" = 't'.toUInt8 :: ascii "ransfer-encoding" := by decide
  have hu : ascii "upgrade" = 'u'.toUInt8 :: ascii "pgrade" := by decide
  obtain ⟨h₁, h₂, h₃, h₄, h₅, h₆⟩ : 'c'.toUInt8 ≠ 'p'.toUInt8 ∧ 'c'.toUInt8 ≠ 't'.toUInt8 ∧
      'c'.toUInt8 ≠ 'u'.toUInt8 ∧ 'p'.toUInt8 ≠ 't'.toUInt8 ∧ 'p'.toUInt8 ≠ 'u'.toUInt8 ∧
      't'.toUInt8 ≠ 'u'.toUInt8 := by decide
  simp only [headerNameStart, HeaderState.ofName, List.map_cons, hc, hl, hp, ht, hu,
    List.cons.injEq]
  generalize token ch = c
  by_cases k₁ : c = 'c'.toUInt8
  · simp [HeaderState.name, k₁, h₁, h₂, h₃]
  by_cases k₂ : c = 'p'.toUInt8
  · simp [HeaderState.name, k₂, h₁.symm, h₄, h₅, hp]
  by_cases k₃ : c = 't'.toUInt8
  · simp [HeaderState.name, k₃, h₂.symm, h₄.symm, h₆, ht]
  by_cases k₄ : c = 'u'.toUInt8
  · simp [HeaderState.name, k₄, h₃.symm, h₅.symm, h₆.symm, hu]
  · simp [HeaderState.name, k₁, k₂, k₃, k₄]

/-- What `header_state` becomes at the end of the line, if the rest of the value is `rest`. -/
def HeaderState.value (i : ℕ) (rest : Bytes) : HeaderState → HeaderState
  | .matchingTransferEncodingChunked =>
    if isWord ((ascii "chunked").drop (i + 1)) rest then .transferEncodingChunked else .general
  | .matchingConnectionKeepAlive =>
    if isWord ((ascii "keep-alive").drop (i + 1)) rest then .connectionKeepAlive else .general
  | .matchingConnectionClose =>
    if isWord ((ascii "close").drop (i + 1)) rest then .connectionClose else .general
  | .transferEncodingChunked => if isWord [] rest then .transferEncodingChunked else .general
  | .connectionKeepAlive => if isWord [] rest then .connectionKeepAlive else .general
  | .connectionClose => if isWord [] rest then .connectionClose else .general
  | _ => .general

/-- The `header_state`s of a value other than a length. -/
def HeaderState.InValue (i : ℕ) : HeaderState → Prop
  | .matchingTransferEncodingChunked => i + 1 < (ascii "chunked").length
  | .matchingConnectionKeepAlive => i + 1 < (ascii "keep-alive").length
  | .matchingConnectionClose => i + 1 < (ascii "close").length
  | .general | .transferEncodingChunked | .connectionKeepAlive | .connectionClose => True
  | _ => False

theorem isWord_cons (c : UInt8) (word : Bytes) (ch : UInt8) (rest : Bytes) :
    isWord (c :: word) (ch :: rest) = (decide (lower ch = c) && isWord word rest) := by
  simp only [isWord, List.length_cons, List.take_succ_cons, List.map_cons, List.drop_succ_cons,
    List.cons.injEq, Bool.decide_and, Bool.and_assoc]

theorem isWord_nil_cons (ch : UInt8) (rest : Bytes) :
    isWord [] (ch :: rest) = (decide (ch = SP) && isWord [] rest) := by
  simp [isWord]

theorem isWord_nil_right (word : Bytes) : isWord word [] = decide (word = []) := by
  cases word <;> simp [isWord]

/-- One more byte of a value that can still be `word`. -/
theorem matchNext_value {p : HttpParser} {ch : UInt8} {word : Bytes} {full : HeaderState}
    (h : p.index + 1 < word.length) (rest : Bytes) (hfull : full.value (p.index + 1) rest =
      if isWord [] rest then full else .general)
    (hp : p.headerState.value (p.index + 1) rest =
      if isWord (word.drop (p.index + 1 + 1)) rest then full else .general)
    (hp' : p.headerState.value p.index (ch :: rest) =
      if isWord (word.drop (p.index + 1)) (ch :: rest) then full else .general) :
    (matchNext p (lower ch) word full).headerState.value (matchNext p (lower ch) word full).index
      rest = p.headerState.value p.index (ch :: rest) := by
  rw [matchNext_eq _ full h, hp', List.drop_eq_getElem_cons h, isWord_cons,
    ← List.getD_eq_getElem _ 0 h]
  by_cases hc : lower ch = word.getD (p.index + 1) 0
  · by_cases hi : p.index + 1 = word.length - 1
    · have hd : word.drop (p.index + 1 + 1) = [] := List.drop_eq_nil_of_le (by omega)
      simp only [hc, ne_eq, not_true_eq_false, if_false, hi, if_true, decide_true, Bool.true_and]
      rw [← hi, hd, hfull]
    · simp only [hc, ne_eq, not_true_eq_false, if_false, hi, decide_true, Bool.true_and, hp]
  · simp only [hc, ne_eq, not_false_eq_true, if_true, decide_false, Bool.false_and,
      Bool.false_eq_true, if_false]
    rfl

theorem matchNext_inValue {p : HttpParser} {c : UInt8} {word : Bytes} {full : HeaderState}
    (h : p.index + 1 < word.length) (hfull : full.InValue (p.index + 1))
    (hp : p.index + 1 + 1 < word.length → p.headerState.InValue (p.index + 1)) :
    (matchNext p c word full).headerState.InValue (matchNext p c word full).index := by
  rw [matchNext_eq c full h]
  dsimp only
  split_ifs with hc hi
  · trivial
  · exact hfull
  · exact hp (by omega)

theorem headerValueNext_value {p : HttpParser} (ch : UInt8)
    (h : p.headerState.InValue p.index) : ∃ q, headerValueNext p ch = .ok q ∧
      q = { p with headerState := q.headerState, index := q.index } ∧
      q.headerState.InValue q.index ∧
      ∀ rest, q.headerState.value q.index rest = p.headerState.value p.index (ch :: rest) := by
  have hm : ∀ w f, p.index + 1 < w.length → matchNext p (lower ch) w f = { p with
      headerState := (matchNext p (lower ch) w f).headerState
      index := (matchNext p (lower ch) w f).index } := fun w f hw => by
    rw [matchNext_eq _ _ hw]
  cases hs : p.headerState <;> rw [hs] at h <;> simp only [headerValueNext, hs]
  case general => exact ⟨p, rfl, rfl, by rw [hs]; trivial, fun rest => by rw [hs]; rfl⟩
  case matchingTransferEncodingChunked | matchingConnectionKeepAlive | matchingConnectionClose =>
    refine ⟨_, rfl, hm _ _ h, matchNext_inValue h trivial ?_, fun rest => ?_⟩
    · rw [hs]
      exact id
    · rw [matchNext_value h rest rfl (by rw [hs]; rfl) (by rw [hs]; rfl), hs]
  case transferEncodingChunked | connectionKeepAlive | connectionClose =>
    by_cases hsp : ch = SP
    · rw [if_neg (not_not.mpr hsp)]
      exact ⟨p, rfl, rfl, by rw [hs]; trivial, fun rest => by
        simp only [HeaderState.value, hs, isWord_nil_cons, hsp, decide_true, Bool.true_and]⟩
    · rw [if_pos hsp]
      exact ⟨_, rfl, rfl, trivial, fun rest => by
        simp only [HeaderState.value, isWord_nil_cons, hsp, decide_false, Bool.false_and,
          Bool.false_eq_true, if_false]⟩
  all_goals exact absurd h id

/-- A `header_state` at the colon: a name that ends early is no known one. -/
def HeaderState.known : HeaderState → HeaderState
  | .connection => .connection
  | .contentLength => .contentLength
  | .transferEncoding => .transferEncoding
  | .upgrade => .upgrade
  | _ => .general

theorem name_nil {h : HeaderState} {i : ℕ} (hi : h.InName i) : h.name i [] = h.known := by
  have hd : ∀ w : Bytes, i + 1 < w.length → [] ≠ w.drop (i + 1) := fun w hw hn => by
    have := congrArg List.length hn
    simp only [List.length_nil, List.length_drop] at this
    omega
  cases h <;> simp only [HeaderState.name, if_true] <;> first
    | rfl
    | exact if_neg (hd _ hi)
    | exact if_neg (hd _ hi.1)

/-- A `header_state` at the end of a line: a value that ends early is no known one. -/
def HeaderState.knownValue : HeaderState → HeaderState
  | .transferEncodingChunked => .transferEncodingChunked
  | .connectionKeepAlive => .connectionKeepAlive
  | .connectionClose => .connectionClose
  | _ => .general

theorem value_nil {h : HeaderState} {i : ℕ} (hi : h.InValue i) : h.value i [] = h.knownValue := by
  have hd : ∀ w : Bytes, i + 1 < w.length → ¬ w.drop (i + 1) = [] := fun w hw hn => by
    have := congrArg List.length hn
    simp only [List.length_nil, List.length_drop] at this
    omega
  cases h <;> simp only [HeaderState.value, isWord_nil_right, decide_true, if_true] <;> first
    | rfl
    | exact if_neg (by simpa using hd _ hi)

/-- The flag that the `header_state` at the end of a line sets. -/
def Flags.settle (f : Flags) : HeaderState → Flags
  | .connectionKeepAlive => { f with connectionKeepAlive := true }
  | .connectionClose => { f with connectionClose := true }
  | .transferEncodingChunked => { f with chunked := true }
  | _ => f

theorem settle_value {h : HeaderState} {i : ℕ} (hi : h.InValue i) (f : Flags) :
    f.settle (h.value i []) = f.settle h := by
  rw [value_nil hi]
  cases h <;> rfl

theorem headerAlmostDone_lf (p : HttpParser) :
    headerAlmostDone p LF = .ok { p with
      state := .headerValueLws, flags := p.flags.settle p.headerState } := by
  rw [headerAlmostDone, if_neg (by simp)]
  cases h : p.headerState <;> simp only [HttpParser.goto, h, Flags.settle]

/-- The first byte of a value that is no length. -/
theorem headerValueFirst_value {p : HttpParser} {ch : UInt8} (hp : p.index = 0)
    (h : p.headerState ≠ .contentLength) : ∃ q, headerValueFirst p ch = .ok q ∧
      q = { p with headerState := q.headerState, flags := q.flags } ∧
      q.flags = (if p.headerState = .upgrade then { p.flags with upgrade := true } else p.flags) ∧
      q.headerState.InValue q.index ∧
      ∀ rest, q.headerState.value q.index rest = match p.headerState with
        | .connection =>
          if isWord (ascii "keep-alive") (ch :: rest) then .connectionKeepAlive
          else if isWord (ascii "close") (ch :: rest) then .connectionClose else .general
        | .transferEncoding =>
          if isWord (ascii "chunked") (ch :: rest) then .transferEncodingChunked else .general
        | _ => .general := by
  have hk : ascii "keep-alive" = 'k'.toUInt8 :: ascii "eep-alive" := by decide
  have hc : ascii "close" = 'c'.toUInt8 :: ascii "lose" := by decide
  have ht : ascii "chunked" = 'c'.toUInt8 :: ascii "hunked" := by decide
  have hck : 'c'.toUInt8 ≠ 'k'.toUInt8 := by decide
  cases hs : p.headerState <;> simp only [headerValueFirst, hs]
  case contentLength => exact absurd hs h
  case connection =>
    have hl : (ascii "keep-alive").drop 1 = ascii "eep-alive" := by decide
    have hl' : (ascii "close").drop 1 = ascii "lose" := by decide
    refine ⟨_, rfl, rfl, rfl, ?_, fun rest => ?_⟩ <;> dsimp only <;> rw [hp]
    · split_ifs <;> first | trivial | (rw [HeaderState.InValue]; decide)
    rw [hk, hc, isWord_cons, isWord_cons]
    by_cases h₁ : lower ch = 'k'.toUInt8
    · simp [HeaderState.value, h₁, hck.symm, hl]
    by_cases h₂ : lower ch = 'c'.toUInt8
    · simp [HeaderState.value, h₂, hck, hl']
    · simp [HeaderState.value, h₁, h₂]
  case transferEncoding =>
    have hl : (ascii "chunked").drop 1 = ascii "hunked" := by decide
    refine ⟨_, rfl, rfl, rfl, ?_, fun rest => ?_⟩ <;> dsimp only <;> rw [hp]
    · split_ifs <;> first | trivial | (rw [HeaderState.InValue]; decide)
    rw [ht, isWord_cons]
    by_cases h₁ : lower ch = 'c'.toUInt8
    · simp [HeaderState.value, h₁, hl]
    · simp [HeaderState.value, h₁]
  all_goals exact ⟨_, rfl, rfl, rfl, trivial, fun _ => rfl⟩

end Stutter.Joyent
