import Stutter.Joyent.Wire
import Stutter.Reply

namespace Stutter.Joyent

theorem token_eq {c : UInt8} (h : token c ≠ 0) : c ≠ 0 ∧ token c = toLower c := by
  have hall : ∀ n : Fin 256, token ⟨⟨n⟩⟩ ≠ 0 →
      (⟨⟨n⟩⟩ : UInt8) ≠ 0 ∧ token ⟨⟨n⟩⟩ = toLower ⟨⟨n⟩⟩ := by decide +kernel
  exact hall c.toBitVec.toFin h

/-- `http_parser` and the header map fold the case of a name alike. -/
theorem nocase_token {name : Bytes} (h : ∀ c ∈ name, token c ≠ 0) :
    nocase name = (name.map token).map UInt8.toNat := by
  have ht : name.takeWhile (· ≠ 0) = name :=
    List.takeWhile_eq_self_iff.mpr fun c hc => by simpa using (token_eq (h c hc)).1
  rw [nocase, ht, List.map_map]
  refine List.map_congr_left fun c hc => ?_
  rw [Function.comp_apply, (token_eq (h c hc)).2]

/-- The line has this name, in any case. -/
def HeaderLine.Named (l : HeaderLine) (key : Bytes) : Prop := nocase l.name = nocase key

instance (l : HeaderLine) (key : Bytes) : Decidable (l.Named key) :=
  inferInstanceAs (Decidable (_ = _))

/-- A line as it is mostly written, with one space behind the colon. -/
def HeaderLine.of (name value : Bytes) (h : name ≠ [] ∧ (∀ c ∈ name, token c ≠ 0) ∧
    (∀ c ∈ value, c ≠ CR ∧ c ≠ LF) ∧ ∀ c ∈ value.head?, isBlank c = false) : HeaderLine where
  name := name
  blanks := [SP]
  value := value
  name_ne := h.1
  name_token := h.2.1
  blanks_blank c hc := by
    rw [List.mem_singleton.mp hc]
    rfl
  value_line := h.2.2.1
  value_head := h.2.2.2

theorem HeaderLine.named_iff (l : HeaderLine) {key : Bytes} (word : Bytes)
    (h : nocase key = word.map UInt8.toNat) : l.Named key ↔ l.name.map token = word := by
  rw [Named, nocase_token l.name_token, h]
  exact (List.map_injective_iff.mpr fun _ _ => UInt8.toNat_inj.mp).eq_iff

/-- The header whose presence `http_parser` notes. -/
def upgrade : Bytes := ascii "Upgrade"

theorem ofName_contentLength (l : HeaderLine) :
    HeaderState.ofName l.name = .contentLength ↔ l.Named Message.contentLength := by
  rw [l.named_iff (ascii "content-length") (by decide), HeaderState.ofName]
  by_cases h : l.name.map token = ascii "content-length"
  · rw [h]
    decide
  · simp only [h, if_false, iff_false]
    split_ifs <;> decide

theorem ofName_transferEncoding (l : HeaderLine) :
    HeaderState.ofName l.name = .transferEncoding ↔ l.Named Reply.transferEncoding := by
  rw [l.named_iff (ascii "transfer-encoding") (by decide), HeaderState.ofName]
  by_cases h : l.name.map token = ascii "transfer-encoding"
  · rw [h]
    decide
  · simp only [h, if_false, iff_false]
    split_ifs <;> decide

theorem ofName_upgrade (l : HeaderLine) :
    HeaderState.ofName l.name = .upgrade ↔ l.Named Joyent.upgrade := by
  rw [l.named_iff (ascii "upgrade") (by decide), HeaderState.ofName]
  by_cases h : l.name.map token = ascii "upgrade"
  · rw [h]
    decide
  · simp only [h, if_false, iff_false]
    split_ifs <;> decide

/-- A numeral that fits into 64 bits is read as what it is. -/
theorem lengthFrom_digits {t : ℕ} {ds : Bytes} (h : ∀ c ∈ ds, isNum c = true)
    (hlt : numeralFrom t ds < ULLONG_MAX) : lengthFrom t ds = some (numeralFrom t ds) := by
  induction ds generalizing t with
  | nil => rfl
  | cons c ds ih =>
    have hc := h c List.mem_cons_self
    have hsp : c ≠ SP := (isNum_ne hc).2.1
    have hle := le_numeralFrom (t * 10 + digit c) ds
    have hn : numeralFrom t (c :: ds) = numeralFrom (t * 10 + digit c) ds := rfl
    rw [hn] at hlt ⊢
    have hu : ULLONG_MAX = 2 ^ 64 - 1 := rfl
    have he : (t * 10 % 2 ^ 64 + digit c) % 2 ^ 64 = t * 10 + digit c := by omega
    rw [lengthFrom, if_neg hsp, hc, Bool.not_true, if_neg Bool.false_ne_true]
    simp only [he]
    rw [if_neg (by omega)]
    exact ih (fun c hc => h c (List.mem_cons_of_mem _ hc)) hlt

/-- The digits of a length. -/
structure IsNumeral (value : Bytes) (n : ℕ) : Prop where
  ne : value ≠ []
  num : ∀ c ∈ value, isNum c = true
  eq : numeral value = n

instance (value : Bytes) (n : ℕ) : Decidable (IsNumeral value n) :=
  decidable_of_iff (value ≠ [] ∧ (∀ c ∈ value, isNum c = true) ∧ numeral value = n)
    ⟨fun h => ⟨h.1, h.2.1, h.2.2⟩, fun h => ⟨h.ne, h.num, h.eq⟩⟩

theorem IsNumeral.lengthOf {value : Bytes} {n : ℕ} (h : IsNumeral value n) (hn : n < ULLONG_MAX) :
    lengthOf value = some n := by
  obtain ⟨hne, hnum, rfl⟩ := h
  rcases value with _ | ⟨c, ds⟩
  · exact absurd rfl hne
  have he : numeral (c :: ds) = numeralFrom (digit c) ds := by
    rw [numeral, numeralFrom, List.foldl_cons, Nat.zero_mul, Nat.zero_add]
    rfl
  rw [he] at hn ⊢
  rw [Joyent.lengthOf, if_pos (hnum c List.mem_cons_self)]
  exact lengthFrom_digits (fun c hc => hnum c (List.mem_cons_of_mem _ hc)) hn

theorem IsNumeral.decimal (n : ℕ) : IsNumeral (decimal n) n :=
  ⟨decimal_ne n, isNum_decimal n, numeral_decimal n⟩

/-- Only letters that are lowered are compared. -/
theorem isWord_chunked {value : Bytes} (h : value.map toLower = ascii "chunked") :
    isWord (ascii "chunked") value = true := by
  have h7 : (ascii "chunked").length = 7 := rfl
  have hl : value.length = 7 := by rw [← h7, ← h, List.length_map]
  have hall : ∀ n : Fin 256, toLower ⟨⟨n⟩⟩ ∈ ascii "chunked" →
      lower ⟨⟨n⟩⟩ = toLower ⟨⟨n⟩⟩ := by decide +kernel
  have hm : value.map lower = value.map toLower :=
    List.map_congr_left fun c hc => hall c.toBitVec.toFin (h ▸ List.mem_map_of_mem hc)
  rw [isWord, h7, List.take_of_length_le hl.le, List.drop_of_length_le hl.le, hm, h]
  rfl

/-- What the header lines say of the length `n` of a body, if they say it well. -/
structure Framing.Says (n : ℕ) (ls : List HeaderLine) : Prop where
  length : ∀ l ∈ ls, l.Named Message.contentLength → IsNumeral l.value n
  coding : ∀ l ∈ ls, l.Named Reply.transferEncoding → l.value.map toLower = ascii "chunked"
  upgrade : ∀ l ∈ ls, ¬ l.Named Joyent.upgrade

theorem Framing.Says.tail {n : ℕ} {l : HeaderLine} {ls : List HeaderLine}
    (h : Says n (l :: ls)) : Says n ls :=
  ⟨fun l hl => h.length l (List.mem_cons_of_mem _ hl),
    fun l hl => h.coding l (List.mem_cons_of_mem _ hl),
    fun l hl => h.upgrade l (List.mem_cons_of_mem _ hl)⟩

/-- One line of such a head. -/
theorem Framing.Says.line {n : ℕ} {l : HeaderLine} {ls : List HeaderLine}
    (h : Says n (l :: ls)) (hn : n < ULLONG_MAX) (f : Framing) :
    ∃ g, f.line l.name l.value = some g ∧ g.flags.upgrade = f.flags.upgrade ∧
      g.flags.chunked = (f.flags.chunked || decide (l.Named Reply.transferEncoding)) ∧
      g.contentLength = if l.Named Message.contentLength then n else f.contentLength := by
  have hlen := h.length l List.mem_cons_self
  have hte := h.coding l List.mem_cons_self
  have hup := h.upgrade l List.mem_cons_self
  simp only [← ofName_contentLength, ← ofName_transferEncoding, ← ofName_upgrade]
    at hlen hte hup ⊢
  have hne : HeaderState.ofName l.name = .contentLength ∨
      HeaderState.ofName l.name = .transferEncoding → l.value ≠ [] := by
    rintro (hk | hk) hv
    · exact (hlen hk).ne hv
    · exact absurd (hte hk) (by rw [hv]; decide)
  rw [Framing.line]
  by_cases hv : l.value = []
  · rw [if_pos hv]
    refine ⟨f, rfl, rfl, ?_, ?_⟩
    · rw [decide_eq_false fun hk => hne (.inr hk) hv, Bool.or_false]
    · rw [if_neg fun hk => hne (.inl hk) hv]
  rw [if_neg hv]
  cases hk : HeaderState.ofName l.name with
  | contentLength =>
    refine ⟨{ f with contentLength := n }, ?_, rfl, by simp, by simp⟩
    simp only [(hlen hk).lengthOf hn, Option.map_some]
  | transferEncoding =>
    refine ⟨{ f with flags.chunked := true }, ?_, rfl, by simp, by simp⟩
    simp only [isWord_chunked (hte hk), if_true]
  | upgrade => exact absurd hk hup
  | connection =>
    simp only [reduceCtorEq, decide_false, Bool.or_false, if_false]
    split_ifs <;> exact ⟨_, rfl, rfl, rfl, rfl⟩
  | _ => exact ⟨_, rfl, rfl, by simp, by simp⟩

/-- All lines of such a head. -/
theorem Framing.Says.lines {n : ℕ} {ls : List HeaderLine} (h : Says n ls) (hn : n < ULLONG_MAX)
    (f : Framing) : ∃ g, f.lines ls = some g ∧ g.flags.upgrade = f.flags.upgrade ∧
      g.flags.chunked = (f.flags.chunked || decide (∃ l ∈ ls, l.Named Reply.transferEncoding)) ∧
      g.contentLength = if ∃ l ∈ ls, l.Named Message.contentLength then n else f.contentLength := by
  induction ls generalizing f with
  | nil => exact ⟨f, rfl, rfl, by simp, by simp⟩
  | cons l ls ih =>
    obtain ⟨f₁, h₁, hu₁, hc₁, hl₁⟩ := h.line hn f
    obtain ⟨g, h₂, hu₂, hc₂, hl₂⟩ := ih h.tail f₁
    refine ⟨g, ?_, hu₂.trans hu₁, ?_, ?_⟩
    · rw [Framing.lines, List.foldlM_cons, h₁]
      exact h₂
    · rw [hc₂, hc₁, Bool.or_assoc, ← Bool.decide_or]
      simp only [List.exists_mem_cons_iff]
    · rw [hl₂, hl₁]
      by_cases h₁ : l.Named Message.contentLength <;>
        by_cases h₂ : ∃ l ∈ ls, l.Named Message.contentLength <;>
        simp [h₁, h₂]

/-- The header lines say how long the entity is, in the one way or the other. -/
def Entity.FramedBy (ls : List HeaderLine) : Entity → Prop
  | .empty => Framing.Says 0 ls ∧
    ∀ l ∈ ls, ¬ l.Named Message.contentLength ∧ ¬ l.Named Reply.transferEncoding
  | .length body => Framing.Says body.length ls ∧ body.length < ULLONG_MAX ∧
    (∃ l ∈ ls, l.Named Message.contentLength) ∧ ∀ l ∈ ls, ¬ l.Named Reply.transferEncoding
  | .chunked _ last => Framing.Says 0 ls ∧ hexNumeral last.size = 0 ∧
    (∃ l ∈ ls, l.Named Reply.transferEncoding) ∧ ∀ l ∈ ls, ¬ l.Named Message.contentLength

/-- `http_parser` reads the framing so, of a request or of a response that has a body. -/
theorem Entity.FramedBy.fits {e : Entity} {ls : List HeaderLine} (h : e.FramedBy ls)
    {p : HttpParser} (hp : e = .empty → p.type = .request) :
    ∃ f, Framing.new.lines ls = some f ∧ f.flags.upgrade = false ∧ e.Fits (p.framed f) := by
  cases e with
  | empty =>
    obtain ⟨hs, hno⟩ := h
    obtain ⟨f, hf, hu, hc, hl⟩ := hs.lines (by decide) Framing.new
    rw [decide_eq_false fun ⟨l, hl, hk⟩ => (hno l hl).2 hk] at hc
    rw [if_neg fun ⟨l, hl, hk⟩ => (hno l hl).1 hk] at hl
    refine ⟨f, hf, hu, hc, hl, ?_⟩
    rw [HttpParser.messageNeedsEof, if_pos (by exact hp rfl)]
  | length body =>
    obtain ⟨hs, hlt, hcl, hno⟩ := h
    obtain ⟨f, hf, hu, hc, hl⟩ := hs.lines hlt Framing.new
    rw [decide_eq_false fun ⟨l, hl, hk⟩ => hno l hl hk] at hc
    rw [if_pos hcl] at hl
    exact ⟨f, hf, hu, hc, hl, hlt⟩
  | chunked cs last =>
    obtain ⟨hs, hz, hte, hno⟩ := h
    obtain ⟨f, hf, hu, hc, hl⟩ := hs.lines (by decide) Framing.new
    rw [decide_eq_true hte, Bool.or_true] at hc
    exact ⟨f, hf, hu, hc, hz⟩

end Stutter.Joyent
