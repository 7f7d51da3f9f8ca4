import Stutter.Advertised
import Stutter.Framed
import Stutter.Joyent.HeadLine

namespace Stutter

open Joyent

namespace Joyent

/-- What one line of a head says, if any length in it is `n`. -/
theorem Framing.line_says {n : ℕ} {l : HeaderLine}
    (h : l.Named Message.contentLength → IsNumeral l.value n) (hn : n < ULLONG_MAX) (f : Framing) :
    ∃ g, f.line l.name l.value = some g ∧
      g.flags.upgrade = (f.flags.upgrade || decide (l.Named Joyent.upgrade ∧ l.value ≠ [])) ∧
      g.flags.chunked = (f.flags.chunked || decide (l.Named Reply.transferEncoding ∧
        isWord (ascii "chunked") l.value = true)) ∧
      g.contentLength = if l.Named Message.contentLength then n else f.contentLength := by
  simp only [← ofName_contentLength, ← ofName_transferEncoding, ← ofName_upgrade] at h ⊢
  have hword : isWord (ascii "chunked") [] = false := by decide
  rw [Framing.line]
  by_cases hv : l.value = []
  · -- a line without a value says nothing, and a length has one
    have hlen : ¬ HeaderState.ofName l.name = .contentLength := fun hk => (h hk).ne hv
    rw [if_pos hv, if_neg hlen, hv, hword]
    exact ⟨f, rfl, by simp, by simp, rfl⟩
  rw [if_neg hv]
  cases hk : HeaderState.ofName l.name with
  | contentLength =>
    refine ⟨{ f with contentLength := n }, ?_, by simp, by simp, by simp⟩
    simp only [(h hk).lengthOf hn, Option.map_some]
  | transferEncoding =>
    dsimp only
    by_cases hw : isWord (ascii "chunked") l.value = true
    · rw [if_pos hw]
      exact ⟨_, rfl, by simp, by simp [hw], by simp⟩
    · rw [if_neg hw]
      exact ⟨f, rfl, by simp, by simp [hw], by simp⟩
  | upgrade => exact ⟨{ f with flags.upgrade := true }, rfl, by simp [hv], by simp, by simp⟩
  | connection =>
    have hlen : ¬ HeaderState.connection = .contentLength := HeaderState.noConfusion
    rw [if_neg hlen]
    dsimp only
    split_ifs <;> exact ⟨_, rfl, by simp, by simp, rfl⟩
  | _ => exact ⟨f, rfl, by simp, by simp, by simp⟩

/-- What all its lines say. -/
theorem Framing.lines_say {n : ℕ} {ls : List HeaderLine}
    (h : ∀ l ∈ ls, l.Named Message.contentLength → IsNumeral l.value n) (hn : n < ULLONG_MAX)
    (f : Framing) : ∃ g, f.lines ls = some g ∧
      g.flags.upgrade = (f.flags.upgrade ||
        decide (∃ l ∈ ls, l.Named Joyent.upgrade ∧ l.value ≠ [])) ∧
      g.flags.chunked = (f.flags.chunked || decide (∃ l ∈ ls, l.Named Reply.transferEncoding ∧
        isWord (ascii "chunked") l.value = true)) ∧
      g.contentLength = if ∃ l ∈ ls, l.Named Message.contentLength then n else f.contentLength := by
  induction ls generalizing f with
  | nil => exact ⟨f, rfl, by simp, by simp, by simp⟩
  | cons l ls ih =>
    obtain ⟨f₁, h₁, hu₁, hc₁, hl₁⟩ := Framing.line_says (h l List.mem_cons_self) hn f
    obtain ⟨g, h₂, hu₂, hc₂, hl₂⟩ := ih (fun l hl => h l (List.mem_cons_of_mem _ hl)) f₁
    refine ⟨g, ?_, ?_, ?_, ?_⟩
    · rw [Framing.lines, List.foldlM_cons, h₁]
      exact h₂
    · rw [hu₂, hu₁, Bool.or_assoc, ← Bool.decide_or]
      simp only [List.exists_mem_cons_iff]
    · rw [hc₂, hc₁, Bool.or_assoc, ← Bool.decide_or]
      simp only [List.exists_mem_cons_iff]
    · rw [hl₂, hl₁]
      by_cases h₁ : l.Named Message.contentLength <;>
        by_cases h₂ : ∃ l ∈ ls, l.Named Message.contentLength <;>
        simp [h₁, h₂]

theorem HeadLine.bytes_ofLine (l : HeaderLine) : (HeadLine.ofLine l).bytes = l.bytes := by
  simp only [HeadLine.bytes, HeadLine.start, HeadLine.pieces, HeadLine.ofLine, Option.toList_some,
    List.append_nil, List.flatMap_cons, List.flatMap_nil, Piece.bytes, HeaderLine.bytes,
    List.append_assoc]
  rfl

theorem HeadLine.value_ofLine (l : HeaderLine) : (HeadLine.ofLine l).value = l.value := by
  simp only [HeadLine.value, HeadLine.pieces, HeadLine.ofLine, Option.toList_some, List.append_nil,
    List.map_cons, List.map_nil, List.flatten_cons, List.flatten_nil]

/-- Lines that are not folded say what they say as a part of a request. -/
theorem Framing.head_ofLine (f : Framing) (ls : List HeaderLine) :
    f.head (ls.map HeadLine.ofLine) = f.lines ls := by
  induction ls generalizing f with
  | nil => rfl
  | cons l ls ih =>
    have hl : f.pieces (.ofName l.name) (HeadLine.ofLine l).pieces = f.line l.name l.value := by
      change (f.piece _ l.value).bind some = _
      rw [Option.bind_fun_some]
      rfl
    rw [List.map_cons, Framing.head, List.foldlM_cons, Framing.lines, List.foldlM_cons]
    change (f.pieces (.ofName l.name) (HeadLine.ofLine l).pieces).bind _ = _
    rw [hl]
    exact congrArg _ (funext ih)

end Joyent

/-- A header that can be written: its name is a token, and its value is what a line can hold. -/
structure Writable (h : Bytes × Bytes) : Prop where
  ne : h.1 ≠ []
  token : ∀ c ∈ h.1, token c ≠ 0
  line : ∀ c ∈ h.2, c ≠ CR ∧ c ≠ LF
  head : ∀ c ∈ h.2.head?, isBlank c = false

instance (h : Bytes × Bytes) : Decidable (Writable h) :=
  decidable_of_iff (h.1 ≠ [] ∧ (∀ c ∈ h.1, token c ≠ 0) ∧ (∀ c ∈ h.2, c ≠ CR ∧ c ≠ LF) ∧
    ∀ c ∈ h.2.head?, isBlank c = false) ⟨fun h => ⟨h.1, h.2.1, h.2.2.1, h.2.2.2⟩,
      fun h => ⟨h.ne, h.token, h.line, h.head⟩⟩

theorem writable_length (n : ℕ) : Writable (Message.contentLength, decimal n) where
  ne := (by decide : Message.contentLength ≠ [])
  token := (by decide +kernel : ∀ c ∈ Message.contentLength, token c ≠ 0)
  line c hc := by
    obtain ⟨-, -, hcr, hlf, -⟩ := isNum_ne (isNum_decimal n c hc)
    exact ⟨hcr, hlf⟩
  head c hc := by
    have hn := isNum_decimal n c (List.mem_of_mem_head? hc)
    obtain ⟨-, hsp, -⟩ := isNum_ne hn
    have hht : c ≠ HT := by
      rintro rfl
      exact absurd hn (by decide)
    simp [isBlank, hsp, hht]

namespace Headers

/-- All headers can be written. -/
abbrev Writable (m : Headers) : Prop := ∀ h ∈ m.entries, Stutter.Writable h

/-- The lines that `prepare` writes. -/
def lines (m : Headers) (h : m.Writable) : List HeaderLine :=
  m.entries.pmap (fun e he => .of e.1 e.2 ⟨he.ne, he.token, he.line, he.head⟩) h

variable {m : Headers} {h : m.Writable}

theorem lines_map : (m.lines h).map (fun l => (l.name, l.value)) = m.entries := by
  rw [lines, List.map_pmap]
  exact List.pmap_eq_self.mpr fun _ _ => rfl

theorem lines_bytes : (m.lines h).flatMap HeaderLine.bytes =
    m.entries.flatMap fun e => e.1 ++ ascii ": " ++ e.2 ++ crlf := by
  have hb : ∀ l ∈ m.lines h, l.bytes = l.name ++ ascii ": " ++ l.value ++ crlf := by
    intro l hl
    obtain ⟨e, he, rfl⟩ := List.mem_pmap.mp hl
    simp only [HeaderLine.bytes, HeaderLine.of, List.append_assoc]
    rfl
  rw [List.flatMap_congr hb, ← lines_map (h := h), List.flatMap_map]

/-- What is written under a name is what the map has under it. -/
theorem named_iff (key : Bytes) (P : Bytes → Prop) :
    (∃ l ∈ m.lines h, l.Named key ∧ P l.value) ↔ ∃ v, m.get key = some v ∧ P v := by
  constructor
  · rintro ⟨l, hl, hk, hp⟩
    have hm : (l.name, l.value) ∈ m.entries := by
      rw [← lines_map (h := h)]
      exact List.mem_map_of_mem hl
    exact ⟨l.value, SortedMap.get_eq_some.mpr ⟨l.name, hk, hm⟩, hp⟩
  · rintro ⟨v, hv, hp⟩
    obtain ⟨k, hk, hm⟩ := SortedMap.get_eq_some.mp hv
    rw [← lines_map (h := h)] at hm
    obtain ⟨l, hl, he⟩ := List.mem_map.mp hm
    obtain ⟨rfl, rfl⟩ := Prod.mk.injEq .. ▸ he
    exact ⟨l, hl, hk, hp⟩

theorem get_insert (m : Headers) (k k' v : Bytes) : SortedMap.get (m.insert k v) k' =
    if nocase k' = nocase k then some v else m.get k' := by
  rw [SortedMap.get_insert]
  split_ifs <;> rfl

theorem value_of {l : HeaderLine} (hl : l ∈ m.lines h) {key : Bytes} (hk : l.Named key) :
    m.get key = some l.value := by
  obtain ⟨v, hv, rfl⟩ := (named_iff key (· = l.value)).mp ⟨l, hl, hk, rfl⟩
  exact hv

theorem named_of {key v : Bytes} (hv : m.get key = some v) : ∃ l ∈ m.lines h, l.Named key := by
  obtain ⟨l, hl, hk, -⟩ := (named_iff (h := h) key fun _ => True).mpr ⟨v, hv, trivial⟩
  exact ⟨l, hl, hk⟩

theorem not_named {key : Bytes} (hv : m.get key = none) : ∀ l ∈ m.lines h, ¬ l.Named key := by
  intro l hl hk
  rw [value_of hl hk] at hv
  cases hv

theorem insert_writable (hm : m.Writable) {k v : Bytes} (hkv : Stutter.Writable (k, v)) :
    Headers.Writable (m.insert k v) := by
  intro e he
  -- a header that was there keeps the case of its name
  obtain he | ⟨hv, hk | ⟨w, hw⟩⟩ := SortedMap.mem_insertEntry_cases he
  · exact hm e he
  · rwa [← hv, ← hk] at hkv
  · have hname := hm _ hw
    exact ⟨hname.ne, hname.token, hv ▸ hkv.line, hv ▸ hkv.head⟩

theorem erase_writable (hm : m.Writable) (k : Bytes) : Headers.Writable (m.erase k) :=
  fun e he => hm e (List.mem_of_mem_filter he)

end Headers

end Stutter
