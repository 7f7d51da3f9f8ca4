import Mathlib

/-- A finite map in the order of a key of its names, as a `std::map` with a comparator: two names
with one key are one entry, which keeps the name it was made with. -/
@[ext]
structure SortedMap {α β : Type} [LinearOrder β] (key : α → β) (γ : Type) where
  entries : List (α × γ)
  sorted : entries.Pairwise fun a b => key a.1 < key b.1

namespace SortedMap

variable {α β γ : Type} [LinearOrder β] {key : α → β}

def insertEntry (key : α → β) (k : α) (v : γ) : List (α × γ) → List (α × γ)
  | [] => [(k, v)]
  | (k', v') :: es =>
    if key k < key k' then (k, v) :: (k', v') :: es
    else if key k' < key k then (k', v') :: insertEntry key k v es
    else (k', v) :: es

theorem mem_insertEntry {k : α} {v : γ} {es : List (α × γ)} {e : α × γ}
    (h : e ∈ insertEntry key k v es) : key e.1 = key k ∨ e ∈ es := by
  induction es with
  | nil =>
    obtain rfl := List.mem_singleton.mp h
    exact .inl rfl
  | cons e' es ih =>
    rw [insertEntry] at h
    split_ifs at h with h₁ h₂
    · obtain rfl | h := List.mem_cons.mp h
      · exact .inl rfl
      · exact .inr h
    · obtain rfl | h := List.mem_cons.mp h
      · exact .inr List.mem_cons_self
      · exact (ih h).imp_right (List.mem_cons_of_mem _)
    · obtain rfl | h := List.mem_cons.mp h
      · exact .inl (le_antisymm (not_lt.mp h₁) (not_lt.mp h₂))
      · exact .inr (List.mem_cons_of_mem _ h)

theorem pairwise_insertEntry (k : α) (v : γ) {es : List (α × γ)}
    (h : es.Pairwise fun a b => key a.1 < key b.1) :
    (insertEntry key k v es).Pairwise fun a b => key a.1 < key b.1 := by
  induction es with
  | nil => exact List.pairwise_singleton _ _
  | cons e es ih =>
    obtain ⟨he, hes⟩ := List.pairwise_cons.mp h
    rw [insertEntry]
    split_ifs with h₁ h₂
    · refine List.pairwise_cons.mpr ⟨fun e' he' => ?_, h⟩
      obtain rfl | he' := List.mem_cons.mp he'
      · exact h₁
      · exact h₁.trans (he e' he')
    · refine List.pairwise_cons.mpr ⟨fun e' he' => ?_, ih hes⟩
      obtain hk | he' := mem_insertEntry he'
      · rwa [hk]
      · exact he e' he'
    · exact List.pairwise_cons.mpr ⟨he, hes⟩

/-- A new entry has the new value, under the new name or under one that was there. -/
theorem mem_insertEntry_cases {k : α} {v : γ} {es : List (α × γ)} {e : α × γ}
    (h : e ∈ insertEntry key k v es) :
    e ∈ es ∨ e.2 = v ∧ (e.1 = k ∨ ∃ w, (e.1, w) ∈ es) := by
  induction es with
  | nil =>
    obtain rfl := List.mem_singleton.mp h
    exact .inr ⟨rfl, .inl rfl⟩
  | cons e' es ih =>
    rw [insertEntry] at h
    split_ifs at h with h₁ h₂
    · obtain rfl | h := List.mem_cons.mp h
      · exact .inr ⟨rfl, .inl rfl⟩
      · exact .inl h
    · obtain rfl | h := List.mem_cons.mp h
      · exact .inl List.mem_cons_self
      · obtain h | ⟨hv, hk | ⟨w, hw⟩⟩ := ih h
        · exact .inl (List.mem_cons_of_mem _ h)
        · exact .inr ⟨hv, .inl hk⟩
        · exact .inr ⟨hv, .inr ⟨w, List.mem_cons_of_mem _ hw⟩⟩
    · obtain rfl | h := List.mem_cons.mp h
      · exact .inr ⟨rfl, .inr ⟨e'.2, List.mem_cons_self⟩⟩
      · exact .inl (List.mem_cons_of_mem _ h)

/-- To store a value again changes nothing. -/
theorem insertEntry_again (k : α) (v : γ) (es : List (α × γ)) :
    insertEntry key k v (insertEntry key k v es) = insertEntry key k v es := by
  induction es with
  | nil => simp [insertEntry]
  | cons e es ih =>
    by_cases h₁ : key k < key e.1
    · simp [insertEntry, h₁]
    by_cases h₂ : key e.1 < key k
    · simp [insertEntry, h₁, h₂, ih]
    · simp [insertEntry, h₁, h₂]

def empty : SortedMap key γ := ⟨[], List.Pairwise.nil⟩

instance : Inhabited (SortedMap key γ) := ⟨empty⟩

/-- `m[k] = v` -/
def insert (m : SortedMap key γ) (k : α) (v : γ) : SortedMap key γ :=
  ⟨insertEntry key k v m.entries, pairwise_insertEntry k v m.sorted⟩

def get (m : SortedMap key γ) (k : α) : Option γ :=
  (m.entries.find? fun e => key e.1 = key k).map Prod.snd

def erase (m : SortedMap key γ) (k : α) : SortedMap key γ :=
  ⟨m.entries.filter fun e => key e.1 ≠ key k, m.sorted.filter _⟩

@[simp] theorem get_empty (k : α) : (empty : SortedMap key γ).get k = none := rfl

theorem get_eq_some {m : SortedMap key γ} {k : α} {v : γ} :
    m.get k = some v ↔ ∃ k', key k' = key k ∧ (k', v) ∈ m.entries := by
  obtain ⟨es, hs⟩ := m
  simp only [get]
  induction es with
  | nil => simp
  | cons e es ih =>
    obtain ⟨he, hes⟩ := List.pairwise_cons.mp hs
    rw [List.find?_cons]
    by_cases h : key e.1 = key k
    · simp only [h, decide_true, Option.map_some, Option.some.injEq]
      constructor
      · rintro rfl
        exact ⟨e.1, h, List.mem_cons_self⟩
      · rintro ⟨k', hk, hm⟩
        obtain hm | hm := List.mem_cons.mp hm
        · exact congrArg Prod.snd hm.symm
        · exact absurd (h.trans hk.symm) (he _ hm).ne
    · simp only [h, decide_false, ih hes]
      refine exists_congr fun k' => and_congr_right fun hk => ?_
      constructor
      · exact List.mem_cons_of_mem _
      · intro hm
        obtain hm | hm := List.mem_cons.mp hm
        · exact absurd (hm ▸ hk) h
        · exact hm

theorem get_eq_none {m : SortedMap key γ} {k : α} :
    m.get k = none ↔ ∀ e ∈ m.entries, key e.1 ≠ key k := by
  simp only [get, Option.map_eq_none_iff, List.find?_eq_none, decide_eq_true_eq]

theorem get_congr (m : SortedMap key γ) {k k' : α} (h : key k = key k') : m.get k = m.get k' := by
  rw [get, h]
  rfl

theorem find_insertEntry (k : α) (v : γ) (es : List (α × γ)) (k' : α) :
    ((insertEntry key k v es).find? fun e => key e.1 = key k').map Prod.snd =
      if key k' = key k then some v
      else (es.find? fun e => key e.1 = key k').map Prod.snd := by
  induction es with
  | nil =>
    by_cases h : key k' = key k
    · simp [insertEntry, h]
    · simp [insertEntry, h, Ne.symm h]
  | cons e es ih =>
    rw [insertEntry]
    by_cases h₁ : key k < key e.1
    · rw [if_pos h₁]
      by_cases h : key k' = key k
      · simp [h]
      · simp [List.find?_cons, h, Ne.symm h]
    by_cases h₂ : key e.1 < key k
    · rw [if_neg h₁, if_pos h₂]
      by_cases he : key e.1 = key k'
      · have hne : ¬ key k' = key k := he ▸ h₂.ne
        simp [he, hne]
      · simpa [List.find?_cons, he] using ih
    · have he : key e.1 = key k := le_antisymm (not_lt.mp h₁) (not_lt.mp h₂)
      rw [if_neg h₁, if_neg h₂]
      by_cases h : key k' = key k
      · simp [he, h]
      · simp [he, h, Ne.symm h]

theorem get_insert (m : SortedMap key γ) (k k' : α) (v : γ) :
    (m.insert k v).get k' = if key k' = key k then some v else m.get k' :=
  find_insertEntry k v m.entries k'

theorem insert_again (m : SortedMap key γ) (k : α) (v : γ) :
    (m.insert k v).insert k v = m.insert k v :=
  SortedMap.ext (insertEntry_again k v m.entries)

theorem get_erase (m : SortedMap key γ) (k k' : α) :
    (m.erase k).get k' = if key k' = key k then none else m.get k' := by
  by_cases h : key k' = key k
  · rw [if_pos h, get_eq_none]
    intro e he
    rw [h]
    exact of_decide_eq_true (List.mem_filter.mp he).2
  · rw [if_neg h]
    ext v
    simp only [get_eq_some, erase, List.mem_filter, decide_eq_true_eq]
    refine exists_congr fun k'' => and_congr_right fun hk => and_iff_left ?_
    rwa [hk]

/-- The entries of a list, inserted from left to right. -/
def insertAll (m : SortedMap key γ) (es : List (α × γ)) : SortedMap key γ :=
  es.foldl (fun m e => m.insert e.1 e.2) m

@[simp] theorem insertAll_nil (m : SortedMap key γ) : m.insertAll [] = m := rfl

@[simp] theorem insertAll_cons (m : SortedMap key γ) (e : α × γ) (es : List (α × γ)) :
    m.insertAll (e :: es) = (m.insert e.1 e.2).insertAll es := rfl

theorem insertAll_append (m : SortedMap key γ) (es es' : List (α × γ)) :
    m.insertAll (es ++ es') = (m.insertAll es).insertAll es' :=
  List.foldl_append

theorem insertEntry_last {k : α} {v : γ} {es : List (α × γ)} (h : ∀ e ∈ es, key e.1 < key k) :
    insertEntry key k v es = es ++ [(k, v)] := by
  induction es with
  | nil => rfl
  | cons e es ih =>
    have he := h e List.mem_cons_self
    rw [insertEntry, if_neg he.asymm, if_pos he, ih fun e he => h e (List.mem_cons_of_mem _ he)]
    rfl

/-- The entries of a map make the map again. -/
theorem insertAll_entries (m : SortedMap key γ) : empty.insertAll m.entries = m := by
  obtain ⟨es, hs⟩ := m
  induction es using List.reverseRecOn with
  | nil => rfl
  | append_singleton es e ih =>
    obtain ⟨hes, -, hlt⟩ := List.pairwise_append.mp hs
    have ih' := ih hes
    rw [insertAll_append]
    dsimp only at ih' ⊢
    rw [ih']
    exact SortedMap.ext (insertEntry_last fun e' he' => hlt e' he' e List.mem_cons_self)

/-- The last of several entries with one key is the one that counts. -/
theorem get_insertAll_list (m : SortedMap key γ) (es : List (α × γ)) (k : α) :
    (m.insertAll es).get k =
      ((es.reverse.find? fun e => key e.1 = key k).map Prod.snd).or (m.get k) := by
  induction es generalizing m with
  | nil => rfl
  | cons e es ih =>
    rw [insertAll_cons, ih, get_insert, List.reverse_cons, List.find?_append]
    by_cases h : key k = key e.1
    · cases es.reverse.find? fun e => key e.1 = key k <;> simp [h]
    · cases es.reverse.find? fun e => key e.1 = key k <;> simp [h, Ne.symm h]

/-- The map `m` overlaid with the map `n`. -/
theorem get_insertAll (m n : SortedMap key γ) (k : α) :
    (m.insertAll n.entries).get k = (n.get k).or (m.get k) := by
  obtain ⟨es, hs⟩ := n
  induction es generalizing m with
  | nil => rfl
  | cons e es ih =>
    obtain ⟨he, hes⟩ := List.pairwise_cons.mp hs
    have ih' := ih (m.insert e.1 e.2) hes
    simp only at ih' ⊢
    rw [insertAll_cons, ih', get_insert]
    by_cases h : key k = key e.1
    · have hn : (⟨es, hes⟩ : SortedMap key γ).get k = none :=
        get_eq_none.mpr fun e' he' => h ▸ (he e' he').ne'
      have hc : (⟨e :: es, hs⟩ : SortedMap key γ).get k = some e.2 :=
        get_eq_some.mpr ⟨e.1, h.symm, List.mem_cons_self⟩
      rw [if_pos h, hn, hc]
      rfl
    · have hc : (⟨e :: es, hs⟩ : SortedMap key γ).get k = (⟨es, hes⟩ : SortedMap key γ).get k := by
        simp [get, Ne.symm h]
      rw [if_neg h, hc]

end SortedMap
