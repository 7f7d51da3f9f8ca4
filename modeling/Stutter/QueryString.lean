import Stutter.Request

namespace Stutter

/-- `find_first_of`; `none` is `npos`. -/
def findFirstOf (s : Bytes) (ch : UInt8) (pos : ℕ) : Option ℕ :=
  ((s.drop pos).findIdx? (· = ch)).map (pos + ·)

/-- `substr`, up to the end without a count; `none` is an `out_of_range`. -/
def substr (s : Bytes) (pos : ℕ) (count : Option ℕ) : Option Bytes :=
  if pos ≤ s.length then some ((s.drop pos).take (count.getD s.length)) else none

namespace Request

/-- The loop that looks for the equal sign in the `n` bytes that are left of a pair, from its `i`-th
on; `none` is an access out of range. -/
def findEqual (url : Bytes) (start : ℕ) : ℕ → ℕ → Option (Option ℕ)
  | 0, _ => some none
  | n + 1, i => url[start + i]?.bind fun ch =>
    if ch = '='.toUInt8 then some (some i) else findEqual url start n (i + 1)

/-- The pair between the separators at `first` and at `next`. -/
def insertPair (url : Bytes) (first : ℕ) (next : Option ℕ) (m : QueryString) : Option QueryString :=
  let stop := next.getD url.length
  if stop < first + 1 then none
  else
    let pairSz := stop - first - 1
    (findEqual url (first + 1) pairSz 0).bind fun equal =>
    match equal with
    | some i =>
      -- an argument with an empty name is skipped
      if i = 0 then some m
      else (substr url (first + 1) (some i)).bind fun name =>
        (substr url (first + 1 + i + 1) (some (pairSz - i - 1))).map (m.insertNew name)
    | none => (substr url (first + 1) (next.map (· - first - 1))).map (m.insertNew · [])

/-- The loop of `extract_query_string`, from the separator at `first` on; `none` is an access out of
range, a difference below zero or a loop without end. -/
def extractLoop (url : Bytes) : ℕ → Option ℕ → QueryString → Option QueryString
  | _, none, m => some m
  | 0, some _, _ => none
  | fuel + 1, some first, m =>
    let next := findFirstOf url '&'.toUInt8 (first + 1)
    (insertPair url first next m).bind (extractLoop url fuel next)

/-- `extract_query_string`, step by step. -/
def extract (r : Request) : Option Request :=
  (extractLoop r.url (r.url.length + 1) (findFirstOf r.url '?'.toUInt8 0) r.queryString).map
    fun m => { r with queryString := m }

theorem findIdx?_not_mem {s : Bytes} {ch : UInt8} (h : ch ∉ s) : s.findIdx? (· = ch) = none := by
  rw [List.findIdx?_eq_none_iff]
  intro c hc
  refine decide_eq_false ?_
  rintro rfl
  exact h hc

theorem findIdx?_first {xs ys : Bytes} {ch : UInt8} (h : ch ∉ xs) :
    (xs ++ ch :: ys).findIdx? (· = ch) = some xs.length := by
  rw [List.findIdx?_append, findIdx?_not_mem h, List.findIdx?_cons]
  simp

theorem findEqual_eq {url : Bytes} {start i : ℕ} {xs ys : Bytes}
    (h : url.drop (start + i) = xs ++ ys) : findEqual url start xs.length i =
      some ((xs.findIdx? (· = '='.toUInt8)).map (i + ·)) := by
  induction xs generalizing i with
  | nil => rfl
  | cons x xs ih =>
    have hx : url[start + i]? = some x := by
      rw [← List.head?_drop, h]
      rfl
    have hd : url.drop (start + (i + 1)) = xs ++ ys := by
      rw [← Nat.add_assoc, ← List.tail_drop, h]
      rfl
    rw [List.length_cons, findEqual, hx, Option.bind_some, ih hd, List.findIdx?_cons]
    by_cases he : x = '='.toUInt8
    · simp [he]
    · simp only [he, if_false, decide_false, Bool.false_eq_true, Option.map_map]
      congr 2
      funext k
      simp only [Function.comp_apply]
      omega

theorem substr_eq {s xs ys : Bytes} {pos : ℕ} (h : s.drop pos = xs ++ ys) (hp : pos ≤ s.length) :
    substr s pos (some xs.length) = some xs := by
  rw [substr, if_pos hp, h, Option.getD_some, List.take_left]

theorem insertPair_eq {url piece more : Bytes} {first : ℕ} {next : Option ℕ}
    (h : url.drop (first + 1) = piece ++ more) (hlt : first < url.length)
    (hn : next = some (first + 1 + piece.length) ∨ next = none ∧ more = []) (m : QueryString) :
    insertPair url first next m = some (m.addPair piece) := by
  have hlen : url.length = first + 1 + (piece.length + more.length) := by
    rw [← List.length_append, ← h, List.length_drop]
    omega
  have hstop : next.getD url.length = first + 1 + piece.length := by
    obtain rfl | ⟨rfl, rfl⟩ := hn
    · rfl
    · rw [Option.getD_none, hlen]
      rfl
  rw [insertPair]
  dsimp only
  rw [hstop, if_neg (by omega), show first + 1 + piece.length - first - 1 = piece.length by omega,
    findEqual_eq (by exact h), Option.bind_some]
  by_cases he : '='.toUInt8 ∈ piece
  · obtain ⟨name, value, rfl, hne⟩ := List.eq_append_cons_of_mem he
    have hall : ∀ c ∈ name, decide (c ≠ '='.toUInt8) = true := fun c hc =>
      decide_eq_true fun hc' => hne (hc' ▸ hc)
    have ht : (name ++ '='.toUInt8 :: value).takeWhile (fun c => decide (c ≠ '='.toUInt8)) =
        name := by
      rw [List.takeWhile_append_of_pos hall, List.takeWhile_cons_of_neg (by decide),
        List.append_nil]
    have hd : (name ++ '='.toUInt8 :: value).dropWhile (fun c => decide (c ≠ '='.toUInt8)) =
        '='.toUInt8 :: value := by
      rw [List.dropWhile_append_of_pos hall, List.dropWhile_cons_of_neg (by decide)]
    rw [List.length_append, List.length_cons] at hlen
    rw [findIdx?_first hne, QueryString.addPair]
    simp only [ht, hd, Option.map_some, Nat.zero_add]
    rw [List.append_assoc, List.cons_append] at h
    have hval : url.drop (first + 1 + name.length + 1) = value ++ more := by
      rw [← List.drop_drop, ← List.drop_drop, h, List.drop_left]
      rfl
    by_cases hz : name = []
    · rw [if_pos (by rw [hz]; rfl), if_pos hz]
    · rw [if_neg fun hl => hz (List.eq_nil_of_length_eq_zero hl), if_neg hz,
        substr_eq h (by omega), Option.bind_some, List.length_append, List.length_cons,
        show name.length + (value.length + 1) - name.length - 1 = value.length by omega,
        substr_eq hval (by omega)]
      rfl
  · have hall : ∀ c ∈ piece, decide (c ≠ '='.toUInt8) = true := fun c hc =>
      decide_eq_true fun hc' => he (hc' ▸ hc)
    rw [findIdx?_not_mem he, QueryString.addPair]
    simp only [List.dropWhile_eq_nil_iff.mpr hall, Option.map_none]
    obtain rfl | ⟨rfl, rfl⟩ := hn
    · rw [Option.map_some, show first + 1 + piece.length - first - 1 = piece.length by omega,
        substr_eq h (by omega)]
      rfl
    · rw [List.append_nil] at h
      rw [substr, if_pos (by omega), Option.map_none, Option.getD_none, h,
        List.take_of_length_le (by rw [hlen]; omega)]
      rfl

theorem findFirstOf_none {s : Bytes} {ch : UInt8} {pos : ℕ} (h : ch ∉ s.drop pos) :
    findFirstOf s ch pos = none := by
  rw [findFirstOf, findIdx?_not_mem h]
  rfl

theorem findFirstOf_some {s xs ys : Bytes} {ch : UInt8} {pos : ℕ} (h : s.drop pos = xs ++ ch :: ys)
    (hx : ch ∉ xs) : findFirstOf s ch pos = some (pos + xs.length) := by
  rw [findFirstOf, h, findIdx?_first hx]
  rfl

/-- The loop splits the rest of the URL at the separators. -/
theorem extractLoop_eq {url : Bytes} {fuel first : ℕ} (hlt : first < url.length)
    (hf : url.length - first ≤ fuel) (m : QueryString) : extractLoop url fuel (some first) m =
      some (((url.drop (first + 1)).splitOn '&'.toUInt8).foldl QueryString.addPair m) := by
  induction fuel generalizing first m with
  | zero => omega
  | succ fuel ih =>
    rw [extractLoop]
    by_cases ha : '&'.toUInt8 ∈ url.drop (first + 1)
    · obtain ⟨piece, more, hd, hp⟩ := List.eq_append_cons_of_mem ha
      have hlen : (url.drop (first + 1)).length = piece.length + (more.length + 1) := by
        rw [hd, List.length_append, List.length_cons]
      rw [List.length_drop] at hlen
      have hmore : url.drop (first + 1 + piece.length + 1) = more := by
        rw [← List.drop_drop, ← List.drop_drop, hd, List.drop_left]
        rfl
      rw [findFirstOf_some hd hp, insertPair_eq hd hlt (.inl rfl), Option.bind_some,
        ih (by omega) (by omega), hmore, hd, List.splitOn_append_cons_self_of_not_mem hp,
        List.foldl_cons]
    · rw [findFirstOf_none ha, insertPair_eq (List.append_nil _).symm hlt (.inr ⟨rfl, rfl⟩),
        Option.bind_some, List.splitOn_eq_singleton ha, List.foldl_cons, List.foldl_nil]
      cases fuel <;> rfl

/-- Step by step or not, `extract_query_string` returns, with the same arguments. -/
theorem extract_eq (r : Request) : r.extract = some r.extractQueryString := by
  rw [extract, extractQueryString]
  by_cases hq : '?'.toUInt8 ∈ r.url
  · obtain ⟨pre, rest, hu, hp⟩ := List.eq_append_cons_of_mem hq
    have hall : ∀ c ∈ pre, decide (c ≠ '?'.toUInt8) = true := fun c hc =>
      decide_eq_true fun hc' => hp (hc' ▸ hc)
    have hd : r.url.dropWhile (fun c => decide (c ≠ '?'.toUInt8)) = '?'.toUInt8 :: rest := by
      rw [hu, List.dropWhile_append_of_pos hall, List.dropWhile_cons_of_neg (by decide)]
    have hrest : r.url.drop (pre.length + 1) = rest := by
      rw [hu, ← List.drop_drop, List.drop_left]
      rfl
    have hl : pre.length < r.url.length := by
      rw [hu, List.length_append, List.length_cons]
      omega
    rw [findFirstOf_some (s := r.url) (by exact hu) hp, Nat.zero_add,
      extractLoop_eq hl (by omega), hrest]
    simp only [hd]
    rfl
  · have hall : ∀ c ∈ r.url, decide (c ≠ '?'.toUInt8) = true := fun c hc =>
      decide_eq_true fun hc' => hq (hc' ▸ hc)
    rw [findFirstOf_none (by exact hq)]
    simp only [List.dropWhile_eq_nil_iff.mpr hall]
    rfl

end Request

namespace QueryString

/-- The name and the value of a piece, which are parted by its first equal sign. -/
def parts (piece : Bytes) : Bytes × Bytes :=
  (piece.takeWhile (· ≠ '='.toUInt8), (piece.dropWhile (· ≠ '='.toUInt8)).tail)

/-- The pieces of the text behind the first question mark. -/
def pieces (url : Bytes) : List Bytes :=
  match url.dropWhile (· ≠ '?'.toUInt8) with
  | [] => []
  | _ :: rest => rest.splitOn '&'.toUInt8

/-- The arguments of a URL that have a name. -/
def arguments (url : Bytes) : List (Bytes × Bytes) :=
  ((pieces url).map parts).filter fun e => e.1 ≠ []

theorem get_insertNew (m : QueryString) (name value k : Bytes) : (m.insertNew name value).get k =
    (m.get k).or (if name = k then some value else none) := by
  have hk : k.map UInt8.toNat = name.map UInt8.toNat ↔ name = k := by
    rw [eq_comm]
    exact (List.map_injective_iff.mpr fun _ _ => UInt8.toNat_inj.mp).eq_iff
  rw [insertNew]
  by_cases hn : name = k
  · subst hn
    rw [if_pos rfl]
    split_ifs with hs
    · obtain ⟨v, hv⟩ := Option.isSome_iff_exists.mp hs
      rw [hv]
      rfl
    · rw [SortedMap.get_insert, if_pos rfl, Option.not_isSome_iff_eq_none.mp hs]
      rfl
  · rw [if_neg hn, Option.or_none]
    split_ifs
    · rfl
    · rw [SortedMap.get_insert, if_neg fun h => hn (hk.mp h)]

/-- What `addPair` adds for a piece. -/
def added (piece : Bytes) : Option (Bytes × Bytes) :=
  if (parts piece).1 = [] ∧ piece ≠ [] then none else some (parts piece)

theorem addPair_eq (m : QueryString) (piece : Bytes) : m.addPair piece =
    match added piece with
    | none => m
    | some e => m.insertNew e.1 e.2 := by
  rw [addPair, added, parts]
  by_cases he : '='.toUInt8 ∈ piece
  · obtain ⟨name, value, rfl, hne⟩ := List.eq_append_cons_of_mem he
    have hall : ∀ c ∈ name, decide (c ≠ '='.toUInt8) = true := fun c hc =>
      decide_eq_true fun hc' => hne (hc' ▸ hc)
    have ht : (name ++ '='.toUInt8 :: value).takeWhile (fun c => decide (c ≠ '='.toUInt8)) =
        name := by
      rw [List.takeWhile_append_of_pos hall, List.takeWhile_cons_of_neg (by decide),
        List.append_nil]
    have hd : (name ++ '='.toUInt8 :: value).dropWhile (fun c => decide (c ≠ '='.toUInt8)) =
        '='.toUInt8 :: value := by
      rw [List.dropWhile_append_of_pos hall, List.dropWhile_cons_of_neg (by decide)]
    have hp : name ++ '='.toUInt8 :: value ≠ [] :=
      List.append_ne_nil_of_right_ne_nil _ (List.cons_ne_nil _ _)
    simp only [ht, hd, hp, ne_eq, not_false_eq_true, and_true, List.tail_cons]
    split_ifs <;> rfl
  · have hall : ∀ c ∈ piece, decide (c ≠ '='.toUInt8) = true := fun c hc =>
      decide_eq_true fun hc' => he (hc' ▸ hc)
    simp only [List.dropWhile_eq_nil_iff.mpr hall, List.takeWhile_eq_self_iff.mpr hall, ne_eq,
      and_not_self, if_false, List.tail_nil]

theorem get_foldl (l : List Bytes) (m : QueryString) (k : Bytes) :
    (l.foldl addPair m).get k = (m.get k).or
      (((l.filterMap added).find? fun e => e.1 = k).map Prod.snd) := by
  induction l generalizing m with
  | nil => rw [List.foldl_nil, List.filterMap_nil, List.find?_nil, Option.map_none, Option.or_none]
  | cons piece l ih =>
    rw [List.foldl_cons, ih, addPair_eq, List.filterMap_cons]
    cases added piece with
    | none => rfl
    | some e =>
      dsimp only
      rw [get_insertNew, Option.or_assoc, List.find?_cons]
      by_cases hk : e.1 = k
      · rw [if_pos hk, decide_eq_true hk]
        rfl
      · rw [if_neg hk, decide_eq_false hk]
        rfl

theorem filterMap_added {l : List Bytes} (h : [] ∉ l) :
    l.filterMap added = (l.map parts).filter fun e => e.1 ≠ [] := by
  induction l with
  | nil => rfl
  | cons piece l ih =>
    obtain ⟨hp, hl⟩ := not_or.mp (List.mem_cons.not.mp h)
    rw [List.filterMap_cons, ih hl, List.map_cons, List.filter_cons, added]
    by_cases hn : (parts piece).1 = []
    · rw [if_pos ⟨hn, Ne.symm hp⟩, if_neg (by simpa using hn)]
    · rw [if_neg fun hc => hn hc.1, if_pos (by simpa using hn)]

end QueryString

theorem Request.queryString_extract (r : Request) : r.extractQueryString.queryString =
    (QueryString.pieces r.url).foldl QueryString.addPair r.queryString := by
  rw [extractQueryString, QueryString.pieces]
  cases r.url.dropWhile (· ≠ '?'.toUInt8) <;> rfl

/-- `extract_query_string` returns, and has the arguments that the URL gives, exactly if no piece of
the query is empty. -/
theorem Request.extract_iff {r : Request} (h : r.queryString = .empty) :
    ∃ r', r.extract = some r' ∧
      ((∀ name, r'.queryString.get name =
        ((QueryString.arguments r.url).find? fun e => e.1 = name).map Prod.snd) ↔
      [] ∉ QueryString.pieces r.url) := by
  have hget : ∀ name, r.extractQueryString.queryString.get name =
      (((QueryString.pieces r.url).filterMap QueryString.added).find? fun e => e.1 = name).map
        Prod.snd := fun name => by
    rw [queryString_extract, QueryString.get_foldl, h, SortedMap.get_empty, Option.none_or]
  refine ⟨r.extractQueryString, r.extract_eq, fun hall hm => ?_, fun hm name => ?_⟩
  · have hn := hall []
    rw [hget] at hn
    have hnone : (QueryString.arguments r.url).find? (fun e => e.1 = []) = none := by
      rw [List.find?_eq_none]
      intro e he
      simpa using (List.mem_filter.mp he).2
    rw [hnone, Option.map_none, Option.map_eq_none_iff, List.find?_eq_none] at hn
    exact hn ([], []) (List.mem_filterMap.mpr ⟨[], hm, rfl⟩) (by simp)
  · rw [hget, QueryString.filterMap_added hm]
    rfl

theorem Request.extract_iff_twice :
    ∃ r', (Request.new.setUrl (ascii "/?a=1&b&a=2")).extract = some r' ∧
      ((∀ name, r'.queryString.get name =
        ((QueryString.arguments (ascii "/?a=1&b&a=2")).find? fun e => e.1 = name).map Prod.snd) ↔
      [] ∉ QueryString.pieces (ascii "/?a=1&b&a=2")) :=
  Request.extract_iff (r := Request.new.setUrl (ascii "/?a=1&b&a=2")) rfl

/-- A query that says nothing has an argument without a name. -/
theorem Request.extract_empty :
    ((Request.new.setUrl (ascii "/?")).extract.map fun r => r.queryString.get []) = some (some []) ∧
      QueryString.arguments (ascii "/?") = [] := by
  constructor <;> decide +kernel

end Stutter
