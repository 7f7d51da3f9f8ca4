import Stutter.Found
import Stutter.Framed
import Stutter.Joyent.Content
import Stutter.Joyent.Keeps
import Stutter.Joyent.Trailer

namespace Stutter

open Joyent

namespace Found

theorem save_of_not {f : Found} (h : f.gotval = false) : f.save = f := by
  rw [save, h]
  rfl

theorem gotval_save (f : Found) : f.save.gotval = false := by
  rw [save]
  split_ifs with h
  · rfl
  · exact Bool.eq_false_iff.mpr h

theorem data_append (k : Mark) (frag more : Bytes) (f : Found) :
    f.data k (frag ++ more) = (f.data k frag).data k more := by
  cases k with
  | url => rfl
  | headerField =>
    have hs : (f.data .headerField frag).save = f.data .headerField frag :=
      save_of_not f.gotval_save
    rw [data, data.eq_def .headerField more]
    dsimp only
    rw [hs, ← List.append_assoc]
    rfl
  | headerValue | body => simp only [data, List.append_assoc]

/-- The recorder does not tell one fragment from two. -/
theorem lawful : settings.Lawful fun _ => True where
  data_ok _ _ _ := rfl
  data_append k f g u _ _ := data_append k f g u
  data_whole k f g u _ _ := ⟨trivial, data_append k f g u⟩
  data_good _ _ _ _ _ := trivial
  headers_ok _ _ := rfl
  headers_eq _ _ _ := rfl
  headers_good _ _ _ := trivial
  complete h := by
    obtain ⟨rfl, rfl, -⟩ := Prod.mk.injEq .. ▸ Prod.mk.injEq .. ▸ Option.some.inj h
    exact ⟨rfl, .inl rfl⟩

theorem val_save {f : Found} (h : f.gotval = false → f.val = []) : f.save.val = [] := by
  rw [save]
  split_ifs with hg
  · rfl
  · exact h (Bool.eq_false_iff.mpr hg)

/-- A value that has not begun is empty. -/
theorem keeps_val : settings.Keeps fun f => f.gotval = false → f.val = [] where
  data k frag f h := by
    cases k with
    | url => exact h
    | headerField => exact fun _ => val_save h
    | headerValue => exact fun hg => Bool.noConfusion hg
    | body => exact h
  headers p f h := fun _ => val_save h
  complete hc h := by
    obtain ⟨-, -, rfl⟩ := Prod.mk.injEq .. ▸ Prod.mk.injEq .. ▸ Option.some.inj hc
    exact h

/-- The end of a head has the header in progress stored. -/
theorem content : settings.Content fun f => f.gotval = false where
  headers _ f := gotval_save f
  body _ _ h := h

/-- No value is in progress, though a name may be left over. -/
structure Saved (f : Found) : Prop where
  val : f.val = []
  gotval : f.gotval = false

/-- No header is in progress. -/
structure Between (f : Found) : Prop extends Saved f where
  key : f.key = []

theorem Saved.save {f : Found} (h : f.Saved) : f.save = f := save_of_not h.gotval

/-- The first line comes under its own name, behind the one that is left over. -/
def following (key : Bytes) : List (Bytes × Bytes) → List (Bytes × Bytes)
  | [] => []
  | (name, value) :: fields => (key ++ name, value) :: fields

@[simp] theorem following_nil (fields : List (Bytes × Bytes)) : following [] fields = fields := by
  cases fields <;> rfl

theorem dropLast_following (key : Bytes) (fields : List (Bytes × Bytes)) (last : Bytes × Bytes) :
    (following key (fields ++ [last])).dropLast = following key fields := by
  cases fields with
  | nil => rfl
  | cons first rest =>
    change ((key ++ first.1, first.2) :: rest ++ [last]).dropLast = _
    rw [List.dropLast_concat]
    rfl

theorem save_line {f : Found} (h : f.save.Saved) (l : HeaderLine) : (settings.line l f).save =
    { f.save with key := [], fields := f.save.fields ++ [(f.save.key ++ l.name, l.value)] } := by
  have hline : settings.line l f = { f.save with
      key := f.save.key ++ l.name, val := f.save.val ++ l.value, gotval := true } := rfl
  rw [hline]
  generalize f.save = g at h
  obtain ⟨k, v, b, fields, body, codes⟩ := g
  obtain ⟨rfl, rfl⟩ := h
  rfl

/-- Each line is found, the last one when the next is saved. -/
theorem save_lines {f : Found} (h : f.save.Saved) (ls : List HeaderLine) :
    (settings.lines ls f).save.fields =
      f.save.fields ++ following f.save.key (ls.map fun l => (l.name, l.value)) := by
  induction ls generalizing f with
  | nil => exact (List.append_nil _).symm
  | cons l ls ih =>
    have hl := save_line h l
    have hs := ih (f := settings.line l f) (by rw [hl]; exact ⟨h.val, h.gotval⟩)
    rw [hl, following_nil, List.append_assoc] at hs
    exact hs

/-- The last line is still in progress. -/
theorem fields_lines {f : Found} (h : f.Saved) (ls : List HeaderLine) :
    (settings.lines ls f).fields =
      f.fields ++ (following f.key (ls.map fun l => (l.name, l.value))).dropLast := by
  obtain rfl | ⟨ds, l, rfl⟩ := List.eq_nil_or_concat ls
  · exact (List.append_nil _).symm
  · have hl : settings.lines (ds.concat l) f = settings.line l (settings.lines ds f) := by
      rw [List.concat_eq_append, Settings.lines, List.foldl_append]
      rfl
    have hs := save_lines (h.save.symm ▸ h) ds
    rw [h.save] at hs
    rw [hl, List.concat_eq_append, List.map_append, List.map_singleton, dropLast_following]
    exact hs

end Found

/-- The objects of a parser, and the header lines found for them over the headers `h`. -/
structure Session.Files (h : Headers) (u : Session Bool) (f : Found) : Prop where
  headerKey : u.headerKey = f.key
  headerVal : u.headerVal = f.val
  headerGotval : u.headerGotval = f.gotval
  headers : u.msg.headers = h.insertAll f.fields
  cx : u.cx = decide (f.codes ≠ [])

namespace Session.Files

variable {E : Env} {h : Headers} {u : Session Bool} {f : Found}

theorem save (hu : u.Files h f) : u.saveLastHeader.Files h f.save := by
  rw [Found.save, ← hu.headerGotval]
  obtain ⟨hk, hv, hg, hh, hc⟩ := hu
  obtain ⟨m, e, k, v, b, req, rep, fs, cx⟩ := u
  cases b with
  | false => cases m <;> exact ⟨hk, hv, hg, hh, hc⟩
  | true =>
    have hins : (Session.msg ⟨m, e, k, v, true, req, rep, fs, cx⟩).headers.insert k v =
        h.insertAll (f.fields ++ [(f.key, f.val)]) := by
      rw [hh, ← hk, ← hv, SortedMap.insertAll_append]
      rfl
    cases m <;> exact ⟨rfl, rfl, rfl, hins, hc⟩

theorem url (hu : u.Files h f) (frag : Bytes) : (u.addUrlFragment frag).Files h f := by
  obtain ⟨hk, hv, hg, hh, hc⟩ := hu
  unfold Session.addUrlFragment
  split_ifs with h₁ h₂
  · exact ⟨hk, hv, hg, hh, hc⟩
  · obtain ⟨_ | _⟩ := u
    · exact ⟨hk, hv, hg, hh, hc⟩
    · cases h₁.1
  · exact ⟨hk, hv, hg, hh, hc⟩

theorem body (hu : u.Files h f) (frag : Bytes) :
    (u.addBodyFragment E frag).Files h { f with body := f.body ++ frag } := by
  have hadd : (u.msg.addBody E u.fs frag).1.headers = u.msg.headers := by
    unfold Message.addBody
    split <;> rfl
  obtain ⟨hk, hv, hg, hh, hc⟩ := hu
  unfold Session.addBodyFragment
  split_ifs
  · generalize u.msg.addBody E u.fs frag = r at hadd
    obtain ⟨m, fs⟩ := r
    obtain ⟨_ | _⟩ := u <;> exact ⟨hk, hv, hg, hadd.trans hh, hc⟩
  · exact ⟨hk, hv, hg, hh, hc⟩

theorem data (hu : u.Files h f) (k : Mark) (frag : Bytes) :
    (u.onData E k frag).Files h (f.data k frag) := by
  cases k with
  | url => exact hu.url frag
  | headerField =>
    obtain ⟨hk, hv, hg, hh, hc⟩ := hu.save
    exact ⟨congrArg (· ++ frag) hk, hv, hg, hh, hc⟩
  | headerValue =>
    exact ⟨hu.headerKey, congrArg (· ++ frag) hu.headerVal, rfl, hu.headers, hu.cx⟩
  | body => exact hu.body frag

theorem same_complete (u : Session Bool) (p : HttpParser) :
    (u.complete p).headerKey = u.headerKey ∧ (u.complete p).headerVal = u.headerVal ∧
      (u.complete p).headerGotval = u.headerGotval ∧
      (u.complete p).msg.headers = u.msg.headers := by
  obtain ⟨m, e, k, v, b, req, rep, fs, cx⟩ := u
  cases m with
  | request =>
    have hx : req.extractQueryString.message = req.message := by
      rw [Request.extractQueryString]
      split <;> rfl
    exact ⟨rfl, rfl, rfl, congrArg Message.headers hx⟩
  | response =>
    -- the new code must not be compared with the old one
    obtain ⟨message, major, minor, code, status⟩ := rep
    exact ⟨rfl, rfl, rfl, congrArg Message.headers (Eq.trans (b := message) rfl rfl)⟩

theorem complete (hu : u.Files h f) (p : HttpParser) :
    Files h { u.complete p with cx := true } { f with codes := f.codes ++ [p.statusCode] } := by
  obtain ⟨hk, hv, hg, hh⟩ := same_complete u p
  generalize u.complete p = v at hk hv hg hh
  have hc : true = decide (f.codes ++ [p.statusCode] ≠ []) := by simp
  exact ⟨hk.trans hu.headerKey, hv.trans hu.headerVal, hg.trans hu.headerGotval,
    hh.trans hu.headers, hc⟩

/-- The parser files the header lines that the recorder finds. -/
theorem related (E : Env) (h : Headers) :
    (Session.settings E Client.onMsgComplete).Related Found.settings (Files h)
      fun _ => False where
  data k frag _ _ h := ⟨rfl, h.data k frag⟩
  headers _ _ _ h := ⟨rfl, h.save⟩
  complete p _ _ h := ⟨rfl, rfl, h.complete p⟩
  spoiled := Settings.keeps_false _

end Session.Files

/-- What the last line of a name says. -/
def lastValue (fields : List (Bytes × Bytes)) (key : Bytes) : Option Bytes :=
  (fields.reverse.find? fun h => nocase h.1 = nocase key).map Prod.snd

theorem lastValue_append (fields fields' : List (Bytes × Bytes)) (key : Bytes) :
    lastValue (fields ++ fields') key = (lastValue fields' key).or (lastValue fields key) := by
  simp only [lastValue, List.reverse_append, List.find?_append, Option.map_or]

theorem lastValue_singleton (name value key : Bytes) :
    lastValue [(name, value)] key = if nocase name = nocase key then some value else none := by
  simp only [lastValue, List.reverse_singleton, List.find?_singleton, decide_eq_true_eq]
  split_ifs <;> rfl

theorem lastValue_congr (fields : List (Bytes × Bytes)) {key key' : Bytes}
    (h : nocase key = nocase key') : lastValue fields key = lastValue fields key' := by
  rw [lastValue, lastValue, h]

theorem lastValue_isSome {fields : List (Bytes × Bytes)} {name value : Bytes}
    (h : (name, value) ∈ fields) : (lastValue fields name).isSome = true := by
  rw [lastValue, Option.isSome_map, List.find?_isSome]
  exact ⟨(name, value), List.mem_reverse.mpr h, decide_eq_true rfl⟩

/-- A name that is left over hides no line but the first. -/
theorem lastValue_following {key : Bytes} {fields : List (Bytes × Bytes)} {name value : Bytes}
    (h : (name, value) ∈ fields)
    (hk : key ≠ [] → ∀ e ∈ fields.head?, nocase e.1 ≠ nocase name) :
    lastValue (Found.following key fields) name = lastValue fields name ∧
      (lastValue fields name).isSome = true := by
  refine ⟨?_, lastValue_isSome h⟩
  obtain rfl | hkey := eq_or_ne key []
  · rw [Found.following_nil]
  obtain _ | ⟨e, fields⟩ := fields
  · rfl
  have hm : (name, value) ∈ fields := by
    obtain he | hm := List.mem_cons.mp h
    · exact absurd (he ▸ rfl) (hk hkey e rfl)
    · exact hm
  have hcons : ∀ e, lastValue (e :: fields) name = lastValue fields name := by
    intro e
    rw [← List.singleton_append, lastValue_append, Option.or_of_isSome (lastValue_isSome hm)]
  rw [Found.following, hcons, hcons]

theorem get_insertAll_lastValue (h : Headers) (fields : List (Bytes × Bytes)) (key : Bytes) :
    (h.insertAll fields).get key = (lastValue fields key).or (h.get key) := by
  rw [SortedMap.get_insertAll_list, lastValue]
  congr!

/-- A message with a chunked body, and the lines of its trailer. -/
structure Trailed where
  head : Bytes
  chunks : List Chunk
  last : ChunkLine
  zero : hexNumeral last.size = 0
  trailer : List HeaderLine

namespace Trailed

def fields (m : Trailed) : List (Bytes × Bytes) := m.trailer.map fun l => (l.name, l.value)

def bytes (m : Trailed) : Bytes :=
  m.head ++ (m.chunks.flatMap Chunk.bytes ++ m.last.bytes ++
    (m.trailer.flatMap HeaderLine.bytes ++ crlf))

/-- `http_parser` finds the header lines of `f` in the head, and waits for the first chunk; the
names of lines without a colon at its end are left over. -/
structure Begins (m : Trailed) (t : ParserType) (f : Found) : Prop where
  read : ∃ p, httpParserExecute Found.settings (.init t) .new m.head = some (m.head.length, p, f) ∧
    p.httpErrno = .ok ∧ p.state = .chunkSizeStart ∧ p.flags.chunked = true ∧ p.nread = 0
  codes : f.codes = []

/-- Whatever the cut into reads, all lines of the trailer are among the headers when the message is
complete. -/
def Kept (E : Env) (u : Session Bool) (m : Trailed) : Prop :=
  ∀ reads : List Bytes, (∀ d ∈ reads, d ≠ []) → reads.flatten = m.bytes → ∀ p v,
    executeAll (Session.settings E Client.onMsgComplete) reads
      (.init (Session.parserType u.mode), u) = some (p, v) → v.cx = true →
    ∀ l ∈ m.trailer, v.msg.headers.get l.name = lastValue m.fields l.name

variable {m : Trailed} {t : ParserType} {f : Found}

theorem Begins.head (h : m.Begins t f) : ∃ p,
    Runs Found.settings (fun _ => True) (.init t, .new) m.head (p, f) ∧
    p.httpErrno = .ok ∧ p.state = .chunkSizeStart ∧ p.flags.chunked = true ∧ p.nread = 0 := by
  obtain ⟨p, hex, he, hp⟩ := h.read
  have hs := hp.1
  have hne : m.head ≠ [] := by
    intro hnil
    rw [hnil] at hex
    cases t <;>
    · obtain ⟨-, rfl, -⟩ := Prod.mk.injEq .. ▸ Prod.mk.injEq .. ▸ Option.some.inj hex
      cases hs
  refine ⟨p, runs_of_execute Found.lawful (fun _ => trivial) (s := (.init t, .new))
    (t := (p, f)) ⟨rfl, Nat.zero_le _⟩ hne hex he fun q v _ hq => ?_, he, hp⟩
  obtain ⟨-, -, rfl⟩ := Prod.mk.injEq .. ▸ Prod.mk.injEq .. ▸ Option.some.inj hq
  exact List.append_ne_nil_of_right_ne_nil _ (List.cons_ne_nil _ _) h.codes

/-- The last header of the head that has a value was stored at the end of the head. -/
theorem Begins.saved (h : m.Begins t f) : f.Saved := by
  obtain ⟨p, hr, -, hs, -⟩ := h.head
  have hgotval := hr.within Found.lawful Found.content ⟨rfl, Nat.zero_le _⟩ (init_level t)
    (within_of_not (by cases t <;> rfl) _) (by rw [hs]; rfl)
  obtain ⟨q, hex, -⟩ := h.read
  exact ⟨execute_all Found.keeps_val (fun _ => rfl) _ _ _ _ hex hgotval, hgotval⟩

/-- Up to the trailer nothing more is found than the body. -/
theorem Begins.runs (h : m.Begins t f) : ∃ p body,
    Runs Found.settings (fun _ => True) (.init t, .new)
      (m.head ++ (m.chunks.flatMap Chunk.bytes ++ m.last.bytes)) (p, { f with body := body }) ∧
    p.state = .headerFieldStart ∧ p.httpErrno = .ok ∧ p.nread = 0 ∧ p.flags.trailing = true := by
  obtain ⟨p, hr, he, hs, hc, hn⟩ := h.head
  obtain ⟨n, h₁⟩ : ∃ n, Runs Found.settings (fun _ => True) (p, f) (m.chunks.flatMap Chunk.bytes)
      ({ p with contentLength := n }, Found.settings.bodyData (m.chunks.flatMap Chunk.data) f) :=
    chunks_runs Found.lawful trivial hs he hc hn
  have h₂ : Runs Found.settings (fun _ => True) _ m.last.bytes _ :=
    chunkLine_runs (p := { p with contentLength := n })
      (u := Found.settings.bodyData (m.chunks.flatMap Chunk.data) f) trivial m.last hs hc hn
  rw [if_pos m.zero] at h₂
  obtain ⟨body, hb⟩ : ∃ body, Found.settings.bodyData (m.chunks.flatMap Chunk.data) f =
      { f with body := body } := by
    rw [Settings.bodyData]
    split_ifs
    · exact ⟨f.body, rfl⟩
    · exact ⟨_, rfl⟩
  rw [hb] at h₁ h₂
  exact ⟨_, body, hr.append (h₁.append h₂), rfl, he, rfl, rfl⟩

/-- What is found in a whole message: all lines but the last. -/
theorem Begins.finds (h : m.Begins t f) (ht : Taken m.trailer) :
    ∃ p g, Runs Found.settings (fun _ => True) (.init t, .new) m.bytes (p, g) ∧ g.codes ≠ [] ∧
      g.fields = f.fields ++ (Found.following f.key m.fields).dropLast := by
  obtain ⟨p, body, hr, hs, he, hn, htr⟩ := h.runs
  obtain ⟨q, -, hq, hfin⟩ := trailer_finishes Found.lawful (u := { f with body := body }) trivial hs
    he hn htr ht
  have hc : Completes Found.settings q (Found.settings.lines m.trailer { f with body := body }) _ :=
    ⟨rfl, hq⟩
  have hall := hr.append (hfin.runs hc trivial)
  rw [List.append_assoc] at hall
  refine ⟨_, _, hall, List.append_ne_nil_of_right_ne_nil _ (List.cons_ne_nil _ _), ?_⟩
  have hsaved := h.saved
  exact Found.fields_lines (f := { f with body := body }) ⟨hsaved.val, hsaved.gotval⟩ m.trailer

theorem Begins.halts (h : m.Begins t f) (ht : ¬ Taken m.trailer) :
    Halts Found.settings (fun _ => True) (.init t, .new) m.bytes := by
  obtain ⟨p, body, hr, hs, he, hn, -⟩ := h.runs
  have hall := Halts.behind hr
    (trailer_halts Found.lawful (u := { f with body := body }) trivial hs he hn ht)
  rwa [List.append_assoc] at hall

/-- The objects of a parser between two messages. -/
structure Idle (u : Session Bool) : Prop where
  key : u.headerKey = []
  val : u.headerVal = []
  gotval : u.headerGotval = false
  cx : u.cx = false

/-- The headers that are stored when the message is complete: `key` is left over from the head, and
the last line is not stored. -/
def stored (h : Headers) (key : Bytes) (m : Trailed) : Headers :=
  h.insertAll (Found.following key m.fields).dropLast

/-- The last line is among the headers already, and so is the first one where a name comes before
its own. -/
def Repeats (h : Headers) (key : Bytes) (m : Trailed) : Prop :=
  (∀ l ∈ m.trailer.getLast?, (m.stored h key).get l.name = some l.value) ∧
    (key ≠ [] → ∀ l ∈ m.trailer.head?, (m.stored h key).get l.name = lastValue m.fields l.name)

instance (h : Headers) (key : Bytes) (m : Trailed) : Decidable (m.Repeats h key) :=
  inferInstanceAs (Decidable (_ ∧ _))

/-- The lines in the middle are always stored. -/
theorem stored_iff {h : Headers} {key : Bytes} {m : Trailed} :
    (∀ l ∈ m.trailer, (m.stored h key).get l.name = lastValue m.fields l.name) ↔
      m.Repeats h key := by
  obtain hnil | ⟨ds, l, hm⟩ := List.eq_nil_or_concat m.trailer
  · simp [Repeats, hnil]
  rw [List.concat_eq_append] at hm
  have hf : m.fields = (ds.map fun l => (l.name, l.value)) ++ [(l.name, l.value)] := by
    rw [fields, hm, List.map_append, List.map_singleton]
  have hlast : ∀ x, nocase l.name = nocase x → lastValue m.fields x = some l.value := by
    intro x hx
    rw [hf, lastValue_append, lastValue_singleton, if_pos hx]
    rfl
  rw [Repeats, hm, List.getLast?_concat]
  constructor
  · intro hk
    refine ⟨fun x hx => ?_, fun _ x hx => hk x (List.mem_of_mem_head? hx)⟩
    obtain rfl := Option.some.inj hx
    rw [hk l (List.mem_append_right _ List.mem_cons_self), hlast _ rfl]
  · rintro ⟨hl, hfirst⟩ x hx
    by_cases hn : nocase l.name = nocase x.name
    · rw [← SortedMap.get_congr _ hn, hl l rfl, hlast _ hn]
    have hx : x ∈ ds := by
      obtain hx | hx := List.mem_append.mp hx
      · exact hx
      · exact absurd (congrArg (fun l => nocase l.name) (List.mem_singleton.mp hx)).symm hn
    by_cases hd : key ≠ [] ∧ ∃ d ∈ ds.head?, nocase d.name = nocase x.name
    · obtain ⟨hkey, d, hd, hn⟩ := hd
      have hg := hfirst hkey d (by rw [List.head?_append, hd]; rfl)
      rwa [SortedMap.get_congr _ hn, lastValue_congr _ hn] at hg
    obtain ⟨hb, hsome⟩ := lastValue_following
      (List.mem_map_of_mem (f := fun l : HeaderLine => (l.name, l.value)) hx)
      fun hkey e he hne => by
        rw [List.head?_map] at he
        obtain ⟨d, hd', rfl⟩ := Option.map_eq_some_iff.mp he
        exact hd ⟨hkey, d, hd', hne⟩
    rw [stored, hf, Found.dropLast_following, get_insertAll_lastValue, lastValue_append,
      lastValue_singleton, if_neg hn, Option.none_or, hb, Option.or_of_isSome hsome]

/-- No line of the trailer is lost, exactly if `http_parser` refuses the trailer, or the lines that
are not stored under their names say what was said before. -/
theorem kept_iff (E : Env) {u : Session Bool} (hu : Idle u) {m : Trailed} {f : Found}
    (h : m.Begins (Session.parserType u.mode) f) : Kept E u m ↔
      ¬ Taken m.trailer ∨ m.Repeats (u.msg.headers.insertAll f.fields) f.key := by
  have hfiles : u.Files u.msg.headers .new := ⟨hu.key, hu.val, hu.gotval, rfl, hu.cx⟩
  have hsound : (HttpParser.init (Session.parserType u.mode)).Sound := ⟨rfl, Nat.zero_le _⟩
  have hrel := fun reads => executeAll_rel (p := .init (Session.parserType u.mode))
    (Session.Files.related E u.msg.headers) hfiles reads
  by_cases ht : Taken m.trailer
  · rw [or_iff_right (not_not.mpr ht), ← stored_iff]
    obtain ⟨p, g, hr, hcodes, hfields⟩ := h.finds ht
    have hend : ∀ reads : List Bytes, (∀ d ∈ reads, d ≠ []) → reads.flatten = m.bytes →
        ∃ v, executeAll (Session.settings E Client.onMsgComplete) reads
            (.init (Session.parserType u.mode), u) = some (p, v) ∧ v.cx = true ∧
          v.msg.headers = m.stored (u.msg.headers.insertAll f.fields) f.key := by
      intro reads hne hcut
      have hx := hrel reads
      rw [executeAll_of_runs Found.lawful hsound hne (hcut ▸ hr)] at hx
      generalize executeAll (Session.settings E Client.onMsgComplete) reads _ = r at hx
      obtain _ | ⟨q, v⟩ := r
      · exact hx.elim
      · obtain ⟨rfl, hv⟩ := hx
        refine ⟨v, rfl, hv.cx.trans (decide_eq_true hcodes), ?_⟩
        rw [hv.headers, hfields, SortedMap.insertAll_append, stored]
    constructor
    · intro hk
      have hne : m.bytes ≠ [] := by simp [bytes, crlf]
      obtain ⟨v, hv, hcx, hh⟩ := hend [m.bytes] (by simpa using hne) (by simp)
      rw [← hh]
      exact hk [m.bytes] (by simpa using hne) (by simp) p v hv hcx
    · intro hs reads hne hcut q v hv hcx
      obtain ⟨v', hv', -, hh⟩ := hend reads hne hcut
      obtain ⟨-, rfl⟩ := Prod.mk.injEq .. ▸ Option.some.inj (hv.symm.trans hv')
      rw [hh]
      exact hs
  · refine iff_of_true (fun reads hne hcut p v hv => ?_) (.inl ht)
    obtain ⟨as, ch, rest, r, hb, hr, hx⟩ := h.halts ht
    have hn := executeAll_refused Found.lawful hsound hne (hcut.trans hb) hr hx
    have hx := hrel reads
    rw [hn, hv] at hx
    exact hx.elim

theorem new_idle (mode : Mode) (fs : Fs) : Idle (.new mode fs false) := ⟨rfl, rfl, rfl, rfl⟩

/-- A line `A: b`. -/
def lineOf : HeaderLine := .of (ascii "A") (ascii "b") (by decide +kernel)

/-- A response without chunks, and a trailer. -/
def responseWith (trailer : List HeaderLine) : Trailed where
  head := ascii "HTTP/1.1 200 OK\r\nTransfer-Encoding: chunked\r\n\r\n"
  chunks := []
  last := .last
  zero := by decide +kernel
  trailer := trailer

def codingFound : Found :=
  { Found.new with fields := [(ascii "Transfer-Encoding", ascii "chunked")] }

theorem responseWith_begins (trailer : List HeaderLine) :
    (responseWith trailer).Begins .response codingFound where
  read := ⟨_, rfl, rfl, rfl, rfl, rfl⟩
  codes := rfl

/-- A response whose head has the line `A: b`, and behind it one without a colon. -/
def bareEnd (trailer : List HeaderLine) : Trailed :=
  { responseWith trailer with
    head := ascii "HTTP/1.1 200 OK\r\nTransfer-Encoding: chunked\r\nA: b\r\nFoo\r\n\r\n" }

def bareEndFound : Found := { codingFound with
  key := ascii "Foo", fields := codingFound.fields ++ [(ascii "A", ascii "b")] }

theorem bareEnd_begins (trailer : List HeaderLine) :
    (bareEnd trailer).Begins .response bareEndFound where
  read := ⟨_, rfl, rfl, rfl, rfl, rfl⟩
  codes := rfl

/-- The same line again, and once more: one is filed under `FooA`, the other not at all. -/
theorem kept_iff_again : Kept .linux (.new .response .new false) (bareEnd [lineOf, lineOf]) :=
  (kept_iff .linux (new_idle .response .new) (bareEnd_begins [lineOf, lineOf])).mpr
    (.inr (by decide +kernel))

/-- A single line is lost. -/
theorem kept_single : (responseWith [lineOf]).Begins .response codingFound ∧
    ¬ Kept .linux (.new .response .new false) (responseWith [lineOf]) := by
  refine ⟨responseWith_begins _, fun h => ?_⟩
  have hend : (executeAll (Session.settings .linux Client.onMsgComplete)
      [(responseWith [lineOf]).bytes] (.init .response, .new .response .new false)).map (fun s =>
        (s.2.cx, s.2.msg.headers.get lineOf.name)) = some (true, none) := by decide +kernel
  obtain ⟨⟨p, v⟩, hv, hx⟩ := Option.map_eq_some_iff.mp hend
  obtain ⟨hcx, hget⟩ := Prod.mk.injEq .. ▸ hx
  have hl := h [(responseWith [lineOf]).bytes] (by decide +kernel) (by simp) p v hv hcx lineOf
    List.mem_cons_self
  rw [hget] at hl
  exact absurd hl (by decide +kernel)

end Trailed

end Stutter
