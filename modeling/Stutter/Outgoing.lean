import Stutter.Incoming
import Stutter.Resending
import Stutter.Roundtrip
import Stutter.Serving

namespace Stutter

open Joyent

/-- The method that `verb_str` writes. -/
def Verb.method : Verb → Method
  | .get => .get
  | .post => .post
  | .put => .put
  | .head => .head
  | .delete => .delete

theorem Verb.string_method (v : Verb) : v.method.string = v.str := by
  cases v <;> rfl

theorem Verb.isVerb_method (v : Verb) : v.method.isVerb = true := by
  cases v <;> rfl

theorem Verb.verbOf_method (v : Verb) : Session.verbOf v.method = some v := by
  cases v <;> rfl

namespace Request

/-- The header that a request is sent with under a name. -/
def sentHeader (r : Request) (key : Bytes) : Option Bytes :=
  if r.verb ≠ .get ∧ nocase key = nocase Message.contentLength then
    some (decimal r.message.body.size)
  else if nocase key = nocase Message.host then some r.host
  else r.message.headers.get key

/-- A request that a server of this library takes as it is written: it keeps the limits, asks for
nothing but an answer, and says the length of its body. -/
structure WellFormed (r : Request) (fs : Fs) : Prop where
  url : isUrl r.url = true
  short : r.url.length ≤ MAX_URI_LENGTH
  host : Writable (Message.host, r.host)
  headers : Headers.Writable r.message.headers
  expect : r.message.headers.get Message.expect = none
  connec : r.message.headers.get Message.connec ≠ some Message.close
  coding : r.message.headers.get Reply.transferEncoding = none
  upgrade : r.message.headers.get Joyent.upgrade = none
  length : r.verb = .get → match r.message.headers.get Message.contentLength with
    | none => r.message.body.size = 0
    | some v => IsNumeral v r.message.body.size
  upload : (r.message.body.size : ℤ) ≤ MAX_UPLOAD_SIZE
  whole : r.message.body.Whole fs
  head : r.head.length ≤ maxHeaderSize

/-- `q` is the request that `r` was sent as. -/
structure Carried (r : Request) (fs : Fs) (q : Request) (fs' : Fs) : Prop where
  verb : q.verb = r.verb
  url : q.url = r.url
  headers : q.message.headers = r.prepareHeaders.headers
  body : q.message.body.content fs' = r.message.body.content fs

variable {r : Request} {fs : Fs}

theorem WellFormed.size_le (h : r.WellFormed fs) : (r.message.body.size : ℤ) ≤ INT_MAX :=
  h.upload.trans (by decide)

theorem get_prepareHeaders (h : (r.message.body.size : ℤ) ≤ INT_MAX) (key : Bytes) :
    r.prepareHeaders.headers.get key = r.sentHeader key := by
  have hd := (decimalInt_toInt32 r.message.body.size).mpr h
  have hhost : ∀ key, SortedMap.get (r.message.addHeader Message.host r.host).headers key =
      if nocase key = nocase Message.host then some r.host else r.message.headers.get key :=
    fun key => Headers.get_insert ..
  unfold prepareHeaders sentHeader
  by_cases hv : r.verb = .get
  · rw [if_neg (not_not.mpr hv), if_neg fun hx => hx.1 hv, hhost]
  · rw [if_pos hv]
    have hlen := Headers.get_insert (r.message.addHeader Message.host r.host).headers
      Message.contentLength key (decimal r.message.body.size)
    rw [← hd, hhost] at hlen
    refine hlen.trans ?_
    rw [hd]
    by_cases hk : nocase key = nocase Message.contentLength
    · rw [if_pos hk, if_pos ⟨hv, hk⟩]
    · have hno : ¬ (r.verb ≠ .get ∧ nocase key = nocase Message.contentLength) := fun hx => hk hx.2
      rw [if_neg hk, if_neg hno]

theorem Carried.getHeader {q : Request} {fs' : Fs} (h : r.Carried fs q fs')
    (hr : (r.message.body.size : ℤ) ≤ INT_MAX) (key : Bytes) :
    q.message.headers.get key = r.sentHeader key := by
  rw [h.headers, get_prepareHeaders hr]

/-- Other headers go out as they are. -/
theorem sentHeader_of_ne (r : Request) {key : Bytes}
    (hl : nocase key ≠ nocase Message.contentLength) (hh : nocase key ≠ nocase Message.host) :
    r.sentHeader key = r.message.headers.get key := by
  rw [sentHeader, if_neg fun hx => hl hx.2, if_neg hh]

theorem WellFormed.prepareHeaders_writable (h : r.WellFormed fs) :
    Headers.Writable r.prepareHeaders.headers := by
  have hl := writable_length r.message.body.size
  rw [← (decimalInt_toInt32 r.message.body.size).mpr h.size_le] at hl
  unfold prepareHeaders
  split_ifs
  · exact Headers.insert_writable (Headers.insert_writable h.headers h.host) hl
  · exact Headers.insert_writable h.headers h.host

/-- The entity of a request that says its length. -/
def entity (r : Request) (fs : Fs) : Entity :=
  if r.verb = .get ∧ r.message.headers.get Message.contentLength = none then .empty
  else .length (r.message.body.content fs)

theorem WellFormed.isNumeral (h : r.WellFormed fs) {v : Bytes}
    (hv : r.sentHeader Message.contentLength = some v) : IsNumeral v r.message.body.size := by
  have hh : ¬ nocase Message.contentLength = nocase Message.host := by decide +kernel
  rw [sentHeader] at hv
  by_cases hg : r.verb = .get
  · rw [if_neg fun hx => hx.1 hg, if_neg hh] at hv
    have hlen := h.length hg
    rw [hv] at hlen
    exact hlen
  · rw [if_pos ⟨hg, rfl⟩] at hv
    rw [← Option.some.inj hv]
    exact .decimal _

/-- The written headers frame the body. -/
theorem WellFormed.framedBy (h : r.WellFormed fs) :
    (r.entity fs).FramedBy (Headers.lines _ h.prepareHeaders_writable) := by
  have hh : ¬ nocase Message.contentLength = nocase Message.host := by decide +kernel
  have hget := get_prepareHeaders h.size_le
  have hte : ∀ l ∈ Headers.lines _ h.prepareHeaders_writable, ¬ l.Named Reply.transferEncoding := by
    refine Headers.not_named ?_
    rw [hget, sentHeader_of_ne _ (by decide +kernel) (by decide +kernel)]
    exact h.coding
  have hup : ∀ l ∈ Headers.lines _ h.prepareHeaders_writable, ¬ l.Named Joyent.upgrade := by
    refine Headers.not_named ?_
    rw [hget, sentHeader_of_ne _ (by decide +kernel) (by decide +kernel)]
    exact h.upgrade
  have hsaid : Framing.Says r.message.body.size (Headers.lines _ h.prepareHeaders_writable) := by
    refine ⟨fun l hl hk => ?_, fun l hl hk => absurd hk (hte l hl), hup⟩
    have hv := Headers.value_of hl hk
    rw [hget] at hv
    exact h.isNumeral hv
  have hsize := h.upload
  rw [entity]
  split_ifs with hc
  · -- a GET that says no length has no body
    have hnone : r.sentHeader Message.contentLength = none := by
      rw [sentHeader, if_neg fun hx => hx.1 hc.1, if_neg hh]
      exact hc.2
    have hlen := h.length hc.1
    rw [hc.2] at hlen
    rw [show r.message.body.size = 0 from hlen] at hsaid
    exact ⟨hsaid, fun l hl => ⟨Headers.not_named ((hget _).trans hnone) l hl, hte l hl⟩⟩
  · refine ⟨by rwa [h.whole.length_content], ?_, ?_, hte⟩
    · rw [h.whole.length_content]
      simp only [MAX_UPLOAD_SIZE] at hsize
      simp only [ULLONG_MAX]
      omega
    · obtain ⟨v, hv⟩ : ∃ v, r.sentHeader Message.contentLength = some v := by
        rw [sentHeader]
        by_cases hg : r.verb = .get
        · rw [if_neg fun hx => hx.1 hg, if_neg hh]
          exact Option.ne_none_iff_exists'.mp fun hx => hc ⟨hg, hx⟩
        · exact ⟨_, if_pos ⟨hg, rfl⟩⟩
      exact Headers.named_of ((hget _).trans hv)

theorem WellFormed.entity_bytes (h : r.WellFormed fs) :
    (r.entity fs).bytes = r.message.body.content fs ∧
      (r.entity fs).body = r.message.body.content fs := by
  rw [entity]
  split_ifs with hc
  · have hlen := h.length hc.1
    rw [hc.2] at hlen
    have hnil : r.message.body.content fs = [] :=
      List.eq_nil_of_length_eq_zero (h.whole.length_content.trans hlen)
    rw [hnil]
    exact ⟨rfl, rfl⟩
  · exact ⟨rfl, rfl⟩

/-- `prepare` writes a request. -/
theorem WellFormed.incoming (h : r.WellFormed fs) : ∃ i : Incoming, i.bytes = r.wire fs ∧
    i.WellFormed ∧ i.Plain ∧ i.url = r.url ∧ Session.verbOf i.method = some r.verb ∧
      i.headers = r.prepareHeaders.headers ∧ i.entity.body = r.message.body.content fs := by
  have hget := get_prepareHeaders h.size_le
  obtain ⟨hbytes, hbody⟩ := h.entity_bytes
  let i : Incoming :=
    ⟨r.verb.method, r.url, Headers.lines _ h.prepareHeaders_writable, r.entity fs⟩
  have hhead : i.head = r.head := by
    simp only [i, Incoming.head, requestHead, requestLine, Verb.string_method, Headers.lines_bytes,
      Request.head, Message.headerLines, List.append_assoc]
    rfl
  refine ⟨i, ?_, ⟨r.verb.isVerb_method, h.url, h.short, hhead ▸ h.head, h.framedBy, ?_⟩, ⟨?_, ?_⟩,
    rfl, r.verb.verbOf_method, ?_, hbody⟩
  · rw [Incoming.bytes, hhead]
    exact congrArg (r.head ++ ·) hbytes
  · intro body hb
    have hlen := h.whole.length_content
    rw [← hbody, show r.entity fs = .length body from hb] at hlen
    rw [show body.length = r.message.body.size from hlen]
    exact h.upload
  · refine Headers.not_named ?_
    rw [hget, sentHeader_of_ne _ (by decide +kernel) (by decide +kernel)]
    exact h.expect
  · intro l hl hk hv
    have hconn := Headers.value_of hl hk
    rw [hget, sentHeader_of_ne _ (by decide +kernel) (by decide +kernel), hv] at hconn
    exact h.connec hconn
  · rw [Incoming.headers, Incoming.fields, Headers.lines_map, SortedMap.insertAll_entries]

end Request

end Stutter
