import Stutter.Exchange
import Stutter.Replies
import Stutter.Written

namespace Stutter

open Joyent

instance (b : Body) (fs : Fs) : Decidable (b.Whole fs) := inferInstanceAs (Decidable (_ ≤ _))

theorem Body.Whole.length_content {b : Body} {fs : Fs} (h : b.Whole fs) :
    (b.content fs).length = b.size := by
  rw [content, List.length_append, List.length_take, min_eq_left h, b.length_add_sizeOnDisk]

namespace Joyent

/-- The digits of a number of a status line. -/
def Number.ofInt (i : ℤ) (h : 0 ≤ i ∧ i ≤ 999) : Number where
  digits := decimalInt i
  ne := by
    rw [← Int.toNat_of_nonneg h.1, decimalInt_natCast]
    exact decimal_ne _
  num := by
    rw [← Int.toNat_of_nonneg h.1, decimalInt_natCast]
    exact isNum_decimal _
  le := by
    rw [← Int.toNat_of_nonneg h.1, decimalInt_natCast, numeral_decimal]
    omega

theorem Number.numeral_ofInt (i : ℤ) (h : 0 ≤ i ∧ i ≤ 999) :
    (numeral (Number.ofInt i h).digits : ℤ) = i := by
  have hd : (Number.ofInt i h).digits = decimal i.toNat := by
    change decimalInt i = _
    rw [← decimalInt_natCast, Int.toNat_of_nonneg h.1]
  rw [hd, numeral_decimal, Int.toNat_of_nonneg h.1]

end Joyent

/-- Lines that are not folded are all filed. -/
theorem own_ofLine (ls : List HeaderLine) :
    own (ls.map HeadLine.ofLine) = ls.map fun l => (l.name, l.value) := by
  have hall : ∀ l ∈ ls.map HeadLine.ofLine, decide (l.pieces ≠ []) = true := by
    intro l hl
    obtain ⟨l, -, rfl⟩ := List.mem_map.mp hl
    exact decide_eq_true (List.cons_ne_nil _ _)
  rw [own, List.filter_eq_self.mpr hall, List.map_map]
  exact List.map_congr_left fun l _ => congrArg (Prod.mk l.name) (HeadLine.value_ofLine l)

namespace Reply

/-- The header that a reply is sent with under a name: the length is that of the body, and the
coding of a body that was received in chunks is left out. -/
def sentHeader (r : Reply) (key : Bytes) : Option Bytes :=
  if nocase key = nocase Message.contentLength then some (decimal r.message.body.size)
  else if nocase key = nocase transferEncoding ∧ r.message.getHeader transferEncoding = chunked then
    none
  else r.message.headers.get key

/-- A reply that can be written: the numbers have three digits at most, the headers and the status
are what a line can hold, no other coding is taken for the chunked one, and the body is there and
its length fits into an `int`. -/
structure WellFormed (r : Reply) (fs : Fs) : Prop where
  major : 0 ≤ r.httpMajor ∧ r.httpMajor ≤ 999
  minor : 0 ≤ r.httpMinor ∧ r.httpMinor ≤ 999
  code : 0 ≤ r.code ∧ r.code ≤ 999
  status : ∀ c ∈ r.status, c ≠ CR ∧ c ≠ LF
  headers : Headers.Writable r.message.headers
  coding : r.message.getHeader transferEncoding = chunked ∨
    isWord chunked (r.message.getHeader transferEncoding) = false
  size : (r.message.body.size : ℤ) ≤ INT_MAX
  whole : r.message.body.Whole fs

variable {r : Reply} {fs : Fs}

theorem get_prepareHeaders (h : (r.message.body.size : ℤ) ≤ INT_MAX) (key : Bytes) :
    r.prepareHeaders.headers.get key = r.sentHeader key := by
  have hd := (decimalInt_toInt32 r.message.body.size).mpr h
  unfold prepareHeaders sentHeader
  by_cases hc : r.message.getHeader transferEncoding = chunked
  · simp only [hc, and_true]
    change SortedMap.get (SortedMap.insert _ _ (decimalInt (toInt32 r.message.body.size))) key = _
    rw [SortedMap.get_insert, hd]
    split_ifs with h₁ h₂
    · rfl
    · exact (SortedMap.get_erase ..).trans (if_pos h₂)
    · exact (SortedMap.get_erase ..).trans (if_neg h₂)
  · simp only [hc, and_false, if_false]
    exact (Headers.get_insert ..).trans (by rw [hd])

theorem WellFormed.prepareHeaders_writable (h : r.WellFormed fs) :
    Headers.Writable r.prepareHeaders.headers := by
  have hl := writable_length r.message.body.size
  rw [← (decimalInt_toInt32 r.message.body.size).mpr h.size] at hl
  unfold prepareHeaders
  split_ifs
  · exact Headers.insert_writable (Headers.erase_writable h.headers _) hl
  · exact Headers.insert_writable h.headers hl

/-- What the written headers say of the body. -/
theorem WellFormed.framing (h : r.WellFormed fs) : ∃ f,
    Framing.new.lines (Headers.lines _ h.prepareHeaders_writable) = some f ∧
      f.flags.chunked = false ∧ f.contentLength = r.message.body.size ∧
      (f.flags.upgrade = true ↔ r.message.getHeader Joyent.upgrade ≠ []) := by
  have hsize := h.size
  have hlt : r.message.body.size < ULLONG_MAX := by
    simp only [INT_MAX] at hsize
    simp only [ULLONG_MAX]
    omega
  have hlen : r.sentHeader Message.contentLength = some (decimal r.message.body.size) := if_pos rfl
  have hte : ¬ nocase transferEncoding = nocase Message.contentLength := by decide +kernel
  have hup : ¬ nocase Joyent.upgrade = nocase Message.contentLength := by decide +kernel
  have hup' : ¬ nocase Joyent.upgrade = nocase transferEncoding := by decide +kernel
  have hget := get_prepareHeaders h.size
  have hsaid : ∀ l ∈ Headers.lines _ h.prepareHeaders_writable,
      l.Named Message.contentLength → IsNumeral l.value r.message.body.size := by
    intro l hl hk
    have hv := Headers.value_of hl hk
    rw [hget, hlen] at hv
    rw [← Option.some.inj hv]
    exact .decimal _
  obtain ⟨f, hf, hu, hc, hl⟩ := Framing.lines_say hsaid hlt Framing.new
  refine ⟨f, hf, ?_, ?_, ?_⟩
  · rw [hc]
    refine (Bool.or_eq_false_iff ..).mpr ⟨rfl, decide_eq_false fun hex => ?_⟩
    obtain ⟨v, hv, hw⟩ := (Headers.named_iff _ (isWord (ascii "chunked") · = true)).mp hex
    rw [hget, sentHeader, if_neg hte] at hv
    -- the chunked coding is left out, and no other reads as it
    obtain hcod | hcod := h.coding
    · rw [if_pos ⟨rfl, hcod⟩] at hv
      cases hv
    · split_ifs at hv
      have hval : r.message.getHeader transferEncoding = v := congrArg (Option.getD · []) hv
      rw [hval] at hcod
      exact Bool.false_ne_true (hcod.symm.trans hw)
  · rw [hl, if_pos]
    exact Headers.named_of ((hget _).trans hlen)
  · rw [hu]
    change (false || _) = true ↔ _
    rw [Bool.false_or, decide_eq_true_eq, Headers.named_iff _ (· ≠ []), hget, sentHeader,
      if_neg hup, if_neg fun hx => hup' hx.1, Message.getHeader]
    cases SortedMap.get r.message.headers Joyent.upgrade with
    | none => simp
    | some v => simp

/-- What `prepare` does to the headers it does not do twice. -/
theorem prepareHeaders_prepare (r : Reply) : r.prepare.prepareHeaders = r.prepare.message := by
  have hte : ¬ nocase transferEncoding = nocase Message.contentLength := by decide +kernel
  have hnot : ¬ r.prepare.message.getHeader transferEncoding = chunked := by
    change ¬ r.prepareHeaders.getHeader transferEncoding = chunked
    unfold prepareHeaders
    split_ifs with hc
    · rw [Message.addHeaderInt, Message.getHeader_addHeader, if_neg hte, Message.getHeader,
        Message.delHeader, SortedMap.get_erase, if_pos rfl]
      decide
    · rwa [Message.addHeaderInt, Message.getHeader_addHeader, if_neg hte]
  have hagain : ∀ m : Message, (m.addHeaderInt Message.contentLength m.body.size).headers.insert
      Message.contentLength (decimalInt (toInt32 m.body.size)) =
        (m.addHeaderInt Message.contentLength m.body.size).headers :=
    fun m => SortedMap.insert_again m.headers _ _
  rw [prepareHeaders, if_neg hnot]
  rw [Message.addHeaderInt, Message.addHeader]
  have hh : r.prepare.message.headers.insert Message.contentLength
      (decimalInt (toInt32 r.prepare.message.body.size)) = r.prepare.message.headers := by
    change r.prepareHeaders.headers.insert Message.contentLength
      (decimalInt (toInt32 r.prepareHeaders.body.size)) = r.prepareHeaders.headers
    exact hagain _
  rw [hh]

/-- A reply that was prepared once is not changed by preparing it again. -/
theorem prepare_prepare (r : Reply) : r.prepare.prepare = r.prepare := by
  have hhead : r.prepare.head = r.head := by
    rw [head, head, prepareHeaders_prepare]
    rfl
  rw [prepare, prepareHeaders_prepare, hhead]
  rfl

/-- However often a reply was sent before, it is the same bytes. -/
theorem wire_iterate (r : Reply) (fs : Fs) (n : ℕ) : (prepare^[n] r).wire fs = r.wire fs := by
  have hone : r.prepare.wire fs = r.wire fs := by
    rw [wire, wire, body_prepare, head, head, prepareHeaders_prepare]
    rfl
  obtain _ | n := n
  · rfl
  rw [Function.iterate_succ_apply, Function.iterate_fixed r.prepare_prepare, hone]

/-- `prepare` writes a response. -/
theorem WellFormed.response (h : r.WellFormed fs) : ∃ R : Response,
    R.bytes = r.wire fs ∧ R.head.bytes = r.head ∧ own R.lines = r.prepareHeaders.headers.entries ∧
      R.content = .length (r.message.body.content fs) ∧ (R.code : ℤ) = r.code ∧
      (R.upgrade = true ↔ r.message.getHeader Joyent.upgrade ≠ []) := by
  obtain ⟨f, hf, hc, hl, hu⟩ := h.framing
  have hsize := h.size
  let R : Response := {
    status := ⟨.ofInt _ h.major, .ofInt _ h.minor, .ofInt _ h.code, r.status, h.status⟩
    lines := (Headers.lines _ h.prepareHeaders_writable).map HeadLine.ofLine
    content := .length (r.message.body.content fs)
    framing := f
    colon := by
      intro l hl
      obtain ⟨l, -, rfl⟩ := List.mem_map.mp hl
      exact Option.some_ne_none _
    framed := (Framing.head_ofLine ..).trans hf
    fits := by
      refine ⟨hc, by rw [h.whole.length_content, hl], ?_⟩
      rw [h.whole.length_content]
      simp only [INT_MAX] at hsize
      simp only [ULLONG_MAX]
      omega }
  have hhead : R.head.bytes = r.head := by
    have hlines : (List.map HeadLine.ofLine (Headers.lines _ h.prepareHeaders_writable)).flatMap
        HeadLine.bytes = r.prepareHeaders.headerLines := by
      rw [List.flatMap_map, List.flatMap_congr fun l _ => HeadLine.bytes_ofLine l]
      exact Headers.lines_bytes
    rw [Response.head_bytes, hlines, Reply.head]
    simp only [R, StatusLine.bytes, Number.ofInt, List.append_assoc]
    rfl
  refine ⟨R, ?_, hhead, ?_, rfl, Number.numeral_ofInt _ h.code, hu⟩
  · rw [Response.bytes, hhead]
    rfl
  · exact (own_ofLine _).trans Headers.lines_map

end Reply

namespace Response

variable {E : Env} {R : Response} {reply : Reply} {fs : Fs} {w w' : Socket}

/-- A response that was read to its end, and nothing followed it: nothing is left to read. -/
theorem drained (hE : E.Reliable) (hlen : R.head.bytes.length ≤ maxHeaderSize)
    (hend : ¬ R.content.IsToEnd) (ht : Taken R.content.trailer)
    (hup : R.upgrade = true → R.content.bytes = []) (hp : Pieces w.inbox)
    (hcut : w.inbox.flatten = R.bytes) {ok : Bool} {p : HttpParser} {u : Session Bool}
    (h : Client.readReply E reply fs w = some (ok, p, u, w')) : w'.inbox = [] := by
  obtain ⟨f, hf, -⟩ := Client.found_of hE h
  -- how the message ends does not matter, only that its last byte ends it
  obtain ⟨F, hends⟩ : ∃ F, Found.Ends R.bytes F := by
    by_cases hu : R.upgrade = true
    · obtain ⟨t, -, -, -, hends⟩ := R.head_ends hlen hu
      rw [Response.bytes, hup hu, List.append_nil]
      exact ⟨_, hends⟩
    · obtain ⟨t, -, -, -, -, hends⟩ := R.ends hlen (by simpa using hu) hend ht
      exact ⟨_, hends⟩
  obtain ⟨d, more, w₁, -, -, hbehind, -, hread⟩ :=
    hends.readReply hp (hcut.trans (List.append_nil _).symm)
  rw [hf] at hread
  obtain ⟨x, -, he⟩ := Option.map_eq_some_iff.mp hread.symm
  obtain ⟨-, -, -, rfl⟩ := Prod.mk.injEq .. ▸ Prod.mk.injEq .. ▸ Prod.mk.injEq .. ▸ he
  exact hbehind.symm.trans (surplus_all hp.ne hends.ne hcut).2

/-- A body that comes as it was sent: the head is short enough, and it does not ask for another
protocol with a body behind. -/
theorem fits_of_read (R : Response) (hE : E.Reliable) (hr : reply.message.body.IsEmpty)
    (hp : Pieces w.inbox) (hcut : w.inbox.flatten = R.bytes) {p : HttpParser} {u : Session Bool}
    (h : Client.readReply E reply fs w = some (true, p, u, w')) {bs : Bytes}
    (hbody : u.reply.message.body.content u.fs = bs) :
    R.head.bytes.length ≤ maxHeaderSize ∧ (R.upgrade = true → bs = []) := by
  obtain ⟨f, hf, hu⟩ := Client.found_of hE h
  have hlen : R.head.bytes.length ≤ maxHeaderSize := by
    by_contra hlen
    exact Found.readReply_halts (R.head_halts Found.silent (u := .new) rfl (not_le.mp hlen)) hp hcut
      hf
  refine ⟨hlen, fun hupgrade => ?_⟩
  -- the message has ended with the head
  obtain ⟨t, -, -, ht, hends⟩ := R.head_ends hlen hupgrade
  obtain ⟨d, more, w₁, -, -, -, -, hfound⟩ := hends.readReply hp hcut
  rw [hf] at hfound
  obtain ⟨-, -, rfl, -⟩ := Prod.mk.injEq .. ▸ Prod.mk.injEq .. ▸ Prod.mk.injEq .. ▸
    Option.some.inj hfound
  rw [← hbody, Client.content_of_finds hE hr hu, ht]

/-- A response with a length that has nothing behind it is read as it is, to the end. -/
theorem readFrom_alone (hE : E.Reliable) (hr : reply.message.body.IsEmpty) (hp : Pieces w.inbox)
    (hcut : w.inbox.flatten = R.bytes) {bs : Bytes} (hc : R.content = .length bs)
    (hlen : R.head.bytes.length ≤ maxHeaderSize) (hup : R.upgrade = true → bs = []) :
    ∃ p u w', Client.readReply E reply fs w = some (true, p, u, w') ∧ w'.inbox = [] ∧
      R.Held reply.message.headers u.reply u.fs := by
  have hto : ¬ R.content.IsToEnd := by
    rw [hc]
    exact id
  have htaken : Taken R.content.trailer := by
    rw [hc]
    exact taken_nil
  have hbody : R.content.body = bs := by rw [hc, Content.body]
  have hbytes : R.content.bytes = bs := by rw [hc, Content.bytes]
  have hread : R.ReadFrom E reply fs w := by
    have hall : w.inbox.flatten = R.bytes ++ [] := hcut.trans (List.append_nil _).symm
    refine (readFrom_iff hE hr hp).mpr ((found_iff hp hall fun _ => rfl).mpr ⟨hlen, ?_⟩)
    split_ifs with hu
    · have hnil : R.bytes = R.head.bytes := by
        rw [Response.bytes, hbytes, hup hu, List.append_nil]
      rw [hnil] at hcut
      exact ⟨hbody.trans (hup hu), (surplus_all hp.ne R.head_ne hcut).1⟩
    · have hu' : R.upgrade = false := by simpa using hu
      rw [(surplus_all hp.ne R.bytes_ne hcut).1]
      refine ⟨hto, htaken, (Response.undisturbed_nil hlen hu' hto htaken).mpr ?_⟩
      rw [Response.fields, hc]
      exact congrArg _ (List.append_nil _)
  obtain ⟨p, u, w', hread, hheld⟩ := hread
  exact ⟨p, u, w', hread,
    drained hE hlen hto htaken (fun hu => hbytes.trans (hup hu)) hp hcut hread, hheld⟩

end Response

namespace Connection

variable {W : Strategy} {s s' : Socket} {fs : Fs} {r r' : Reply}

/-- A `send` that succeeds has written the reply, and only that. -/
theorem send_wrote (hW : ∀ turn (n : ℕ), (n : ℤ) ≤ W.sendfile turn n)
    (h : send W s fs r = (true, r', s')) : r' = r.prepare ∧ s.Wrote s' (r.wire fs) := by
  rw [send] at h
  dsimp only at h
  generalize hx : sendHeaders W s r.prepare = x at h
  obtain ⟨_ | _, s₁⟩ := x
  · cases congrArg Prod.fst h
  have hw := Socket.writeLoop_wrote (show s.writeLoop W _ r.prepare.message.data = _ from hx)
  dsimp only at h
  generalize hy : s₁.sendBufferedBody W fs r.prepare.message.body = y at h
  obtain ⟨ok, s₂⟩ := y
  obtain ⟨rfl, rfl, rfl⟩ := Prod.mk.injEq .. ▸ Prod.mk.injEq .. ▸ h
  have hb := hw.trans (Socket.sendBufferedBody_wrote hW hy)
  rw [Reply.data_prepare, Reply.body_prepare, List.append_assoc] at hb
  exact ⟨rfl, hb⟩

end Connection

namespace Reply

variable {E : Env} {W : Strategy} {s s' : Socket} {r r' reply : Reply} {fs fs' : Fs} {w : Socket}

/-- `q` has the code, the headers and the body that `r` was sent with, over the headers `base`. -/
structure Carried (r : Reply) (fs : Fs) (base : Headers) (q : Reply) (fs' : Fs) : Prop where
  code : q.code = r.code
  headers : ∀ key, q.message.headers.get key = (r.sentHeader key).or (base.get key)
  body : q.message.body.content fs' = r.message.body.content fs

/-- `read_reply` gives the reply `r`, over the headers that it finds, and leaves nothing to be
read. -/
def Arrives (E : Env) (r : Reply) (fs : Fs) (reply : Reply) (fs' : Fs) (w : Socket) : Prop :=
  ∃ p u w', Client.readReply E reply fs' w = some (true, p, u, w') ∧ w'.inbox = [] ∧
    r.Carried fs reply.message.headers u.reply u.fs

/-- The head is short enough, and no other protocol is asked for with a body behind. -/
structure Fits (r : Reply) (fs : Fs) : Prop where
  short : r.head.length ≤ maxHeaderSize
  upgrade : r.message.getHeader Joyent.upgrade ≠ [] → r.message.body.content fs = []

/-- What is written arrives, however it is cut into reads, if and only if it fits. -/
theorem arrives_of_wire (h : r.WellFormed fs) (hE : E.Reliable) (hr : reply.message.body.IsEmpty)
    (hp : Pieces w.inbox) (hin : w.inbox.flatten = r.wire fs) :
    r.Arrives E fs reply fs' w ↔ r.Fits fs := by
  obtain ⟨R, hbytes, hhead, hown, hcontent, hcode, hup⟩ := h.response
  have hcut : w.inbox.flatten = R.bytes := hin.trans hbytes.symm
  have hfits : r.Fits fs ↔ R.head.bytes.length ≤ maxHeaderSize ∧
      (R.upgrade = true → r.message.body.content fs = []) := by
    rw [hup, hhead]
    exact ⟨fun hf => ⟨hf.short, hf.upgrade⟩, fun hf => ⟨hf.1, hf.2⟩⟩
  rw [hfits]
  constructor
  · rintro ⟨p, u, w', hread, -, -, -, hbody⟩
    exact R.fits_of_read hE hr hp hcut hread hbody
  · rintro ⟨hlen, hupgrade⟩
    obtain ⟨p, u, w', hread, hdrained, hheld⟩ :=
      Response.readFrom_alone hE hr hp hcut hcontent hlen hupgrade
    refine ⟨p, u, w', hread, hdrained, hheld.code.trans hcode, fun key => ?_, ?_⟩
    · rw [hheld.headers, hown, SortedMap.get_insertAll, get_prepareHeaders h.size]
    · rw [hheld.body, hcontent, Content.body]

/-- Every reply that can be written arrives as it was sent, however it is written, however often it
was sent before and however the stream is cut into reads, if and only if its head is short enough
and it does not ask for another protocol with a body behind. -/
theorem arrives_iff (hW : ∀ turn (n : ℕ), (n : ℤ) ≤ W.sendfile turn n) (h : r.WellFormed fs) {n : ℕ}
    (hs : Connection.send W s fs (prepare^[n] r) = (true, r', s')) (hE : E.Reliable)
    (hr : reply.message.body.IsEmpty) (hp : Pieces w.inbox)
    (hcut : s'.out = s.out ++ w.inbox.flatten) :
    r.Arrives E fs reply fs' w ↔ r.Fits fs := by
  obtain ⟨-, hwrote⟩ := Connection.send_wrote hW hs
  refine arrives_of_wire h hE hr hp ?_
  rw [← r.wire_iterate fs n]
  exact List.append_cancel_left (hcut.symm.trans hwrote.out)

/-- A reply with a body, a coding that is left out and a length that is not that of the body. -/
def helloReply : Reply where
  message := { Message.new with
    headers := SortedMap.empty.insertAll [(ascii "content-length", ascii "7"),
      (ascii "transfer-encoding", chunked), (ascii "X", [])]
    body := (Body.new.bufferInMemory (ascii "hello")).2 }
  code := 200
  status := ascii "OK"
  httpMajor := 1
  httpMinor := 1

/-- The socket behind a third `send` of it. -/
def helloSent : Bool × Reply × Socket :=
  Connection.send (Connection.keeper Unit).io (.new []) .new (prepare^[2] helloReply)

theorem helloReply_wellFormed : helloReply.WellFormed .new :=
  ⟨by decide, by decide, by decide, by decide +kernel, by decide +kernel, .inl (by decide +kernel),
    by decide +kernel, by decide +kernel⟩

theorem arrives_iff_hello : helloReply.Arrives .linux .new .new .new
    (.new [helloReply.head, ascii "hello"]) := by
  have hok : helloSent.1 = true := by decide +kernel
  have hs : helloSent = (true, helloSent.2.1, helloSent.2.2) := Prod.ext hok rfl
  have hout : helloSent.2.2.out = helloReply.head ++ ascii "hello" := by decide +kernel
  rw [helloSent] at hs
  refine (arrives_iff (w := .new [helloReply.head, ascii "hello"]) (fun _ _ => le_rfl)
    helloReply_wellFormed hs Env.linux_reliable Body.new_isEmpty (by decide +kernel) ?_).mpr
    ⟨by decide +kernel, fun h => absurd (by decide +kernel) h⟩
  rw [← helloSent, hout]
  rfl

end Reply

end Stutter
