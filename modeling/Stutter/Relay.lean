import Stutter.Conversation

namespace Stutter

open Joyent

/-- What a line is filed as can be written again. -/
theorem Joyent.HeadLine.writable (l : HeadLine) : Writable (l.name, l.value) where
  ne := l.name_ne
  token := l.name_token
  line c hc := by
    obtain ⟨bs, hbs, hc⟩ := List.mem_flatten.mp hc
    obtain ⟨q, -, rfl⟩ := List.mem_map.mp hbs
    exact q.text_line c hc
  head c hc := by
    have hall : ∀ qs : List Piece, ∀ c ∈ (qs.map Piece.text).flatten.head?, isBlank c = false := by
      intro qs
      induction qs with
      | nil => exact fun c hc => by cases hc
      | cons q qs ih =>
        intro c hc
        rw [List.map_cons, List.flatten_cons, List.head?_append] at hc
        cases hq : q.text.head? with
        | none =>
          rw [hq] at hc
          exact ih c hc
        | some a =>
          rw [hq] at hc
          exact q.text_head c (hq ▸ hc)
    exact hall l.pieces c hc

theorem Headers.insertAll_writable {m : Headers} (hm : m.Writable) {es : List (Bytes × Bytes)}
    (h : ∀ e ∈ es, Stutter.Writable e) : Headers.Writable (m.insertAll es) := by
  induction es generalizing m with
  | nil => exact hm
  | cons e es ih =>
    obtain ⟨he, hes⟩ := List.forall_mem_cons.mp h
    exact ih (Headers.insert_writable hm he) hes

theorem own_writable (ls : List HeadLine) : ∀ e ∈ own ls, Writable e := by
  intro e he
  obtain ⟨l, -, rfl⟩ := List.mem_map.mp he
  exact l.writable

theorem Body.Received.whole {b : Body} {fs : Fs} (h : b.Received fs) : b.Whole fs := by
  obtain ⟨fs₀, hdata, hsize, hdisk⟩ := h
  unfold Whole
  have hlen : b.data.length = min MAX_BUFFER_SIZE (b.content fs).length := by
    rw [congrArg List.length hdata, List.length_take]
  have hleft : b.sizeOnDisk = (b.content fs).length - b.data.length := by
    rw [sizeOnDisk, hsize]
  obtain ⟨-, hle, -⟩ | ⟨hfd, o, -, -, -, hc⟩ := hdisk
  · omega
  · rw [file, if_pos hfd, hc, List.length_drop]
    omega

namespace Response

/-- The headers of the reply of a connection that holds the response. -/
def relayedHeaders (R : Response) : Headers := Reply.new.message.headers.insertAll (own R.lines)

/-- The coding that the reply says then. -/
def relayedCoding (R : Response) : Bytes := (R.relayedHeaders.get Reply.transferEncoding).getD []

/-- The header that the reply is sent on with under a name. -/
def relayedHeader (R : Response) (key : Bytes) : Option Bytes :=
  if nocase key = nocase Message.contentLength then some (decimal R.content.body.length)
  else if nocase key = nocase Reply.transferEncoding ∧ R.relayedCoding = Reply.chunked then none
  else R.relayedHeaders.get key

/-- The chunked coding is spelt as `prepare` looks for it, and the length of the body fits into an
`int`. -/
structure Relayable (R : Response) : Prop where
  coding : R.relayedCoding = Reply.chunked ∨ isWord Reply.chunked R.relayedCoding = false
  size : (R.content.body.length : ℤ) ≤ INT_MAX

end Response

/-- What a successful `send` leaves in the reply is what was found. -/
theorem Client.send_put {E : Env} (hE : E.Reliable) {W : Strategy} {N : Network} {c c' : Client}
    {s s' : System} {r r' : Request} {reply q : Reply}
    (h : c.send E W N s r reply = some (true, c', s', r', q)) :
    ∃ fs f, (q, s'.fs) = Found.put E reply fs f := by
  obtain ⟨c₁, s₁, s₂, -, hrec, rfl⟩ := send_true h
  obtain ⟨-, p, u, w, hread, rfl, hfs, -⟩ := receive_spec hrec
  obtain ⟨f, -, hu⟩ := found_of hE hread
  refine ⟨s₁.fs, f, ?_⟩
  rw [← hu.put, hfs]
  rfl

namespace Response

variable {E : Env} {R : Response} {reply q : Reply} {fs fs' : Fs} {f : Found}

theorem held_getHeader (hb : reply.Blank) (h : R.Held reply.message.headers q fs') :
    q.message.headers = R.relayedHeaders := by
  rw [h.headers, relayedHeaders, hb.new]

theorem Relayable.wellFormed (hR : R.Relayable) (hE : E.Reliable) (hb : reply.Blank)
    (hq : (q, fs') = Found.put E reply fs f) (h : R.Held reply.message.headers q fs') :
    q.WellFormed fs' := by
  obtain ⟨hq₁, hq₂⟩ := Prod.mk.injEq .. ▸ hq
  have hheaders := held_getHeader hb h
  have hcoding : q.message.getHeader Reply.transferEncoding = R.relayedCoding := by
    rw [Message.getHeader, hheaders]
    rfl
  have hwhole : q.message.body.Whole fs' := by
    rw [hq₁, hq₂]
    exact ((hb.empty.received fs).store hE f.body).1.whole
  have hsize : q.message.body.size = R.content.body.length := by
    rw [← h.body, hwhole.length_content]
  refine ⟨?_, ?_, ?_, ?_, ?_, ?_, ?_, hwhole⟩
  · rw [hq₁]
    exact hb.versioned.1
  · rw [hq₁]
    exact hb.versioned.2
  · rw [h.code]
    have hle := R.code_le
    omega
  · -- `set_status` of the parser leaves no text
    have hstatus : q.status = [] ∨ q.status = ascii "OK" := by
      have hreply : reply.status = ascii "OK" := by
        rw [hb.new]
        rfl
      rw [hq₁]
      change (Found.status reply f).2 = [] ∨ (Found.status reply f).2 = ascii "OK"
      unfold Found.status
      cases f.codes.getLast? with
      | none => exact .inr hreply
      | some n => exact .inl rfl
    obtain hs | hs := hstatus <;> rw [hs]
    · exact List.forall_mem_nil _
    · decide +kernel
  · rw [hheaders]
    exact Headers.insertAll_writable (by decide +kernel) (own_writable R.lines)
  · rw [hcoding]
    exact hR.coding
  · rw [hsize]
    exact hR.size

theorem sentHeader_held (hb : reply.Blank) (h : R.Held reply.message.headers q fs')
    (hw : q.message.body.Whole fs') (key : Bytes) : q.sentHeader key = R.relayedHeader key := by
  have hheaders := held_getHeader hb h
  have hsize : q.message.body.size = R.content.body.length := by
    rw [← h.body, hw.length_content]
  unfold Reply.sentHeader relayedHeader relayedCoding Message.getHeader
  rw [hheaders, hsize]

/-- `read_reply` gives the response as a proxy sends it on, over the headers that it finds, and
leaves nothing to be read. -/
def Passes (E : Env) (R : Response) (reply : Reply) (fs : Fs) (w : Socket) : Prop :=
  ∃ p u w', Client.readReply E reply fs w = some (true, p, u, w') ∧ w'.inbox = [] ∧
    u.reply.code = R.code ∧ u.reply.message.body.content u.fs = R.content.body ∧
    ∀ key, u.reply.message.headers.get key =
      (R.relayedHeader key).or (reply.message.headers.get key)

theorem passes_iff (hb : reply.Blank) (h : R.Held reply.message.headers q fs')
    (hw : q.message.body.Whole fs') {reply' : Reply} {fs₁ : Fs} {w : Socket} :
    R.Passes E reply' fs₁ w ↔ q.Arrives E fs' reply' fs₁ w := by
  refine exists_congr fun p => exists_congr fun u => exists_congr fun w' =>
    and_congr_right fun _ => and_congr_right fun _ => ⟨fun hx => ?_, fun hx => ?_⟩
  · obtain ⟨hcode, hbody, hheaders⟩ := hx
    refine ⟨hcode.trans h.code.symm, fun key => ?_, hbody.trans h.body.symm⟩
    rw [sentHeader_held hb h hw]
    exact hheaders key
  · refine ⟨hx.code.trans h.code, hx.body.trans h.body, fun key => ?_⟩
    rw [← sentHeader_held hb h hw]
    exact hx.headers key

/-- A proxy: what a client got into the reply of a connection and the connection sends on is read,
in any cut, as the response of the backend, but for the two headers that `prepare` decides, if and
only if it fits. -/
theorem relayed_iff (hE : E.Reliable) (hb : reply.Blank) {W W' : Strategy} {N : Network}
    {c c' : Client} {sys sys' : System} {r r' : Request}
    (hsend : c.send E W N sys r reply = some (true, c', sys', r', q))
    (h : R.Held reply.message.headers q sys'.fs) (hR : R.Relayable)
    (hW : ∀ turn (n : ℕ), (n : ℤ) ≤ W'.sendfile turn n) {s s' : Socket} {q' : Reply}
    (hs : Connection.send W' s sys'.fs q = (true, q', s')) {E' : Env} (hE' : E'.Reliable)
    {reply' : Reply} (hr : reply'.message.body.IsEmpty) {w : Socket} (hp : Pieces w.inbox)
    (hcut : s'.out = s.out ++ w.inbox.flatten) :
    R.Passes E' reply' fs w ↔ q.Fits sys'.fs := by
  obtain ⟨fs₀, f, hq⟩ := Client.send_put hE hsend
  have hwell := hR.wellFormed hE hb hq h
  rw [passes_iff hb h hwell.whole]
  obtain ⟨-, hwrote⟩ := Connection.send_wrote hW hs
  exact Reply.arrives_of_wire hwell hE' hr hp
    (List.append_cancel_left (hcut.symm.trans hwrote.out))

def helloChunk : Chunk where
  line := { ChunkLine.last with
    size := ascii "5"
    size_ne := by decide
    size_hex := by decide +kernel
    size_lt := by decide +kernel
    short := by decide +kernel }
  data := ascii "hello"
  length := by decide +kernel
  ne := by decide

theorem chunkedLine : Reply.transferEncoding ≠ [] ∧ (∀ c ∈ Reply.transferEncoding, token c ≠ 0) ∧
    (∀ c ∈ Reply.chunked, c ≠ CR ∧ c ≠ LF) ∧ ∀ c ∈ Reply.chunked.head?, isBlank c = false := by
  decide +kernel

/-- The line of the coding. -/
def chunkedHead : HeadLine := Head.valued Reply.transferEncoding Reply.chunked chunkedLine

theorem chunkedHead_first : ∀ l ∈ [chunkedHead], l.first ≠ none := by
  decide +kernel

theorem chunkedHead_framed : Framing.new.head [chunkedHead] =
    some ⟨{ Flags.none with chunked := true }, ULLONG_MAX⟩ := by
  decide +kernel

theorem lastChunk_size : hexNumeral ChunkLine.last.size = 0 := by
  decide +kernel

/-- A response in one chunk. -/
def inChunks : Response where
  status := greeting.status
  lines := [chunkedHead]
  content := .chunked [helloChunk] .last []
  framing := ⟨{ Flags.none with chunked := true }, ULLONG_MAX⟩
  colon := chunkedHead_first
  framed := chunkedHead_framed
  fits := ⟨rfl, lastChunk_size⟩

/-- What the proxy writes for it. -/
def plainly : Bytes :=
  ascii "HTTP/1.1 200 \r\nConnection: keep-alive\r\nContent-Length: 5\r\n\r\nhello"

/-- A `send` to a backend that answers with it. -/
def relaying : Option (Bool × Client × System × Request × Reply) :=
  (Client.new (ascii "h") 80).send .linux (Connection.keeper Unit).io (.reachable 3)
    (.new (fun _ => .new [inChunks.bytes]) .new) Request.new Reply.new

/-- The chunks come in, and a length goes out. -/
theorem relayed_iff_inChunks : inChunks.Passes .linux .new .new (.new [plainly]) := by
  have hok : relaying.map Prod.fst = some true := by decide +kernel
  obtain ⟨⟨ok, c', sys', r', q⟩, hsend, hfst⟩ := Option.map_eq_some_iff.mp hok
  obtain rfl : ok = true := hfst
  have hreply : relaying.map (fun x => (x.2.2.2.2.code, x.2.2.2.2.message.headers.entries,
      x.2.2.2.2.message.body.content x.2.2.1.fs)) =
        some (200, inChunks.relayedHeaders.entries, ascii "hello") := by
    decide +kernel
  have hwritten : relaying.map (fun x =>
      let y := Connection.send (Connection.keeper Unit).io (.new []) x.2.2.1.fs x.2.2.2.2
      (x.2.2.2.2.head.length, y.1, y.2.2.out)) = some (60, true, plainly) := by
    decide +kernel
  rw [hsend, Option.map_some] at hreply hwritten
  obtain ⟨hcode, hentries, hbody⟩ := Prod.mk.injEq .. ▸ Prod.mk.injEq .. ▸ Option.some.inj hreply
  obtain ⟨hhead, hyes, hout⟩ := Prod.mk.injEq .. ▸ Prod.mk.injEq .. ▸ Option.some.inj hwritten
  have hheaders : q.message.headers = inChunks.relayedHeaders := SortedMap.ext hentries
  have hcodes : ((inChunks.code : ℕ) : ℤ) = 200 := by decide +kernel
  have hheld : inChunks.Held Reply.new.message.headers q sys'.fs :=
    ⟨hcode.trans hcodes.symm, hheaders, hbody⟩
  have hblank : Reply.new.Blank :=
    ⟨Body.new_isEmpty, rfl, (Connection.accepted_waiting .new ()).versioned⟩
  have hrelayable : inChunks.Relayable := ⟨.inl (by decide +kernel), by decide +kernel⟩
  have hfits : q.Fits sys'.fs := by
    refine ⟨by rw [hhead]; decide, fun hup => ?_⟩
    rw [Message.getHeader, hheaders] at hup
    exact absurd (by decide +kernel) hup
  generalize hy : Connection.send (Connection.keeper Unit).io (.new []) sys'.fs q = y at hyes hout
  obtain ⟨yes, q', s'⟩ := y
  obtain rfl : yes = true := hyes
  have hcut : s'.out = (Socket.new []).out ++ (Socket.new [plainly]).inbox.flatten := hout
  exact (relayed_iff Env.linux_reliable hblank hsend hheld hrelayable (fun _ _ => le_rfl) hy
    Env.linux_reliable Body.new_isEmpty (by decide +kernel) hcut).mpr hfits

end Response

end Stutter
