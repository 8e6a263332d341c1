import Dv8.Http.Bodies

namespace Dv8.Http

open Dv8.Lib

/-!
# Requests on the wire

`Sent.bytes` writes a request, with any headers the parser does not look for, a `Connection`
header, and a body in one of three framings.  `http_parser` reads it back: the callbacks are
those of the request, whatever the requests in front of it, and however the bytes are cut into
reads.

* `takes_request` — one request, on a parser between two messages;
* `takes_requests` — requests in a row;
* `feed_requests` — the same in reads of any lengths.
-/

/-- How the body of a request is framed. -/
inductive Framing where
  | none
  | length (body : List UInt8)
  | chunked (chunks : List (List UInt8))
  deriving DecidableEq, Repr

/-- The header that says so. -/
def Framing.fields : Framing → List Field
  | .none => []
  | .length body => [lengthField body.length]
  | .chunked _ => [chunkedField]

/-- What is behind the head. -/
def Framing.wire : Framing → List UInt8
  | .none => []
  | .length body => body
  | .chunked chunks => chunks.flatMap chunk ++ (hexadecimal 0 ++ crlf ++ crlf)

/-- The body. -/
def Framing.content : Framing → List UInt8
  | .none => []
  | .length body => body
  | .chunked chunks => chunks.flatten

/-- What the header makes of the message. -/
def Framing.effect : Framing → Core → Core
  | .none, m => m
  | .length body, m => { m with flags.contentlength := true, contentLength := body.length }
  | .chunked _, m => { m with flags.chunked := true }

/-- The lengths can be read. -/
def Framing.Readable : Framing → Prop
  | .none => True
  | .length body => body.length ≤ ULLONG_MAX - 10
  | .chunked chunks => ∀ x ∈ chunks, x ≠ [] ∧ x.length ≤ ULLONG_MAX - 16

/-- A request as a client sends it. -/
structure Sent where
  method : Method
  target : List UInt8
  major : Nat := 1
  minor : Nat := 1
  fields : List Field := []
  connection : Option Connection := none
  framing : Framing := .none
  deriving DecidableEq, Repr

/-- All its headers. -/
def Sent.headers (r : Sent) : List Field :=
  r.fields ++ r.connection.toList.map Connection.field ++ r.framing.fields

def Sent.head (r : Sent) : List UInt8 :=
  r.method.string ++ [chr ' '] ++ (r.target ++ [chr ' ']) ++ version r.major r.minor ++
    r.headers.flatMap Field.line ++ crlf

def Sent.bytes (r : Sent) : List UInt8 := r.head ++ r.framing.wire

/-- The client wants the connection to be kept. -/
def Sent.keepAlive (r : Sent) : Bool :=
  if 0 < r.major && 0 < r.minor then r.connection ≠ some .close
  else r.connection = some .keepAlive

/-- What `headers_complete_cb` is to find out. -/
def Sent.info (r : Sent) : Info where
  httpMajor := UInt16.ofNat r.major
  httpMinor := UInt16.ofNat r.minor
  method := UInt8.ofNat r.method.ctorIdx
  upgrade := false
  statusCode := 0
  shouldKeepAlive := r.keepAlive

/-- The callbacks for its head. -/
def Sent.headCallbacks (r : Sent) : List Callback :=
  .messageBegin :: .url r.target :: r.headers.flatMap Field.callbacks

/-- The callbacks for it. -/
def Sent.callbacks (r : Sent) : List Callback :=
  r.headCallbacks ++ .headersComplete r.info ::
    (bodyCallbacks r.framing.content ++ [.messageComplete])

/-- A request the parser can read.  A byte of a head counts at most twice. -/
structure Sent.Valid (r : Sent) : Prop where
  method : r.method ≠ .connect
  target : IsTarget r.target
  major : r.major < 10
  minor : r.minor < 10
  fields : ∀ f ∈ r.fields, f.Plain
  framing : r.framing.Readable
  head : 2 * r.head.length + 4 ≤ maxHeaderSize

variable {r : Sent} {c d : Core} {p : Parser}

/-! ### Headers -/

theorem Reads.weaken {fs : List Field} {P Q : Core → Prop} {g : Core → Core} (h : Reads fs P g)
    (hPQ : ∀ m, Q m → P m) : Reads fs Q g := fun c d owed hstart hl hd =>
  h c d owed hstart hl (hPQ _ hd)

theorem reads_fields {fs : List Field} (hfs : ∀ f ∈ fs, f.Plain) :
    Reads fs (fun _ => True) id := by
  induction fs with
  | nil => exact .nil
  | cons f fs ih =>
    exact (reads_plain (hfs f List.mem_cons_self)).append
      (ih fun f hf => hfs f (List.mem_cons_of_mem _ hf)) fun _ _ => trivial

/-- What the `Connection` header makes of the message, if there is one. -/
def Sent.connectionEffect (r : Sent) : Core → Core := r.connection.elim id Connection.effect

theorem reads_connections (r : Sent) :
    Reads (r.connection.toList.map Connection.field) (fun _ => True) r.connectionEffect := by
  unfold Sent.connectionEffect
  cases r.connection with
  | none => exact .nil
  | some k => exact reads_connection k

theorem reads_framing (h : r.framing.Readable) :
    Reads r.framing.fields (fun m => m.flags.contentlength = false) r.framing.effect := by
  cases hframing : r.framing with
  | none => exact Reads.nil.weaken fun _ _ => trivial
  | length body =>
    rw [hframing] at h
    exact reads_contentLength h
  | chunked chunks => exact reads_chunked.weaken fun _ _ => trivial

/-- What the headers make of the message. -/
def Sent.effect (r : Sent) (m : Core) : Core := r.framing.effect (r.connectionEffect m)

/-- **All headers of a request.** -/
theorem reads_headers (h : r.Valid) :
    Reads r.headers (fun m => m.flags.contentlength = false) r.effect := by
  have hplain := (reads_fields h.fields).append (reads_connections r) fun _ _ => trivial
  refine (hplain.weaken (Q := fun m => m.flags.contentlength = false) fun _ _ => trivial).append
    (reads_framing h.framing) fun m hm => ?_
  unfold Sent.connectionEffect
  cases r.connection with
  | none => exact hm
  | some k => cases k <;> exact hm

/-! ### One request -/

/-- A parser between two requests. -/
structure Core.AtStart (c : Core) : Prop extends c.Live where
  type : c.type = .request
  state : c.state = .startReq
  status : c.statusCode = 0

/-- The message behind the start line. -/
def Sent.started (r : Sent) (c : Core) : Core :=
  ((c.fresh.named r.method (r.method.string.length + 1) .reqHttpStart).versioned r.major r.minor
    .headerFieldStart)

/-- The message behind the headers. -/
def Sent.read (r : Sent) (c : Core) : Core := r.effect (r.started c).message

theorem Core.Simple.message (h : c.Simple) (hm : d.message = c.message) : d.Simple := by
  have hflags : d.message.flags = c.message.flags := congrArg Core.flags hm
  have htype : d.message.type = c.message.type := congrArg Core.type hm
  have hmethod : d.message.method = c.message.method := congrArg Core.method hm
  refine ⟨h.toLive.message hm, htype.trans h.type, fun hd => h.method (hmethod.symm.trans hd),
    ?_, ?_, ?_, ?_⟩
  · exact (congrArg Flags.trailing hflags).trans h.trailing
  · exact (congrArg Flags.upgrade hflags).trans h.upgrade'
  · exact (congrArg Flags.skipbody hflags).trans h.skipbody
  · exact (congrArg (fun f : Flags => f.chunked && f.contentlength) hflags).trans h.lengths

theorem read_simple (h : r.Valid) (hc : c.AtStart) : (r.read c).Simple := by
  have hmethod := h.method
  unfold Sent.read Sent.effect Sent.connectionEffect Sent.started
  rcases r.connection with _ | _ | _ <;> cases r.framing <;>
    exact ⟨⟨hc.errno, hc.upgrade⟩, hc.type, hmethod, rfl, rfl, rfl, rfl⟩

theorem read_message (r : Sent) (c : Core) : (r.read c).message = r.read c := by
  unfold Sent.read Sent.effect Sent.connectionEffect
  rcases r.connection with _ | _ | _ <;> cases r.framing <;> rfl

theorem info_message (hm : d.message = c.message) : d.info = c.info := by
  have h : ∀ c : Core, c.info = c.message.info := fun _ => rfl
  rw [h d, hm, ← h c]

/-- What the parser has read of the start line and of the `Connection` header. -/
theorem read_fields (r : Sent) (hc : c.AtStart) :
    (r.read c).httpMajor = r.major ∧ (r.read c).httpMinor = r.minor ∧
      (r.read c).method = r.method ∧ (r.read c).statusCode = 0 ∧
      (r.read c).flags.connectionClose = decide (r.connection = some .close) ∧
      (r.read c).flags.connectionKeepAlive = decide (r.connection = some .keepAlive) := by
  unfold Sent.read Sent.effect Sent.connectionEffect Sent.started
  rcases r.connection with _ | _ | _ <;> cases r.framing <;>
    exact ⟨rfl, rfl, rfl, hc.status, rfl, rfl⟩

/-- **What the parser knows is what the request says.** -/
theorem read_info (h : r.Valid) (hc : c.AtStart) : (r.read c).info = r.info := by
  obtain ⟨hmajor, hminor, hmethod, hstatus, hclose, hkeep⟩ := read_fields r hc
  have hsimple := read_simple h hc
  have halive : (r.read c).shouldKeepAlive = r.keepAlive := by
    unfold Core.shouldKeepAlive Sent.keepAlive
    rw [needsEof_request hsimple.type, hmajor, hminor, hclose, hkeep]
    split_ifs <;> simp_all
  unfold Core.info Sent.info
  rw [halive, hmajor, hminor, hmethod, hstatus, hsimple.upgrade]
  rfl

/-- Between two requests again. -/
theorem newMessage_atStart (hl : c.Live) (htype : c.type = .request) (hstatus : c.statusCode = 0) :
    c.newMessage.AtStart := by
  refine ⟨hl.updateState _, htype, ?_, hstatus⟩
  show startState c.type = .startReq
  rw [htype]
  rfl

/-- The head of a request up to its last byte. -/
theorem runs_head (h : r.Valid) (hc : c.AtStart) :
    ∃ (d : Core) (xs : List UInt8), r.head = xs ++ [LF] ∧
      c.Runs xs r.headCallbacks (d.updateState .headersAlmostDone) ∧ d.message = r.read c := by
  have hstart := runs_startLine h.method h.target h.major h.minor hc.state hc.toLive
  obtain ⟨c', d, owed, cbs, hlines, hline, hl, hcbs, hmessage⟩ :=
    reads_headers h (r.started c) (r.started c) [] (.start _ rfl) ⟨hc.errno, hc.upgrade⟩ rfl
  have hruns := (hstart.append hlines).append (hline.last hl)
  refine ⟨d, _, ?_, hruns.congr ?_, hmessage⟩
  · unfold Sent.head crlf
    simp [CR, LF]
  · rw [List.append_assoc, gather_congr_right hcbs]
    rfl

/-- What comes behind the head. -/
theorem takes_framing (h : r.framing.Readable) (hsimple : d.Simple)
    (hs : d.state = .headersAlmostDone) (hstatus : d.statusCode = 0) {m : Core}
    (hm : d.message = r.framing.effect m) (hlength : m.contentLength = ULLONG_MAX)
    (hchunked : m.flags.chunked = false) {n : Nat} (hn : n + 1 ≤ maxHeaderSize) :
    ∃ q, Parser.Takes ⟨d, n⟩ (LF :: r.framing.wire)
      (.headersComplete d.info :: (bodyCallbacks r.framing.content ++ [.messageComplete])) q ∧
      q.toCore.AtStart ∧ q.nread ≤ 4 := by
  have hdone := newMessage_atStart hsimple.toLive hsimple.type hstatus
  have hstate : d.bodyState = (r.framing.effect m).bodyState := by
    rw [← hm]
    rfl
  cases hframing : r.framing with
  | none =>
    have hnone : d.bodyState = none := by
      rw [hstate, hframing]
      unfold Framing.effect Core.bodyState
      simp [hchunked, hlength]
    exact ⟨_, takes_complete hsimple hs hn hnone, hdone, Nat.zero_le _⟩
  | length body =>
    rw [hframing] at h hm hstate
    have hlength' : d.contentLength = body.length := congrArg Core.contentLength hm
    by_cases hbody : body = []
    · -- there is nothing behind the head
      subst hbody
      have hnone : d.bodyState = none := by
        rw [hstate]
        simp [Framing.effect, Core.bodyState, hchunked]
      exact ⟨_, takes_complete hsimple hs hn hnone, hdone, Nat.zero_le _⟩
    · have hmax : body.length < ULLONG_MAX :=
        Nat.lt_of_le_of_lt h (by decide)
      have hzero : body.length ≠ 0 := fun h => hbody (List.eq_nil_of_length_eq_zero h)
      have hsome : d.bodyState = some .bodyIdentity := by
        rw [hstate]
        simp [Framing.effect, Core.bodyState, hchunked, hbody, hmax.ne]
      have howing : d.updateState .bodyIdentity = d.owing .bodyIdentity body.length := by
        rw [← hlength']
        rfl
      have hfirst := takes_headersDone hsimple hs hn hsome
      rw [howing] at hfirst
      refine ⟨_, (hfirst.cons (takes_body hsimple.toLive hbody hmax)).congr ?_,
        ⟨⟨hdone.errno, hdone.upgrade⟩, hdone.type, hdone.state, hdone.status⟩, Nat.zero_le _⟩
      unfold bodyCallbacks Framing.content
      rw [if_neg hbody]
      rfl
  | chunked chunks =>
    rw [hframing] at h hm hstate
    have hchunked' : d.flags.chunked = true := congrArg (fun m => m.flags.chunked) hm
    have hsome : d.bodyState = some .chunkSizeStart := by
      rw [hstate]
      simp [Framing.effect, Core.bodyState]
    obtain ⟨a, hchunks⟩ := takes_chunks (a := d.contentLength) hsimple.toLive hchunked' h
    obtain ⟨n', hn', hlast⟩ := takes_lastChunk (a := a) hsimple.toLive hchunked'
    exact ⟨_, (takes_headersDone hsimple hs hn hsome).cons (hchunks.append hlast),
      ⟨⟨hdone.errno, hdone.upgrade⟩, hdone.type, hdone.state, hdone.status⟩, hn'⟩

/-- **A request** on a parser between two messages. -/
theorem takes_request (h : r.Valid) (hp : p.toCore.AtStart) (hn : p.nread ≤ 4) :
    ∃ q, p.Takes r.bytes r.callbacks q ∧ q.toCore.AtStart ∧ q.nread ≤ 4 := by
  obtain ⟨d, xs, hhead, hruns, hmessage⟩ := runs_head h hp
  have hlength : 2 * xs.length + 6 ≤ maxHeaderSize := by
    have hhead' := h.head
    rw [hhead, List.length_append, List.length_singleton] at hhead'
    omega
  obtain ⟨n, hn', htakes⟩ := hruns p.nread (by omega)
  have hread : (d.updateState .headersAlmostDone).message = (r.read p.toCore).message :=
    hmessage.trans (read_message r _).symm
  have hsimple := (read_simple h hp).message hread
  have hinfo : (d.updateState .headersAlmostDone).info = r.info :=
    (info_message hread).trans (read_info h hp)
  have hstatus : (d.updateState .headersAlmostDone).statusCode = 0 :=
    (congrArg Core.statusCode hmessage).trans (read_fields r hp).2.2.2.1
  obtain ⟨hclength, hcchunked⟩ : (r.connectionEffect (r.started p.toCore).message).contentLength =
      ULLONG_MAX ∧ (r.connectionEffect (r.started p.toCore).message).flags.chunked = false := by
    unfold Sent.connectionEffect
    rcases r.connection with _ | _ | _ <;> exact ⟨rfl, rfl⟩
  obtain ⟨q, hbody, hq, hqn⟩ := takes_framing h.framing hsimple rfl hstatus
    (m := r.connectionEffect (r.started p.toCore).message) hmessage hclength hcchunked
    (n := n) (by omega)
  rw [hinfo] at hbody
  refine ⟨q, ?_, hq, hqn⟩
  unfold Sent.bytes Sent.callbacks
  rw [hhead, List.append_assoc, List.singleton_append]
  exact htakes.append hbody

/-- Requests in a row. -/
theorem takes_requests {rs : List Sent} (hrs : ∀ r ∈ rs, r.Valid) (hp : p.toCore.AtStart)
    (hn : p.nread ≤ 4) :
    ∃ q, p.Takes (rs.flatMap Sent.bytes) (rs.flatMap Sent.callbacks) q ∧ q.toCore.AtStart ∧
      q.nread ≤ 4 := by
  induction rs generalizing p with
  | nil => exact ⟨p, .refl p, hp, hn⟩
  | cons r rs ih =>
    obtain ⟨q, hfirst, hq, hqn⟩ := takes_request (hrs r List.mem_cons_self) hp hn
    obtain ⟨q', hrest, hq', hqn'⟩ := ih (fun r hr => hrs r (List.mem_cons_of_mem _ hr)) hq hqn
    exact ⟨q', hfirst.append hrest, hq', hqn'⟩

/-- The same requests in reads of any lengths. -/
theorem feed_sent {rs : List Sent} (hrs : ∀ r ∈ rs, r.Valid) {reads : List (List UInt8)}
    (hreads : reads.flatten = rs.flatMap Sent.bytes) (hne : ∀ r ∈ reads, r ≠ [])
    (hlen : ∀ r ∈ reads, r.length + maxHeaderSize < 2 ^ 32) :
    ∃ cbs q, (Parser.init .request).feed reads = some (cbs, q) ∧
      pieces.gather cbs = pieces.gather (rs.flatMap Sent.callbacks) ∧ q.toCore.AtStart := by
  have hinit : (Parser.init .request).toCore.AtStart := ⟨⟨rfl, rfl⟩, rfl, rfl, rfl⟩
  obtain ⟨q, ⟨made, hfeed, hmade⟩, hq, -⟩ := takes_requests hrs hinit (Nat.zero_le _)
  rw [← hreads] at hfeed
  obtain ⟨cbs, q', hfeed', hagree⟩ := feed_chunks_inv (Reached.init .request).inv hne hlen hfeed
  exact ⟨cbs, q', hfeed', hagree.callbacks.trans hmade, by rw [hagree.core]; exact hq⟩

/-! ### Callbacks -/

/-- Two callbacks that are not pieces of one element. -/
def Callback.Apart (x y : Callback) : Prop := x.join y = none

theorem fields_apart (fs : List Field) {cb : Callback} {cbs : List Callback}
    (h : (cb :: cbs).IsChain Callback.Apart) (hcb : ∀ x, (Callback.headerValue x).Apart cb) :
    (fs.flatMap Field.callbacks ++ cb :: cbs).IsChain Callback.Apart := by
  induction fs with
  | nil => exact h
  | cons f fs ih =>
    refine .cons_cons rfl (List.isChain_cons.mpr ⟨fun y hy => ?_, ih⟩)
    cases fs with
    | nil =>
      cases hy
      exact hcb _
    | cons f' fs =>
      cases hy
      rfl

/-- No two callbacks for a request are pieces of one element. -/
theorem callbacks_apart (r : Sent) : r.callbacks.IsChain Callback.Apart := by
  have hbody : (Callback.headersComplete r.info ::
      (bodyCallbacks r.framing.content ++ [.messageComplete])).IsChain Callback.Apart := by
    unfold bodyCallbacks
    split
    · exact .cons_cons rfl (.singleton _)
    · exact .cons_cons rfl (.cons_cons rfl (.singleton _))
  have hfields := fields_apart r.headers hbody (fun _ => rfl)
  refine .cons_cons rfl (List.isChain_cons.mpr ⟨fun y hy => ?_, hfields⟩)
  cases hheaders : r.headers with
  | nil =>
    rw [hheaders] at hy
    cases hy
    rfl
  | cons f fs =>
    rw [hheaders] at hy
    cases hy
    rfl

theorem requests_apart (rs : List Sent) :
    (rs.flatMap Sent.callbacks).IsChain Callback.Apart := by
  induction rs with
  | nil => exact .nil
  | cons r rs ih =>
    refine List.isChain_append.mpr ⟨callbacks_apart r, ih, fun x hx y hy => ?_⟩
    -- a message ends with a callback that is not for an element
    have hlast : r.callbacks.getLast? = some .messageComplete := by
      unfold Sent.callbacks
      rw [← List.cons_append, ← List.append_assoc, List.getLast?_concat]
    obtain rfl := Option.some.inj (hlast.symm.trans hx)
    rfl

theorem gather_requests (rs : List Sent) :
    pieces.gather (rs.flatMap Sent.callbacks) = (rs.flatMap Sent.callbacks).reverse :=
  gather_of_apart (requests_apart rs)

/-- **However requests are cut into reads**, `http_parser` reads back what was sent. -/
theorem feed_requests {rs : List Sent} (hrs : ∀ r ∈ rs, r.Valid) {reads : List (List UInt8)}
    (hreads : reads.flatten = rs.flatMap Sent.bytes) (hne : ∀ r ∈ reads, r ≠ [])
    (hlen : ∀ r ∈ reads, r.length + maxHeaderSize < 2 ^ 32) :
    ∃ cbs q, (Parser.init .request).feed reads = some (cbs, q) ∧
      (pieces.gather cbs).reverse = rs.flatMap Sent.callbacks ∧ q.toCore.AtStart := by
  obtain ⟨cbs, q, hfeed, hcbs, hq⟩ := feed_sent hrs hreads hne hlen
  exact ⟨cbs, q, hfeed, by rw [hcbs, gather_requests, List.reverse_reverse], hq⟩

/-- A request with a body of known length. -/
def postA : Sent where
  method := .post
  target := ascii "/a"
  fields := [⟨ascii "Host", ascii "h"⟩]
  framing := .length (ascii "hi")

/-- A request with a body in chunks, the last on its connection. -/
def putB : Sent where
  method := .put
  target := ascii "/b?c"
  connection := some .close
  framing := .chunked [ascii "d", ascii "ef"]

theorem postA_valid : postA.Valid where
  method := by decide +kernel
  target := by decide +kernel
  major := by decide +kernel
  minor := by decide +kernel
  fields f hf := by
    obtain rfl := List.mem_singleton.mp hf
    exact ⟨by decide, by decide +kernel, by decide +kernel, by decide +kernel, by decide +kernel⟩
  framing := by show (ascii "hi").length ≤ _; decide +kernel
  head := by decide +kernel

theorem putB_valid : putB.Valid where
  method := by decide +kernel
  target := by decide +kernel
  major := by decide +kernel
  minor := by decide +kernel
  fields := nofun
  framing := by show ∀ x ∈ [ascii "d", ascii "ef"], _; decide +kernel
  head := by decide +kernel

/-- Both requests, in reads that are not aligned to them. -/
theorem feed_requests_two :
    ∃ reads cbs q, reads.flatten = [postA, putB].flatMap Sent.bytes ∧
      (Parser.init .request).feed reads = some (cbs, q) ∧
      (pieces.gather cbs).reverse = [postA, putB].flatMap Sent.callbacks := by
  have hvalid : ∀ r ∈ [postA, putB], r.Valid := by
    intro r hr
    rcases List.mem_cons.mp hr with rfl | hr
    · exact postA_valid
    · obtain rfl := List.mem_singleton.mp hr
      exact putB_valid
  let bytes := [postA, putB].flatMap Sent.bytes
  have hreads : [bytes.take 50, bytes.drop 50].flatten = [postA, putB].flatMap Sent.bytes := by
    simp [bytes]
  obtain ⟨cbs, q, hfeed, hcbs, -⟩ := feed_requests hvalid hreads (by decide) (by decide)
  exact ⟨_, cbs, q, hreads, hfeed, hcbs⟩

end Dv8.Http
