import Dv8.Http.Sent

namespace Dv8.Http

open Dv8.Lib Dv8.Builtins

/-!
# From the wire to the work buffer

What JavaScript finds in the work buffer when `onHeaders` is called: `http_parser` and
`httpParser.cc` together, on requests as clients send them.

* `foldl_gather_block` — a block does not depend on how its elements are cut;
* `callbacks_split` — where the `headers_complete_cb` of a request stands among the callbacks;
* `headersComplete_front` — what it writes into the first bytes of the buffer;
* `headers_served` — behind it the buffer says what its request says, up to its canonical block.
-/

variable {cbs before after : List Callback} {i : Info}

/-- The callback that calls `onHeaders`. -/
def Callback.isHeadersComplete : Callback → Bool
  | .headersComplete _ => true
  | _ => false

/-- Pieces of one element are not for `onHeaders`. -/
theorem join_pieces {x y z : Callback} (h : pieces.join x y = some z) :
    x.isHeadersComplete = false ∧ y.isHeadersComplete = false ∧ z.isHeadersComplete = false := by
  cases x <;> cases y <;> cases h <;> exact ⟨rfl, rfl, rfl⟩

theorem headersComplete_alone (i : Info) (xs ys : List Callback) :
    pieces.gather (xs ++ .headersComplete i :: ys) =
      pieces.gather ys ++ .headersComplete i :: pieces.gather xs :=
  gather_alone (fun w => by cases w <;> rfl) (fun _ => rfl) xs ys

/-- A block does not depend on how its elements are cut. -/
theorem next_pieces (b : Option Block) {x y z : Callback} (h : pieces.join x y = some z) :
    Block.next (Block.next b x) y = Block.next b z := by
  cases b <;> cases x <;> cases y <;> cases h <;> first
    | rfl
    | simp [Block.next, Block.url, Block.element, separator, Nat.add_assoc]

theorem foldl_gather_block (b : Option Block) (cbs : List Callback) :
    cbs.foldl Block.next b = (pieces.gather cbs).reverse.foldl Block.next b :=
  foldl_gather (fun b => next_pieces b) b cbs

/-! ### The callbacks for a request -/

/-- A header, in one piece. -/
def Field.header (f : Field) : Header := ⟨[f.name], [f.value], by simp, by simp⟩

/-- A request, in one piece for each element. -/
def Sent.message (r : Sent) : Message where
  url := [r.target]
  headers := r.headers.map Field.header
  parser := r.info

/-- The block that JavaScript is to find. -/
def Sent.block (r : Sent) : List UInt8 :=
  r.target ++ crlf.intercalate (r.headers.map fun f => f.name ++ colon ++ f.value)

theorem message_block (r : Sent) : r.message.block = r.block := by
  have htext : ∀ f : Field, f.header.text = f.name ++ colon ++ f.value := by
    intro f
    simp [Field.header, Header.text]
  unfold Message.block Message.headerBlock Sent.block Sent.message
  simp [htext, Function.comp_def]

theorem message_head (r : Sent) :
    r.message.head = r.headCallbacks ++ [.headersComplete r.info] := by
  have hcallbacks : ∀ f : Field, f.header.callbacks = f.callbacks := fun _ => rfl
  unfold Message.head Sent.headCallbacks Sent.message
  simp [List.flatMap_map, hcallbacks]

/-- In a head there is no other call of `onHeaders`. -/
theorem headCallbacks_plain (r : Sent) :
    ∀ cb ∈ r.headCallbacks, cb.isHeadersComplete = false := by
  intro cb hcb
  rcases List.mem_cons.mp hcb with rfl | hcb
  · rfl
  rcases List.mem_cons.mp hcb with rfl | hcb
  · rfl
  obtain ⟨f, -, hf⟩ := List.mem_flatMap.mp hcb
  rcases List.mem_cons.mp hf with rfl | hf
  · rfl
  · obtain rfl := List.mem_singleton.mp hf
    rfl

theorem bodyCallbacks_plain (xs : List UInt8) :
    ∀ cb ∈ bodyCallbacks xs ++ [.messageComplete], cb.isHeadersComplete = false := by
  intro cb hcb
  unfold bodyCallbacks at hcb
  split at hcb <;> simp at hcb <;> rcases hcb with rfl | rfl <;> rfl

/-- An element that others in front are not. -/
theorem append_eq_append_cons {α : Type*} {P : α → Bool} {xs ys us vs : List α} {e : α}
    (hxs : ∀ x ∈ xs, P x = false) (he : P e = true) (h : xs ++ ys = us ++ e :: vs) :
    ∃ us', us = xs ++ us' ∧ ys = us' ++ e :: vs := by
  rcases List.append_eq_append_iff.mp h with ⟨us', hus, hys⟩ | ⟨ws, hxs', hvs⟩
  · exact ⟨us', hus, hys⟩
  · cases ws with
    | nil => exact ⟨[], by simpa using hxs'.symm, by simpa using hvs.symm⟩
    | cons w ws =>
      obtain ⟨rfl, -⟩ := List.cons_eq_cons.mp hvs
      rw [hxs e (by simp [hxs'])] at he
      contradiction

/-- The call of `onHeaders` that follows `before` is for the request whose number is that of the
    calls in `before`, and what precedes it is the request's own head. -/
theorem callbacks_split {rs : List Sent}
    (h : rs.flatMap Sent.callbacks = before ++ .headersComplete i :: after) :
    ∃ r done, rs[before.countP Callback.isHeadersComplete]? = some r ∧ i = r.info ∧
      before = done ++ r.headCallbacks := by
  induction rs generalizing before with
  | nil => simp at h
  | cons r rs ih =>
    have hsplit : r.headCallbacks ++ (.headersComplete r.info ::
        ((bodyCallbacks r.framing.content ++ [.messageComplete]) ++ rs.flatMap Sent.callbacks)) =
        before ++ .headersComplete i :: after := by
      rw [← h]
      simp [Sent.callbacks]
    have hhead := List.countP_eq_zero.mpr fun cb hcb =>
      Bool.eq_false_iff.mp (headCallbacks_plain r cb hcb)
    have htail := List.countP_eq_zero.mpr fun cb hcb =>
      Bool.eq_false_iff.mp (bodyCallbacks_plain r.framing.content cb hcb)
    obtain ⟨us, rfl, hus⟩ := append_eq_append_cons (headCallbacks_plain r) rfl hsplit
    cases us with
    | nil =>
      -- the call for the first request
      obtain ⟨hinfo, -⟩ := List.cons_eq_cons.mp hus
      refine ⟨r, [], ?_, (Callback.headersComplete.inj hinfo).symm, by simp⟩
      rw [List.append_nil, hhead]
      rfl
    | cons u us =>
      obtain ⟨hu, htl⟩ := List.cons_eq_cons.mp hus
      obtain ⟨vs, rfl, hvs⟩ := append_eq_append_cons (bodyCallbacks_plain _) rfl htl
      obtain ⟨r', done, hget, hinfo, rfl⟩ := ih hvs
      refine ⟨r', r.headCallbacks ++ .headersComplete r.info ::
        ((bodyCallbacks r.framing.content ++ [.messageComplete]) ++ done), ?_, hinfo,
        by simp [← hu]⟩
      rw [← hu, List.countP_append, hhead, List.countP_cons, List.countP_append, htail,
        Nat.zero_add, Nat.zero_add]
      exact hget

/-! ### The first bytes of the buffer -/

/-- What JavaScript is to find in front of the two lengths: the version, the method, no upgrade, and
    whether the connection is to be kept. -/
def Sent.front (r : Sent) : List UInt8 :=
  [UInt8.ofNat r.major, UInt8.ofNat r.minor, UInt8.ofNat r.method.ctorIdx, 0, r.keepAlive.toUInt8]

/-- No callback changes the mode of the parser. -/
theorem step_parserMode {s s' : Context} {cb : Callback} (h : step s cb = some s') :
    s'.parserMode = s.parserMode := by
  cases cb with
  | messageBegin | messageComplete =>
    cases h
    rfl
  | url | headerField | headerValue | headersComplete =>
    obtain ⟨w, -, rfl⟩ := Option.map_eq_some_iff.mp h
    rfl
  | body buf =>
    unfold step Context.body at h
    simp only at h
    split at h
    · obtain ⟨w, -, rfl⟩ := Option.map_eq_some_iff.mp h
      rfl
    · cases h
      rfl

/-- On a parser of requests `headers_complete_cb` writes what the request says. -/
theorem headersComplete_front {s t : Context} {r : Sent} (hmode : s.parserMode = 0)
    (h : s.headersComplete r.info = some t) : slice t.buf.bytes 0 5 = r.front := by
  obtain ⟨w, hcopy, rfl⟩ := Option.map_eq_some_iff.mp h
  have hwrite := memcpy_eq_some_iff.mp hcopy
  have hslice := slice_writeAt_within (n := 5) (o := 0) hwrite (by rw [length_header]; decide)
  have hheader : slice (s.header r.info) 0 5 = r.front := by
    simp [Context.header, hmode, Sent.info, Sent.front, slice]
    rfl
  exact hslice.trans hheader

/-- **From the wire to the work buffer.**  Requests are cut into reads in any way.  Each call of
    `onHeaders` is for the next request: it finds in the work buffer what the request says, the
    lengths of its url and headers in 16 bits, and their canonical block. -/
theorem headers_served {rs : List Sent} (hrs : ∀ r ∈ rs, r.Valid) {reads : List (List UInt8)}
    (hreads : reads.flatten = rs.flatMap Sent.bytes) (hne : ∀ r ∈ reads, r ≠ [])
    (hlen : ∀ r ∈ reads, r.length + maxHeaderSize < 2 ^ 32) {q : Parser}
    (hfeed : (Parser.init .request).feed reads = some (before ++ .headersComplete i :: after, q))
    {s₀ s : Context} (hmode : s₀.parserMode = 0)
    (hrun : run step s₀ (before ++ [.headersComplete i]) = some s) :
    ∃ r, rs[before.countP Callback.isHeadersComplete]? = some r ∧ i = r.info ∧
      slice s.buf.bytes 0 5 = r.front ∧
      ofBigEndian (slice s.buf.bytes 5 2) = r.target.length % 2 ^ 16 ∧
      ofBigEndian (slice s.buf.bytes 7 2) = (r.block.length - r.target.length) % 2 ^ 16 ∧
      s.soff.toNat = STRING_OFFSET + r.block.length ∧
      slice s.buf.bytes STRING_OFFSET r.block.length = r.block ∧
      s.request.urllength = UInt16.ofNat r.target.length ∧
      s.request.headerLength = UInt16.ofNat (r.block.length - r.target.length) := by
  obtain ⟨cbs, q', hfeed', hcbs, -⟩ := feed_sent hrs hreads hne hlen
  obtain rfl : cbs = before ++ .headersComplete i :: after :=
    congrArg Prod.fst (Option.some.inj (hfeed'.symm.trans hfeed))
  rw [headersComplete_alone, gather_requests] at hcbs
  have hall : rs.flatMap Sent.callbacks = (pieces.gather before).reverse ++
      .headersComplete i :: (pieces.gather after).reverse := by
    rw [← List.reverse_reverse (rs.flatMap Sent.callbacks), ← hcbs]
    simp
  obtain ⟨r, done, hget, hinfo, hbefore⟩ := callbacks_split hall
  have hcount : (pieces.gather before).reverse.countP Callback.isHeadersComplete =
      before.countP Callback.isHeadersComplete := by
    rw [List.countP_reverse, countP_gather join_pieces]
  rw [hcount] at hget
  -- the block is that of the joined callbacks, of which the head of `r` is the end
  have htracks := run_tracks (b := none) trivial hrun
  rw [List.foldl_append, foldl_gather_block none before, hbefore, List.foldl_append, hinfo,
    ← List.foldl_append, ← message_head] at htracks
  obtain ⟨lastel, hblock⟩ := head_block r.message (done.foldl Block.next none)
  rw [hblock, message_block] at htracks
  have hshows : Shows s _ := htracks
  have hurl : s.request.urllength = UInt16.ofNat r.target.length := by
    rw [hshows.urllength]
    simp [Sent.message]
  have hheader : s.request.headerLength = UInt16.ofNat (r.block.length - r.target.length) := by
    have hlength : r.message.headerBlock.length = r.block.length - r.target.length := by
      rw [← message_block]
      simp [Message.block, Sent.message]
    rw [hshows.headerLength, hlength]
  -- the last callback has written the first bytes
  obtain ⟨s₁, hrun₁, hlast⟩ := run_snoc_eq_some.mp hrun
  have hmode₁ : s₁.parserMode = 0 :=
    run_invariant (I := fun s => s.parserMode = 0)
      (fun _ _ _ hs hstep => (step_parserMode hstep).trans hs) hmode hrun₁
  have hlast : s₁.headersComplete r.info = some s := hinfo ▸ hlast
  obtain ⟨hurl₂, hheader₂⟩ := headersComplete_lengths hlast
  refine ⟨r, hget, hinfo, headersComplete_front hmode₁ hlast, ?_, ?_, hshows.soff, hshows.text,
    hurl, hheader⟩
  · rw [hurl₂, hurl, UInt16.toNat_ofNat']
  · rw [hheader₂, hheader, UInt16.toNat_ofNat']

/-- What the parser calls up to the head of `postA`, when the url comes in two reads. -/
def postHead : List Callback :=
  [.messageBegin, .url (ascii "/"), .url (ascii "a"), .headerField (ascii "Host"),
    .headerValue (ascii "h"), .headerField (ascii "Content-Length"), .headerValue (ascii "2")]

/-- A work buffer of 64 bytes. -/
def roomy : Context := { buf := ⟨List.replicate 64 0, by decide⟩ }

theorem headers_served_post :
    ∃ s, run step roomy (postHead ++ [.headersComplete postA.info]) = some s ∧
      slice s.buf.bytes 0 5 = [1, 1, 3, 0, 1] ∧ ofBigEndian (slice s.buf.bytes 5 2) = 2 ∧
      slice s.buf.bytes STRING_OFFSET postA.block.length =
        ascii "/aHost: h\r\nContent-Length: 2" := by
  obtain ⟨q, hfeed⟩ : ∃ q, (Parser.init .request).feed
      [postA.bytes.take 6, postA.bytes.drop 6] =
      some (postHead ++ .headersComplete postA.info :: [.body (ascii "hi"), .messageComplete], q) :=
    ⟨_, rfl⟩
  have hdefined : (run step roomy (postHead ++ [.headersComplete postA.info])).isSome = true := by
    decide +kernel
  obtain ⟨s, hrun⟩ := Option.isSome_iff_exists.mp hdefined
  have hvalid : ∀ r ∈ [postA], r.Valid := by
    intro r hr
    obtain rfl := List.mem_singleton.mp hr
    exact postA_valid
  obtain ⟨r, hr, -, hfront, hurl, -, -, htext, -⟩ :=
    headers_served hvalid (by decide) (by decide) (by decide) hfeed rfl hrun
  have hcount : postHead.countP Callback.isHeadersComplete = 0 := rfl
  rw [hcount] at hr
  obtain rfl : postA = r := Option.some.inj hr
  exact ⟨s, hrun, hfront, hurl, htext⟩

end Dv8.Http
