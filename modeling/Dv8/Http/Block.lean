import Dv8.Builtins.Buffer
import Dv8.Http.HttpParser

namespace Dv8.Http

open Dv8.Lib Dv8.Builtins

/-!
# The header block of a message

`Block` is what the callbacks are for, without a buffer: the text they assemble, its two
lengths, and the kind of the last fragment.

* `run_tracks` — the work buffer shows the block, as far as callbacks stayed inside it;
* `exists_run` — they do when the block fits;
* `head_block` — the callbacks for a message give its canonical block, however it is cut into
  fragments.

* `block_canonical` — so the work buffer shows exactly the canonical block of each message that
  fits, whatever came before it.
-/

/-! ### Blocks -/

/-- What comes between a fragment of one kind and a fragment of another. -/
def separator : HeaderElementType → HeaderElementType → List UInt8
  | .value, .field => crlf
  | .value, .value => []
  | _, .value => colon
  | _, _ => []

/-- A block, as far as it has been assembled. -/
structure Block where
  text : List UInt8 := []
  urlLength : Nat := 0
  headerLength : Nat := 0
  lastel : HeaderElementType := .none

/-- A piece of the url. -/
def Block.url (b : Block) (buf : List UInt8) : Block :=
  { b with text := b.text ++ buf, urlLength := b.urlLength + buf.length }

/-- A piece of a field or value. -/
def Block.element (b : Block) (el : HeaderElementType) (buf : List UInt8) : Block :=
  { b with text := b.text ++ (separator b.lastel el ++ buf)
           headerLength := b.headerLength + (separator b.lastel el ++ buf).length
           lastel := el }

/-- What a callback does to the block; a body may overwrite it. -/
def Block.next : Option Block → Callback → Option Block
  | _, .messageBegin => some {}
  | b, .url buf => b.map (·.url buf)
  | b, .headerField buf => b.map (·.element .field buf)
  | b, .headerValue buf => b.map (·.element .value buf)
  | b, .headersComplete _ => b
  | _, .body _ => none
  | b, .messageComplete => b

/-! ### The work buffer shows the block -/

/-- The block is in the work buffer, from `STRING_OFFSET` to `soff`. -/
structure Shows (s : Context) (b : Block) : Prop where
  soff : s.soff.toNat = STRING_OFFSET + b.text.length
  text : slice s.buf.bytes STRING_OFFSET b.text.length = b.text
  urllength : s.request.urllength = UInt16.ofNat b.urlLength
  headerLength : s.request.headerLength = UInt16.ofNat b.headerLength
  lastel : s.request.lastel = b.lastel

/-- The same where there is a block. -/
def Tracks (s : Context) : Option Block → Prop
  | none => True
  | some b => Shows s b

/-- A `memcpy` behind the text adds to it. -/
theorem memcpy_text {w w' : Work} {text xs : List UInt8} {off : Nat}
    (hoff : off = STRING_OFFSET + text.length)
    (htext : slice w.bytes STRING_OFFSET text.length = text) (h : w.memcpy off xs = some w') :
    STRING_OFFSET + (text ++ xs).length < 2 ^ 32 ∧
      slice w'.bytes STRING_OFFSET (text ++ xs).length = text ++ xs := by
  subst hoff
  have hwrite := memcpy_eq_some_iff.mp h
  have hfit := (writeAt_eq_some_iff.mp hwrite).1
  have hsmall := w.small
  rw [List.length_append]
  refine ⟨by omega, ?_⟩
  rw [slice_add, slice_writeAt_before hwrite (Nat.le_refl _), htext, slice_writeAt_same hwrite]

theorem Shows.url {s s' : Context} {b : Block} {buf : List UInt8} (h : Shows s b)
    (hstep : s.url buf = some s') : Shows s' (b.url buf) := by
  rw [Context.url, Option.map_eq_some_iff] at hstep
  obtain ⟨w, hcopy, rfl⟩ := hstep
  obtain ⟨hlt, htext⟩ := memcpy_text h.soff h.text hcopy
  rw [List.length_append] at hlt
  refine ⟨?_, htext, ?_, h.headerLength, h.lastel⟩
  · show (s.soff + UInt32.ofNat buf.length).toNat = STRING_OFFSET + (b.text ++ buf).length
    rw [UInt32.toNat_add, UInt32.toNat_ofNat', h.soff, List.length_append]
    omega
  · show s.request.urllength + UInt16.ofNat buf.length = UInt16.ofNat (b.urlLength + buf.length)
    rw [h.urllength, UInt16.ofNat_add]

theorem Shows.element {s s' : Context} {b : Block} {el : HeaderElementType} {buf : List UInt8}
    (h : Shows s b) (hstep : s.element (separator b.lastel el) el buf = some s') :
    Shows s' (b.element el buf) := by
  rw [Context.element, Option.map_eq_some_iff] at hstep
  obtain ⟨w, hcopy, rfl⟩ := hstep
  obtain ⟨hlt, htext⟩ := memcpy_text h.soff h.text hcopy
  rw [List.length_append, List.length_append] at hlt
  refine ⟨?_, htext, h.urllength, ?_, rfl⟩
  · show (s.soff + UInt32.ofNat (separator b.lastel el).length + UInt32.ofNat buf.length).toNat =
      STRING_OFFSET + (b.text ++ (separator b.lastel el ++ buf)).length
    rw [UInt32.toNat_add, UInt32.toNat_add, UInt32.toNat_ofNat', UInt32.toNat_ofNat', h.soff,
      List.length_append, List.length_append]
    omega
  · show s.request.headerLength + UInt16.ofNat (separator b.lastel el).length +
      UInt16.ofNat buf.length =
        UInt16.ofNat (b.headerLength + (separator b.lastel el ++ buf).length)
    rw [h.headerLength, List.length_append, ← Nat.add_assoc, UInt16.ofNat_add, UInt16.ofNat_add]

theorem headerField_eq (s : Context) (buf : List UInt8) :
    s.headerField buf = s.element (separator s.request.lastel .field) .field buf := by
  rw [Context.headerField]
  cases s.request.lastel <;> rfl

theorem headerValue_eq (s : Context) (buf : List UInt8) :
    s.headerValue buf = s.element (separator s.request.lastel .value) .value buf := by
  rw [Context.headerValue]
  cases s.request.lastel <;> rfl

theorem length_header (s : Context) (parser : Info) : (s.header parser).length = 9 := by
  unfold Context.header
  split <;> rfl

theorem Shows.headersComplete {s s' : Context} {b : Block} {parser : Info} (h : Shows s b)
    (hstep : s.headersComplete parser = some s') : Shows s' b := by
  rw [Context.headersComplete, Option.map_eq_some_iff] at hstep
  obtain ⟨w, hcopy, rfl⟩ := hstep
  have hbefore : 0 + (s.header parser).length ≤ STRING_OFFSET := by
    rw [length_header]
    decide
  refine ⟨h.soff, ?_, h.urllength, h.headerLength, h.lastel⟩
  exact (slice_writeAt_after (memcpy_eq_some_iff.mp hcopy) hbefore).trans h.text

/-- `message_begin_cb` forgets all that was there before. -/
theorem shows_messageBegin (s : Context) : Shows s.messageBegin {} :=
  ⟨rfl, by rw [List.length_nil, slice_zero], rfl, rfl, rfl⟩

/-- The buffer and the block stay together. -/
theorem step_tracks {s s' : Context} {b : Option Block} {cb : Callback} (h : Tracks s b)
    (hstep : step s cb = some s') : Tracks s' (Block.next b cb) := by
  cases b with
  | none =>
    cases cb with
    | messageBegin =>
      cases hstep
      exact shows_messageBegin s
    | _ => trivial
  | some b =>
    have h : Shows s b := h
    cases cb with
    | messageBegin =>
      cases hstep
      exact shows_messageBegin s
    | url buf => exact h.url hstep
    | headerField buf =>
      rw [step, headerField_eq, h.lastel] at hstep
      exact h.element hstep
    | headerValue buf =>
      rw [step, headerValue_eq, h.lastel] at hstep
      exact h.element hstep
    | headersComplete parser => exact h.headersComplete hstep
    -- a body ends the head: nothing is claimed until the next message
    | body buf => trivial
    | messageComplete =>
      cases hstep
      exact h

theorem run_tracks {s t : Context} {b : Option Block} {cbs : List Callback} (h : Tracks s b)
    (hrun : run step s cbs = some t) : Tracks t (cbs.foldl Block.next b) := by
  induction cbs generalizing s b with
  | nil =>
    cases hrun
    exact h
  | cons cb cbs ih =>
    obtain ⟨s', hstep, hrun⟩ := run_cons_eq_some.mp hrun
    exact ih (step_tracks h hstep) hrun

/-! ### Callbacks that stay inside the buffer -/

/-- The callbacks from the url to the end of the headers. -/
def Callback.inHead : Callback → Bool
  | .url _ | .headerField _ | .headerValue _ | .headersComplete _ => true
  | _ => false

/-- In the head of a message a block only grows. -/
theorem next_grows (b : Block) {cb : Callback} (h : cb.inHead = true) :
    ∃ b', Block.next (some b) cb = some b' ∧ b.text.length ≤ b'.text.length := by
  cases cb with
  | url buf =>
    refine ⟨b.url buf, rfl, ?_⟩
    simp [Block.url]
  | headerField buf =>
    refine ⟨b.element .field buf, rfl, ?_⟩
    simp [Block.element]
  | headerValue buf =>
    refine ⟨b.element .value buf, rfl, ?_⟩
    simp [Block.element]
  | headersComplete parser => exact ⟨b, rfl, Nat.le_refl _⟩
  | _ => contradiction

theorem foldl_grows {b b' : Block} {cbs : List Callback} (hhead : ∀ cb ∈ cbs, cb.inHead = true)
    (hb : cbs.foldl Block.next (some b) = some b') : b.text.length ≤ b'.text.length := by
  induction cbs generalizing b with
  | nil =>
    cases hb
    exact Nat.le_refl _
  | cons cb cbs ih =>
    obtain ⟨b₁, hnext, hle⟩ := next_grows b (hhead cb List.mem_cons_self)
    rw [List.foldl_cons, hnext] at hb
    exact hle.trans (ih (fun c hc => hhead c (List.mem_cons_of_mem cb hc)) hb)

theorem exists_step {s : Context} {b b' : Block} {cb : Callback} (h : Shows s b)
    (hhead : cb.inHead = true) (hb : Block.next (some b) cb = some b')
    (hfit : STRING_OFFSET + b'.text.length ≤ s.buf.bytes.length) : ∃ s', step s cb = some s' := by
  have hmap : ∀ {off : Nat} {xs : List UInt8} {f : Work → Context},
      off + xs.length ≤ s.buf.bytes.length → ∃ s', (s.buf.memcpy off xs).map f = some s' := by
    intro off xs f hfits
    obtain ⟨w, hcopy⟩ := exists_memcpy hfits
    rw [hcopy]
    exact ⟨f w, rfl⟩
  -- every callback is one `memcpy`, and it stays in the buffer when the text does
  have hsoff := h.soff
  cases cb with
  | url buf =>
    cases hb
    refine hmap ?_
    simp only [Block.url, List.length_append] at hfit
    omega
  | headerField buf =>
    cases hb
    rw [step, headerField_eq, h.lastel]
    refine hmap ?_
    simp only [Block.element, List.length_append] at hfit ⊢
    omega
  | headerValue buf =>
    cases hb
    rw [step, headerValue_eq, h.lastel]
    refine hmap ?_
    simp only [Block.element, List.length_append] at hfit ⊢
    omega
  | headersComplete parser =>
    refine hmap ?_
    rw [length_header]
    unfold STRING_OFFSET at hfit
    omega
  | _ => contradiction

/-- A head whose block fits the work buffer can be taken in. -/
theorem exists_run {s : Context} {b b' : Block} {cbs : List Callback} (h : Shows s b)
    (hhead : ∀ cb ∈ cbs, cb.inHead = true) (hb : cbs.foldl Block.next (some b) = some b')
    (hfit : STRING_OFFSET + b'.text.length ≤ s.buf.bytes.length) :
    ∃ t, run step s cbs = some t := by
  induction cbs generalizing s b with
  | nil => exact ⟨s, rfl⟩
  | cons cb cbs ih =>
    have hrest : ∀ c ∈ cbs, c.inHead = true := fun c hc => hhead c (List.mem_cons_of_mem cb hc)
    have hcb := hhead cb List.mem_cons_self
    obtain ⟨b₁, hnext, -⟩ := next_grows b hcb
    rw [List.foldl_cons, hnext] at hb
    have hgrows := foldl_grows hrest hb
    obtain ⟨s', hstep⟩ := exists_step h hcb hnext (by omega)
    have htracks : Tracks s' (Block.next (some b) cb) := step_tracks (b := some b) h hstep
    rw [hnext] at htracks
    obtain ⟨t, hrun⟩ := ih htracks hrest hb (by rw [step_length hstep]; exact hfit)
    exact ⟨t, run_cons_eq_some.mpr ⟨s', hstep, hrun⟩⟩

/-! ### Messages -/

/-- A header, as it is cut into fragments. -/
structure Header where
  field : List (List UInt8)
  value : List (List UInt8)
  field_ne : field ≠ []
  value_ne : value ≠ []

/-- The head of a message, as it is cut into fragments. -/
structure Message where
  url : List (List UInt8)
  headers : List Header
  parser : Info

/-- `field: value` -/
def Header.text (h : Header) : List UInt8 := h.field.flatten ++ (colon ++ h.value.flatten)

/-- The headers, joined by `"\r\n"`. -/
def Message.headerBlock (m : Message) : List UInt8 := crlf.intercalate (m.headers.map Header.text)

/-- The canonical block. -/
def Message.block (m : Message) : List UInt8 := m.url.flatten ++ m.headerBlock

/-- The callbacks for a header. -/
def Header.callbacks (h : Header) : List Callback :=
  h.field.map .headerField ++ h.value.map .headerValue

/-- The callbacks for a message, up to its body. -/
def Message.head (m : Message) : List Callback :=
  .messageBegin :: (m.url.map .url ++ m.headers.flatMap Header.callbacks ++
    [.headersComplete m.parser])

theorem foldl_url (b : Block) (bufs : List (List UInt8)) :
    (bufs.map Callback.url).foldl Block.next (some b) = some (b.url bufs.flatten) := by
  induction bufs generalizing b with
  | nil => simp [Block.url]
  | cons buf bufs ih =>
    rw [List.map_cons, List.foldl_cons]
    show (bufs.map Callback.url).foldl Block.next (some (b.url buf)) = _
    rw [ih]
    simp [Block.url, Nat.add_assoc]

/-- Fragments of one kind are one element. -/
theorem foldl_element {el : HeaderElementType} {cb : List UInt8 → Callback}
    (hcb : ∀ b buf, Block.next (some b) (cb buf) = some (b.element el buf))
    (hself : separator el el = []) (b : Block) {bufs : List (List UInt8)} (hne : bufs ≠ []) :
    (bufs.map cb).foldl Block.next (some b) = some (b.element el bufs.flatten) := by
  induction bufs generalizing b with
  | nil => contradiction
  | cons buf bufs ih =>
    rw [List.map_cons, List.foldl_cons, hcb]
    cases bufs with
    | nil => simp
    | cons buf' bufs =>
      rw [ih _ (List.cons_ne_nil _ _)]
      -- the second fragment finds one of its own kind before it
      simp [Block.element, hself, Nat.add_assoc]

/-- A header, as one element behind the other. -/
def Block.header (b : Block) (h : Header) : Block :=
  (b.element .field h.field.flatten).element .value h.value.flatten

theorem foldl_header (b : Block) (h : Header) :
    h.callbacks.foldl Block.next (some b) = some (b.header h) := by
  rw [Header.callbacks, List.foldl_append,
    foldl_element (fun _ _ => rfl) rfl b h.field_ne,
    foldl_element (fun _ _ => rfl) rfl _ h.value_ne, Block.header]

theorem foldl_headers (b : Block) (hs : List Header) :
    (hs.flatMap Header.callbacks).foldl Block.next (some b) = some (hs.foldl Block.header b) := by
  induction hs generalizing b with
  | nil => rfl
  | cons h hs ih => rw [List.flatMap_cons, List.foldl_append, foldl_header, ih, List.foldl_cons]

/-- A header adds its text, behind `"\r\n"` if there is one before it. -/
theorem header_eq (b : Block) (h : Header) :
    b.header h =
      { b with text := b.text ++ (separator b.lastel .field ++ h.text)
               headerLength := b.headerLength + (separator b.lastel .field ++ h.text).length
               lastel := .value } := by
  have hcolon : separator .field .value = colon := rfl
  simp [Block.header, Block.element, Header.text, hcolon, Nat.add_assoc]

theorem foldl_header_value {b : Block} (hs : List Header) (hlast : b.lastel = .value) :
    hs.foldl Block.header b =
      { b with text := b.text ++ hs.flatMap (crlf ++ ·.text)
               headerLength := b.headerLength + (hs.flatMap (crlf ++ ·.text)).length } := by
  induction hs generalizing b with
  | nil => simp
  | cons h hs ih =>
    have hsep : separator b.lastel .field = crlf := by rw [hlast]; rfl
    rw [List.foldl_cons, header_eq, ih rfl, hsep]
    simp [hlast, Nat.add_assoc]

theorem intercalate_cons (h : Header) (hs : List Header) :
    crlf.intercalate ((h :: hs).map Header.text) = h.text ++ hs.flatMap (crlf ++ ·.text) := by
  induction hs generalizing h with
  | nil => simp
  | cons h' hs ih =>
    rw [List.map_cons, List.map_cons, List.intercalate_cons_cons, ← List.map_cons, ih,
      List.flatMap_cons, List.append_assoc, List.append_assoc]

/-- The callbacks for a message give its block, whatever was there before. -/
theorem head_block (m : Message) (b : Option Block) :
    ∃ lastel, m.head.foldl Block.next b =
      some { text := m.block, urlLength := m.url.flatten.length,
             headerLength := m.headerBlock.length, lastel := lastel } := by
  have hbegin : Block.next b .messageBegin = some {} := by cases b <;> rfl
  rw [Message.head, List.foldl_cons, hbegin, List.foldl_append, List.foldl_append, foldl_url,
    foldl_headers, Message.block, Message.headerBlock]
  cases m.headers with
  | nil => exact ⟨.none, by simp [Block.next, Block.url]⟩
  | cons h hs =>
    refine ⟨.value, ?_⟩
    show some (hs.foldl Block.header (Block.header (Block.url {} m.url.flatten) h)) = _
    rw [header_eq, foldl_header_value hs rfl, intercalate_cons]
    simp [Block.url, separator]

theorem inHead_of_mem {m : Message} {cb : Callback} (h : cb ∈ m.head.tail) :
    cb.inHead = true := by
  rw [Message.head, List.tail_cons, List.mem_append, List.mem_append, List.mem_flatMap] at h
  obtain (h | ⟨header, -, h⟩) | h := h
  · obtain ⟨buf, -, rfl⟩ := List.mem_map.mp h
    rfl
  · obtain h | h := List.mem_append.mp h
    · obtain ⟨buf, -, rfl⟩ := List.mem_map.mp h
      rfl
    · obtain ⟨buf, -, rfl⟩ := List.mem_map.mp h
      rfl
  · obtain rfl := List.mem_singleton.mp h
    rfl

/-- A message whose block fits can be taken in, in any state. -/
theorem exists_run_head {s : Context} {m : Message}
    (hfit : STRING_OFFSET + m.block.length ≤ s.buf.bytes.length) :
    ∃ t, run step s m.head = some t := by
  obtain ⟨lastel, hblock⟩ := head_block m none
  obtain ⟨t, hrun⟩ := exists_run (shows_messageBegin s) (fun _ => inHead_of_mem) hblock hfit
  have hbegin : step s .messageBegin = some s.messageBegin := rfl
  exact ⟨t, run_cons_eq_some.mpr ⟨_, hbegin, hrun⟩⟩

/-- Then the work buffer shows its block. -/
theorem head_shows {s t : Context} {m : Message} (h : run step s m.head = some t) :
    ∃ lastel, Shows t
      { text := m.block, urlLength := m.url.flatten.length,
        headerLength := m.headerBlock.length, lastel := lastel } := by
  obtain ⟨lastel, hblock⟩ := head_block m none
  have htracks := run_tracks (b := none) trivial h
  rw [hblock] at htracks
  exact ⟨lastel, htracks⟩

/-- **The header block is canonical.**  After any callbacks, those for a message whose block
    fits put exactly its block behind `STRING_OFFSET`. -/
theorem block_canonical {s₀ s : Context} {before : List Callback} {m : Message}
    (h : run step s₀ before = some s)
    (hfit : STRING_OFFSET + m.block.length ≤ s.buf.bytes.length) :
    ∃ t, run step s₀ (before ++ m.head) = some t ∧
      t.soff.toNat = STRING_OFFSET + m.block.length ∧
      slice t.buf.bytes STRING_OFFSET (t.soff.toNat - STRING_OFFSET) = m.block := by
  obtain ⟨t, hrun⟩ := exists_run_head hfit
  obtain ⟨lastel, hshows⟩ := head_shows hrun
  refine ⟨t, ?_, hshows.soff, ?_⟩
  · rw [run_append, h]
    exact hrun
  · rw [hshows.soff, Nat.add_sub_cancel_left]
    exact hshows.text

/-- `GET /` with the header `a: b`, cut between the bytes of the value and around an empty
    fragment. -/
def getRoot : Message where
  url := [[47]]
  headers := [⟨[[97]], [[], [98]], by decide, by decide⟩]
  parser := ⟨1, 1, 1, false, 0, true⟩

/-- A parser with a work buffer of 24 bytes. -/
def fresh : Context := { buf := ⟨List.replicate 24 0, by decide⟩, onBody := true }

/-- A body has been copied over the block of a message before. -/
theorem block_canonical_getRoot :
    ∃ t, run step fresh ([.messageBegin, .url [47, 47], .body [1, 2]] ++ getRoot.head) = some t ∧
      t.soff.toNat = STRING_OFFSET + getRoot.block.length ∧
      slice t.buf.bytes STRING_OFFSET (t.soff.toNat - STRING_OFFSET) = getRoot.block := by
  have hbefore : run step fresh [.messageBegin, .url [47, 47], .body [1, 2]] =
      some { fresh with
        buf := ⟨[1, 2] ++ List.replicate 14 0 ++ [47, 47] ++ List.replicate 6 0, by decide⟩
        request := { urllength := 2 }
        soff := 18 } := by decide +kernel
  exact block_canonical hbefore (by decide)

end Dv8.Http
