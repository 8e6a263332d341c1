import Dv8.Http.Block
import Dv8.Http.Pause

namespace Dv8.Http

open Dv8.Lib

/-!
# Copies inside the work buffer

`Setup` stores `workBufferLength`, and nothing ever looks at it.  The callbacks copy what the peer
has sent to `context->buf + context->soff`, a body to the start of the buffer, and
`headers_complete_cb` writes nine bytes there, whatever the length of the buffer is.

* `Context.copies` — the copies of a callback;
* `callbacks` — the callbacks of a sequence of reads, through any `http_parser`;
* `Text` — how far the text of a message reaches, from the callbacks alone;
* `staysInside_iff` — every copy is inside the buffer exactly when the text of each message, its
  header and the pieces of its body are short enough.
-/

variable {σ : Type*}

/-- The copies of a callback into the work buffer: where each begins and how many bytes it has. -/
def Context.copies (s : Context) : Callback → List (Nat × Nat)
  | .url buf => [(s.soff.toNat, buf.length)]
  | .headerField buf =>
    -- CRLF goes first
    if s.request.lastel = .value then [(s.soff.toNat, 2), (s.soff.toNat + 2, buf.length)]
    else [(s.soff.toNat, buf.length)]
  | .headerValue buf =>
    -- a colon and a blank go first
    if s.request.lastel ≠ .value then [(s.soff.toNat, 2), (s.soff.toNat + 2, buf.length)]
    else [(s.soff.toNat, buf.length)]
  | .headersComplete _ => [(0, 9)]
  | .body buf => if 0 < buf.length ∧ s.onBody then [(0, buf.length)] else []
  | .messageBegin | .messageComplete => []

/-- Every copy of the callback falls inside the work buffer. -/
def Inside (s : Context) (cb : Callback) : Prop :=
  ∀ c ∈ s.copies cb, c.1 + c.2 ≤ s.buf.bytes.length

instance (s : Context) (cb : Callback) : Decidable (Inside s cb) :=
  inferInstanceAs (Decidable (∀ _ ∈ _, _))

/-- The callbacks of a read: those `http_parser` makes, up to the first that pauses it and to the
    first copy that leaves the buffer. -/
def madeBy (on : Callbacks) (pauses : List JsCall → Bool) (g : Progress) :
    List (Made σ) → List Callback
  | [] => []
  | m :: made => m.cb :: (step g.context m.cb).elim [] fun s =>
      match on.call s m.cb with
      | none => madeBy on pauses { g with context := s } made
      | some call =>
        if pauses (g.seen ++ [call]) then [] else madeBy on pauses ⟨s, g.seen ++ [call]⟩ made

/-- A read, as a step of the parser. -/
def HTTPParser.step (p : HttpParser σ) (pauses : List JsCall → Bool) (s : HTTPParser σ)
    (r : Read) : Option (HTTPParser σ) := (s.read p pauses r).map Prod.fst

/-- The callbacks of one read. -/
def HTTPParser.made (p : HttpParser σ) (pauses : List JsCall → Bool) (s : HTTPParser σ)
    (r : Read) : List Callback :=
  madeBy s.callbacks pauses s.progress (p.execute s.parser r.data).made

/-- The callbacks of a sequence of reads. -/
def callbacks (p : HttpParser σ) (pauses : List JsCall → Bool) :
    HTTPParser σ → List Read → List Callback
  | _, [] => []
  | s, r :: reads => s.made p pauses r ++ (s.step p pauses r).elim [] fun s' =>
      callbacks p pauses s' reads

/-- In every read of the sequence, every copy of every callback falls inside the work buffer. -/
def StaysInside (p : HttpParser σ) (pauses : List JsCall → Bool) (s : HTTPParser σ)
    (reads : List Read) : Prop :=
  Along (HTTPParser.step p pauses)
    (fun s r => Along Http.step Inside s.progress.context (s.made p pauses r)) s reads

/-! ### The text of a message -/

/-- How far the text of a message reaches in the work buffer, and what its last element is. -/
structure Text where
  reach : Nat
  lastel : HeaderElementType
  deriving DecidableEq, Repr

/-- What a callback adds to the text; trailers add to it like headers. -/
def Text.next (t : Text) : Callback → Text
  | .messageBegin => ⟨STRING_OFFSET, .none⟩
  | .url buf => { t with reach := t.reach + buf.length }
  | .headerField buf => ⟨t.reach + (separator t.lastel .field).length + buf.length, .field⟩
  | .headerValue buf => ⟨t.reach + (separator t.lastel .value).length + buf.length, .value⟩
  | .headersComplete _ | .body _ | .messageComplete => t

/-- A buffer of this length has room for what the callback brings. -/
def Text.Fits (length : Nat) (onBody : Bool) (t : Text) (cb : Callback) : Prop :=
  match cb with
  | .url _ | .headerField _ | .headerValue _ => (t.next cb).reach ≤ length
  | .headersComplete _ => 9 ≤ length
  | .body buf => onBody = true → buf.length ≤ length
  | .messageBegin | .messageComplete => True

/-- It has room for all that the callbacks bring. -/
def FitsAll (length : Nat) (onBody : Bool) : Text → List Callback → Prop
  | _, [] => True
  | t, cb :: cbs => t.Fits length onBody cb ∧ FitsAll length onBody (t.next cb) cbs

/-- The text in the work buffer. -/
def Context.text (s : Context) : Text := ⟨s.soff.toNat, s.request.lastel⟩

/-! ### One callback -/

/-- A separator and a piece make one range. -/
private theorem copies_element (soff len length : Nat) (P : Prop) [Decidable P] (sep : List UInt8)
    (hsep : sep.length = if P then 2 else 0) :
    (∀ c ∈ (if P then [(soff, 2), (soff + 2, len)] else [(soff, len)]), c.1 + c.2 ≤ length) ↔
      soff + sep.length + len ≤ length := by
  rw [hsep]
  split_ifs with h
  · simp only [List.mem_cons, List.not_mem_nil, or_false, forall_eq_or_imp, forall_eq]
    omega
  · simp

/-- **The copies of a callback are inside the buffer** exactly when what it brings fits. -/
theorem inside_iff (s : Context) (cb : Callback) :
    Inside s cb ↔ s.text.Fits s.buf.bytes.length s.onBody cb := by
  cases cb with
  | messageBegin => exact iff_of_true nofun trivial
  | url buf => simp [Inside, Context.copies, Text.Fits, Text.next, Context.text]
  | headerField buf =>
    refine copies_element _ _ _ _ (separator s.request.lastel .field) ?_
    cases s.request.lastel <;> rfl
  | headerValue buf =>
    refine copies_element _ _ _ _ (separator s.request.lastel .value) ?_
    cases s.request.lastel <;> rfl
  | headersComplete parser => simp [Inside, Context.copies, Text.Fits]
  | body buf =>
    simp only [Inside, Context.copies, Text.Fits]
    cases hbody : s.onBody with
    | false => simp
    | true =>
      by_cases hpos : 0 < buf.length
      · simp [hpos]
      · have hzero : buf.length = 0 := by omega
        simp [hzero]
  | messageComplete => exact iff_of_true nofun trivial

/-- A fragment with its separator, where there is room for both. -/
private theorem exists_element {s : Context} {sep buf : List UInt8} {el : HeaderElementType}
    (h : s.soff.toNat + sep.length + buf.length ≤ s.buf.bytes.length) :
    ∃ s', s.element sep el buf = some s' ∧
      s'.text = ⟨s.soff.toNat + sep.length + buf.length, el⟩ ∧ s'.onBody = s.onBody := by
  have hsmall := s.buf.small
  have hfit : s.soff.toNat + (sep ++ buf).length ≤ s.buf.bytes.length := by
    rw [List.length_append]
    omega
  obtain ⟨work, hcopy⟩ := exists_memcpy hfit
  rw [Context.element, hcopy]
  refine ⟨_, rfl, ?_, rfl⟩
  -- inside the buffer `soff` does not wrap
  show Text.mk (s.soff + UInt32.ofNat sep.length + UInt32.ofNat buf.length).toNat el = _
  rw [UInt32.toNat_add, UInt32.toNat_add, UInt32.toNat_ofNat', UInt32.toNat_ofNat']
  congr 1
  omega

/-- A callback whose copies are inside the buffer can be made, and leaves the text it adds to. -/
theorem step_of_inside {s : Context} {cb : Callback} (h : Inside s cb) :
    ∃ s', step s cb = some s' ∧ s'.text = s.text.next cb ∧ s'.onBody = s.onBody := by
  rw [inside_iff] at h
  have hsmall := s.buf.small
  cases cb with
  | messageBegin => exact ⟨_, rfl, rfl, rfl⟩
  | url buf =>
    have hfit : s.soff.toNat + buf.length ≤ s.buf.bytes.length := h
    obtain ⟨work, hcopy⟩ := exists_memcpy hfit
    rw [step, Context.url, hcopy]
    refine ⟨_, rfl, ?_, rfl⟩
    show Text.mk (s.soff + UInt32.ofNat buf.length).toNat _ = ⟨s.soff.toNat + buf.length, _⟩
    rw [UInt32.toNat_add, UInt32.toNat_ofNat']
    congr 1
    omega
  | headerField buf =>
    rw [step, headerField_eq]
    exact exists_element h
  | headerValue buf =>
    rw [step, headerValue_eq]
    exact exists_element h
  | headersComplete parser =>
    have hfit : 0 + (s.header parser).length ≤ s.buf.bytes.length := by
      rw [length_header, Nat.zero_add]
      exact h
    obtain ⟨work, hcopy⟩ := exists_memcpy hfit
    rw [step, Context.headersComplete, hcopy]
    exact ⟨_, rfl, rfl, rfl⟩
  | body buf =>
    rw [step, Context.body]
    split
    · rename_i hbody
      have hfit : 0 + buf.length ≤ s.buf.bytes.length := by
        rw [Nat.zero_add]
        exact h hbody.2
      obtain ⟨work, hcopy⟩ := exists_memcpy hfit
      rw [hcopy]
      exact ⟨_, rfl, rfl, rfl⟩
    · exact ⟨_, rfl, rfl, rfl⟩
  | messageComplete => exact ⟨_, rfl, rfl, rfl⟩

/-! ### All callbacks -/

/-- **The callbacks of a connection** copy inside the buffer exactly when it has room for all
    they bring. -/
theorem along_inside_iff (s : Context) (cbs : List Callback) :
    Along step Inside s cbs ↔ FitsAll s.buf.bytes.length s.onBody s.text cbs := by
  induction cbs generalizing s with
  | nil => exact Iff.rfl
  | cons cb cbs ih =>
    rw [Along, FitsAll, ← inside_iff]
    refine and_congr_right fun hinside => ?_
    -- what is inside can be made, and both sides go on behind it
    obtain ⟨s', hstep, htext, hbody⟩ := step_of_inside hinside
    rw [← htext, ← hbody, ← step_length hstep, ← ih]
    constructor
    · exact fun h => h s' hstep
    · intro h t ht
      rw [hstep] at ht
      cases ht
      exact h

/-- `http_parser_execute` makes its callbacks one after the other. -/
theorem firstPause_context (on : Callbacks) (pauses : List JsCall → Bool) (g : Progress)
    (made : List (Made σ)) :
    (firstPause on pauses g made).map (fun r => r.1.context) =
      run step g.context (madeBy on pauses g made) := by
  induction made generalizing g with
  | nil => rfl
  | cons m made ih =>
    rw [firstPause, madeBy, run_cons]
    cases hstep : step g.context m.cb with
    | none => rfl
    | some s =>
      cases hcall : on.call s m.cb with
      | none =>
        simp only [Option.bind_some, Option.elim_some, hcall]
        exact ih _
      | some call =>
        simp only [Option.bind_some, Option.elim_some, hcall]
        split
        · rfl
        · exact ih _

/-- What a read leaves of the context. -/
theorem step_context (p : HttpParser σ) (pauses : List JsCall → Bool) (s : HTTPParser σ)
    (r : Read) :
    (s.step p pauses r).map (fun s' => s'.progress.context) =
      run step s.progress.context (s.made p pauses r) := by
  rw [HTTPParser.made, ← firstPause_context, HTTPParser.step, HTTPParser.read, Option.map_map,
    Option.map_map]
  congr 1
  funext ⟨g, stop⟩
  cases stop <;> simp

/-- The reads of a connection, as one sequence of callbacks. -/
theorem staysInside_iff_along (p : HttpParser σ) (pauses : List JsCall → Bool)
    (s : HTTPParser σ) (reads : List Read) :
    StaysInside p pauses s reads ↔
      Along step Inside s.progress.context (callbacks p pauses s reads) := by
  induction reads generalizing s with
  | nil => exact Iff.rfl
  | cons r reads ih =>
    have hread := step_context p pauses s r
    rw [StaysInside, Along, callbacks, along_append]
    refine and_congr_right fun _ => ?_
    constructor
    · intro h t ht
      rw [ht, Option.map_eq_some_iff] at hread
      obtain ⟨s', hs', rfl⟩ := hread
      rw [hs']
      exact (ih s').mp (h s' hs')
    · intro h s' hs'
      rw [hs'] at hread h
      exact (ih s').mpr (h _ hread.symm)

/-- **Every copy stays inside the work buffer exactly when there is room for all that comes**: the
    text of each message behind the first 16 bytes, nine bytes once its headers are complete, and
    every piece of its body when there is an `onBody`. -/
theorem staysInside_iff (p : HttpParser σ) (pauses : List JsCall → Bool) (s : HTTPParser σ)
    (reads : List Read) :
    StaysInside p pauses s reads ↔
      FitsAll s.progress.context.buf.bytes.length s.progress.context.onBody
        s.progress.context.text (callbacks p pauses s reads) := by
  rw [staysInside_iff_along, along_inside_iff]

/-- A parser for requests with a work buffer of 16 bytes. -/
def smallServer : HTTPParser Bool :=
  ⟨false, ⟨true, true, true⟩, ⟨{ buf := ⟨List.replicate 16 0, by decide⟩ }, []⟩, 0, []⟩

/-- **The url of `GET /` is written behind a buffer of 16 bytes.** -/
theorem not_staysInside_get :
    ¬ StaysInside gets (fun _ => false) smallServer [.execute get] := by
  intro h
  have hmade : smallServer.made gets (fun _ => false) (.execute get) =
      [.messageBegin, .url [0x2f]] := by decide
  have hread : Along step Inside smallServer.progress.context
      (smallServer.made gets (fun _ => false) (.execute get)) := h.1
  rw [hmade] at hread
  have hurl := (hread.2 _ rfl).1 (16, 1) List.mem_cons_self
  exact absurd hurl (by decide)

end Dv8.Http
