import Dv8.Http.StartLine

namespace Dv8.Http

open Dv8.Lib

/-!
# Headers

Lines of the form `name: value`, and what the parser makes of them.

* `LineStart` — the parser at the start of a line; only the first byte of the line ends the
  header in front of it, and an empty value is called back there;
* `Reads` — the parser reads the lines of these headers, with one callback for each name and one
  for each value, and `g` is their effect on what it knows about the message;
* `reads_plain` — a header that means nothing to the parser has no effect;
* `reads_connection`, `reads_contentLength`, `reads_chunked` — the effects of the others.
-/

variable {c c' d q : Core} {xs ys : List UInt8} {cbs owed : List Callback} {ch : UInt8}

/-- A header as it is written. -/
structure Field where
  name : List UInt8
  value : List UInt8
  deriving DecidableEq, Repr

def Field.line (f : Field) : List UInt8 := f.name ++ colon ++ f.value ++ crlf

def Field.callbacks (f : Field) : List Callback := [.headerField f.name, .headerValue f.value]

/-- What the parser knows about the message, whichever header it is at. -/
def Core.message (c : Core) : Core :=
  { c with state := .headerFieldStart, headerState := .general, index := 0 }

theorem Core.Live.message (h : c.Live) (hm : c'.message = c.message) : c'.Live :=
  ⟨(congrArg Core.httpErrno hm).trans h.errno, (congrArg Core.upgrade hm).trans h.upgrade⟩

theorem Core.Live.updateState (h : c.Live) (s : State) : (c.updateState s).Live :=
  ⟨h.errno, h.upgrade⟩

/-! ### The start of a line -/

/-- `c` stands at the start of a line, as `d` behind what the header in front of it was for, and
    `owed` is called back with the first byte. -/
inductive LineStart : Core → Core → List Callback → Prop
  | start (c : Core) (hs : c.state = .headerFieldStart) : LineStart c c []
  | behind (c : Core) (hs : c.state = .headerValueLws) :
    LineStart c (c.headerEnd.updateState .headerFieldStart) []
  | empty (c : Core) (hs : c.state = .headerValueDiscardLws) :
    LineStart c (c.headerEnd.updateState .headerFieldStart) [.headerValue []]

theorem headerEnd_live (h : c.Live) : c.headerEnd.Live := by
  unfold Core.headerEnd
  split <;> exact ⟨h.errno, h.upgrade⟩

theorem LineStart.live (h : LineStart c d owed) (hl : c.Live) : d.Live := by
  cases h with
  | start => exact hl
  | behind hs => exact (headerEnd_live hl).updateState _
  | empty hs => exact (headerEnd_live hl).updateState _

theorem headerEnd_updateState (c : Core) (s : State) :
    (c.updateState s).headerEnd = c.headerEnd.updateState s := by
  unfold Core.headerEnd Core.updateState
  dsimp only
  split <;> rfl

/-- What the first letter of a field may be the start of. -/
def HeaderState.ofFirst (ch : UInt8) : HeaderState :=
  if token ch = chr 'c' then .C
  else if token ch = chr 'p' then .matchingProxyConnection
  else if token ch = chr 't' then .matchingTransferEncoding
  else if token ch = chr 'u' then .matchingUpgrade
  else .general

/-- The parser behind the first letter of a field. -/
def Core.begun (c : Core) (ch : UInt8) : Core :=
  { c with index := 0, state := .headerField, headerState := .ofFirst ch }

/-- A letter of a token. -/
def IsLetter (ch : UInt8) : Prop := tokens ch ≠ 0

instance (ch : UInt8) : Decidable (IsLetter ch) := inferInstanceAs (Decidable (_ ≠ _))

theorem IsLetter.ne (h : IsLetter ch) {b : UInt8} (hb : tokens b = 0) : ch ≠ b := by
  rintro rfl
  exact h hb

theorem IsLetter.token (h : IsLetter ch) : token ch = tokens ch :=
  if_neg (h.ne (by decide))

theorem headerFieldStart_letter (h : IsLetter ch) :
    d.headerFieldStart ch = .mark .headerField (.next (d.begun ch)) := by
  have htoken : token ch ≠ 0 := by
    rw [h.token]
    exact h
  unfold Core.headerFieldStart
  rw [if_neg (h.ne (by decide)), if_neg (h.ne (by decide)), if_neg htoken]
  rfl

/-- The first letter of a field. -/
theorem LineStart.first (h : LineStart c d owed) (hl : c.Live) (hch : IsLetter ch) :
    c.Runs [ch] (owed ++ [.headerField [ch]]) (d.begun ch) := by
  have hblank : ¬ ((decide (ch = chr ' ') || decide (ch = chr '\t')) = true) := by
    have hspace := hch.ne (b := chr ' ') (by decide)
    have htab := hch.ne (b := chr '\t') (by decide)
    simp [hspace, htab]
  have hl' : (d.begun ch).Live := ⟨(h.live hl).errno, (h.live hl).upgrade⟩
  cases h with
  | start hs =>
    refine runs_mark (k := .headerField) hl (by rw [hs]; rfl) (by rw [hs]; rfl) ?_ hl'
    simp only [Core.switch, hs]
    exact headerFieldStart_letter hch
  | behind hs =>
    refine runs_mark (k := .headerField) hl (by rw [hs]; rfl) (by rw [hs]; rfl) ?_ hl'
    simp only [Core.switch, hs]
    exact (if_neg hblank).trans (headerFieldStart_letter hch)
  | empty hs =>
    refine runs_empty_mark (d := c.headerEnd.updateState .headerFieldStart) hl
      (by rw [hs]; rfl) (by rw [hs]; rfl) ?_ hl'
    simp only [Core.switch, hs]
    unfold Core.headerValueDiscardLws
    rw [if_neg hblank]
    dsimp only
    rw [headerFieldStart_letter hch]

/-- The end of the head. -/
theorem LineStart.last (h : LineStart c d owed) (hl : c.Live) :
    c.Runs [CR] owed (d.updateState .headersAlmostDone) := by
  have hl' := (h.live hl).updateState .headersAlmostDone
  cases h with
  | start hs =>
    refine runs_next hl (by rw [hs]; rfl) (by rw [hs]; rfl) ?_ hl'
    simp only [Core.switch, hs]
    rfl
  | behind hs =>
    refine runs_next hl (by rw [hs]; rfl) (by rw [hs]; rfl) ?_ hl'
    simp only [Core.switch, hs]
    rfl
  | empty hs =>
    refine runs_empty (d := c.headerEnd.updateState .headerFieldStart) hl (by rw [hs]; rfl)
      (by rw [hs]; rfl) ?_ hl'
    simp only [Core.switch, hs]
    rfl

/-! ### Names -/

/-- A step changes nothing but what is about the header. -/
theorem fieldStep_message {tok : UInt8} (h : c.fieldStep ch tok = some c') :
    c'.message = c.message ∧ c'.state = c.state := by
  unfold Core.fieldStep at h
  split at h <;> first
    | (cases h; exact ⟨rfl, rfl⟩)
    | (cases h; split <;> exact ⟨rfl, rfl⟩)
    | cases h

/-- The letters of a name behind the first. -/
theorem runs_letters_field (hs : c.state = .headerField) (hl : c.Live)
    (hletters : ∀ b ∈ xs, IsLetter b) (h : c.fieldLoop xs = some (q, xs.length))
    (x : List UInt8) :
    ∃ cbs, c.Runs xs cbs q ∧ pieces.gather (.headerField x :: cbs) = [.headerField (x ++ xs)] ∧
      q.message = c.message ∧ q.state = .headerField := by
  induction xs generalizing c x with
  | nil =>
    obtain rfl : c = q := congrArg Prod.fst (Option.some.inj h)
    exact ⟨[], .refl c, by rw [List.append_nil]; rfl, rfl, hs⟩
  | cons ch xs ih =>
    have hch := hletters ch List.mem_cons_self
    have htoken : token ch ≠ 0 := by
      rw [hch.token]
      exact hch
    unfold Core.fieldLoop at h
    rw [if_neg htoken] at h
    obtain ⟨c', hstep, hrest⟩ := Option.bind_eq_some_iff.mp h
    obtain ⟨⟨q', n⟩, hloop, heq⟩ := Option.map_eq_some_iff.mp hrest
    obtain ⟨rfl, hn⟩ : q' = q ∧ n = xs.length := by simpa using heq
    rw [hn] at hloop
    obtain ⟨hmessage, hstate⟩ := fieldStep_message hstep
    have hl' := hl.message hmessage
    obtain ⟨cbs, hruns, hcbs, hq, hqs⟩ := ih (hstate.trans hs) hl'
      (fun b hb => hletters b (List.mem_cons_of_mem _ hb)) hloop (x ++ [ch])
    have hfirst : c.Runs [ch] [.headerField [ch]] c' := by
      refine runs_loop (k := .headerField) hl (by rw [hs]; rfl) (by rw [hs]; rfl) ?_ hl'
      simp only [Core.switch, hs]
      unfold Core.headerField Core.fieldLoop
      rw [if_neg htoken, hstep]
      rfl
    refine ⟨.headerField [ch] :: cbs, hfirst.cons hruns, ?_, hq.trans hmessage, hqs⟩
    -- the callback for the letter joins the one for the letters in front
    rw [gather_joined (j := pieces) (z := .headerField (x ++ [ch])) rfl, hcbs, List.append_assoc,
      List.singleton_append]

/-- A name and the colon behind it; `q` is what the loop in `s_header_field` leaves. -/
theorem LineStart.name (h : LineStart c d owed) (hl : c.Live)
    (hletters : ∀ b ∈ ch :: xs, IsLetter b)
    (hloop : (d.begun ch).fieldLoop xs = some (q, xs.length)) :
    c.Runs (ch :: xs ++ [chr ':']) (owed ++ [.headerField (ch :: xs)])
      (q.updateState .headerValueDiscardWs) ∧ q.message = d.message := by
  have hl' : (d.begun ch).Live := (h.live hl).message rfl
  obtain ⟨cbs, hrest, hcbs, hmessage, hstate⟩ := runs_letters_field rfl hl'
    (fun b hb => hletters b (List.mem_cons_of_mem _ hb)) hloop [ch]
  have hq : q.Live := hl'.message hmessage
  have hcolon : q.Runs [chr ':'] [.headerField []] (q.updateState .headerValueDiscardWs) := by
    refine runs_field_end (k := .headerField) (d := q) hq (by rw [hstate]; rfl)
      (by rw [hstate]; rfl) ?_ (hq.updateState _)
    simp only [Core.switch, hstate]
    rfl
  refine ⟨?_, hmessage⟩
  refine Core.Runs.congr
    (((h.first hl (hletters ch List.mem_cons_self)).cons hrest).append hcolon) ?_
  rw [List.append_assoc, List.append_assoc]
  refine gather_congr_right ?_ owed
  rw [← List.append_assoc, gather_snoc, List.singleton_append, hcbs]
  show [Callback.headerField ([ch] ++ xs ++ [])] = _
  rw [List.append_nil]
  rfl

/-! ### Values -/

/-- A byte of a value. -/
structure IsPrintable (ch : UInt8) : Prop where
  header : isHeaderChar ch = true
  cr : ch ≠ CR
  lf : ch ≠ LF

instance (ch : UInt8) : Decidable (IsPrintable ch) :=
  decidable_of_iff (isHeaderChar ch = true ∧ ch ≠ CR ∧ ch ≠ LF)
    ⟨fun h => ⟨h.1, h.2.1, h.2.2⟩, fun h => ⟨h.header, h.cr, h.lf⟩⟩

/-- Another byte of a value, when the parser looks for something. -/
theorem runs_value {h : HeaderState} (hs : c.state = .headerValue) (hl : c.Live)
    (hch : IsPrintable ch) (hstep : c.valueStep c.headerState ch = .go c' h)
    (hl' : ({ c' with headerState := h } : Core).Live) :
    c.Runs [ch] [.headerValue [ch]] { c' with headerState := h } := by
  refine runs_loop (k := .headerValue) hl (by rw [hs]; rfl) (by rw [hs]; rfl) ?_ hl'
  simp only [Core.switch, hs]
  unfold Core.headerValue Core.valueLoop
  rw [if_neg hch.cr, if_neg hch.lf, if_neg (by simp [hch.header]), hstep]
  rfl

/-- Another byte of a value, when it does not. -/
theorem runs_value_general (hs : c.state = .headerValue) (hh : c.headerState = .general)
    (hl : c.Live) (hch : IsPrintable ch) : c.Runs [ch] [.headerValue [ch]] c := by
  refine runs_loop (k := .headerValue) hl (by rw [hs]; rfl) (by rw [hs]; rfl) ?_ hl
  have hjump : c.valueJump .general [ch] = ⟨c, .general, 1, .data⟩ := by
    have hnone : (List.take maxHeaderSize [ch]).findIdx? (fun ch => ch = CR || ch = LF) =
        none := by
      rw [show List.take maxHeaderSize [ch] = [ch] from rfl]
      simp [hch.cr, hch.lf]
    unfold Core.valueJump
    rw [hnone]
    rfl
  simp only [Core.switch, hs]
  unfold Core.headerValue Core.valueLoop
  rw [if_neg hch.cr, if_neg hch.lf, if_neg (by simp [hch.header]), hh]
  show ValueLoop.move (c.valueJump .general [ch]) = _
  rw [hjump, ← hh]
  rfl

/-- The end of the line of a value. -/
theorem runs_value_line (hs : c.state = .headerValue) (hl : c.Live) :
    c.Runs crlf [.headerValue []] (c.updateState .headerValueLws) := by
  have hcr : c.Runs [CR] [.headerValue []] (c.updateState .headerAlmostDone) := by
    refine runs_value_end (k := .headerValue) hl (by rw [hs]; rfl) (by rw [hs]; rfl) ?_
      (hl.updateState _)
    simp only [Core.switch, hs]
    rfl
  have hlf : (c.updateState .headerAlmostDone).Runs [LF] [] (c.updateState .headerValueLws) :=
    runs_next (hl.updateState _) rfl rfl rfl (hl.updateState _)
  exact hcr.cons (hlf.cons (.refl _))

/-- The line ends without a value. -/
theorem runs_no_value (hs : c.state = .headerValueDiscardWs) (hl : c.Live) :
    c.Runs crlf [] (c.updateState .headerValueDiscardLws) := by
  have hcr : c.Runs [CR] [] (c.updateState .headerValueDiscardWsAlmostDone) := by
    refine runs_next hl (by rw [hs]; rfl) (by rw [hs]; rfl) ?_ (hl.updateState _)
    simp only [Core.switch, hs]
    rfl
  have hlf : (c.updateState .headerValueDiscardWsAlmostDone).Runs [LF] []
      (c.updateState .headerValueDiscardLws) :=
    runs_next (hl.updateState _) rfl rfl rfl (hl.updateState _)
  exact hcr.cons (hlf.cons (.refl _))

/-! ### Names that mean nothing -/

/-- The names the parser looks for, in lower case. -/
def specialNames : List (List UInt8) :=
  [ascii "connection", ascii "proxy-connection", ascii "content-length",
    ascii "transfer-encoding", ascii "upgrade"]

/-- The letters seen so far are those of `word` up to `index`, and there are more. -/
def SawPart (word : List UInt8) (index : Nat) (seen : List UInt8) : Prop :=
  index + 1 < word.length ∧ seen = word.take (index + 1)

/-- What the state says about the letters seen so far. -/
def HeaderState.Saw (h : HeaderState) (index : Nat) (seen : List UInt8) : Prop :=
  match h with
  | .general => True
  | .C => seen = ascii "c" ∧ index = 0
  | .CO => seen = ascii "co" ∧ index = 1
  | .CON => seen = ascii "con" ∧ index = 2
  | .matchingConnection => SawPart (ascii "connection") index seen
  | .matchingProxyConnection => SawPart (ascii "proxy-connection") index seen
  | .matchingContentLength => SawPart (ascii "content-length") index seen
  | .matchingTransferEncoding => SawPart (ascii "transfer-encoding") index seen
  | .matchingUpgrade => SawPart (ascii "upgrade") index seen
  | .connection | .contentLength | .transferEncoding | .upgrade => seen ∈ specialNames
  | _ => False

theorem saw_matching {word seen : List UInt8} {i : Nat} {this yes : HeaderState} (ch : UInt8)
    (h : SawPart word i seen)
    (hthis : SawPart word (i + 1) (seen ++ [ch]) → this.Saw (i + 1) (seen ++ [ch]))
    (hyes : seen ++ [ch] = word → yes.Saw (i + 1) (seen ++ [ch])) :
    (matching word (i + 1) ch .general this yes).Saw (i + 1) (seen ++ [ch]) := by
  obtain ⟨hlt, rfl⟩ := h
  unfold matching
  split_ifs with hno hlast
  · trivial
  all_goals
    obtain ⟨-, hget⟩ : ¬ word.length < i + 1 ∧ (word ++ [0])[i + 1]? = some ch := by
      simpa using hno
    rw [List.getElem?_append_left hlt, List.getElem?_eq_getElem hlt] at hget
    have htake : word.take (i + 1) ++ [ch] = word.take (i + 1 + 1) := by
      rw [← Option.some.inj hget, List.take_append_getElem]
  · refine hyes ?_
    rw [htake]
    exact List.take_of_length_le (by omega)
  · exact hthis ⟨by omega, htake⟩

/-- Another letter of a name. -/
theorem saw_letter {seen : List UInt8} (h : c.headerState.Saw c.index seen) (hch : IsLetter ch) :
    ∃ c', c.fieldStep ch (token ch) = some c' ∧
      c'.headerState.Saw c'.index (seen ++ [tokens ch]) := by
  have hspace : ch ≠ chr ' ' := hch.ne (by decide)
  rw [hch.token]
  unfold Core.fieldStep
  cases hstate : c.headerState <;> rw [hstate] at h <;> first | contradiction | dsimp only
  case general => exact ⟨c, rfl, by rw [hstate]; trivial⟩
  case C =>
    obtain ⟨rfl, hindex⟩ := h
    refine ⟨_, rfl, ?_⟩
    show HeaderState.Saw (if _ then _ else _) (c.index + 1) _
    split_ifs with ho
    · exact ⟨by rw [ho]; rfl, by omega⟩
    · trivial
  case CO =>
    obtain ⟨rfl, hindex⟩ := h
    refine ⟨_, rfl, ?_⟩
    show HeaderState.Saw (if _ then _ else _) (c.index + 1) _
    split_ifs with hn
    · exact ⟨by rw [hn]; rfl, by omega⟩
    · trivial
  case CON =>
    obtain ⟨rfl, hindex⟩ := h
    refine ⟨_, rfl, ?_⟩
    show HeaderState.Saw (if _ then _ else if _ then _ else _) (c.index + 1) _
    rw [hindex]
    split_ifs with hn ht
    · exact ⟨by decide, by rw [hn]; rfl⟩
    · exact ⟨by decide, by rw [ht]; rfl⟩
    · trivial
  -- the words of more than one letter
  case matchingConnection =>
    have hspecial : ascii "connection" ∈ specialNames := by decide
    exact ⟨_, rfl, saw_matching _ h id fun hword => hword ▸ hspecial⟩
  case matchingProxyConnection =>
    have hspecial : ascii "proxy-connection" ∈ specialNames := by decide
    exact ⟨_, rfl, saw_matching _ h id fun hword => hword ▸ hspecial⟩
  case matchingContentLength =>
    have hspecial : ascii "content-length" ∈ specialNames := by decide
    exact ⟨_, rfl, saw_matching _ h id fun hword => hword ▸ hspecial⟩
  case matchingTransferEncoding =>
    have hspecial : ascii "transfer-encoding" ∈ specialNames := by decide
    exact ⟨_, rfl, saw_matching _ h id fun hword => hword ▸ hspecial⟩
  case matchingUpgrade =>
    have hspecial : ascii "upgrade" ∈ specialNames := by decide
    exact ⟨_, rfl, saw_matching _ h id fun hword => hword ▸ hspecial⟩
  -- a letter behind a whole word
  all_goals exact ⟨_, rfl, by rw [if_pos hspace]; trivial⟩

theorem saw_letters {seen : List UInt8} (h : c.headerState.Saw c.index seen)
    (hletters : ∀ b ∈ xs, IsLetter b) :
    ∃ q, c.fieldLoop xs = some (q, xs.length) ∧
      q.headerState.Saw q.index (seen ++ xs.map tokens) := by
  induction xs generalizing c seen with
  | nil => exact ⟨c, rfl, by simpa using h⟩
  | cons ch xs ih =>
    have hch := hletters ch List.mem_cons_self
    obtain ⟨c', hstep, hsaw⟩ := saw_letter h hch
    obtain ⟨q, hloop, hq⟩ := ih hsaw fun b hb => hletters b (List.mem_cons_of_mem _ hb)
    refine ⟨q, ?_, by simpa using hq⟩
    have htoken : token ch ≠ 0 := by
      rw [hch.token]
      exact hch
    unfold Core.fieldLoop
    rw [if_neg htoken, hstep, Option.bind_some, hloop]
    rfl

theorem saw_first (hch : IsLetter ch) : (HeaderState.ofFirst ch).Saw 0 [tokens ch] := by
  unfold HeaderState.ofFirst
  rw [hch.token]
  split_ifs with hc hp ht hu
  · exact ⟨by rw [hc]; rfl, rfl⟩
  · exact ⟨by decide, by rw [hp]; rfl⟩
  · exact ⟨by decide, by rw [ht]; rfl⟩
  · exact ⟨by decide, by rw [hu]; rfl⟩
  · trivial

/-- The states behind a name that means nothing. -/
def HeaderState.idle : HeaderState → Bool
  | .general | .C | .CO | .CON | .matchingConnection | .matchingProxyConnection
  | .matchingContentLength | .matchingTransferEncoding | .matchingUpgrade => true
  | _ => false

theorem saw_idle {h : HeaderState} {i : Nat} {seen : List UInt8} (hsaw : h.Saw i seen)
    (hseen : seen ∉ specialNames) : h.idle = true := by
  cases h <;> first | rfl | contradiction

/-! ### Lines -/

/-- The parser reads the lines of these headers when `P` holds of the message so far, and `g` is
    what they make of it. -/
def Reads (fs : List Field) (P : Core → Prop) (g : Core → Core) : Prop :=
  ∀ c d owed, LineStart c d owed → c.Live → P d.message →
    ∃ c' d' owed' cbs, c.Runs (fs.flatMap Field.line) cbs c' ∧ LineStart c' d' owed' ∧ c'.Live ∧
      pieces.gather (cbs ++ owed') = pieces.gather (owed ++ fs.flatMap Field.callbacks) ∧
      d'.message = g d.message

theorem Reads.nil : Reads [] (fun _ => True) id := fun c d owed h hl _ =>
  ⟨c, d, owed, [], .refl c, h, hl, by simp, rfl⟩

/-- Headers behind each other. -/
theorem Reads.append {fs fs' : List Field} {P Q : Core → Prop} {g g' : Core → Core}
    (h : Reads fs P g) (h' : Reads fs' Q g') (hP : ∀ m, P m → Q (g m)) :
    Reads (fs ++ fs') P (g' ∘ g) := by
  intro c d owed hstart hl hd
  obtain ⟨c₁, d₁, owed₁, cbs₁, hruns, hstart₁, hl₁, hcbs, hmessage⟩ := h c d owed hstart hl hd
  obtain ⟨c₂, d₂, owed₂, cbs₂, hruns', hstart₂, hl₂, hcbs', hmessage'⟩ :=
    h' c₁ d₁ owed₁ hstart₁ hl₁ (by rw [hmessage]; exact hP _ hd)
  refine ⟨c₂, d₂, owed₂, cbs₁ ++ cbs₂, ?_, hstart₂, hl₂, ?_, ?_⟩
  · rw [List.flatMap_append]
    exact hruns.append hruns'
  · rw [List.append_assoc, gather_congr_right hcbs', ← List.append_assoc, gather_congr hcbs,
      List.flatMap_append, List.append_assoc]
  · rw [hmessage', hmessage]
    rfl

/-- The parser in the value of a header. -/
def Core.inValue (c : Core) (h : HeaderState) : Core :=
  { c with state := .headerValue, index := 0, headerState := h }

/-- A name, a colon and a space; `q` is what the loop in `s_header_field` leaves. -/
theorem LineStart.field (h : LineStart c d owed) (hl : c.Live)
    (hletters : ∀ b ∈ ch :: xs, IsLetter b)
    (hloop : (d.begun ch).fieldLoop xs = some (q, xs.length)) :
    c.Runs (ch :: xs ++ colon) (owed ++ [.headerField (ch :: xs)])
      (q.updateState .headerValueDiscardWs) ∧ q.message = d.message := by
  obtain ⟨hname, hmessage⟩ := h.name hl hletters hloop
  have hq : q.Live := (h.live hl).message hmessage
  have hspace : (q.updateState .headerValueDiscardWs).Runs [chr ' '] []
      (q.updateState .headerValueDiscardWs) :=
    runs_next (hq.updateState _) rfl rfl rfl (hq.updateState _)
  refine ⟨?_, hmessage⟩
  have hruns := hname.append hspace
  rwa [List.append_assoc, List.append_nil] at hruns

/-- A header whose line is read as far as its last byte, with a value. -/
theorem reads_of_value {f : Field} {P : Core → Prop} {g : Core → Core} (hname : f.name ≠ [])
    (hletters : ∀ b ∈ f.name, IsLetter b)
    (hvalue : ∀ (d : Core), d.Live → P d.message → ∀ ch xs, f.name = ch :: xs →
      ∃ q, (d.begun ch).fieldLoop xs = some (q, xs.length) ∧ (q.message = d.message →
        ∃ q' cbs, (q.updateState .headerValueDiscardWs).Runs f.value cbs q' ∧
          q'.state = .headerValue ∧ q'.Live ∧
          pieces.gather (cbs ++ [.headerValue []]) = [.headerValue f.value] ∧
          q'.headerEnd.message = g d.message)) : Reads [f] P g := by
  intro c d owed hstart hl hd
  obtain ⟨ch, xs, hcons⟩ := List.exists_cons_of_ne_nil hname
  obtain ⟨q, hloop, hq⟩ := hvalue d (hstart.live hl) hd ch xs hcons
  obtain ⟨hfield, hmessage⟩ := hstart.field hl (hcons ▸ hletters) hloop
  obtain ⟨q', cbs, hruns, hstate, hl', hcbs, hend⟩ := hq hmessage
  have hline := runs_value_line hstate hl'
  refine ⟨_, _, [], owed ++ [.headerField (ch :: xs)] ++ cbs ++ [.headerValue []], ?_,
    .behind _ rfl, hl'.updateState _, ?_, ?_⟩
  · rw [List.flatMap_singleton]
    exact hcons ▸ (hfield.append hruns).append hline
  · have hcbs' : pieces.gather (cbs ++ [.headerValue []]) = pieces.gather [.headerValue f.value] :=
      hcbs
    rw [List.append_nil, List.append_assoc, gather_congr_right hcbs', ← hcons]
    simp [Field.callbacks]
  · rw [headerEnd_updateState]
    exact hend

/-! ### Headers that mean nothing -/

/-- A header whose name the parser does not look for, and whose value does not begin with a
    blank. -/
structure Field.Plain (f : Field) : Prop where
  name_ne : f.name ≠ []
  letters : ∀ b ∈ f.name, IsLetter b
  unspecial : f.name.map tokens ∉ specialNames
  printable : ∀ b ∈ f.value, IsPrintable b
  first : ∀ b ∈ f.value.head?, b ≠ chr ' ' ∧ b ≠ chr '\t'

/-- The first byte of a value. -/
theorem switch_value (hs : c.state = .headerValueDiscardWs) (hch : IsPrintable ch)
    (hblank : ch ≠ chr ' ' ∧ ch ≠ chr '\t') : c.switch ch [] = c.headerValueStart ch := by
  simp only [Core.switch, hs]
  unfold Core.headerValueDiscardWs
  rw [if_neg (by simp [hblank]), if_neg hch.cr, if_neg hch.lf]

theorem runs_value_first {h : HeaderState} {m : Core} (hs : c.state = .headerValueDiscardWs)
    (hl : c.Live) (hch : IsPrintable ch) (hblank : ch ≠ chr ' ' ∧ ch ≠ chr '\t')
    (hstart : c.headerValueStart ch = .mark .headerValue (.next (m.inValue h)))
    (hm : m.message = c.message ∨ m.Live) : c.Runs [ch] [.headerValue [ch]] (m.inValue h) := by
  have hl' : m.Live := hm.elim hl.message id
  exact runs_mark (k := .headerValue) hl (by rw [hs]; rfl) (by rw [hs]; rfl)
    ((switch_value hs hch hblank).trans hstart) ⟨hl'.errno, hl'.upgrade⟩

/-- The bytes of a value the parser does not look at. -/
theorem runs_general (hs : c.state = .headerValue) (hh : c.headerState = .general) (hl : c.Live)
    (hxs : ∀ b ∈ xs, IsPrintable b) (x : List UInt8) :
    ∃ cbs, c.Runs xs cbs c ∧
      pieces.gather (.headerValue x :: cbs) = [.headerValue (x ++ xs)] := by
  induction xs generalizing x with
  | nil => exact ⟨[], .refl c, by rw [List.append_nil]; rfl⟩
  | cons ch xs ih =>
    obtain ⟨cbs, hrest, hcbs⟩ := ih (fun b hb => hxs b (List.mem_cons_of_mem _ hb)) (x ++ [ch])
    have hfirst := runs_value_general hs hh hl (hxs ch List.mem_cons_self)
    refine ⟨.headerValue [ch] :: cbs, hfirst.cons hrest, ?_⟩
    rw [gather_joined (j := pieces) (z := .headerValue (x ++ [ch])) rfl, hcbs, List.append_assoc,
      List.singleton_append]

theorem headerValueStart_idle (hh : c.headerState.idle = true) (ch : UInt8) :
    c.headerValueStart ch = .mark .headerValue (.next (c.inValue .general)) := by
  unfold Core.headerValueStart
  cases hstate : c.headerState <;> rw [hstate] at hh <;> first | contradiction | rfl

theorem connection_idle {h : HeaderState} (hh : h.idle = true) (f : Flags) :
    f.connection h = f := by
  cases h <;> first | contradiction | rfl

theorem headerEnd_idle (hh : c.headerState.idle = true) : c.headerEnd = c := by
  unfold Core.headerEnd
  split
  · rename_i hstate
    rw [hstate] at hh
    contradiction
  · rw [connection_idle hh]

/-- **A header that means nothing to the parser.** -/
theorem reads_plain {f : Field} (hf : f.Plain) : Reads [f] (fun _ => True) id := by
  -- the name has led to a state in which no value is looked at
  have hname : ∀ (d : Core) ch xs, f.name = ch :: xs →
      ∃ q, (d.begun ch).fieldLoop xs = some (q, xs.length) ∧ q.headerState.idle = true := by
    intro d ch xs hcons
    have hletters := hcons ▸ hf.letters
    obtain ⟨q, hloop, hsaw⟩ := saw_letters (c := d.begun ch)
      (saw_first (hletters ch List.mem_cons_self))
      (fun b hb => hletters b (List.mem_cons_of_mem _ hb))
    refine ⟨q, hloop, saw_idle hsaw ?_⟩
    rw [List.singleton_append, ← List.map_cons, ← hcons]
    exact hf.unspecial
  obtain ⟨name, value⟩ := f
  cases value with
  | nil =>
    intro c d owed hstart hl _
    obtain ⟨ch, xs, rfl⟩ := List.exists_cons_of_ne_nil hf.name_ne
    obtain ⟨q, hloop, hidle⟩ := hname d ch xs rfl
    obtain ⟨hfield, hq⟩ := hstart.field hl hf.letters hloop
    have hlq : q.Live := (hstart.live hl).message hq
    have hline : (q.updateState .headerValueDiscardWs).Runs crlf []
        (q.updateState .headerValueDiscardLws) := runs_no_value rfl (hlq.updateState _)
    refine ⟨_, _, [.headerValue []], owed ++ [.headerField (ch :: xs)] ++ [], ?_, .empty _ rfl,
      hlq.updateState _, ?_, ?_⟩
    · have hruns := hfield.append hline
      simpa [Field.line] using hruns
    · simp [Field.callbacks]
    · rw [headerEnd_idle (c := q.updateState .headerValueDiscardLws) hidle]
      exact hq
  | cons v vs =>
    refine reads_of_value hf.name_ne hf.letters fun d hl _ ch xs hcons => ?_
    obtain ⟨q, hloop, hidle⟩ := hname d ch xs hcons
    refine ⟨q, hloop, fun hq => ?_⟩
    have hlq : q.Live := hl.message hq
    have hfirst := runs_value_first (c := q.updateState .headerValueDiscardWs) rfl
      (hlq.updateState _) (hf.printable v List.mem_cons_self) (hf.first v rfl)
      (headerValueStart_idle hidle v) (.inl rfl)
    obtain ⟨cbs, hrest, hcbs⟩ := runs_general
      (c := (q.updateState .headerValueDiscardWs).inValue .general) rfl rfl (hlq.message rfl)
      (fun b hb => hf.printable b (List.mem_cons_of_mem _ hb)) [v]
    refine ⟨_, _, hfirst.cons hrest, rfl, hlq.message rfl, ?_, ?_⟩
    · rw [gather_snoc, List.singleton_append, hcbs]
      show [Callback.headerValue ([v] ++ vs ++ [])] = _
      rw [List.append_nil]
      rfl
    · rw [headerEnd_idle rfl]
      exact hq

/-! ### Headers the parser looks for -/

/-- The letters of a word in a value, behind the first ones, in a state of the form
    `h_matching_…`. -/
theorem runs_word {word : List UInt8} {no this yes : HeaderState}
    (hstep : ∀ (c : Core) ch, c.valueStep this ch =
      .go { c with index := c.index + 1 } (matching word (c.index + 1) (lower ch) no this yes))
    (hword : ∀ b ∈ word, IsPrintable b ∧ lower b = b) (pre : List UInt8)
    (hs : c.state = .headerValue) (hh : c.headerState = this) (hl : c.Live)
    (hpre : word = pre ++ xs) (hxs : xs ≠ []) (hindex : c.index + 1 = pre.length)
    (x : List UInt8) :
    ∃ cbs, c.Runs xs cbs { c with index := word.length - 1, headerState := yes } ∧
      pieces.gather (.headerValue x :: cbs) = [.headerValue (x ++ xs)] := by
  induction xs generalizing c pre x with
  | nil => exact absurd rfl hxs
  | cons ch xs ih =>
    obtain ⟨hprintable, hlower⟩ := hword ch (by simp [hpre])
    have hget : (word ++ [0])[c.index + 1]? = some ch := by
      rw [hpre, hindex]
      simp
    have hlength : word.length = pre.length + (xs.length + 1) := by
      rw [hpre, List.length_append, List.length_cons]
    have hmatch : matching word (c.index + 1) (lower ch) no this yes =
        if xs = [] then yes else this := by
      unfold matching
      rw [hlower, hget, if_neg (by simp; omega)]
      refine if_congr ?_ rfl rfl
      rw [← List.length_eq_zero_iff]
      omega
    have hvalue := (hstep c ch).trans (congrArg _ hmatch)
    by_cases hnil : xs = []
    · -- the last letter
      subst hnil
      rw [← hh, if_pos rfl] at hvalue
      have hlast := runs_value hs hl hprintable hvalue (hl.message rfl)
      refine ⟨[.headerValue [ch]], ?_, ?_⟩
      · rwa [show word.length - 1 = c.index + 1 by simp [hlength]; omega]
      · exact gather_joined (j := pieces) (z := .headerValue (x ++ [ch])) rfl []
    · rw [← hh, if_neg hnil] at hvalue
      have hfirst := runs_value hs hl hprintable hvalue (hl.message rfl)
      obtain ⟨cbs, hrest, hcbs⟩ := ih
        (c := { c with index := c.index + 1, headerState := c.headerState })
        (pre ++ [ch]) hs hh (hl.message rfl) (by simp [hpre]) hnil (by simp [hindex]) (x ++ [ch])
      refine ⟨.headerValue [ch] :: cbs, hfirst.cons hrest, ?_⟩
      rw [gather_joined (j := pieces) (z := .headerValue (x ++ [ch])) rfl, hcbs,
        List.append_assoc, List.singleton_append]

/-- A header with a name and a word the parser looks for: `h` is the state behind the name,
    `this` the one behind the first letter of the word, and `yes` the one behind the word. -/
theorem reads_word {name word : List UInt8} {h : HeaderState} {i : Nat} {g : Core → Core}
    (no this yes : HeaderState) (hname : name ≠ []) (hletters : ∀ b ∈ name, IsLetter b)
    (hloop : ∀ (d : Core) ch xs, name = ch :: xs → (d.begun ch).fieldLoop xs =
      some ({ d.begun ch with headerState := h, index := i }, xs.length))
    (hone : 1 < word.length) (hword : ∀ b ∈ word, IsPrintable b ∧ lower b = b)
    (hfirst : ∀ b ∈ word.head?, b ≠ chr ' ' ∧ b ≠ chr '\t' ∧
      ∀ c : Core, c.headerState = h →
        c.headerValueStart b = .mark .headerValue (.next (c.inValue this)))
    (hstep : ∀ (c : Core) ch, c.valueStep this ch =
      .go { c with index := c.index + 1 } (matching word (c.index + 1) (lower ch) no this yes))
    (hend : ∀ c : Core, c.headerState = yes → c.headerEnd.message = g c.message) :
    Reads [⟨name, word⟩] (fun _ => True) g := by
  refine reads_of_value hname hletters fun d hl _ ch xs hcons => ?_
  refine ⟨_, hloop d ch xs hcons, fun _ => ?_⟩
  generalize hq : ({ d.begun ch with headerState := h, index := i } : Core) = q
  have hmessage : q.message = d.message := by rw [← hq]; rfl
  have hlq : q.Live := hl.message hmessage
  cases word with
  | nil => contradiction
  | cons w ws =>
    obtain ⟨hspace, htab, hstart⟩ := hfirst w rfl
    have hw := runs_value_first (c := q.updateState .headerValueDiscardWs) rfl
      (hlq.updateState _) (hword w List.mem_cons_self).1 ⟨hspace, htab⟩
      (hstart _ (by rw [← hq]; rfl)) (.inl rfl)
    obtain ⟨cbs, hrest, hcbs⟩ := runs_word
      (c := (q.updateState .headerValueDiscardWs).inValue this) hstep hword [w] rfl rfl
      (hlq.message rfl) rfl (fun hnil => by simp [hnil] at hone) rfl [w]
    refine ⟨_, _, hw.cons hrest, rfl, hlq.message rfl, ?_, ?_⟩
    · rw [gather_snoc, List.singleton_append, hcbs]
      show [Callback.headerValue ([w] ++ ws ++ [])] = _
      rw [List.append_nil]
      rfl
    · rw [hend _ rfl, ← hmessage]
      rfl

/-- What a `Connection` header asks for. -/
inductive Connection where
  | keepAlive | close
  deriving DecidableEq, Repr

def Connection.field : Connection → Field
  | .keepAlive => ⟨ascii "Connection", ascii "keep-alive"⟩
  | .close => ⟨ascii "Connection", ascii "close"⟩

/-- What it makes of the message. -/
def Connection.effect : Connection → Core → Core
  | .keepAlive, m => { m with flags.connectionKeepAlive := true }
  | .close, m => { m with flags.connectionClose := true }

theorem reads_connection (k : Connection) : Reads [k.field] (fun _ => True) k.effect := by
  have hloop : ∀ (d : Core) ch xs, ascii "Connection" = ch :: xs →
      (d.begun ch).fieldLoop xs =
        some ({ d.begun ch with headerState := .connection, index := 9 }, xs.length) := by
    intro d ch xs hcons
    cases hcons
    rfl
  have hend : ∀ (c : Core) h, c.headerState = h → h ≠ .transferEncodingChunked →
      c.headerEnd.message = { c.message with flags := c.flags.connection h } := by
    intro c h hh hne
    unfold Core.headerEnd
    split
    · exact absurd (hh.symm.trans ‹_›) hne
    · rw [hh]
      rfl
  cases k with
  | keepAlive =>
    refine reads_word .matchingConnectionToken .matchingConnectionKeepAlive
      .connectionKeepAlive (by decide) (by decide +kernel) hloop (by decide)
      (by decide +kernel) ?_ (fun _ _ => rfl) fun c hh => hend c _ hh nofun
    intro b hb
    cases hb
    refine ⟨by decide, by decide, fun c hh => ?_⟩
    unfold Core.headerValueStart
    rw [hh]
    rfl
  | close =>
    refine reads_word .matchingConnectionToken .matchingConnectionClose
      .connectionClose (by decide) (by decide +kernel) hloop (by decide)
      (by decide +kernel) ?_ (fun _ _ => rfl) fun c hh => hend c _ hh nofun
    intro b hb
    cases hb
    refine ⟨by decide, by decide, fun c hh => ?_⟩
    unfold Core.headerValueStart
    rw [hh]
    rfl

/-- `Transfer-Encoding: chunked` -/
def chunkedField : Field := ⟨ascii "Transfer-Encoding", ascii "chunked"⟩

theorem reads_chunked :
    Reads [chunkedField] (fun _ => True) fun m => { m with flags.chunked := true } := by
  refine reads_word (h := .transferEncoding) (i := 16) .general
    .matchingTransferEncodingChunked .transferEncodingChunked
    (by decide) (by decide +kernel) ?_ (by decide) (by decide +kernel) ?_ (fun _ _ => rfl)
    fun c hh => ?_
  · intro d ch xs hcons
    cases hcons
    rfl
  · intro b hb
    cases hb
    refine ⟨by decide, by decide, fun c hh => ?_⟩
    unfold Core.headerValueStart
    rw [hh]
    rfl
  · unfold Core.headerEnd
    rw [hh]
    rfl

/-- The decimal text of a number. -/
def decimal (n : Nat) : List UInt8 := (numeral 10 n).map digitChar

/-- `Content-Length: n` -/
def lengthField (n : Nat) : Field := ⟨ascii "Content-Length", decimal n⟩

theorem digitChar_printable {d : Nat} (hd : d < 10) :
    IsPrintable (digitChar d) ∧ digitChar d ≠ chr ' ' ∧ digitChar d ≠ chr '\t' := by
  revert d
  decide

/-- The parser in a length of which it has read `a`. -/
def Core.counting (c : Core) (a : Nat) : Core :=
  { c with contentLength := a, headerState := .contentLengthNum }

theorem Core.Live.counting (h : c.Live) (a : Nat) : (c.counting a).Live := ⟨h.errno, h.upgrade⟩

/-- Another digit of a length: neither the check for an overflow nor the width of the word
    matters. -/
theorem contentLengthNum_digit {a d : Nat} (hd : d < 10) (hmax : a * 10 + d ≤ ULLONG_MAX - 10) :
    (c.counting a).contentLengthNum (digitChar d) =
      .go { c.counting a with contentLength := a * 10 + d } .contentLengthNum := by
  obtain ⟨-, hspace, -⟩ := digitChar_printable hd
  obtain ⟨hnum, hvalue⟩ := digitChar_spec hd
  have hmod : (a * 10 + d) % 2 ^ 64 = a * 10 + d :=
    Nat.mod_eq_of_lt (by unfold ULLONG_MAX at hmax; omega)
  have hsmall : ¬ (ULLONG_MAX - 10) / 10 < a := by omega
  unfold Core.contentLengthNum
  rw [if_neg hspace, if_neg (by simp [hnum]), hvalue]
  show (if (ULLONG_MAX - 10) / 10 < a then _ else
    ValueStep.go { c.counting a with contentLength := (a * 10 + d) % 2 ^ 64 } _) = _
  rw [if_neg hsmall, hmod]

/-- The digits of a length behind the first. -/
theorem runs_digits {a : Nat} {ds : List Nat} (hs : c.state = .headerValue) (hl : c.Live)
    (hds : ∀ d ∈ ds, d < 10) (hmax : value 10 a ds ≤ ULLONG_MAX - 10) (x : List UInt8) :
    ∃ cbs, (c.counting a).Runs (ds.map digitChar) cbs (c.counting (value 10 a ds)) ∧
      pieces.gather (.headerValue x :: cbs) = [.headerValue (x ++ ds.map digitChar)] := by
  induction ds generalizing a x with
  | nil => exact ⟨[], .refl _, by simp; rfl⟩
  | cons d ds ih =>
    have hd := hds d List.mem_cons_self
    have hle : a * 10 + d ≤ value 10 a (d :: ds) := le_value (by decide) _ ds
    have hfirst : (c.counting a).Runs [digitChar d] [.headerValue [digitChar d]]
        (c.counting (a * 10 + d)) :=
      runs_value (c := c.counting a) hs (hl.counting a) (digitChar_printable hd).1
        (contentLengthNum_digit hd (hle.trans hmax)) (hl.counting _)
    obtain ⟨cbs, hrest, hcbs⟩ := ih (a := a * 10 + d)
      (fun b hb => hds b (List.mem_cons_of_mem _ hb)) hmax (x ++ [digitChar d])
    refine ⟨.headerValue [digitChar d] :: cbs, hfirst.cons hrest, ?_⟩
    rw [gather_joined (j := pieces) (z := .headerValue (x ++ [digitChar d])) rfl, hcbs,
      List.append_assoc, List.singleton_append]
    rfl

/-- The first digit of a length. -/
theorem headerValueStart_digit {d : Nat} (hd : d < 10) (hh : c.headerState = .contentLength)
    (hfirst : c.flags.contentlength = false) :
    c.headerValueStart (digitChar d) = .mark .headerValue (.next
      ((({ c with flags.contentlength := true } : Core).counting d).inValue
        .contentLengthNum)) := by
  obtain ⟨hnum, hvalue⟩ := digitChar_spec hd
  unfold Core.headerValueStart
  rw [hh]
  dsimp only
  rw [if_neg (by simp [hnum]), if_neg (by simp [hfirst]), hvalue]
  rfl

/-- **`Content-Length`**, if it is the first. -/
theorem reads_contentLength {n : Nat} (hn : n ≤ ULLONG_MAX - 10) :
    Reads [lengthField n] (fun m => m.flags.contentlength = false)
      fun m => { m with flags.contentlength := true, contentLength := n } := by
  have hletters : ∀ b ∈ ascii "Content-Length", IsLetter b := by decide +kernel
  refine reads_of_value (List.cons_ne_nil _ _) hletters fun d hl hd ch xs hcons => ?_
  cases hcons
  refine ⟨{ d.begun (chr 'C') with headerState := .contentLength, index := 13 }, rfl, fun _ => ?_⟩
  generalize hq : ({ d.begun (chr 'C') with headerState := .contentLength, index := 13 } : Core) = q
  have hmessage : q.message = d.message := by rw [← hq]; rfl
  have hlq : q.Live := hl.message hmessage
  have hvalue := value_numeral 10 n
  have hlt : ∀ d ∈ numeral 10 n, d < 10 := fun d => lt_of_mem_numeral (by decide)
  unfold lengthField decimal
  obtain ⟨x, ds, hcons⟩ := List.exists_cons_of_ne_nil (numeral_ne_nil 10 n)
  rw [hcons] at hvalue hlt ⊢
  rw [value_cons, Nat.zero_mul, Nat.zero_add] at hvalue
  have hx := hlt x List.mem_cons_self
  have hfirst := runs_value_first (c := q.updateState .headerValueDiscardWs) rfl
    (hlq.updateState _) (digitChar_printable hx).1 (digitChar_printable hx).2
    (headerValueStart_digit hx (by rw [← hq]; rfl) (by rw [← hq]; exact hd))
    (.inr ⟨hlq.errno, hlq.upgrade⟩)
  obtain ⟨cbs, hrest, hcbs⟩ := runs_digits (a := x)
    (c := ((({ q.updateState .headerValueDiscardWs with
      flags.contentlength := true } : Core).counting x).inValue .contentLengthNum))
    rfl ⟨hlq.errno, hlq.upgrade⟩ (fun b hb => hlt b (List.mem_cons_of_mem _ hb))
    (hvalue.trans_le hn) [digitChar x]
  refine ⟨_, _, hfirst.cons hrest, rfl, ⟨hlq.errno, hlq.upgrade⟩, ?_, ?_⟩
  · rw [gather_snoc, List.singleton_append, hcbs]
    show [Callback.headerValue ([digitChar x] ++ ds.map digitChar ++ [])] = _
    rw [List.append_nil]
    rfl
  · rw [hvalue, ← hmessage]
    rfl

end Dv8.Http
