import Dv8.Http.HttpParser

namespace Dv8.Http

open Dv8.Lib

/-!
# `pause` and `resume` of `HTTPParser`

`http_parser` stands here as a parameter: `HttpParser` says which callbacks it makes on a read
and where `http_parser_execute` returns when one of them leaves it paused.  Around it are
`HTTPParser::Execute` and `on_plugin_read_data`, which keep one byte of what it leaves unread.

* `firstPause` — the callback that pauses the parser, and what JavaScript has seen by then;
* `Twin.step` — a read, to a parser that is paused and to one that never is;
* `nothingLost_iff_along` — no byte is lost exactly when every pause is at the end of its read.

JavaScript resumes a parser that it has paused before the next read.
-/

variable {σ : Type*}

/-- A callback made by `http_parser_execute`. -/
structure Made (σ : Type*) where
  cb : Callback
  /-- what `http_parser_execute` returns when the callback leaves the parser paused -/
  pos : Nat
  /-- the parser behind the callback -/
  parser : σ
  /-- `http_parser_execute` returns behind the callback in any case. -/
  exits : Bool
  deriving DecidableEq, Repr

/-- `http_parser_execute`, as long as nothing pauses the parser. -/
structure Execution (σ : Type*) where
  made : List (Made σ)
  np : Nat
  parser : σ

/-- The callbacks that call JavaScript. -/
def Callback.CallsJs : Callback → Prop
  | .headersComplete _ | .body _ | .messageComplete => True
  | .messageBegin | .url _ | .headerField _ | .headerValue _ => False

instance (cb : Callback) : Decidable cb.CallsJs := by
  cases cb <;> unfold Callback.CallsJs <;> infer_instance

/-- Behind the callback `http_parser_execute` looks at no more of `data`. -/
def Made.AtEnd (m : Made σ) (data : List UInt8) : Prop := m.pos = data.length ∨ m.exits

instance (m : Made σ) (data : List UInt8) : Decidable (m.AtEnd data) :=
  inferInstanceAs (Decidable (_ ∨ _))

/-- `http_parser.c`, over the type `σ` of its parsers, `HPE_PAUSED` aside. -/
structure HttpParser (σ : Type*) where
  execute : σ → List UInt8 → Execution σ
  /-- `http_errno` -/
  errno : σ → Nat
  /-- It returns a position of the read. -/
  pos_le : ∀ {s data m}, m ∈ (execute s data).made → m.cb.CallsJs → m.pos ≤ data.length
  /-- A callback at the end of the read is the last one. -/
  last : ∀ {s data before m after}, (execute s data).made = before ++ m :: after →
    m.cb.CallsJs → m.AtEnd data →
    after = [] ∧ (execute s data).parser = m.parser

/-- `callbacks_t`, but for `onBody`, which is in `Context`. -/
structure Callbacks where
  onHeaders : Bool
  onRequest : Bool
  onResponse : Bool
  deriving DecidableEq, Repr

/-- A call of JavaScript, with what it finds in the work buffer. -/
inductive JsCall where
  | headers (work : List UInt8)
  | body (bytes : List UInt8)
  | request
  | response
  deriving DecidableEq, Repr

/-- The call of JavaScript a callback ends with; `s` is the context it leaves. -/
def Callbacks.call (on : Callbacks) (s : Context) : Callback → Option JsCall
  | .headersComplete _ => if on.onHeaders then some (.headers s.buf.bytes) else none
  | .body buf =>
    if 0 < buf.length ∧ s.onBody then some (.body (s.buf.bytes.take buf.length)) else none
  | .messageComplete =>
    if s.parserMode = 0 ∧ on.onRequest then some .request
    else if s.parserMode = 1 ∧ on.onResponse then some .response
    else none
  | .messageBegin | .url _ | .headerField _ | .headerValue _ => none

/-- The context, and the calls of JavaScript so far. -/
structure Progress where
  context : Context
  seen : List JsCall
  deriving DecidableEq

/-- The callbacks `made`, up to the first that leaves the parser paused: `pauses` says of the
    calls of JavaScript so far whether the last of them does.  `none` is a `memcpy` that leaves
    the work buffer. -/
def firstPause (on : Callbacks) (pauses : List JsCall → Bool) (g : Progress) :
    List (Made σ) → Option (Progress × Option (Made σ))
  | [] => some (g, none)
  | m :: made =>
    (step g.context m.cb).bind fun s =>
      match on.call s m.cb with
      | none => firstPause on pauses { g with context := s } made
      | some call =>
        -- `CALLBACK_NOTIFY_` and `CALLBACK_DATA_` look at `http_errno` behind the callback
        if pauses (g.seen ++ [call]) then some (⟨s, g.seen ++ [call]⟩, some m)
        else firstPause on pauses ⟨s, g.seen ++ [call]⟩ made

/-- `HTTPParser` -/
structure HTTPParser (σ : Type*) where
  parser : σ
  callbacks : Callbacks
  progress : Progress
  lastByte : UInt8 := 0
  /-- the calls of `onError` -/
  errors : List Nat := []
  deriving DecidableEq

/-- A read: its bytes are at the start of the read buffer, over those of the read before. -/
inductive Read where
  | execute (data : List UInt8)
  | plugin (data : List UInt8)
  deriving DecidableEq, Repr

def Read.data : Read → List UInt8
  | .execute data | .plugin data => data

/-- What follows `http_parser_execute`, which has returned `np`: `HTTPParser::Execute` reports
    an error, and `on_plugin_read_data` does not. -/
def HTTPParser.executed (p : HttpParser σ) (s : HTTPParser σ) (np : Nat) (paused : Bool)
    (r : Read) : HTTPParser σ :=
  if np ≠ r.data.length then
    if paused then { s with lastByte := (r.data[np]?).getD s.lastByte }
    else
      match r with
      | .execute _ => { s with errors := s.errors ++ [p.errno s.parser] }
      | .plugin _ => s
  else s

/-- A read, and the callback that left the parser paused. -/
def HTTPParser.read (p : HttpParser σ) (pauses : List JsCall → Bool) (s : HTTPParser σ)
    (r : Read) : Option (HTTPParser σ × Option (Made σ)) :=
  (firstPause s.callbacks pauses s.progress (p.execute s.parser r.data).made).map fun (g, stop) =>
    match stop with
    | some m => (HTTPParser.executed p { s with parser := m.parser, progress := g } m.pos true r, m)
    | none =>
      (HTTPParser.executed p
        { s with parser := (p.execute s.parser r.data).parser, progress := g }
        (p.execute s.parser r.data).np false r, none)

/-- The bytes of a read that a pause keeps from `http_parser`. -/
def unparsed (stop : Option (Made σ)) (data : List UInt8) : List UInt8 :=
  match stop with
  | some m => if m.exits then [] else data.drop m.pos
  | none => []

/-- A parser that JavaScript pauses, beside one that gets the same reads and is never paused. -/
structure Twin (σ : Type*) where
  paused : HTTPParser σ
  plain : HTTPParser σ
  /-- what the pauses so far have kept from `http_parser` -/
  lost : List UInt8
  deriving DecidableEq

/-- A read, to both parsers. -/
def Twin.step (p : HttpParser σ) (pauses : List JsCall → Bool) (s : Twin σ) (r : Read) :
    Option (Twin σ) :=
  (s.paused.read p pauses r).bind fun (paused, stop) =>
    (s.plain.read p (fun _ => false) r).map fun (plain, _) =>
      ⟨paused, plain, s.lost ++ unparsed stop r.data⟩

/-- JavaScript has been called as without any pause, and no byte has been kept from
    `http_parser`. -/
def Twin.NothingLost (s : Twin σ) : Prop :=
  s.paused.progress.seen = s.plain.progress.seen ∧ s.lost = []

instance (s : Twin σ) : Decidable s.NothingLost := inferInstanceAs (Decidable (_ ∧ _))

/-- The callback that pauses the parser on this read, if one does, is at its end. -/
def PausesAtEnd (p : HttpParser σ) (pauses : List JsCall → Bool) (s : Twin σ) (r : Read) : Prop :=
  ∀ g m, firstPause s.paused.callbacks pauses s.paused.progress
      (p.execute s.paused.parser r.data).made = some (g, some m) → m.AtEnd r.data

instance (p : HttpParser σ) (pauses : List JsCall → Bool) (s : Twin σ) (r : Read) :
    Decidable (PausesAtEnd p pauses s r) :=
  match h : firstPause s.paused.callbacks pauses s.paused.progress
      (p.execute s.paused.parser r.data).made with
  | some (_, some m) =>
    decidable_of_iff (m.AtEnd r.data)
      ⟨fun hm g m' heq => by rw [h] at heq; cases heq; exact hm, fun hp => hp _ m h⟩
  | some (_, none) => isTrue fun g m heq => by rw [h] at heq; cases heq
  | none => isTrue fun g m heq => by rw [h] at heq; cases heq

/-! ### Up to the first pause -/

/-- Only a callback that calls JavaScript pauses the parser. -/
theorem Callbacks.callsJs_of_call {on : Callbacks} {s : Context} {cb : Callback} {call : JsCall}
    (h : on.call s cb = some call) : cb.CallsJs := by
  cases cb with
  | headersComplete parser => trivial
  | body buf => trivial
  | messageComplete => trivial
  | messageBegin => simp [Callbacks.call] at h
  | url buf => simp [Callbacks.call] at h
  | headerField buf => simp [Callbacks.call] at h
  | headerValue buf => simp [Callbacks.call] at h

/-- No callback pauses a parser that is never paused. -/
theorem firstPause_never {on : Callbacks} {g g' : Progress} {made : List (Made σ)}
    {stop : Option (Made σ)} (h : firstPause on (fun _ => false) g made = some (g', stop)) :
    stop = none := by
  induction made generalizing g with
  | nil =>
    cases h
    rfl
  | cons m made ih =>
    obtain ⟨s, hs, h⟩ := Option.bind_eq_some_iff.mp h
    cases hcall : on.call s m.cb with
    | none =>
      rw [hcall] at h
      exact ih h
    | some call =>
      rw [hcall] at h
      exact ih (by simpa using h)

/-- Without a pause on this read, JavaScript sees what it sees of a parser never paused. -/
theorem firstPause_none {on : Callbacks} {pauses : List JsCall → Bool} {g g' : Progress}
    {made : List (Made σ)} (h : firstPause on pauses g made = some (g', none)) :
    firstPause on (fun _ => false) g made = some (g', none) := by
  induction made generalizing g with
  | nil => exact h
  | cons m made ih =>
    obtain ⟨s, hs, h⟩ := Option.bind_eq_some_iff.mp h
    rw [firstPause, hs, Option.bind_some]
    cases hcall : on.call s m.cb with
    | none =>
      rw [hcall] at h
      exact ih h
    | some call =>
      rw [hcall] at h
      by_cases hp : pauses (g.seen ++ [call])
      · simp [hp] at h
      · simp only [hp, Bool.false_eq_true, if_false] at h ⊢
        exact ih h

/-- Behind a pause, a parser never paused makes the callbacks that are left. -/
theorem firstPause_some {on : Callbacks} {pauses : List JsCall → Bool} {g g' : Progress}
    {made : List (Made σ)} {m : Made σ} (h : firstPause on pauses g made = some (g', some m)) :
    ∃ before after, made = before ++ m :: after ∧ m.cb.CallsJs ∧
      firstPause on (fun _ => false) g made = firstPause on (fun _ => false) g' after := by
  -- the first call that pauses cuts the callbacks in two
  induction made generalizing g with
  | nil => cases h
  | cons m₁ made ih =>
    obtain ⟨s, hs, h⟩ := Option.bind_eq_some_iff.mp h
    rw [firstPause, hs, Option.bind_some]
    cases hcall : on.call s m₁.cb with
    | none =>
      rw [hcall] at h
      obtain ⟨before, after, rfl, hjs, hrest⟩ := ih h
      exact ⟨m₁ :: before, after, rfl, hjs, hrest⟩
    | some call =>
      rw [hcall] at h
      by_cases hp : pauses (g.seen ++ [call])
      · simp only [hp, if_true, Option.some.injEq, Prod.mk.injEq] at h
        obtain ⟨rfl, rfl⟩ := h
        exact ⟨[], made, rfl, Callbacks.callsJs_of_call hcall, rfl⟩
      · simp only [hp, Bool.false_eq_true, if_false] at h ⊢
        obtain ⟨before, after, rfl, hjs, hrest⟩ := ih h
        exact ⟨m₁ :: before, after, rfl, hjs, hrest⟩

/-! ### One read -/

variable {p : HttpParser σ} {pauses : List JsCall → Bool}

section executed

variable (s : HTTPParser σ) (np : Nat) (paused : Bool) (r : Read)

@[simp] theorem parser_executed : (s.executed p np paused r).parser = s.parser := by
  unfold HTTPParser.executed
  split_ifs <;> first | rfl | (split <;> rfl)

@[simp] theorem callbacks_executed : (s.executed p np paused r).callbacks = s.callbacks := by
  unfold HTTPParser.executed
  split_ifs <;> first | rfl | (split <;> rfl)

@[simp] theorem progress_executed : (s.executed p np paused r).progress = s.progress := by
  unfold HTTPParser.executed
  split_ifs <;> first | rfl | (split <;> rfl)

end executed

/-- What a read leaves of the parser. -/
theorem read_spec {s s' : HTTPParser σ} {r : Read} {stop : Option (Made σ)}
    (h : s.read p pauses r = some (s', stop)) :
    firstPause s.callbacks pauses s.progress (p.execute s.parser r.data).made
        = some (s'.progress, stop) ∧
      s'.callbacks = s.callbacks ∧
      s'.parser = (stop.map Made.parser).getD (p.execute s.parser r.data).parser := by
  obtain ⟨⟨g, stop'⟩, hfirst, heq⟩ := Option.map_eq_some_iff.mp h
  cases stop' with
  | none =>
    obtain ⟨rfl, rfl⟩ := Prod.mk.inj heq
    exact ⟨by simpa using hfirst, by simp, by simp⟩
  | some m =>
    obtain ⟨rfl, rfl⟩ := Prod.mk.inj heq
    exact ⟨by simpa using hfirst, by simp, by simp⟩

/-- The two parsers go on alike. -/
structure HTTPParser.Agrees (a b : HTTPParser σ) : Prop where
  parser : a.parser = b.parser
  callbacks : a.callbacks = b.callbacks
  progress : a.progress = b.progress

/-- As long as nothing is lost, the two parsers go on alike. -/
def Twin.InStep (s : Twin σ) : Prop := s.NothingLost → s.paused.Agrees s.plain

/-- A pause keeps no byte from `http_parser` exactly when it is at the end of the read. -/
theorem unparsed_eq_nil_iff {s : σ} {data : List UInt8} {m : Made σ}
    (hm : m ∈ (p.execute s data).made) (hjs : m.cb.CallsJs) :
    unparsed (some m) data = [] ↔ m.AtEnd data := by
  have hle := p.pos_le hm hjs
  unfold unparsed Made.AtEnd
  by_cases hexits : m.exits
  · simp [hexits]
  · simp only [hexits, Bool.false_eq_true, if_false, or_false, List.drop_eq_nil_iff]
    omega

/-- **One read** to two parsers that go on alike: they still do exactly when a pause on it is at
    its end. -/
theorem step_inStep {s s' : Twin σ} {r : Read} (hin : s.InStep) (hnl : s.NothingLost)
    (h : s.step p pauses r = some s') :
    s'.InStep ∧ (s'.NothingLost ↔ PausesAtEnd p pauses s r) := by
  obtain ⟨⟨paused, stop⟩, hpaused, h⟩ := Option.bind_eq_some_iff.mp h
  obtain ⟨⟨plain, stop'⟩, hplain, rfl⟩ := Option.map_eq_some_iff.mp h
  obtain ⟨hfirst, hcallbacks, hparser⟩ := read_spec hpaused
  obtain ⟨hfirst', hcallbacks', hparser'⟩ := read_spec hplain
  obtain rfl := firstPause_never hfirst'
  have hagrees := hin hnl
  -- the parser that is never paused makes the same callbacks, from the same progress
  rw [← hagrees.parser, ← hagrees.callbacks, ← hagrees.progress] at hfirst'
  rw [← hagrees.parser] at hparser'
  rw [← hagrees.callbacks] at hcallbacks'
  cases stop with
  | none =>
    have hsame : paused.progress = plain.progress := by
      have heq := (firstPause_none hfirst).symm.trans hfirst'
      simpa using heq
    have hlost : s.lost ++ unparsed (none : Option (Made σ)) r.data = [] := by
      rw [hnl.2]
      rfl
    refine ⟨fun _ => ⟨hparser.trans hparser'.symm, hcallbacks.trans hcallbacks'.symm, hsame⟩,
      iff_of_true ⟨congrArg Progress.seen hsame, hlost⟩ fun g m heq => ?_⟩
    rw [hfirst] at heq
    cases heq
  | some m =>
    obtain ⟨before, after, hmade, hjs, hrest⟩ := firstPause_some hfirst
    have hmem : m ∈ (p.execute s.paused.parser r.data).made := by
      rw [hmade]
      simp
    have hguard : PausesAtEnd p pauses s r ↔ m.AtEnd r.data := by
      constructor
      · intro hp
        exact hp _ m hfirst
      · intro hend g m' heq
        rw [hfirst] at heq
        cases heq
        exact hend
    have hlost : s.lost ++ unparsed (some m) r.data = [] ↔ m.AtEnd r.data := by
      rw [hnl.2, List.nil_append]
      exact unparsed_eq_nil_iff hmem hjs
    rw [hguard]
    by_cases hend : m.AtEnd r.data
    · -- nothing is left of the read, so nothing more is made of it without the pause
      obtain ⟨rfl, hlast⟩ := p.last hmade hjs hend
      have hsame : paused.progress = plain.progress := by
        have heq := hrest.symm.trans hfirst'
        simpa [firstPause] using heq
      have hparsers : paused.parser = plain.parser := by
        rw [hparser, hparser']
        exact hlast.symm
      exact ⟨fun _ => ⟨hparsers, hcallbacks.trans hcallbacks'.symm, hsame⟩,
        iff_of_true ⟨congrArg Progress.seen hsame, hlost.mpr hend⟩ hend⟩
    · have hmissed : ¬ Twin.NothingLost ⟨paused, plain, s.lost ++ unparsed (some m) r.data⟩ :=
        fun hkept => hend (hlost.mp hkept.2)
      exact ⟨fun hkept => absurd hkept hmissed, iff_of_false hmissed hend⟩

/-- **A pause loses nothing exactly at the end of its read**: over every stream, every cut into
    reads and every choice of the callbacks that pause the parser. -/
theorem nothingLost_iff_along {a : HTTPParser σ} {reads : List Read} {t : Twin σ}
    (h : run (Twin.step p pauses) ⟨a, a, []⟩ reads = some t) :
    (∀ fed rest u, reads = fed ++ rest → run (Twin.step p pauses) ⟨a, a, []⟩ fed = some u →
      u.NothingLost) ↔
      Along (Twin.step p pauses) (PausesAtEnd p pauses) ⟨a, a, []⟩ reads :=
  forall_prefix_iff_along (I := Twin.InStep) (G := Twin.NothingLost)
    (fun _ _ _ hin hnl hstep => step_inStep hin hnl hstep) (fun _ => ⟨rfl, rfl, rfl⟩) ⟨rfl, rfl⟩ h

/-! ### Two requests in one read -/

/-- `GET / HTTP/1.1`, without headers. -/
def get : List UInt8 :=
  [0x47, 0x45, 0x54, 0x20, 0x2f, 0x20, 0x48, 0x54, 0x54, 0x50, 0x2f, 0x31, 0x2e, 0x31,
    13, 10, 13, 10]

/-- What `http_parser` makes of `get` at `off`; its parser is inside a message or between two. -/
def madeOfGet (off : Nat) : List (Made Bool) :=
  [⟨.messageBegin, off + 1, true, false⟩, ⟨.url [0x2f], off + 6, true, false⟩,
    ⟨.headersComplete ⟨1, 1, 1, false, 0, true⟩, off + 17, true, false⟩,
    ⟨.messageComplete, off + 18, false, false⟩]

/-- `http_parser` on reads of one or two whole requests. -/
def executeGets (inside : Bool) (data : List UInt8) : Execution Bool :=
  if inside then ⟨[], 0, true⟩
  else if data = get then ⟨madeOfGet 0, 18, false⟩
  else if data = get ++ get then ⟨madeOfGet 0 ++ madeOfGet 18, 36, false⟩
  else ⟨[], 0, true⟩

/-- The law of `HttpParser` for callbacks of which only the last can be at the end. -/
theorem Execution.last_of_dropLast {ex : Execution σ} {data : List UInt8}
    (hinner : ∀ m ∈ ex.made.dropLast, ¬ m.AtEnd data)
    (hlast : ∀ m ∈ ex.made.getLast?, ex.parser = m.parser) {before : List (Made σ)} {m : Made σ}
    {after : List (Made σ)} (h : ex.made = before ++ m :: after) (hend : m.AtEnd data) :
    after = [] ∧ ex.parser = m.parser := by
  cases after with
  | nil => exact ⟨rfl, hlast m (by simp [h])⟩
  | cons m' after =>
    have hmem : m ∈ ex.made.dropLast := by
      rw [h]
      simp [List.dropLast_append_of_ne_nil]
    exact absurd hend (hinner m hmem)

/-- `executeGets` with its laws. -/
def gets : HttpParser Bool where
  execute := executeGets
  errno _ := 0
  pos_le {s data m} hm _ := by
    have hone : ∀ m ∈ madeOfGet 0, m.pos ≤ get.length := by decide
    have htwo : ∀ m ∈ madeOfGet 0 ++ madeOfGet 18, m.pos ≤ (get ++ get).length := by decide
    unfold executeGets at hm
    split_ifs at hm with h₁ h₂ h₃
    · simp at hm
    · rw [h₂]
      exact hone m hm
    · rw [h₃]
      exact htwo m hm
    · simp at hm
  last {s data before m after} h _ hend := by
    refine Execution.last_of_dropLast ?_ ?_ h hend
    · unfold executeGets
      split_ifs with h₁ h₂ h₃
      · simp
      · rw [h₂]
        decide
      · rw [h₃]
        decide
      · simp
    · unfold executeGets
      split_ifs
      · simp
      · decide
      · decide
      · simp

/-- A parser for requests, whose JavaScript has set every callback. -/
def server : HTTPParser Bool :=
  ⟨false, ⟨true, true, true⟩, ⟨{ buf := ⟨List.replicate 32 0, by decide⟩ }, []⟩, 0, []⟩

/-- One request a read: pausing in `onRequest` loses nothing. -/
theorem nothingLost_iff_along_oneByOne :
    Along (Twin.step gets fun seen => seen.getLast? = some .request)
        (PausesAtEnd gets fun seen => seen.getLast? = some .request) ⟨server, server, []⟩
        [.execute get, .plugin get] ∧
      ∀ fed rest u, [Read.execute get, .plugin get] = fed ++ rest →
        run (Twin.step gets fun seen => seen.getLast? = some .request) ⟨server, server, []⟩ fed
          = some u → u.NothingLost := by
  have halong : Along (Twin.step gets fun seen => seen.getLast? = some .request)
      (PausesAtEnd gets fun seen => seen.getLast? = some .request) ⟨server, server, []⟩
      [.execute get, .plugin get] := by decide
  exact ⟨halong, (nothingLost_iff_along (Option.eq_some_of_isSome (by decide))).mpr halong⟩

/-- **The second request of a read is lost** when `onRequest` pauses the parser on the first: it
    is not parsed after the resume either, when the next read comes. -/
theorem not_nothingLost_pipelined :
    ∃ t, run (Twin.step gets fun seen => seen.length = 2) ⟨server, server, []⟩
        [.execute (get ++ get), .execute get] = some t ∧
      ¬ t.NothingLost ∧ t.lost = get ∧ t.paused.progress.seen.count .request = 2 ∧
      t.plain.progress.seen.count .request = 3 :=
  ⟨_, Option.eq_some_of_isSome (by decide), by decide⟩

end Dv8.Http
