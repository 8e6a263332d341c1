import Dv8.Http.Execute

namespace Dv8.Http

open Dv8.Lib

/-!
# What `http_parser_execute` does about a byte

`Core.turn_sound` says once what a turn of the loop can do, for every state and every byte: which
marks are set, what the parser looks like where the function can be left, and how far `p` goes.
What holds over a whole call, and over whole connections, is derived from it.

* `Core.Inv` — what holds of the parser between two bytes: the state of the header names a word
  and `index` a place inside it, and the length of a body is what the state says;
* `Move.Sound` — a move in whose course no `assert` fails;
* `Core.turn_sound` — every move of a parser that keeps `Core.Inv` is sound and keeps it.
-/

/-! ### The parser between two bytes -/

/-- A field is being read: the word it may still be, and how much of it has been seen. -/
def HeaderState.FieldIndex (h : HeaderState) (index : Nat) : Prop :=
  match h with
  | .general | .connection | .contentLength | .transferEncoding | .upgrade => True
  | .C => index = 0
  | .CO => index = 1
  | .CON => index = 2
  | .matchingConnection => index + 1 < (ascii "connection").length
  | .matchingProxyConnection => index + 1 < (ascii "proxy-connection").length
  | .matchingContentLength => index + 1 < (ascii "content-length").length
  | .matchingTransferEncoding => index + 1 < (ascii "transfer-encoding").length
  | .matchingUpgrade => index + 1 < (ascii "upgrade").length
  | _ => False

/-- A value is being read: the word it may still be, and how much of it has been seen. -/
def HeaderState.ValueIndex (h : HeaderState) (index : Nat) : Prop :=
  match h with
  | .connection | .transferEncoding => False
  | .matchingTransferEncodingChunked => index + 1 < (ascii "chunked").length
  | .matchingConnectionTokenStart => index = 0
  | .matchingConnectionKeepAlive => index + 1 < (ascii "keep-alive").length
  | .matchingConnectionClose => index + 1 < (ascii "close").length
  | .matchingConnectionUpgrade => index + 1 < (ascii "upgrade").length
  | _ => True

/-- What the state says about the rest of the parser. -/
def Core.StateInv (c : Core) : Prop :=
  match c.state with
  | .reqMethod => c.index ≤ c.method.string.length
  | .headerField => c.headerState.FieldIndex c.index
  | .headerValue => c.headerState.ValueIndex c.index
  | .chunkSizeStart | .chunkDataDone => c.flags.chunked = true
  | .chunkSize | .chunkParameters | .chunkSizeAlmostDone =>
    c.flags.chunked = true ∧ c.contentLength < ULLONG_MAX
  | .chunkData => c.flags.chunked = true ∧ 0 < c.contentLength ∧ c.contentLength < ULLONG_MAX
  | .chunkDataAlmostDone => c.flags.chunked = true ∧ c.contentLength = 0
  | .bodyIdentity => 0 < c.contentLength ∧ c.contentLength < ULLONG_MAX
  | _ => True

/-- What holds of the parser at any time; `index` has seven bits. -/
structure Core.Base (c : Core) : Prop where
  errno : c.httpErrno = .ok
  index : c.index ≤ 16
  length : c.contentLength ≤ ULLONG_MAX
  status : c.statusCode ≤ 999

/-- What holds of the parser between two bytes. -/
structure Core.Inv (c : Core) : Prop extends c.Base where
  state : c.StateInv

/-! ### Sound moves -/

/-- The marks that are set: none, exactly one, or at most one. -/
inductive Marks where
  | clear
  | set (k : Kind)
  | atMost (k : Kind)
  deriving DecidableEq, Repr

/-- The marks between two bytes: a body may have begun with these data, or before. -/
def State.marks : State → Marks
  | .headerField => .set .headerField
  | .headerValue => .set .headerValue
  | .reqPath | .reqSchema | .reqSchemaSlash | .reqSchemaSlashSlash | .reqServerStart | .reqServer
  | .reqServerWithAt | .reqQueryStringStart | .reqQueryString | .reqFragmentStart
  | .reqFragment => .set .url
  | .resStatus => .set .status
  | .chunkData | .chunkDataAlmostDone | .bodyIdentity | .bodyIdentityEof => .atMost .body
  | _ => .clear

/-- No mark but `k` is set. -/
def Marks.Only (a : Marks) (k : Kind) : Prop := a = .clear ∨ a = .set k ∨ a = .atMost k

/-- It is known which marks are set. -/
def Marks.Known (a : Marks) : Prop := ∀ k, a ≠ .atMost k

/-- Marks as they may be between two bytes. -/
def Marks.Fit (a b : Marks) : Prop :=
  match a with
  | .clear => b = .clear ∨ ∃ k, b = .atMost k
  | .set k => b = .set k ∨ b = .atMost k
  | .atMost _ => False

/-- Nothing happens to the parser any more. -/
def Move.Ends (c : Core) (m : Move) : Prop := m = .next c ∨ ∃ advance, m = .ret c advance

/-- A move that goes through: `a` are the marks, `n` is `nread` where it matters, and there are
    `room` bytes from `p` on.  No more than `len` bytes are counted at once.  A callback for
    JavaScript that takes the byte at `p` is the last thing that is done about it. -/
def Move.Sound (len : Nat) : Marks → Option Nat → Nat → Move → Prop
  | a, n, room, .next c => c.Inv ∧ a.Fit c.state.marks ∧ 0 < room ∧
      (c.state = .chunkSizeStart → n = some 0)
  | a, _, room, .ret c _ => c.Inv ∧ a = .clear ∧ 0 < room ∧ c.state.marks = .clear ∧
      c.state ≠ .chunkSizeStart ∧ c.upgrade = true
  | _, _, _, .fail _ e => e ≠ .ok
  | _, _, _, .abort => False
  | a, n, room, .mark k m => a.Only k ∧ 0 < room ∧ m.Sound len (.set k) n room
  | a, n, room, .data k c whole advance m => a.Only k ∧ (whole = true → a = .set k) ∧
      0 < room ∧ c.Inv ∧ c.state ≠ .chunkSizeStart ∧ (k = .body → advance = true → m.Ends c) ∧
      m.Sound len .clear n room
  | a, n, room, .notify _ c advance m => a = .clear ∧ 0 < room ∧ c.Inv ∧
      c.state ≠ .chunkSizeStart ∧ (advance = true ∨ m.returns = true → m.Ends c) ∧
      m.Sound len .clear n room
  | a, n, room, .count v _ m => v ≤ len ∧ m.Sound len a (n.map (· + v)) room
  | a, _, room, .reset m => m.Sound len a (some 0) room
  | a, n, room, .counted m => n = some 1 ∧ m.Sound len a n room
  | a, n, room, .skip v m => a.Known ∧ v ≤ room ∧ m.Sound len a n (room - v)
  | a, n, room, .back m => room = 0 ∧ (∃ c, m = .next c) ∧ m.Sound len a n 1

/-! ### Plain steps -/

/-- Between two bytes nothing is known in this state, and no mark is set. -/
def State.plain : State → Bool
  | .dead | .startReqOrRes | .resOrRespH | .startRes | .resH | .resHT | .resHTT | .resHTTP
  | .resHttpMajor | .resHttpDot | .resHttpMinor | .resHttpEnd | .resFirstStatusCode
  | .resStatusCode | .resStatusStart | .resLineAlmostDone | .startReq | .reqSpacesBeforeUrl
  | .reqHttpStart | .reqHttpH | .reqHttpHT | .reqHttpHTT | .reqHttpHTTP | .reqHttpMajor
  | .reqHttpDot | .reqHttpMinor | .reqHttpEnd | .reqLineAlmostDone | .headerFieldStart
  | .headerValueDiscardWs | .headerValueDiscardWsAlmostDone | .headerValueDiscardLws
  | .headerValueStart | .headerValueLws | .headerAlmostDone | .headersAlmostDone | .headersDone
  | .messageDone => true
  | _ => false

theorem State.plain_spec {s : State} (h : s.plain = true) :
    s.marks = .clear ∧ s ≠ .chunkSizeStart := by
  cases s <;> first | contradiction | exact ⟨rfl, State.noConfusion⟩

theorem Core.Base.plain {c : Core} (h : c.Base) (hs : c.state.plain = true) : c.Inv := by
  refine ⟨h, ?_⟩
  unfold Core.StateInv
  cases hstate : c.state <;> first | trivial | (rw [hstate] at hs; contradiction)

variable {c : Core} {n : Option Nat} {room len : Nat} {ch : UInt8}

theorem Core.Base.updateState (h : c.Base) (s : State) : (c.updateState s).Base :=
  ⟨h.errno, h.index, h.length, h.status⟩

theorem startState_plain (t : ParserType) : (startState t).plain = true := by
  cases t <;> rfl

/-- On to a plain state. -/
theorem sound_next (h : c.Base) (hs : c.state.plain = true) (hroom : 0 < room) :
    (Move.next c).Sound len .clear n room := by
  obtain ⟨hmarks, hstart⟩ := State.plain_spec hs
  exact ⟨h.plain hs, .inl hmarks, hroom, fun heq => absurd heq hstart⟩

/-- A callback in a plain state. -/
theorem sound_notify (h : c.Base) (hs : c.state.plain = true) (hroom : 0 < room) {cb : Callback}
    {advance : Bool} {m : Move} (hends : advance = true ∨ m.returns = true → m.Ends c)
    (hm : m.Sound len .clear n room) : (Move.notify cb c advance m).Sound len .clear n room :=
  ⟨rfl, hroom, h.plain hs, (State.plain_spec hs).2, hends, hm⟩

/-- A callback, and on to a plain state. -/
theorem sound_notify_next (h : c.Base) (hs : c.state.plain = true) (hroom : 0 < room)
    {cb : Callback} {advance : Bool} :
    (Move.notify cb c advance (.next c)).Sound len .clear n room :=
  sound_notify h hs hroom (fun _ => .inl rfl) (sound_next h hs hroom)

/-- A callback for what has been marked, in a plain state. -/
theorem sound_data (h : c.Base) (hs : c.state.plain = true) (hroom : 0 < room) {a : Marks}
    {k : Kind} (ha : a.Only k) {whole advance : Bool} (hwhole : whole = true → a = .set k)
    {m : Move} (hends : k = .body → advance = true → m.Ends c) (hm : m.Sound len .clear n room) :
    (Move.data k c whole advance m).Sound len a n room :=
  ⟨ha, hwhole, hroom, h.plain hs, (State.plain_spec hs).2, hends, hm⟩

/-- A callback, and on to a plain state. -/
theorem sound_data_next (h : c.Base) (hs : c.state.plain = true) (hroom : 0 < room) {a : Marks}
    {k : Kind} (ha : a.Only k) {advance : Bool} :
    (Move.data k c false advance (.next c)).Sound len a n room :=
  sound_data h hs hroom ha (fun h => absurd h Bool.noConfusion) (fun _ _ => .inl rfl)
    (sound_next h hs hroom)

/-- The callback for a value, in a plain state. -/
theorem sound_headerValue (h : c.Base) (hs : c.state.plain = true) (hroom : 0 < room)
    {advance : Bool} {m : Move} (hm : m.Sound len .clear n room) :
    (Move.data .headerValue c false advance m).Sound len (.set .headerValue) n room :=
  sound_data h hs hroom (.inr (.inl rfl)) (fun h => absurd h Bool.noConfusion)
    (fun h => absurd h Kind.noConfusion) hm

/-- The message is over. -/
theorem sound_complete (h : c.Base) (hroom : 0 < room) :
    (Move.notify .messageComplete c.newMessage true (.next c.newMessage)).Sound len .clear n room :=
  sound_notify_next (h.updateState _) (startState_plain c.type) hroom

/-- The message is over, and the function is left. -/
theorem sound_complete_ret (h : c.Base) (hupgrade : c.upgrade = true) (hroom : 0 < room) :
    (Move.notify .messageComplete c.newMessage true (.ret c.newMessage true)).Sound len .clear n
      room := by
  have hs := startState_plain c.type
  obtain ⟨hmarks, hstart⟩ := State.plain_spec hs
  exact sound_notify (h.updateState _) hs hroom (fun _ => .inr ⟨_, rfl⟩)
    ⟨(h.updateState _).plain hs, rfl, hroom, hmarks, hstart, hupgrade⟩

theorem messageDone_sound (h : c.Base) (hroom : 0 < room) :
    c.messageDone.Sound len .clear n room := by
  unfold Core.messageDone
  split
  · exact sound_complete_ret h ‹_› hroom
  · exact sound_complete h hroom

theorem headersDone_sound (h : c.Base) (hroom : 0 < room) :
    c.headersDone.Sound len .clear n room := by
  have hlength := h.length
  unfold Core.headersDone
  show Move.Sound len .clear (some 0) room _
  split_ifs with hupgrade hskip hchunked hzero hknown heof
  · exact sound_complete_ret h (Bool.and_eq_true_iff.mp hupgrade).1 hroom
  · exact sound_complete h hroom
  · exact ⟨⟨h.updateState _, hchunked⟩, .inl rfl, hroom, fun _ => rfl⟩
  · exact sound_complete h hroom
  · refine ⟨⟨h.updateState _, ?_⟩, .inr ⟨_, rfl⟩, hroom, State.noConfusion⟩
    show 0 < c.contentLength ∧ c.contentLength < ULLONG_MAX
    omega
  · exact sound_complete h hroom
  · exact ⟨⟨h.updateState _, trivial⟩, .inr ⟨_, rfl⟩, hroom, State.noConfusion⟩

theorem headersAlmostDone_sound (h : c.Base) (hroom : 0 < room) :
    c.headersAlmostDone.Sound len .clear n room := by
  unfold Core.headersAlmostDone
  split
  · exact messageDone_sound (h.updateState _) hroom
  split
  · exact Errno.noConfusion
  · have hdone : ∀ u, ({ c with state := .headersDone, upgrade := u } : Core).Base := fun u =>
      ⟨h.errno, h.index, h.length, h.status⟩
    exact sound_notify (hdone _) rfl hroom (by rintro (h | h) <;> cases h)
      (headersDone_sound (hdone _) hroom)

/-! ### Fields -/

/-- The next byte of a word: it is another word, or the same, or the whole word. -/
theorem matching_induction {P : HeaderState → Prop} {word : List UInt8} {i : Nat} {ch : UInt8}
    {no this yes : HeaderState} (hi : i < word.length) (hno : P no)
    (hthis : i + 1 < word.length → P this) (hyes : P yes) : P (matching word i ch no this yes) := by
  unfold matching
  split_ifs
  · exact hno
  · exact hyes
  · exact hthis (by omega)

/-- A byte of a field. -/
theorem fieldStep_spec (h : c.Base) (hf : c.headerState.FieldIndex c.index) (ch tok : UInt8) :
    ∃ c', c.fieldStep ch tok = some c' ∧ c'.Base ∧ c'.headerState.FieldIndex c'.index ∧
      c'.state = c.state := by
  have hword (word : List UInt8) (hlt : c.index + 1 < word.length) (hle : word.length ≤ 17)
      (no this yes : HeaderState) (hno : no.FieldIndex (c.index + 1))
      (hthis : c.index + 1 + 1 < word.length → this.FieldIndex (c.index + 1))
      (hyes : yes.FieldIndex (c.index + 1)) :
      ∃ c', some { c with
          index := c.index + 1
          headerState := matching word (c.index + 1) tok no this yes } = some c' ∧ c'.Base ∧
        c'.headerState.FieldIndex c'.index ∧ c'.state = c.state :=
    ⟨_, rfl, ⟨h.errno, by show c.index + 1 ≤ 16; omega, h.length, h.status⟩,
      matching_induction (P := fun s => s.FieldIndex (c.index + 1)) hlt hno hthis hyes, rfl⟩
  unfold Core.fieldStep
  cases hh : c.headerState <;> rw [hh] at hf <;> first | contradiction | dsimp only
  case general => exact ⟨c, rfl, h, hh ▸ hf, rfl⟩
  case C =>
    have hindex : c.index = 0 := hf
    refine ⟨_, rfl, ⟨h.errno, by show c.index + 1 ≤ 16; omega, h.length, h.status⟩, ?_, rfl⟩
    show HeaderState.FieldIndex (if _ then _ else _) (c.index + 1)
    split
    · show c.index + 1 = 1
      omega
    · trivial
  case CO =>
    have hindex : c.index = 1 := hf
    refine ⟨_, rfl, ⟨h.errno, by show c.index + 1 ≤ 16; omega, h.length, h.status⟩, ?_, rfl⟩
    show HeaderState.FieldIndex (if _ then _ else _) (c.index + 1)
    split
    · show c.index + 1 = 2
      omega
    · trivial
  case CON =>
    have hindex : c.index = 2 := hf
    refine ⟨_, rfl, ⟨h.errno, by show c.index + 1 ≤ 16; omega, h.length, h.status⟩, ?_, rfl⟩
    show HeaderState.FieldIndex (if _ then _ else if _ then _ else _) (c.index + 1)
    split_ifs
    · show c.index + 1 + 1 < 10
      omega
    · show c.index + 1 + 1 < 14
      omega
    · trivial
  case matchingConnection => exact hword _ hf (by decide) _ _ _ trivial id trivial
  case matchingProxyConnection => exact hword _ hf (by decide) _ _ _ trivial id trivial
  case matchingContentLength => exact hword _ hf (by decide) _ _ _ trivial id trivial
  case matchingTransferEncoding => exact hword _ hf (by decide) _ _ _ trivial id trivial
  case matchingUpgrade => exact hword _ hf (by decide) _ _ _ trivial id trivial
  -- the whole word has been seen
  all_goals
    refine ⟨_, rfl, ?_⟩
    split_ifs
    · exact ⟨⟨h.errno, h.index, h.length, h.status⟩, trivial, rfl⟩
    · exact ⟨h, hh ▸ trivial, rfl⟩

/-- The bytes of a field, up to one that is not in a token. -/
theorem fieldLoop_spec (xs : List UInt8) (h : c.Base) (hf : c.headerState.FieldIndex c.index) :
    ∃ q k, c.fieldLoop xs = some (q, k) ∧ k ≤ xs.length ∧ q.Base ∧
      q.headerState.FieldIndex q.index ∧ q.state = c.state := by
  induction xs generalizing c with
  | nil => exact ⟨c, 0, rfl, Nat.le_refl _, h, hf, rfl⟩
  | cons ch xs ih =>
    unfold Core.fieldLoop
    split
    · exact ⟨c, 0, rfl, Nat.zero_le _, h, hf, rfl⟩
    · obtain ⟨c', hstep, h', hf', hs'⟩ := fieldStep_spec h hf ch (token ch)
      obtain ⟨q, k, hloop, hk, hq, hfq, hsq⟩ := ih h' hf'
      refine ⟨q, k + 1, ?_, Nat.succ_le_succ hk, hq, hfq, hsq.trans hs'⟩
      rw [hstep, Option.bind_some, hloop]
      rfl

theorem headerField_sound (h : c.Inv) (hs : c.state = .headerField) {xs : List UInt8}
    (hlen : xs.length ≤ len) : (c.headerField xs).Sound len (.set .headerField) n xs.length := by
  have hf : c.headerState.FieldIndex c.index := by
    have hstate := h.state
    unfold Core.StateInv at hstate
    rwa [hs] at hstate
  obtain ⟨q, k, hloop, hk, hq, hfq, hsq⟩ := fieldLoop_spec xs h.toBase hf
  unfold Core.headerField
  rw [hloop]
  refine ⟨fun _ => Marks.noConfusion, hk, hk.trans hlen, ?_⟩
  show Move.Sound len _ (n.map (· + k)) (xs.length - k) _
  unfold Core.fieldEnd
  cases hget : xs[k]? with
  | none =>
    -- the field goes on in the next data
    have hstate : q.state = .headerField := hsq.trans hs
    have hroom : xs.length - k = 0 := by
      have := List.getElem?_eq_none_iff.mp hget
      omega
    refine ⟨hroom, ⟨_, rfl⟩, ⟨hq, ?_⟩, ?_, Nat.one_pos, ?_⟩
    · unfold Core.StateInv
      rw [hstate]
      exact hfq
    · rw [hstate]
      exact .inl rfl
    · rw [hstate]
      exact State.noConfusion
  | some ch =>
    have hlt : k < xs.length := (List.getElem?_eq_some_iff.mp hget).1
    dsimp only
    split
    · exact sound_data_next (hq.updateState _) rfl (by omega) (.inr (.inl rfl))
    · exact Errno.noConfusion

theorem headerFieldStart_sound (h : c.Base) (hroom : 0 < room) :
    (c.headerFieldStart ch).Sound len .clear n room := by
  unfold Core.headerFieldStart
  split
  · exact sound_next (h.updateState _) rfl hroom
  split
  · exact headersAlmostDone_sound (h.updateState _) hroom
  split
  · exact Errno.noConfusion
  · refine ⟨.inl rfl, hroom, ⟨⟨h.errno, Nat.zero_le _, h.length, h.status⟩, ?_⟩, .inl rfl, hroom,
      State.noConfusion⟩
    show HeaderState.FieldIndex _ 0
    split_ifs <;> first | trivial | exact rfl | (show (_ : Nat) < _; decide)

/-! ### Values -/

theorem contentLengthNum_spec (h : c.Base) (ch : UInt8) :
    match c.contentLengthNum ch with
    | .go c' h' => c'.Base ∧ h'.ValueIndex c'.index ∧ c'.state = c.state
    | .jump => False
    | .fail e => e ≠ .ok
    | .abort => False := by
  unfold Core.contentLengthNum
  by_cases hspace : ch = chr ' '
  · rw [if_pos hspace]
    exact ⟨h, trivial, rfl⟩
  rw [if_neg hspace]
  by_cases hnum : (!isNum ch) = true
  · rw [if_pos hnum]
    exact Errno.noConfusion
  rw [if_neg hnum]
  dsimp only
  by_cases hbig : (ULLONG_MAX - 10) / 10 < c.contentLength
  · rw [if_pos hbig]
    exact Errno.noConfusion
  · rw [if_neg hbig]
    refine ⟨⟨h.errno, h.index, ?_, h.status⟩, trivial, rfl⟩
    show (_ : Nat) % 2 ^ 64 ≤ 2 ^ 64 - 1
    omega

/-- A byte of a value. -/
theorem valueStep_spec (h : c.Base) {s : HeaderState} (hv : s.ValueIndex c.index)
    (hs : c.state = .headerValue) (ch : UInt8) :
    match c.valueStep s ch with
    | .go c' h' => c'.Base ∧ h'.ValueIndex c'.index ∧ c'.state = c.state
    | .jump => s = .general
    | .fail e => e ≠ .ok
    | .abort => False := by
  have hword (word : List UInt8) (hlt : c.index + 1 < word.length) (hle : word.length ≤ 17)
      (no this yes : HeaderState) (hno : no.ValueIndex (c.index + 1))
      (hthis : c.index + 1 + 1 < word.length → this.ValueIndex (c.index + 1))
      (hyes : yes.ValueIndex (c.index + 1)) :
      ({ c with index := c.index + 1 } : Core).Base ∧
        (matching word (c.index + 1) (lower ch) no this yes).ValueIndex (c.index + 1) ∧
        c.state = c.state :=
    ⟨⟨h.errno, by show c.index + 1 ≤ 16; omega, h.length, h.status⟩,
      matching_induction (P := fun s => s.ValueIndex (c.index + 1)) hlt hno hthis hyes, rfl⟩
  have hzero (f : Flags) : ({ c with flags := f, index := 0 } : Core).Base :=
    ⟨h.errno, Nat.zero_le _, h.length, h.status⟩
  unfold Core.valueStep
  cases s <;> dsimp only
  case connection => exact hv
  case transferEncoding => exact hv
  case contentLength =>
    by_cases hspace : ch = chr ' '
    · rw [if_pos hspace]
      exact ⟨h, trivial, rfl⟩
    · rw [if_neg hspace]
      have hnum := contentLengthNum_spec h ch
      split <;> rename_i heq <;> rw [heq] at hnum
      · exact hnum
      · exact hnum.elim
      · exact hnum
      · exact hnum
  case contentLengthNum =>
    have hnum := contentLengthNum_spec h ch
    split <;> rename_i heq <;> rw [heq] at hnum
    · exact hnum
    · exact hnum.elim
    · exact hnum
    · exact hnum
  case contentLengthWs =>
    by_cases hspace : ch = chr ' '
    · rw [if_pos hspace]
      exact ⟨h, trivial, rfl⟩
    · rw [if_neg hspace]
      exact Errno.noConfusion
  case matchingTransferEncodingChunked => exact hword _ hv (by decide) _ _ _ trivial id trivial
  case matchingConnectionTokenStart =>
    have hindex : c.index = 0 := hv
    refine ⟨h, ?_, rfl⟩
    rw [hindex]
    split_ifs <;> first | trivial | exact rfl | (show (_ : Nat) < _; decide)
  case matchingConnectionKeepAlive => exact hword _ hv (by decide) _ _ _ trivial id trivial
  case matchingConnectionClose => exact hword _ hv (by decide) _ _ _ trivial id trivial
  case matchingConnectionUpgrade => exact hword _ hv (by decide) _ _ _ trivial id trivial
  case matchingConnectionToken =>
    by_cases hcomma : ch = chr ','
    · rw [if_pos hcomma]
      exact ⟨hzero _, rfl, rfl⟩
    · rw [if_neg hcomma]
      exact ⟨h, trivial, rfl⟩
  case transferEncodingChunked =>
    refine ⟨h, ?_, rfl⟩
    split_ifs <;> trivial
  case connectionKeepAlive | connectionClose | connectionUpgrade =>
    by_cases hcomma : ch = chr ','
    · rw [if_pos hcomma]
      exact ⟨hzero _, rfl, rfl⟩
    · rw [if_neg hcomma]
      refine ⟨h, ?_, rfl⟩
      split_ifs <;> trivial
  -- not a state of a value
  all_goals exact ⟨h.updateState _, trivial, hs.symm⟩

/-- What the loop over a value leaves behind. -/
structure ValueLoop.Spec (r : ValueLoop) (xs : List UInt8) : Prop where
  base : r.core.Base
  index : r.hState.ValueIndex r.core.index
  state : r.core.state = .headerValue
  taken : r.taken ≤ xs.length
  cr : r.stop = .cr → xs[r.taken]? = some CR
  lf : r.stop = .lf → xs[r.taken]? = some LF
  data : r.stop = .data → r.taken = xs.length
  fail : r.stop ≠ .fail .ok
  abort : r.stop ≠ .abort

theorem valueJump_spec (h : c.Base) {s : HeaderState} (hv : s.ValueIndex c.index)
    (hs : c.state = .headerValue) (xs : List UInt8) : (c.valueJump s xs).Spec xs := by
  unfold Core.valueJump
  cases hfind : (xs.take maxHeaderSize).findIdx? fun ch => ch = CR || ch = LF with
  | none =>
    exact ⟨h, hv, hs, Nat.le_refl _, nofun, nofun, fun _ => rfl, nofun, nofun⟩
  | some i =>
    obtain ⟨hlt, heol, -⟩ := List.findIdx?_eq_some_iff_getElem.mp hfind
    have hlt' : i < xs.length := by
      rw [List.length_take] at hlt
      omega
    rw [List.getElem_take, Bool.or_eq_true, decide_eq_true_iff, decide_eq_true_iff] at heol
    have hget : xs[i]? = some xs[i] := List.getElem?_eq_getElem hlt'
    refine ⟨h, hv, hs, hlt'.le, fun hstop => ?_, fun hstop => ?_, fun hstop => ?_, fun hstop => ?_,
      fun hstop => ?_⟩ <;> dsimp only at hstop ⊢ <;> split_ifs at hstop with hcr
    · exact hcr
    · rw [hget] at hcr ⊢
      exact congrArg some (heol.resolve_left fun heq => hcr (congrArg some heq))

theorem valueLoop_spec (xs : List UInt8) (h : c.Base) {s : HeaderState}
    (hv : s.ValueIndex c.index) (hs : c.state = .headerValue) : (c.valueLoop s xs).Spec xs := by
  induction xs generalizing c s with
  | nil => exact ⟨h, hv, hs, Nat.le_refl _, nofun, nofun, fun _ => rfl, nofun, nofun⟩
  | cons ch xs ih =>
    unfold Core.valueLoop
    by_cases hcr : ch = CR
    · rw [if_pos hcr]
      exact ⟨h, hv, hs, Nat.zero_le _, fun _ => congrArg some hcr, nofun, nofun, nofun, nofun⟩
    by_cases hlf : ch = LF
    · rw [if_neg hcr, if_pos hlf]
      exact ⟨h, hv, hs, Nat.zero_le _, nofun, fun _ => congrArg some hlf, nofun, nofun, nofun⟩
    rw [if_neg hcr, if_neg hlf]
    split
    · exact ⟨h, hv, hs, Nat.zero_le _, nofun, nofun, nofun, nofun, nofun⟩
    · have hstep := valueStep_spec h hv hs ch
      split <;> rename_i heq <;> rw [heq] at hstep
      · obtain ⟨h', hv', hs'⟩ := hstep
        have hr := ih h' hv' (hs'.trans hs)
        exact ⟨hr.base, hr.index, hr.state, Nat.succ_le_succ hr.taken, hr.cr, hr.lf,
          fun hd => congrArg Nat.succ (hr.data hd), hr.fail, hr.abort⟩
      · exact valueJump_spec h hv hs _
      · refine ⟨h, hv, hs, Nat.zero_le _, nofun, nofun, nofun, fun hfail => ?_, nofun⟩
        exact hstep (ValueEnd.fail.inj hfail)
      · exact hstep.elim

theorem headerAlmostDone_sound (h : c.Base) (hroom : 0 < room) :
    (c.headerAlmostDone ch).Sound len .clear n room := by
  unfold Core.headerAlmostDone
  split
  · exact Errno.noConfusion
  · exact sound_next (h.updateState _) rfl hroom

theorem headerValue_sound (h : c.Inv) (hs : c.state = .headerValue) {xs : List UInt8}
    (hlen : xs.length ≤ len) : (c.headerValue xs).Sound len (.set .headerValue) n xs.length := by
  have hv : c.headerState.ValueIndex c.index := by
    have hstate := h.state
    unfold Core.StateInv at hstate
    rwa [hs] at hstate
  have hr := valueLoop_spec xs h.toBase hv hs
  unfold Core.headerValue
  generalize c.valueLoop c.headerState xs = r at hr ⊢
  unfold ValueLoop.move
  have hq : ({ r.core with headerState := r.hState } : Core).Base :=
    ⟨hr.base.errno, hr.base.index, hr.base.length, hr.base.status⟩
  have hknown : (Marks.set .headerValue).Known := fun _ => Marks.noConfusion
  dsimp only
  cases hstop : r.stop with
  | cr =>
    have hlt := (List.getElem?_eq_some_iff.mp (hr.cr hstop)).1
    refine ⟨hknown, hr.taken, ?_⟩
    exact sound_headerValue (hq.updateState _) rfl (by omega)
      ⟨hr.taken.trans hlen, sound_next (n := n.map _) (hq.updateState _) rfl (by omega)⟩
  | lf =>
    have hlt := (List.getElem?_eq_some_iff.mp (hr.lf hstop)).1
    refine ⟨hknown, hr.taken, hr.taken.trans hlen, ?_⟩
    show Move.Sound len _ (n.map _) _ (.data _ _ false false _)
    exact sound_headerValue (hq.updateState _) rfl (by omega)
      (headerAlmostDone_sound (hq.updateState _) (by omega))
  | data =>
    have hroom : xs.length - r.taken = 0 := by
      rw [hr.data hstop, Nat.sub_self]
    refine ⟨hknown, hr.taken, hr.taken.trans hlen, hroom, ⟨_, rfl⟩, ⟨hq, ?_⟩, ?_, Nat.one_pos, ?_⟩
    · unfold Core.StateInv
      dsimp only
      rw [hr.state]
      exact hr.index
    · dsimp only
      rw [hr.state]
      exact .inl rfl
    · dsimp only
      rw [hr.state]
      exact State.noConfusion
  | fail e => exact ⟨hknown, hr.taken, fun he => hr.fail (he ▸ hstop)⟩
  | abort => exact absurd hstop hr.abort

theorem headerValueStart_sound (h : c.Base) (hroom : 0 < room) :
    (c.headerValueStart ch).Sound len .clear n room := by
  have hnext (f : Flags) (t : HeaderState) (ht : t.ValueIndex 0) (k : Nat) (hk : k ≤ ULLONG_MAX) :
      (Move.next { c with
        state := .headerValue, index := 0, flags := f, headerState := t,
        contentLength := k }).Sound len (.set .headerValue) n room :=
    ⟨⟨⟨h.errno, Nat.zero_le _, hk, h.status⟩, ht⟩, .inl rfl, hroom, State.noConfusion⟩
  unfold Core.headerValueStart
  refine ⟨.inl rfl, hroom, ?_⟩
  dsimp only
  split
  · exact hnext _ .general trivial _ h.length
  · refine hnext _ _ ?_ _ h.length
    split_ifs
    · show (_ : Nat) < _
      decide
    · trivial
  · split
    · exact Errno.noConfusion
    split
    · exact Errno.noConfusion
    · refine hnext _ .contentLengthNum trivial _ ?_
      have := ch.toNat_lt
      unfold ULLONG_MAX
      omega
  · refine hnext _ _ ?_ _ h.length
    split_ifs <;> first | trivial | (show (_ : Nat) < _; decide)
  · rename_i heq
    exact hnext _ _ (by rw [heq]; exact rfl) _ h.length
  · exact hnext _ .general trivial _ h.length

theorem Core.Base.headerEnd (h : c.Base) : c.headerEnd.Base := by
  unfold Core.headerEnd
  split <;> exact ⟨h.errno, h.index, h.length, h.status⟩

theorem headerValueLws_sound (h : c.Base) (hroom : 0 < room) :
    (c.headerValueLws ch).Sound len .clear n room := by
  unfold Core.headerValueLws
  split
  · exact headerValueStart_sound (h.updateState _) hroom
  · exact headerFieldStart_sound (h.headerEnd.updateState _) hroom

theorem headerValueDiscardLws_sound (h : c.Base) (hroom : 0 < room) :
    (c.headerValueDiscardLws ch).Sound len .clear n room := by
  unfold Core.headerValueDiscardLws
  split
  · exact sound_next (h.updateState _) rfl hroom
  · have hend := h.headerEnd.updateState .headerFieldStart
    exact ⟨.inl rfl, hroom, sound_headerValue hend rfl hroom
      (headerFieldStart_sound hend hroom)⟩

theorem headerValueDiscardWs_sound (h : c.Base) (hs : c.state = .headerValueDiscardWs)
    (hroom : 0 < room) : (c.headerValueDiscardWs ch).Sound len .clear n room := by
  unfold Core.headerValueDiscardWs
  split
  · exact sound_next h (by rw [hs]; rfl) hroom
  split
  · exact sound_next (h.updateState _) rfl hroom
  split
  · exact sound_next (h.updateState _) rfl hroom
  · exact headerValueStart_sound h hroom

/-! ### Start lines -/

theorem Core.Base.fresh (h : c.Base) : c.fresh.Base :=
  ⟨h.errno, h.index, Nat.le_refl _, h.status⟩

/-- A method begins. -/
theorem reqMethod_inv (h : c.Base) {t : ParserType} {method : Method} {index : Nat}
    (hindex : index ≤ method.string.length) :
    ({ c with type := t, method := method, index := index, state := .reqMethod } : Core).Inv := by
  have hlength : method.string.length ≤ 16 := by cases method <;> decide
  exact ⟨⟨h.errno, hindex.trans hlength, h.length, h.status⟩, hindex⟩

theorem one_le_string (method : Method) : 1 ≤ method.string.length := by
  cases method <;> decide

theorem startReq_sound (h : c.Base) (hs : c.state.plain = true) (hroom : 0 < room) :
    (c.startReq ch).Sound len .clear n room := by
  unfold Core.startReq
  split
  · exact sound_next h hs hroom
  dsimp only
  split
  · exact Errno.noConfusion
  cases Method.ofFirst ch with
  | none => exact Errno.noConfusion
  | some method =>
    have hinv := reqMethod_inv h.fresh (t := c.type) (one_le_string method)
    exact ⟨rfl, hroom, hinv, State.noConfusion, fun _ => .inl rfl, hinv, .inl rfl, hroom,
      State.noConfusion⟩

theorem startReqOrRes_sound (h : c.Base) (hs : c.state = .startReqOrRes) (hroom : 0 < room) :
    (c.startReqOrRes ch).Sound len .clear n room := by
  have hfresh := h.fresh
  unfold Core.startReqOrRes
  split
  · exact sound_next h (by rw [hs]; rfl) hroom
  dsimp only
  split
  · exact sound_notify_next (hfresh.updateState _) rfl hroom
  · exact startReq_sound ⟨hfresh.errno, hfresh.index, hfresh.length, hfresh.status⟩ rfl hroom

theorem resOrRespH_sound (h : c.Base) (hroom : 0 < room) :
    (c.resOrRespH ch).Sound len .clear n room := by
  unfold Core.resOrRespH
  split
  · exact sound_next ⟨h.errno, h.index, h.length, h.status⟩ rfl hroom
  split
  · exact Errno.noConfusion
  · exact ⟨reqMethod_inv h (by decide), .inl rfl, hroom, State.noConfusion⟩

theorem startRes_sound (h : c.Base) (hs : c.state.plain = true) (hroom : 0 < room) :
    (c.startRes ch).Sound len .clear n room := by
  have hfresh := h.fresh
  unfold Core.startRes
  dsimp only
  split
  · exact sound_notify_next (hfresh.updateState _) rfl hroom
  split
  · exact sound_notify_next hfresh hs hroom
  · exact Errno.noConfusion

theorem digit_sound {set : Core → Nat → Core} {s : State} (h : ∀ d, (set c d).Base)
    (hs : s.plain = true) (hroom : 0 < room) : (c.digit ch set s).Sound len .clear n room := by
  unfold Core.digit
  split
  · exact Errno.noConfusion
  · exact sound_next ((h _).updateState s) hs hroom

theorem expect_sound {want : UInt8} {e : Errno} {s : State} (h : c.Base) (he : e ≠ .ok)
    (hs : s.plain = true) (hroom : 0 < room) : (c.expect ch want e s).Sound len .clear n room := by
  unfold Core.expect
  split
  · exact he
  · exact sound_next (h.updateState s) hs hroom

theorem resFirstStatusCode_sound (h : c.Base) (hs : c.state.plain = true) (hroom : 0 < room) :
    (c.resFirstStatusCode ch).Sound len .clear n room := by
  unfold Core.resFirstStatusCode
  split
  · split
    · exact sound_next h hs hroom
    · exact Errno.noConfusion
  · refine sound_next ⟨h.errno, h.index, h.length, ?_⟩ rfl hroom
    have := ch.toNat_lt
    show ch.toNat - 48 ≤ 999
    omega

theorem resStatus_sound (h : c.Inv) (hs : c.state = .resStatus) (hroom : 0 < room) :
    (c.resStatus ch).Sound len (.set .status) n room := by
  unfold Core.resStatus
  split
  · exact sound_data_next (h.updateState _) rfl hroom (.inr (.inl rfl))
  split
  · exact sound_data_next (h.updateState _) rfl hroom (.inr (.inl rfl))
  · refine ⟨h, ?_, hroom, ?_⟩
    · rw [hs]
      exact .inl rfl
    · rw [hs]
      exact State.noConfusion

theorem resStatusStart_sound (h : c.Base) (hroom : 0 < room) :
    (c.resStatusStart ch).Sound len .clear n room := by
  have hinv : ({ c with state := .resStatus, index := 0 } : Core).Inv :=
    ⟨⟨h.errno, Nat.zero_le _, h.length, h.status⟩, trivial⟩
  unfold Core.resStatusStart
  refine ⟨.inl rfl, hroom, ?_⟩
  split
  · exact resStatus_sound hinv rfl hroom
  · exact ⟨hinv, .inl rfl, hroom, State.noConfusion⟩

theorem resStatusCode_sound (h : c.Base) (hs : c.state.plain = true) (hroom : 0 < room) :
    (c.resStatusCode ch).Sound len .clear n room := by
  unfold Core.resStatusCode
  split
  · split
    · exact sound_next (h.updateState _) rfl hroom
    split
    · exact resStatusStart_sound (h.updateState _) hroom
    · exact Errno.noConfusion
  dsimp only
  split
  · exact Errno.noConfusion
  · rename_i hle
    exact sound_next ⟨h.errno, h.index, h.length, Nat.le_of_not_lt hle⟩ hs hroom

/-- Another method is not over yet at its letter. -/
theorem other_length {method method' : Method} {i : Nat} (h : method.other i ch = some method') :
    i + 1 ≤ method'.string.length := by
  unfold Method.other at h
  split at h <;> first | contradiction | (split_ifs at h <;> cases h <;> decide)

theorem reqMethod_sound (h : c.Inv) (hs : c.state = .reqMethod) (hroom : 0 < room) :
    (c.reqMethod ch).Sound len .clear n room := by
  have hindex : c.index ≤ c.method.string.length := by
    have hstate := h.state
    unfold Core.StateInv at hstate
    rwa [hs] at hstate
  have hnext (method : Method) (hle : c.index + 1 ≤ method.string.length) :
      (Move.next { c with method := method, index := c.index + 1 }).Sound len .clear n room := by
    have hinv := reqMethod_inv h.toBase (t := c.type) hle
    rw [← hs] at hinv
    refine ⟨hinv, ?_, hroom, ?_⟩
    · dsimp only
      rw [hs]
      exact .inl rfl
    · dsimp only
      rw [hs]
      exact State.noConfusion
  unfold Core.reqMethod
  split
  · exact Errno.noConfusion
  rename_i hch
  -- the byte at `index` is one of the method, or the zero behind it
  cases hget : (c.method.string ++ [0])[c.index]? with
  | none =>
    rw [List.getElem?_eq_none_iff, List.length_append] at hget
    exact absurd hget (by rw [List.length_singleton]; omega)
  | some want =>
    dsimp only
    by_cases hspace : (ch = chr ' ' && want = 0) = true
    · rw [if_pos hspace]
      have hlength : c.method.string.length ≤ 15 := by cases c.method <;> decide
      refine sound_next ⟨h.errno, ?_, h.length, h.status⟩ rfl hroom
      show c.index + 1 ≤ 16
      omega
    rw [if_neg hspace]
    by_cases hwant : ch = want
    · rw [if_pos hwant]
      refine hnext c.method ?_
      rcases Nat.lt_or_eq_of_le hindex with hlt | heq
      · exact hlt
      · rw [heq, List.getElem?_append_right (Nat.le_refl _), Nat.sub_self] at hget
        exact absurd (hwant.trans (Option.some.inj hget).symm) hch
    rw [if_neg hwant]
    split
    · cases hother : c.method.other c.index ch with
      | none => exact Errno.noConfusion
      | some method => exact hnext method (other_length hother)
    · exact Errno.noConfusion

/-! ### Urls -/

/-- The states of a url. -/
def State.isUrl : State → Bool
  | .reqSchema | .reqSchemaSlash | .reqSchemaSlashSlash | .reqServerStart | .reqServer
  | .reqServerWithAt | .reqPath | .reqQueryStringStart | .reqQueryString | .reqFragmentStart
  | .reqFragment => true
  | _ => false

theorem parseUrlChar_isUrl (s : State) (ch : UInt8) :
    parseUrlChar s ch = .dead ∨ (parseUrlChar s ch).isUrl = true := by
  have hite {p : Prop} [Decidable p] {a b : State} (ha : a = .dead ∨ a.isUrl = true)
      (hb : b = .dead ∨ b.isUrl = true) :
      (if p then a else b) = .dead ∨ (if p then a else b).isUrl = true := by
    split
    · exact ha
    · exact hb
  unfold parseUrlChar
  refine hite (.inl rfl) ?_
  cases s <;> dsimp only <;> repeat' apply hite
  all_goals first | exact .inl rfl | exact .inr rfl

theorem Core.Base.url (h : c.Base) (hs : c.state.isUrl = true) : c.Inv := by
  refine ⟨h, ?_⟩
  unfold Core.StateInv
  cases hstate : c.state <;> first | trivial | (rw [hstate] at hs; contradiction)

theorem State.isUrl_spec {s : State} (h : s.isUrl = true) :
    s.marks = .set .url ∧ s ≠ .chunkSizeStart := by
  cases s <;> first | contradiction | exact ⟨rfl, State.noConfusion⟩

theorem urlChar_sound (h : c.Base) (hroom : 0 < room) :
    (c.urlChar ch).Sound len (.set .url) n room := by
  unfold Core.urlChar
  dsimp only
  split
  · exact Errno.noConfusion
  · rename_i hdead
    have hurl := (parseUrlChar_isUrl c.state ch).resolve_left hdead
    obtain ⟨hmarks, hstart⟩ := State.isUrl_spec hurl
    exact ⟨(h.updateState _).url hurl, .inl hmarks, hroom, fun heq => absurd heq hstart⟩

theorem reqSpacesBeforeUrl_sound (h : c.Base) (hs : c.state.plain = true) (hroom : 0 < room) :
    (c.reqSpacesBeforeUrl ch).Sound len .clear n room := by
  unfold Core.reqSpacesBeforeUrl
  split
  · exact sound_next h hs hroom
  · refine ⟨.inl rfl, hroom, urlChar_sound ?_ hroom⟩
    split
    · exact h.updateState _
    · exact h

theorem reqSchema_sound (h : c.Base) (hroom : 0 < room) :
    (c.reqSchema ch).Sound len (.set .url) n room := by
  unfold Core.reqSchema
  split
  · exact Errno.noConfusion
  · exact urlChar_sound h hroom

theorem reqUrl_sound (h : c.Base) (hroom : 0 < room) :
    (c.reqUrl ch).Sound len (.set .url) n room := by
  unfold Core.reqUrl
  split
  · exact sound_data_next (h.updateState _) rfl hroom (.inr (.inl rfl))
  split
  · have hbase (s : State) :
        ({ c with httpMajor := 0, httpMinor := 9, state := s } : Core).Base :=
      ⟨h.errno, h.index, h.length, h.status⟩
    refine sound_data_next (hbase _) ?_ hroom (.inr (.inl rfl))
    dsimp only
    split_ifs <;> rfl
  · exact urlChar_sound h hroom

theorem reqHttpStart_sound (h : c.Base) (hs : c.state.plain = true) (hroom : 0 < room) :
    (c.reqHttpStart ch).Sound len .clear n room := by
  unfold Core.reqHttpStart
  split
  · exact sound_next (h.updateState _) rfl hroom
  split
  · exact sound_next h hs hroom
  · exact Errno.noConfusion

theorem reqHttpEnd_sound (h : c.Base) (hroom : 0 < room) :
    (c.reqHttpEnd ch).Sound len .clear n room := by
  unfold Core.reqHttpEnd
  split
  · exact sound_next (h.updateState _) rfl hroom
  split
  · exact sound_next (h.updateState _) rfl hroom
  · exact Errno.noConfusion

/-! ### Bodies -/

/-- The bytes of a body at hand, which are not none. -/
theorem toRead_spec (length : Nat) {xs : List UInt8} (hxs : xs ≠ []) :
    min length xs.length - 1 ≤ xs.length ∧ 0 < xs.length - (min length xs.length - 1) := by
  have := List.length_pos_iff.mpr hxs
  omega

theorem bodyIdentity_sound (h : c.Inv) (hs : c.state = .bodyIdentity) {xs : List UInt8}
    (hxs : xs ≠ []) : (c.bodyIdentity xs).Sound len (.atMost .body) n xs.length := by
  have hlength : 0 < c.contentLength ∧ c.contentLength < ULLONG_MAX := by
    have hstate := h.state
    unfold Core.StateInv at hstate
    rwa [hs] at hstate
  obtain ⟨hle, hroom⟩ := toRead_spec c.contentLength hxs
  have hbase (s : State) : ({ c with
      contentLength := c.contentLength - min c.contentLength xs.length, state := s } : Core).Base :=
    ⟨h.errno, h.index, (Nat.sub_le _ _).trans h.length, h.status⟩
  unfold Core.bodyIdentity
  rw [if_neg (by simp only [Bool.or_eq_true, decide_eq_true_eq]; omega)]
  refine ⟨.inr (.inr rfl), List.length_pos_iff.mpr hxs, fun _ => Marks.noConfusion, hle, ?_⟩
  dsimp only
  split
  · exact sound_data (hbase _) rfl hroom (.inr (.inl rfl)) (fun _ => rfl)
      (fun _ h => absurd h Bool.noConfusion) (messageDone_sound (hbase _) hroom)
  · rename_i hne
    refine ⟨⟨hbase _, ?_⟩, ?_, hroom, ?_⟩
    · unfold Core.StateInv
      dsimp only
      rw [hs]
      show 0 < c.contentLength - _ ∧ c.contentLength - _ < ULLONG_MAX
      omega
    · dsimp only
      rw [hs]
      exact .inr rfl
    · dsimp only
      rw [hs]
      exact State.noConfusion

theorem chunkData_sound (h : c.Inv) (hs : c.state = .chunkData) {xs : List UInt8}
    (hxs : xs ≠ []) : (c.chunkData xs).Sound len (.atMost .body) n xs.length := by
  have hlength : c.flags.chunked = true ∧ 0 < c.contentLength ∧ c.contentLength < ULLONG_MAX := by
    have hstate := h.state
    unfold Core.StateInv at hstate
    rwa [hs] at hstate
  obtain ⟨hchunked, hpos, hlt⟩ := hlength
  obtain ⟨hle, hroom⟩ := toRead_spec c.contentLength hxs
  have hbase (s : State) : ({ c with
      contentLength := c.contentLength - min c.contentLength xs.length, state := s } : Core).Base :=
    ⟨h.errno, h.index, (Nat.sub_le _ _).trans h.length, h.status⟩
  unfold Core.chunkData
  rw [if_neg (by
    simp only [hchunked, Bool.not_true, Bool.false_or, Bool.or_eq_true, decide_eq_true_eq]
    omega)]
  refine ⟨.inr (.inr rfl), List.length_pos_iff.mpr hxs, fun _ => Marks.noConfusion, hle, ?_⟩
  dsimp only
  split
  · rename_i heq
    exact ⟨⟨hbase _, hchunked, heq⟩, .inr rfl, hroom, State.noConfusion⟩
  · rename_i hne
    refine ⟨⟨hbase _, ?_⟩, ?_, hroom, ?_⟩
    · unfold Core.StateInv
      dsimp only
      rw [hs]
      show c.flags.chunked = true ∧ 0 < c.contentLength - _ ∧ c.contentLength - _ < ULLONG_MAX
      exact ⟨hchunked, by omega, by omega⟩
    · dsimp only
      rw [hs]
      exact .inr rfl
    · dsimp only
      rw [hs]
      exact State.noConfusion

theorem unhex_lt {ch : UInt8} {d : Nat} (h : unhex ch = some d) : d < 16 := by
  unfold unhex at h
  split_ifs at h with hnum hupper hlower hhigh <;> cases h
  · simp only [isNum, chr, Bool.and_eq_true, decide_eq_true_eq, UInt8.le_iff_toNat_le] at hnum
    have : (Char.toUInt8 '9').toNat = 57 := by decide
    omega
  · simp only [chr, Bool.and_eq_true, decide_eq_true_eq, UInt8.le_iff_toNat_le] at hupper
    have : (Char.toUInt8 'F').toNat = 70 := by decide
    omega
  · simp only [chr, Bool.and_eq_true, decide_eq_true_eq, UInt8.le_iff_toNat_le] at hlower
    have : (Char.toUInt8 'f').toNat = 102 := by decide
    omega
  · decide

/-- The size of a chunk. -/
theorem chunkSize_inv (h : c.Base) (hchunked : c.flags.chunked = true) {s : State} {length : Nat}
    (hs : s = .chunkSize ∨ s = .chunkParameters ∨ s = .chunkSizeAlmostDone)
    (hlength : length < ULLONG_MAX) (hroom : 0 < room) :
    (Move.next { c with contentLength := length, state := s }).Sound len .clear n room := by
  rcases hs with rfl | rfl | rfl <;>
    exact ⟨⟨⟨h.errno, h.index, hlength.le, h.status⟩, hchunked, hlength⟩, .inl rfl, hroom,
      State.noConfusion⟩

theorem chunkSizeStart_sound (h : c.Base) (hchunked : c.flags.chunked = true) (hroom : 0 < room) :
    (c.chunkSizeStart ch).Sound len .clear (some 1) room := by
  unfold Core.chunkSizeStart
  refine ⟨rfl, ?_⟩
  rw [if_neg (by simp only [hchunked]; decide)]
  cases hhex : unhex ch with
  | none => exact Errno.noConfusion
  | some d =>
    have hd := unhex_lt hhex
    exact chunkSize_inv h hchunked (.inl rfl) (by unfold ULLONG_MAX; omega) hroom

theorem chunkSize_sound (h : c.Base) (hchunked : c.flags.chunked = true)
    (hs : c.state = .chunkSize) (hlength : c.contentLength < ULLONG_MAX) (hroom : 0 < room) :
    (c.chunkSize ch).Sound len .clear n room := by
  unfold Core.chunkSize
  rw [if_neg (by simp only [hchunked]; decide)]
  split
  · exact chunkSize_inv h hchunked (.inr (.inr rfl)) hlength hroom
  cases hhex : unhex ch with
  | none =>
    dsimp only
    split
    · exact chunkSize_inv h hchunked (.inr (.inl rfl)) hlength hroom
    · exact Errno.noConfusion
  | some d =>
    have hd := unhex_lt hhex
    dsimp only
    split
    · exact Errno.noConfusion
    · -- another digit stays below the largest length
      rename_i hbig
      have hlt : (c.contentLength * 16 + d) % 2 ^ 64 < ULLONG_MAX := by
        unfold ULLONG_MAX at hbig ⊢
        omega
      exact chunkSize_inv h hchunked (.inl hs) hlt hroom

theorem chunkParameters_sound (h : c.Base) (hchunked : c.flags.chunked = true)
    (hs : c.state = .chunkParameters) (hlength : c.contentLength < ULLONG_MAX) (hroom : 0 < room) :
    (c.chunkParameters ch).Sound len .clear n room := by
  unfold Core.chunkParameters
  rw [if_neg (by simp only [hchunked]; decide)]
  split
  · exact chunkSize_inv h hchunked (.inr (.inr rfl)) hlength hroom
  · exact chunkSize_inv h hchunked (.inr (.inl hs)) hlength hroom

theorem chunkSizeAlmostDone_sound (h : c.Base) (hchunked : c.flags.chunked = true)
    (hlength : c.contentLength < ULLONG_MAX) (hroom : 0 < room) :
    c.chunkSizeAlmostDone.Sound len .clear n room := by
  unfold Core.chunkSizeAlmostDone
  rw [if_neg (by simp only [hchunked]; decide)]
  show Move.Sound len .clear (some 0) room (.next _)
  split
  · exact sound_next ⟨h.errno, h.index, h.length, h.status⟩ rfl hroom
  · exact ⟨⟨h.updateState _, hchunked, Nat.pos_of_ne_zero ‹_›, hlength⟩, .inr ⟨_, rfl⟩, hroom,
      State.noConfusion⟩

theorem chunkDataAlmostDone_sound (h : c.Base) (hchunked : c.flags.chunked = true)
    (hlength : c.contentLength = 0) (hroom : 0 < room) :
    c.chunkDataAlmostDone.Sound len (.atMost .body) n room := by
  have hinv : (c.updateState .chunkDataDone).Inv := ⟨h.updateState _, hchunked⟩
  unfold Core.chunkDataAlmostDone
  rw [if_neg (by simp only [hchunked, hlength]; decide)]
  exact ⟨.inr (.inr rfl), nofun, hroom, hinv, State.noConfusion, fun _ _ => .inl rfl, hinv,
    .inl rfl, hroom, State.noConfusion⟩

theorem chunkDataDone_sound (h : c.Base) (hchunked : c.flags.chunked = true) (hroom : 0 < room) :
    c.chunkDataDone.Sound len .clear n room := by
  unfold Core.chunkDataDone
  rw [if_neg (by simp only [hchunked]; decide)]
  exact ⟨⟨h.updateState _, hchunked⟩, .inl rfl, hroom, fun _ => rfl⟩

/-! ### A turn -/

theorem Core.Inv.stateInv (h : c.Inv) {s : State} (hs : c.state = s) :
    ({ c with state := s } : Core).StateInv := by
  subst hs
  exact h.state

/-- The `switch` does what is sound, for every state and every byte. -/
theorem switch_sound (h : c.Inv) {rest : List UInt8} (hlen : rest.length + 1 ≤ len)
    (hn : c.state = .chunkSizeStart → n = some 1) :
    (c.switch ch rest).Sound len c.state.marks n (rest.length + 1) := by
  have hroom : 0 < rest.length + 1 := Nat.succ_pos _
  have hb := h.toBase
  unfold Core.switch
  cases hs : c.state <;> dsimp only [State.marks]
  case dead =>
    split
    · exact sound_next hb (by rw [hs]; rfl) hroom
    · exact Errno.noConfusion
  case startReqOrRes => exact startReqOrRes_sound hb hs hroom
  case resOrRespH => exact resOrRespH_sound hb hroom
  case startRes => exact startRes_sound hb (by rw [hs]; rfl) hroom
  case startReq => exact startReq_sound hb (by rw [hs]; rfl) hroom
  case resHttpMajor | resHttpMinor | reqHttpMajor | reqHttpMinor =>
    exact digit_sound (fun _ => ⟨h.errno, h.index, h.length, h.status⟩) rfl hroom
  case resHttpDot | resHttpEnd | reqHttpDot | reqLineAlmostDone =>
    exact expect_sound hb Errno.noConfusion rfl hroom
  case resFirstStatusCode => exact resFirstStatusCode_sound hb (by rw [hs]; rfl) hroom
  case resStatusCode => exact resStatusCode_sound hb (by rw [hs]; rfl) hroom
  case resStatusStart => exact resStatusStart_sound hb hroom
  case resStatus => exact resStatus_sound h hs hroom
  case reqMethod => exact reqMethod_sound h hs hroom
  case reqSpacesBeforeUrl => exact reqSpacesBeforeUrl_sound hb (by rw [hs]; rfl) hroom
  case reqSchema | reqSchemaSlash | reqSchemaSlashSlash | reqServerStart =>
    exact reqSchema_sound hb hroom
  case reqServer | reqServerWithAt | reqPath | reqQueryStringStart | reqQueryString
      | reqFragmentStart | reqFragment => exact reqUrl_sound hb hroom
  case reqHttpStart => exact reqHttpStart_sound hb (by rw [hs]; rfl) hroom
  case reqHttpEnd => exact reqHttpEnd_sound hb hroom
  case headerFieldStart => exact headerFieldStart_sound hb hroom
  case headerField => exact headerField_sound h hs (show (ch :: rest).length ≤ len from hlen)
  case headerValueDiscardWs => exact headerValueDiscardWs_sound hb hs hroom
  case headerValueDiscardLws => exact headerValueDiscardLws_sound hb hroom
  case headerValueStart => exact headerValueStart_sound hb hroom
  case headerValue => exact headerValue_sound h hs (show (ch :: rest).length ≤ len from hlen)
  case headerValueLws => exact headerValueLws_sound hb hroom
  case headerAlmostDone => exact headerAlmostDone_sound hb hroom
  case headersAlmostDone => exact headersAlmostDone_sound hb hroom
  case headersDone => exact headersDone_sound hb hroom
  case chunkSizeStart =>
    rw [hn hs]
    exact chunkSizeStart_sound hb (h.stateInv hs) hroom
  case chunkSize =>
    exact chunkSize_sound hb (h.stateInv hs).1 hs (h.stateInv hs).2 hroom
  case chunkParameters =>
    exact chunkParameters_sound hb (h.stateInv hs).1 hs (h.stateInv hs).2 hroom
  case chunkSizeAlmostDone =>
    exact chunkSizeAlmostDone_sound hb (h.stateInv hs).1 (h.stateInv hs).2 hroom
  case chunkData => exact chunkData_sound h hs (List.cons_ne_nil _ _)
  case chunkDataAlmostDone =>
    exact chunkDataAlmostDone_sound hb (h.stateInv hs).1 (h.stateInv hs).2 hroom
  case chunkDataDone => exact chunkDataDone_sound hb (h.stateInv hs) hroom
  case bodyIdentity => exact bodyIdentity_sound h hs (List.cons_ne_nil _ _)
  case bodyIdentityEof =>
    refine ⟨.inr (.inr rfl), hroom, fun _ => Marks.noConfusion, Nat.le_succ _, h, ?_, ?_, ?_⟩
    · rw [hs]
      exact .inr rfl
    · omega
    · rw [hs]
      exact State.noConfusion
  case messageDone => exact messageDone_sound hb hroom
  all_goals exact sound_next (hb.updateState _) rfl hroom

/-- **A turn of the loop is sound**, for every state and every byte. -/
theorem turn_sound (h : c.Inv) {rest : List UInt8} (hlen : rest.length + 1 ≤ len)
    (hn : c.state = .chunkSizeStart → n = some 0) :
    (c.turn ch rest).Sound len c.state.marks n (rest.length + 1) := by
  unfold Core.turn
  split
  · refine ⟨(Nat.le_add_left ..).trans hlen, switch_sound (n := n.map (· + 1)) h hlen fun hs => ?_⟩
    rw [hn hs]
    rfl
  · rename_i hheader
    refine switch_sound h hlen fun hs => ?_
    rw [hs] at hheader
    exact absurd rfl hheader

end Dv8.Http
