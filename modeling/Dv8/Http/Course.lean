import Dv8.Http.Bounds
import Dv8.Http.Fields
import Dv8.Http.Reached

namespace Dv8.Http

open Dv8.Lib

/-!
# The callbacks of a message, byte by byte

The callbacks for a message come in a fixed order, of which the first may come several times in
front of a response, and the text they assemble in the work buffer is paid for by the bytes that
`COUNT_HEADER_SIZE` counts: a byte of the head brings at most one byte of text, and a line of it at
most four more, for which it has at least two bytes besides its name and its value.

* `Stage` — the order of the callbacks;
* `Part` — what the state of the parser says about the callbacks made so far, and how many bytes
  of text `nread` pays for;
* `Move.Keeps` — a move whose callbacks are in order and whose text is paid for;
* `turn_keeps` — every move is one, for every state and every byte.
-/

/-! ### The order of the callbacks -/

/-- How far the callbacks for a message have come; a message is complete behind its body, or
    behind the trailers of a body in chunks. -/
inductive Stage where
  | idle | begun | url | field | value | body | trailerField | trailerValue
  deriving DecidableEq, Repr

/-- The callbacks that may come next; a message that has begun may begin again. -/
def Stage.next : Stage → Callback → Option Stage
  | .idle, .messageBegin | .begun, .messageBegin => some .begun
  | .begun, .url _ | .url, .url _ => some .url
  | .begun, .headerField _ | .url, .headerField _ | .field, .headerField _
  | .value, .headerField _ => some .field
  | .field, .headerValue _ | .value, .headerValue _ => some .value
  | .begun, .headersComplete _ | .url, .headersComplete _ | .value, .headersComplete _ => some .body
  | .body, .body _ => some .body
  | .body, .headerField _ | .trailerField, .headerField _
  | .trailerValue, .headerField _ => some .trailerField
  | .trailerField, .headerValue _ | .trailerValue, .headerValue _ => some .trailerValue
  | .body, .messageComplete | .trailerValue, .messageComplete => some .idle
  | _, _ => none

/-- The callbacks so far: their stage, and the text in the work buffer. -/
structure Course where
  stage : Stage
  text : Text
  deriving DecidableEq, Repr

def Course.next (t : Course) (cb : Callback) : Option Course :=
  (t.stage.next cb).map fun s => ⟨s, t.text.next cb⟩

/-- The callback for what has been marked; there is none for the status of a response. -/
def Course.call (t : Course) (k : Kind) (buf : List UInt8) : Option Course :=
  (k.callback buf).elim (some t) t.next

/-- What is marked grows by `n` bytes. -/
def Course.grow (t : Course) (k : Option Kind) (n : Nat) : Course :=
  match k with
  | some .url | some .headerField | some .headerValue =>
    { t with text.reach := t.text.reach + n }
  | some .body | some .status | none => t

@[simp] theorem grow_none (t : Course) (n : Nat) : t.grow none n = t := rfl

@[simp] theorem grow_stage (t : Course) (k : Option Kind) (n : Nat) :
    (t.grow k n).stage = t.stage := by
  rcases k with _ | k
  · rfl
  · cases k <;> rfl

@[simp] theorem grow_lastel (t : Course) (k : Option Kind) (n : Nat) :
    (t.grow k n).text.lastel = t.text.lastel := by
  rcases k with _ | k
  · rfl
  · cases k <;> rfl

theorem grow_reach (t : Course) (k : Option Kind) (n : Nat) :
    t.text.reach ≤ (t.grow k n).text.reach ∧ (t.grow k n).text.reach ≤ t.text.reach + n := by
  rcases k with _ | k
  · exact ⟨Nat.le_refl _, Nat.le_add_right ..⟩
  · cases k <;> constructor <;> simp [Course.grow]

@[simp] theorem grow_zero (t : Course) (k : Option Kind) : t.grow k 0 = t := by
  rcases k with _ | k
  · rfl
  · cases k <;> rfl

theorem grow_grow (t : Course) (k : Option Kind) (m n : Nat) :
    (t.grow k m).grow k n = t.grow k (m + n) := by
  rcases k with _ | k
  · rfl
  · cases k <;> simp [Course.grow, Nat.add_assoc]

/-- The callback for many bytes, and the one for none. -/
theorem call_grow {t v : Course} {k : Kind} (h : t.call k [] = some v) (buf : List UInt8) :
    t.call k buf = some (v.grow (some k) buf.length) := by
  obtain ⟨stage, text⟩ := t
  cases k <;> cases stage <;> cases h <;> rfl

/-! ### What a state says -/

/-- The parts of a message, by what has been called back before. -/
inductive Part where
  | dead
  /-- between two messages; the first bytes of a response may begin several -/
  | idle | idleRes
  /-- in a start line, before and behind the url -/
  | begun | target
  /-- at the start of a line of the head -/
  | line
  | field
  /-- behind the colon, and behind a line without a value -/
  | colon | noValue
  | valueStart | value
  /-- behind the line of a value -/
  | behind
  | body
  | done
  deriving DecidableEq, Repr

def State.part : State → Part
  | .dead => .dead
  | .startReqOrRes | .startReq => .idle
  | .startRes => .idleRes
  | .resOrRespH | .resH | .resHT | .resHTT | .resHTTP | .resHttpMajor | .resHttpDot
  | .resHttpMinor | .resHttpEnd | .resFirstStatusCode | .resStatusCode | .resStatusStart
  | .resStatus | .resLineAlmostDone | .reqMethod | .reqSpacesBeforeUrl => .begun
  | .reqSchema | .reqSchemaSlash | .reqSchemaSlashSlash | .reqServerStart | .reqServer
  | .reqServerWithAt | .reqPath | .reqQueryStringStart | .reqQueryString | .reqFragmentStart
  | .reqFragment | .reqHttpStart | .reqHttpH | .reqHttpHT | .reqHttpHTT | .reqHttpHTTP
  | .reqHttpMajor | .reqHttpDot | .reqHttpMinor | .reqHttpEnd | .reqLineAlmostDone => .target
  | .headerFieldStart | .headersAlmostDone => .line
  | .headerField => .field
  | .headerValueDiscardWs | .headerValueDiscardWsAlmostDone => .colon
  | .headerValueDiscardLws => .noValue
  | .headerValueStart => .valueStart
  | .headerValue | .headerAlmostDone => .value
  | .headerValueLws => .behind
  | .headersDone | .chunkSizeStart | .chunkSize | .chunkParameters | .chunkSizeAlmostDone
  | .chunkData | .chunkDataAlmostDone | .chunkDataDone | .bodyIdentity | .bodyIdentityEof => .body
  | .messageDone => .done

/-- How far the text may reach when `n` bytes have been counted; trailers stand behind a head. -/
def room (trailing : Bool) (n : Nat) : Nat :=
  STRING_OFFSET + 2 * n + if trailing then 2 * maxHeaderSize + 2 else 0

/-- How far it ever reaches, with reads of `len` bytes. -/
def textLimit (len : Nat) : Nat := STRING_OFFSET + 2 + 4 * maxHeaderSize + len

theorem room_le_limit {n : Nat} (h : n ≤ maxHeaderSize) (trailing : Bool) (len : Nat) :
    room trailing n + len ≤ textLimit len := by
  unfold room textLimit
  split <;> omega

@[simp] theorem room_add (trailing : Bool) (n m : Nat) :
    room trailing (n + m) = room trailing n + 2 * m := by
  unfold room
  omega

/-- The stage of a line, of a name and of a value, of the head or of the trailers. -/
def Stage.AtLine (s : Stage) (trailing : Bool) : Prop :=
  if trailing then s = .body ∨ s = .trailerValue else s = .begun ∨ s = .url ∨ s = .value

def Stage.ofField (trailing : Bool) : Stage := if trailing then .trailerField else .field

def Stage.ofValue (trailing : Bool) : Stage := if trailing then .trailerValue else .value

/-- A name is being called back, and there is room for `k` bytes more. -/
structure Course.InField (t : Course) (trailing : Bool) (n k : Nat) : Prop where
  stage : t.stage = Stage.ofField trailing
  lastel : t.text.lastel = .field
  reach : t.text.reach + k ≤ room trailing n

/-- A value is being called back, and there is room for `k` bytes more. -/
structure Course.InValue (t : Course) (trailing : Bool) (n k : Nat) : Prop where
  stage : t.stage = Stage.ofValue trailing
  lastel : t.text.lastel = .value
  reach : t.text.reach + k ≤ room trailing n

/-- What a part says about the callbacks, when `n` bytes have been counted. -/
def Part.Holds (p : Part) (trailing : Bool) (n : Nat) (t : Course) : Prop :=
  match p with
  | .dead => True
  | .idle => t.stage = .idle
  | .idleRes => t.stage = .idle ∨ t.stage = .begun
  | .begun => t.stage = .begun ∧ trailing = false ∧ t.text.reach + 2 ≤ room false n
  | .target => t.stage = .url ∧ trailing = false ∧ t.text.reach + 2 ≤ room false n
  | .line => t.stage.AtLine trailing ∧ t.text.reach + 2 ≤ room trailing n
  | .field => t.InField trailing n 0
  | .colon => t.InField trailing n 2
  | .noValue => t.InField trailing n 4
  | .valueStart => t.InField trailing n 2 ∨ t.InValue trailing n 0
  | .value => t.InValue trailing n 0
  | .behind => t.InValue trailing n 2
  | .body => t.stage = .body ∧ trailing = false ∧ t.text.reach ≤ room false maxHeaderSize
  | .done => t.stage = .body ∨ t.stage = .trailerValue

/-- What the parser says about the callbacks. -/
def Core.Tracks (c : Core) (n : Nat) (t : Course) : Prop :=
  c.state.part.Holds c.flags.trailing n t

/-! ### Moves -/

/-- What is marked belongs to the state. -/
def State.Marks (s : State) (q : Option Kind) : Prop :=
  ∀ k, q = some k → s.marks = .set k ∨ s.marks = .atMost k

/-- A move whose callbacks are in order and whose text is paid for.  `q` is what is marked, and
    `t` are the callbacks with the one that is due for it. -/
def Move.Keeps (len : Nat) : Course → Option Kind → Nat → Move → Prop
  | t, q, n, .next c => c.state.Marks q ∧ c.Tracks n (t.grow q 1)
  | t, q, n, .ret c _ => q = none ∧ c.Tracks n t
  | _, _, _, .fail _ _ => True
  | _, _, _, .abort => True
  | t, q, n, .mark k m => (q = some k ∧ m.Keeps len t q n) ∨
      (q = none ∧ ∃ v, t.call k [] = some v ∧ m.Keeps len v (some k) n)
  | t, q, n, .data k c whole _ m => (q = none ∧ m.Keeps len t none n) ∨
      (q = some k ∧ (t.grow q whole.toNat).text.reach ≤ textLimit len ∧
        (k = .body → c.Tracks n (t.grow q whole.toNat)) ∧
        m.Keeps len (t.grow q whole.toNat) none n)
  | t, q, n, .notify cb c _ m => q = none ∧ t.text.Fits (textLimit len) true cb ∧
      ∃ v, t.next cb = some v ∧ c.Tracks n v ∧ m.Keeps len v none n
  | t, q, n, .count v _ m => n + v ≤ maxHeaderSize → m.Keeps len t q (n + v)
  | t, q, _, .reset m => m.Keeps len t q 0
  | t, q, n, .counted m => m.Keeps len t q n
  | t, q, n, .skip v m => m.Keeps len (t.grow q v) q n
  | t, q, n, .back m => ∀ c, m = .next c → c.state.Marks q ∧ c.Tracks n t

variable {c : Core} {n len : Nat} {ch : UInt8} {t v : Course} {trailing : Bool}

/-- With more bytes counted there is more room. -/
theorem Part.Holds.mono {p : Part} (h : p.Holds trailing n t) (m : Nat) :
    p.Holds trailing (n + m) t := by
  cases p <;> unfold Part.Holds at h ⊢
  case dead => trivial
  case idle | idleRes | body | done => exact h
  case begun | target =>
    refine ⟨h.1, h.2.1, ?_⟩
    rw [room_add]
    exact Nat.le_add_right_of_le h.2.2
  case line =>
    refine ⟨h.1, ?_⟩
    rw [room_add]
    exact Nat.le_add_right_of_le h.2
  case field | colon | noValue =>
    refine ⟨h.stage, h.lastel, ?_⟩
    rw [room_add]
    exact Nat.le_add_right_of_le h.reach
  case value | behind =>
    refine ⟨h.stage, h.lastel, ?_⟩
    rw [room_add]
    exact Nat.le_add_right_of_le h.reach
  case valueStart =>
    refine h.imp (fun h => ⟨h.stage, h.lastel, ?_⟩) (fun h => ⟨h.stage, h.lastel, ?_⟩)
    all_goals
      rw [room_add]
      exact Nat.le_add_right_of_le h.reach

theorem Course.InField.mono {k j : Nat} (h : t.InField trailing n k) (hj : j ≤ k) :
    t.InField trailing n j :=
  ⟨h.stage, h.lastel, (Nat.add_le_add_left hj _).trans h.reach⟩

theorem Course.InValue.mono {k j : Nat} (h : t.InValue trailing n k) (hj : j ≤ k) :
    t.InValue trailing n j :=
  ⟨h.stage, h.lastel, (Nat.add_le_add_left hj _).trans h.reach⟩

/-- A byte is counted. -/
theorem Course.InField.count {k : Nat} (h : t.InField trailing n k) (m : Nat) :
    t.InField trailing (n + m) (k + 2 * m) := by
  refine ⟨h.stage, h.lastel, ?_⟩
  have := h.reach
  rw [room_add]
  omega

theorem Course.InValue.count {k : Nat} (h : t.InValue trailing n k) (m : Nat) :
    t.InValue trailing (n + m) (k + 2 * m) := by
  refine ⟨h.stage, h.lastel, ?_⟩
  have := h.reach
  rw [room_add]
  omega

/-- Bytes of a name, which are counted. -/
theorem Course.InField.grow {k : Nat} (h : t.InField trailing n k) (q : Option Kind) (m : Nat) :
    (t.grow q m).InField trailing (n + m) (k + m) := by
  refine ⟨(grow_stage ..).trans h.stage, (grow_lastel ..).trans h.lastel, ?_⟩
  have := h.reach
  have := (grow_reach t q m).2
  rw [room_add]
  omega

theorem Course.InValue.grow {k : Nat} (h : t.InValue trailing n k) (q : Option Kind) (m : Nat) :
    (t.grow q m).InValue trailing (n + m) (k + m) := by
  refine ⟨(grow_stage ..).trans h.stage, (grow_lastel ..).trans h.lastel, ?_⟩
  have := h.reach
  have := (grow_reach t q m).2
  rw [room_add]
  omega

/-! ### The end of a message -/

/-- On to a state, with nothing marked. -/
theorem keeps_next (h : c.Tracks n t) : (Move.next c).Keeps len t none n := ⟨nofun, h⟩

theorem next_eq {cb : Callback} {s : Stage} (h : t.stage.next cb = some s) :
    t.next cb = some ⟨s, t.text.next cb⟩ := by
  simp [Course.next, h]

theorem newMessage_tracks (h : t.stage = .idle) : c.newMessage.Tracks n t := by
  unfold Core.Tracks Core.newMessage
  cases htype : c.type
  case request => exact h
  case response | both => exact .inl h

/-- The message is over, and perhaps the function is left. -/
theorem complete_keeps (h : t.stage = .body ∨ t.stage = .trailerValue) {m : Move}
    (hm : m = .next c.newMessage ∨ m = .ret c.newMessage true) :
    (Move.notify .messageComplete c.newMessage true m).Keeps len t none n := by
  have hnext : t.stage.next .messageComplete = some .idle := by
    rcases h with h | h <;> rw [h] <;> rfl
  have hidle : c.newMessage.Tracks n ⟨.idle, t.text.next .messageComplete⟩ := newMessage_tracks rfl
  refine ⟨rfl, trivial, _, next_eq hnext, hidle, ?_⟩
  rcases hm with rfl | rfl
  · exact keeps_next hidle
  · exact ⟨rfl, hidle⟩

theorem messageDone_keeps (h : t.stage = .body ∨ t.stage = .trailerValue) :
    c.messageDone.Keeps len t none n := by
  unfold Core.messageDone
  refine complete_keeps h ?_
  split
  · exact .inr rfl
  · exact .inl rfl

theorem headersDone_keeps (h : Part.Holds .body c.flags.trailing n t) :
    c.headersDone.Keeps len t none n := by
  have hstage : t.stage = .body ∨ t.stage = .trailerValue := .inl h.1
  have hbody (s : State) (hs : s.part = .body) : (c.updateState s).Tracks 0 t := by
    unfold Core.Tracks
    rw [show (c.updateState s).state.part = .body from hs]
    exact h
  unfold Core.headersDone
  show Move.Keeps len t none 0 _
  split_ifs
  · exact complete_keeps hstage (.inr rfl)
  · exact complete_keeps hstage (.inl rfl)
  · exact keeps_next (hbody _ rfl)
  · exact complete_keeps hstage (.inl rfl)
  · exact keeps_next (hbody _ rfl)
  · exact complete_keeps hstage (.inl rfl)
  · exact keeps_next (hbody _ rfl)

/-- At the start of a line: the end of the head, or of the trailers. -/
theorem headersAlmostDone_keeps (h : Part.Holds .line c.flags.trailing n t)
    (hn : n ≤ maxHeaderSize) : c.headersAlmostDone.Keeps len t none n := by
  obtain ⟨hline, hreach⟩ := h
  unfold Core.headersAlmostDone
  cases htrailing : c.flags.trailing <;> rw [htrailing] at hline hreach
  case true => exact messageDone_keeps hline
  case false =>
    rw [if_neg Bool.false_ne_true]
    split
    · trivial
    -- the head is complete
    have hnext (i : Info) : t.stage.next (.headersComplete i) = some .body := by
      rcases hline with h | h | h <;> rw [h] <;> rfl
    have hroom : t.text.reach ≤ room false maxHeaderSize := by
      unfold room at hreach ⊢
      omega
    have hbody (u : Bool) (i : Info) : Part.Holds .body
        ({ c with state := .headersDone, upgrade := u } : Core).flags.trailing n
        ⟨.body, t.text.next (.headersComplete i)⟩ := ⟨rfl, htrailing, hroom⟩
    have hheader : 9 ≤ textLimit len := by
      unfold textLimit STRING_OFFSET
      omega
    exact ⟨rfl, hheader, _, next_eq (hnext _), hbody _ _, headersDone_keeps (hbody _ _)⟩

/-! ### Names -/

/-- The callback for a name, at the start of a line. -/
theorem call_headerField (h : t.stage.AtLine trailing) :
    ∃ v, t.call .headerField [] = some v ∧ v.stage = Stage.ofField trailing ∧
      v.text.lastel = .field ∧ v.text.reach ≤ t.text.reach + 2 := by
  have hnext : t.stage.next (.headerField []) = some (Stage.ofField trailing) := by
    cases trailing
    · rcases h with h | h | h <;> rw [h] <;> rfl
    · rcases h with h | h <;> rw [h] <;> rfl
  refine ⟨_, next_eq hnext, rfl, rfl, ?_⟩
  show t.text.reach + _ + 0 ≤ _
  unfold separator
  split <;> simp [crlf, colon]

theorem headerFieldStart_keeps (h : Part.Holds .line c.flags.trailing n t)
    (hn : n + 1 ≤ maxHeaderSize) : (c.headerFieldStart ch).Keeps len t none (n + 1) := by
  have hline : Part.Holds .line c.flags.trailing (n + 1) t := h.mono 1
  unfold Core.headerFieldStart
  split
  · exact keeps_next hline
  split
  · exact headersAlmostDone_keeps hline hn
  split
  · trivial
  · obtain ⟨v, hcall, hstage, hlastel, hreach⟩ := call_headerField h.1
    refine .inr ⟨rfl, v, hcall, ?_, ?_⟩
    · rintro k ⟨⟩
      exact .inl rfl
    · refine ⟨hstage, hlastel, ?_⟩
      have := h.2
      show v.text.reach + 1 + 0 ≤ room c.flags.trailing (n + 1)
      rw [room_add]
      omega

theorem fieldStep_flags {c' : Core} {tok : UInt8} (h : c.fieldStep ch tok = some c') :
    c'.flags = c.flags ∧ c'.state = c.state := by
  obtain ⟨hmessage, hstate⟩ := fieldStep_message h
  have hflags := congrArg Core.flags hmessage
  exact ⟨hflags, hstate⟩

/-- The loop over a name only looks at the name. -/
theorem fieldLoop_flags {xs : List UInt8} {q : Core} {k : Nat} (h : c.fieldLoop xs = some (q, k)) :
    q.flags = c.flags ∧ q.state = c.state := by
  induction xs generalizing c k with
  | nil =>
    cases h
    exact ⟨rfl, rfl⟩
  | cons ch xs ih =>
    unfold Core.fieldLoop at h
    split at h
    · cases h
      exact ⟨rfl, rfl⟩
    · obtain ⟨c', hstep, hrest⟩ := Option.bind_eq_some_iff.mp h
      obtain ⟨⟨q', j⟩, hloop, heq⟩ := Option.map_eq_some_iff.mp hrest
      cases heq
      obtain ⟨hflags, hstate⟩ := ih hloop
      obtain ⟨hflags', hstate'⟩ := fieldStep_flags hstep
      exact ⟨hflags.trans hflags', hstate.trans hstate'⟩

/-- What is marked in a state with one mark. -/
theorem State.Marks.eq {s : State} {q : Option Kind} (h : s.Marks q) {k : Kind}
    (hs : s.marks = .set k ∨ s.marks = .atMost k) : q = none ∨ q = some k := by
  rcases q with _ | j
  · exact .inl rfl
  · right
    rcases h j rfl with h | h <;> rcases hs with hs | hs <;> rw [hs] at h <;> cases h <;> rfl

/-- The callback for what has been marked, if there is a mark. -/
theorem keeps_data {q : Option Kind} {k : Kind} (hk : k ≠ .body) (hq : q = none ∨ q = some k)
    (advance : Bool) {m : Move} (hreach : t.text.reach ≤ textLimit len)
    (hm : m.Keeps len t none n) : (Move.data k c false advance m).Keeps len t q n := by
  rcases hq with rfl | rfl
  · exact .inl ⟨rfl, hm⟩
  · refine .inr ⟨rfl, ?_, fun h => absurd h hk, ?_⟩
    · rwa [Bool.toNat_false, grow_zero]
    · rwa [Bool.toNat_false, grow_zero]

/-- The name of a header, or a part of it. -/
theorem headerField_keeps {q : Option Kind} (h : Part.Holds .field c.flags.trailing n t)
    (hs : c.state = .headerField) (hq : c.state.Marks q) (xs : List UInt8) :
    (c.headerField xs).Keeps len t q (n + 1) := by
  unfold Core.headerField
  cases hloop : c.fieldLoop xs with
  | none => trivial
  | some r =>
    obtain ⟨c', k⟩ := r
    obtain ⟨hflags, hstate⟩ := fieldLoop_flags hloop
    intro hcount
    have hname : (t.grow q k).InField c.flags.trailing (n + 1 + k) (2 + k) := by
      have hinfield : t.InField c.flags.trailing n 0 := h
      simpa using (hinfield.count 1).grow q k
    unfold Core.fieldEnd
    cases hget : xs[k]? with
    | none =>
      -- the name goes on with the next data
      rintro c'' ⟨⟩
      rw [hstate]
      refine ⟨hq, ?_⟩
      unfold Core.Tracks
      rw [hstate, hs, hflags]
      exact hname.mono (Nat.zero_le _)
    | some ch =>
      show Move.Keeps len _ q _ (if ch = chr ':' then _ else _)
      split
      · have hlimit := room_le_limit hcount c.flags.trailing len
        have hreach := hname.reach
        refine keeps_data (t := t.grow q k) (k := .headerField) nofun
          (hq.eq (by rw [hs]; exact .inl rfl)) true (by omega) (keeps_next ?_)
        show Part.Holds .colon c'.flags.trailing _ _
        rw [hflags]
        exact hname.mono (Nat.le_add_right ..)
      · trivial

/-! ### Values -/

/-- The callback for a value, behind its name or on another line. -/
theorem call_headerValue {k : Nat} (h : t.InField trailing n (k + 2) ∨ t.InValue trailing n k) :
    ∃ v, t.call .headerValue [] = some v ∧ v.InValue trailing n k := by
  rcases h with ⟨hstage, hlastel, hreach⟩ | ⟨hstage, hlastel, hreach⟩
  · have hnext : t.stage.next (.headerValue []) = some (Stage.ofValue trailing) := by
      rw [hstage]
      cases trailing <;> rfl
    refine ⟨_, next_eq hnext, rfl, rfl, ?_⟩
    show t.text.reach + (separator t.text.lastel .value).length + 0 + k ≤ _
    rw [hlastel]
    show t.text.reach + 2 + k ≤ _
    omega
  · have hnext : t.stage.next (.headerValue []) = some (Stage.ofValue trailing) := by
      rw [hstage]
      cases trailing <;> rfl
    refine ⟨_, next_eq hnext, rfl, rfl, ?_⟩
    show t.text.reach + (separator t.text.lastel .value).length + 0 + k ≤ _
    rw [hlastel]
    exact hreach

/-- The first byte of a value. -/
theorem headerValueStart_keeps (h : Part.Holds .valueStart c.flags.trailing n t) :
    (c.headerValueStart ch).Keeps len t none (n + 1) := by
  obtain ⟨v, hcall, hvalue⟩ := call_headerValue h
  have hnext (f : Flags) (hf : f.trailing = c.flags.trailing) (s : HeaderState) (k : Nat) :
      (Move.next { c with
        state := .headerValue, index := 0, flags := f, headerState := s,
        contentLength := k }).Keeps len v (some .headerValue) (n + 1) := by
    refine ⟨?_, ?_⟩
    · rintro k ⟨⟩
      exact .inl rfl
    · show Part.Holds .value f.trailing _ _
      rw [hf]
      exact (hvalue.grow _ 1).mono (Nat.zero_le _)
  unfold Core.headerValueStart
  refine .inr ⟨rfl, v, hcall, ?_⟩
  dsimp only
  split
  · exact hnext { c.flags with upgrade := true } rfl .general c.contentLength
  · exact hnext c.flags rfl _ c.contentLength
  · split
    · trivial
    split
    · trivial
    · exact hnext { c.flags with contentlength := true } rfl .contentLengthNum (ch.toNat - 48)
  · exact hnext c.flags rfl _ c.contentLength
  · exact hnext c.flags rfl c.headerState c.contentLength
  · exact hnext c.flags rfl .general c.contentLength

@[simp] theorem connection_trailing (f : Flags) (s : HeaderState) :
    (f.connection s).trailing = f.trailing := by
  cases s <;> rfl

@[simp] theorem headerEnd_trailing : c.headerEnd.flags.trailing = c.flags.trailing := by
  unfold Core.headerEnd
  split
  · rfl
  · exact connection_trailing ..

/-- A byte of a value only changes what is about the header. -/
theorem valueStep_trailing {c' : Core} {s s' : HeaderState} (h : c.valueStep s ch = .go c' s')
    (hs : c.state = .headerValue) :
    c'.flags.trailing = c.flags.trailing ∧ c'.state = .headerValue := by
  have hnum {c' : Core} {s' : HeaderState} (h : c.contentLengthNum ch = .go c' s') :
      c'.flags.trailing = c.flags.trailing ∧ c'.state = .headerValue := by
    unfold Core.contentLengthNum at h
    split_ifs at h <;> cases h <;> exact ⟨rfl, hs⟩
  unfold Core.valueStep at h
  cases s <;> dsimp only at h
  case general => cases h
  case connection | transferEncoding => cases h
  case contentLength =>
    split_ifs at h
    · cases h
      exact ⟨rfl, hs⟩
    · exact hnum h
  case contentLengthNum => exact hnum h
  case contentLengthWs =>
    split_ifs at h
    cases h
    exact ⟨rfl, hs⟩
  case matchingConnectionToken =>
    split_ifs at h <;> cases h <;> exact ⟨rfl, hs⟩
  case connectionKeepAlive | connectionClose | connectionUpgrade =>
    split_ifs at h <;> cases h <;> exact ⟨rfl, hs⟩
  -- back to the state of a value, or in it
  all_goals
    cases h
    first | exact ⟨rfl, hs⟩ | exact ⟨rfl, rfl⟩

theorem valueJump_eq (c : Core) (s : HeaderState) (xs : List UInt8) :
    (c.valueJump s xs).core = c ∧ (c.valueJump s xs).taken ≤ xs.length := by
  unfold Core.valueJump
  cases hfind : (xs.take maxHeaderSize).findIdx? fun ch => ch = CR || ch = LF with
  | none => exact ⟨rfl, Nat.le_refl _⟩
  | some i =>
    have hlt := (List.findIdx?_eq_some_iff_getElem.mp hfind).1
    rw [List.length_take] at hlt
    exact ⟨rfl, by dsimp only; omega⟩

theorem valueLoop_trailing (xs : List UInt8) {s : HeaderState} (hs : c.state = .headerValue) :
    (c.valueLoop s xs).core.flags.trailing = c.flags.trailing ∧
      (c.valueLoop s xs).core.state = .headerValue ∧ (c.valueLoop s xs).taken ≤ xs.length := by
  induction xs generalizing c s with
  | nil => exact ⟨rfl, hs, Nat.le_refl _⟩
  | cons ch xs ih =>
    unfold Core.valueLoop
    split
    · exact ⟨rfl, hs, Nat.zero_le _⟩
    split
    · exact ⟨rfl, hs, Nat.zero_le _⟩
    split
    · exact ⟨rfl, hs, Nat.zero_le _⟩
    split
    · rename_i c' h' hstep
      obtain ⟨htrailing, hstate⟩ := valueStep_trailing hstep hs
      obtain ⟨htrailing', hstate', htaken⟩ := ih (s := h') hstate
      exact ⟨htrailing'.trans htrailing, hstate', Nat.succ_le_succ htaken⟩
    · obtain ⟨hcore, htaken⟩ := valueJump_eq c s (ch :: xs)
      rw [hcore]
      exact ⟨rfl, hs, htaken⟩
    · exact ⟨rfl, hs, Nat.zero_le _⟩
    · exact ⟨rfl, hs, Nat.zero_le _⟩

theorem headerAlmostDone_keeps (h : t.InValue c.flags.trailing n 2) :
    (c.headerAlmostDone ch).Keeps len t none n := by
  unfold Core.headerAlmostDone
  split
  · trivial
  · exact keeps_next h

/-- A value, or a part of it. -/
theorem headerValue_keeps {q : Option Kind} (h : Part.Holds .value c.flags.trailing n t)
    (hs : c.state = .headerValue) (hq : c.state.Marks q) (hn : n + 1 ≤ maxHeaderSize)
    {xs : List UInt8} (hlen : xs.length ≤ len) : (c.headerValue xs).Keeps len t q (n + 1) := by
  obtain ⟨htrailing, hstate, htaken⟩ := valueLoop_trailing (s := c.headerState) xs hs
  unfold Core.headerValue
  generalize c.valueLoop c.headerState xs = r at htrailing hstate htaken
  have hvalue : t.InValue c.flags.trailing n 0 := h
  have hcounted := (hvalue.count 1).grow q r.taken
  rw [← htrailing] at hcounted
  have hq' := hq.eq (k := .headerValue) (by rw [hs]; exact .inl rfl)
  unfold ValueLoop.move
  dsimp only
  cases hstop : r.stop with
  | cr =>
    -- the callback comes first, and only then the bytes are counted
    have hlimit := room_le_limit (Nat.le_of_succ_le hn) c.flags.trailing len
    have hreach := hvalue.reach
    have hgrow := (grow_reach t q r.taken).2
    refine keeps_data (t := t.grow q r.taken) (k := .headerValue) nofun hq' true (by omega) ?_
    exact fun _ => keeps_next (hcounted.mono (Nat.zero_le _))
  | lf =>
    intro hcount
    have hlimit := room_le_limit hcount r.core.flags.trailing len
    have hreach := hcounted.reach
    refine keeps_data (t := t.grow q r.taken) (k := .headerValue) nofun hq' false (by omega) ?_
    exact headerAlmostDone_keeps (hcounted.mono (Nat.le_add_right ..))
  | data =>
    -- the value goes on with the next data
    rintro hcount c' ⟨⟩
    dsimp only
    rw [hstate]
    exact ⟨by rwa [hs] at hq, hcounted.mono (Nat.zero_le _)⟩
  | fail e => trivial
  | abort => trivial

/-- Behind the line of a value the next line begins. -/
theorem Course.InValue.line (h : t.InValue trailing n 2) : Part.Holds .line trailing n t := by
  refine ⟨?_, h.reach⟩
  rw [h.stage]
  cases trailing
  · exact .inr (.inr rfl)
  · exact .inr rfl

theorem nextLine_keeps (h : t.InValue c.flags.trailing n 2) (hn : n + 1 ≤ maxHeaderSize) :
    ((c.headerEnd.updateState .headerFieldStart).headerFieldStart ch).Keeps len t none (n + 1) := by
  refine headerFieldStart_keeps ?_ hn
  show Part.Holds .line c.headerEnd.flags.trailing n t
  rw [headerEnd_trailing]
  exact h.line

/-- At the start of a line, behind a value: it goes on, or it is the last of its header. -/
theorem headerValueLws_keeps (h : Part.Holds .behind c.flags.trailing n t)
    (hn : n + 1 ≤ maxHeaderSize) : (c.headerValueLws ch).Keeps len t none (n + 1) := by
  have hvalue : t.InValue c.flags.trailing n 2 := h
  unfold Core.headerValueLws
  split
  · exact headerValueStart_keeps (.inr (hvalue.mono (Nat.zero_le _)))
  · exact nextLine_keeps hvalue hn

/-- At the start of a line, behind a header without a value. -/
theorem headerValueDiscardLws_keeps (h : Part.Holds .noValue c.flags.trailing n t)
    (hn : n + 1 ≤ maxHeaderSize) : (c.headerValueDiscardLws ch).Keeps len t none (n + 1) := by
  have hfield : t.InField c.flags.trailing n 4 := h
  unfold Core.headerValueDiscardLws
  split
  · exact keeps_next ((hfield.count 1).mono (by omega))
  · -- the callback for no value
    obtain ⟨v, hcall, hvalue⟩ := call_headerValue (.inl hfield)
    have hlimit := room_le_limit (Nat.le_of_succ_le hn) c.flags.trailing len
    have hreach := hvalue.reach
    refine .inr ⟨rfl, v, hcall, ?_⟩
    exact keeps_data (t := v) (k := .headerValue) nofun (.inr rfl) false (by omega)
      (nextLine_keeps hvalue hn)

theorem headerValueDiscardWs_keeps (h : Part.Holds .colon c.flags.trailing n t)
    (hs : c.state = .headerValueDiscardWs) :
    (c.headerValueDiscardWs ch).Keeps len t none (n + 1) := by
  have hfield : t.InField c.flags.trailing n 2 := h
  unfold Core.headerValueDiscardWs
  split
  · refine keeps_next ?_
    unfold Core.Tracks
    rw [hs]
    exact (hfield.count 1).mono (by omega)
  split
  · exact keeps_next ((hfield.count 1).mono (by omega))
  split
  · exact keeps_next (hfield.count 1)
  · exact headerValueStart_keeps (.inl hfield)

/-! ### Start lines -/

/-- On to a state that says the same. -/
theorem keeps_same {p : Part} (h : p.Holds c.flags.trailing n t) {c' : Core}
    (hp : c'.state.part = p) (hf : c'.flags = c.flags) :
    (Move.next c').Keeps len t none (n + 1) := by
  refine keeps_next ?_
  unfold Core.Tracks
  rw [hp, hf]
  exact h.mono 1

/-- Behind a start line the first line of the head begins. -/
theorem Part.Holds.line {p : Part} (h : p.Holds trailing n t) (hp : p = .begun ∨ p = .target) :
    Part.Holds .line trailing n t := by
  rcases hp with rfl | rfl
  · obtain ⟨hstage, rfl, hreach⟩ := h
    exact ⟨.inl hstage, hreach⟩
  · obtain ⟨hstage, rfl, hreach⟩ := h
    exact ⟨.inr (.inl hstage), hreach⟩

/-- A message begins. -/
theorem messageBegin_keeps (h : t.stage = .idle ∨ t.stage = .begun)
    (hs : c.state.part = .begun ∨ c.state.part = .idleRes) (htrailing : c.flags.trailing = false) :
    (Move.notify .messageBegin c true (.next c)).Keeps len t none (n + 1) := by
  have hnext : t.stage.next .messageBegin = some .begun := by
    rcases h with h | h <;> rw [h] <;> rfl
  have hbegun : c.Tracks (n + 1) ⟨.begun, t.text.next .messageBegin⟩ := by
    unfold Core.Tracks
    rw [htrailing]
    rcases hs with hs | hs <;> rw [hs]
    · refine ⟨rfl, rfl, ?_⟩
      show STRING_OFFSET + 2 ≤ room false (n + 1)
      unfold room
      omega
    · exact .inr rfl
  exact ⟨rfl, trivial, _, next_eq hnext, hbegun, keeps_next hbegun⟩

theorem startReq_keeps (h : Part.Holds .idle trailing n t) (hs : c.state.part = .idle) :
    (c.startReq ch).Keeps len t none (n + 1) := by
  unfold Core.startReq
  split
  · refine keeps_next ?_
    unfold Core.Tracks
    rw [hs]
    exact h
  dsimp only
  split
  · trivial
  cases Method.ofFirst ch with
  | none => trivial
  | some method => exact messageBegin_keeps (.inl h) (.inl rfl) rfl

theorem startReqOrRes_keeps (h : Part.Holds .idle trailing n t) (hs : c.state.part = .idle) :
    (c.startReqOrRes ch).Keeps len t none (n + 1) := by
  unfold Core.startReqOrRes
  split
  · refine keeps_next ?_
    unfold Core.Tracks
    rw [hs]
    exact h
  dsimp only
  split
  · exact messageBegin_keeps (.inl h) (.inl rfl) rfl
  · exact startReq_keeps h rfl

theorem startRes_keeps (h : Part.Holds .idleRes trailing n t) (hs : c.state.part = .idleRes) :
    (c.startRes ch).Keeps len t none (n + 1) := by
  unfold Core.startRes
  dsimp only
  split
  · exact messageBegin_keeps h (.inl rfl) rfl
  split
  · exact messageBegin_keeps h (.inr hs) rfl
  · trivial

theorem resOrRespH_keeps (h : Part.Holds .begun c.flags.trailing n t) :
    (c.resOrRespH ch).Keeps len t none (n + 1) := by
  unfold Core.resOrRespH
  split
  · exact keeps_same h rfl rfl
  split
  · trivial
  · exact keeps_same h rfl rfl

theorem digit_keeps {p : Part} (h : p.Holds c.flags.trailing n t) {set : Core → Nat → Core}
    (hset : ∀ d, (set c d).flags = c.flags) {s : State} (hs : s.part = p) :
    (c.digit ch set s).Keeps len t none (n + 1) := by
  unfold Core.digit
  split
  · trivial
  · exact keeps_same h hs (hset _)

theorem expect_keeps {p : Part} (h : p.Holds c.flags.trailing n t) {want : UInt8} {e : Errno}
    {s : State} (hs : s.part = p) : (c.expect ch want e s).Keeps len t none (n + 1) := by
  unfold Core.expect
  split
  · trivial
  · exact keeps_same h hs rfl

theorem resFirstStatusCode_keeps (h : Part.Holds .begun c.flags.trailing n t)
    (hs : c.state.part = .begun) : (c.resFirstStatusCode ch).Keeps len t none (n + 1) := by
  unfold Core.resFirstStatusCode
  split_ifs
  · exact keeps_same h hs rfl
  · trivial
  · exact keeps_same h rfl rfl

/-- The status of a response, which nobody is told. -/
theorem resStatus_keeps {q : Option Kind} (h : Part.Holds .begun c.flags.trailing n t)
    (hs : c.state = .resStatus) (hq : q = none ∨ q = some .status) (hn : n + 1 ≤ maxHeaderSize) :
    (c.resStatus ch).Keeps len t q (n + 1) := by
  have hreach : t.text.reach ≤ textLimit len := by
    have := room_le_limit hn false len
    have := (h.mono 1).2.2
    omega
  have hgrow (m : Nat) : t.grow q m = t := by
    rcases hq with rfl | rfl <;> rfl
  unfold Core.resStatus
  split
  · exact keeps_data (t := t) (k := .status) nofun hq true hreach (keeps_same h rfl rfl)
  split
  · exact keeps_data (t := t) (k := .status) nofun hq true hreach
      (keeps_same (c := c) (h.line (.inl rfl)) rfl rfl)
  · refine ⟨?_, ?_⟩
    · rintro k rfl
      rcases hq with hq | hq <;> cases hq
      rw [hs]
      exact .inl rfl
    · unfold Core.Tracks
      rw [hgrow, hs]
      exact h.mono 1

theorem resStatusStart_keeps (h : Part.Holds .begun c.flags.trailing n t)
    (hn : n + 1 ≤ maxHeaderSize) : (c.resStatusStart ch).Keeps len t none (n + 1) := by
  unfold Core.resStatusStart
  refine .inr ⟨rfl, t, rfl, ?_⟩
  split
  · exact resStatus_keeps h rfl (.inr rfl) hn
  · refine ⟨?_, h.mono 1⟩
    rintro k ⟨⟩
    exact .inl rfl

theorem resStatusCode_keeps (h : Part.Holds .begun c.flags.trailing n t)
    (hs : c.state.part = .begun) (hn : n + 1 ≤ maxHeaderSize) :
    (c.resStatusCode ch).Keeps len t none (n + 1) := by
  unfold Core.resStatusCode
  split
  · split
    · exact keeps_same h rfl rfl
    split
    · exact resStatusStart_keeps (c := c.updateState .resStatusStart) h hn
    · trivial
  · dsimp only
    split
    · trivial
    · exact keeps_same h hs rfl

theorem reqMethod_keeps (h : Part.Holds .begun c.flags.trailing n t) (hs : c.state.part = .begun) :
    (c.reqMethod ch).Keeps len t none (n + 1) := by
  unfold Core.reqMethod
  split
  · trivial
  cases hget : (c.method.string ++ [0])[c.index]? with
  | none => trivial
  | some want =>
    dsimp only
    split
    · exact keeps_same h rfl rfl
    split
    · exact keeps_same h hs rfl
    split
    · cases c.method.other c.index ch with
      | none => trivial
      | some method => exact keeps_same h hs rfl
    · trivial

/-! ### Urls -/

theorem State.isUrl_part {s : State} (h : s.isUrl = true) : s.part = .target := by
  cases s <;> first | contradiction | rfl

/-- A byte of a url; `t` reaches to the byte before it. -/
theorem urlChar_keeps {q : Option Kind} (hq : q = none ∨ q = some .url)
    (h : Part.Holds .target c.flags.trailing n t) : (c.urlChar ch).Keeps len t q (n + 1) := by
  unfold Core.urlChar
  dsimp only
  split
  · trivial
  · rename_i hdead
    have hurl := (parseUrlChar_isUrl c.state ch).resolve_left hdead
    refine ⟨?_, ?_⟩
    · rintro k rfl
      rcases hq with hq | hq <;> cases hq
      exact .inl (State.isUrl_spec hurl).1
    · obtain ⟨hstage, htrailing, hreach⟩ := h
      have hgrow := (grow_reach t q 1).2
      show (parseUrlChar c.state ch).part.Holds c.flags.trailing _ _
      rw [State.isUrl_part hurl]
      refine ⟨(grow_stage ..).trans hstage, htrailing, ?_⟩
      rw [room_add]
      omega

theorem reqSpacesBeforeUrl_keeps (h : Part.Holds .begun c.flags.trailing n t)
    (hs : c.state.part = .begun) : (c.reqSpacesBeforeUrl ch).Keeps len t none (n + 1) := by
  unfold Core.reqSpacesBeforeUrl
  split
  · exact keeps_same h hs rfl
  · -- the url begins
    obtain ⟨hstage, htrailing, hreach⟩ := h
    have hnext : t.stage.next (.url []) = some .url := by
      rw [hstage]
      rfl
    refine .inr ⟨rfl, _, next_eq hnext, urlChar_keeps (.inr rfl) ?_⟩
    split
    · exact ⟨rfl, htrailing, hreach⟩
    · exact ⟨rfl, htrailing, hreach⟩

theorem reqSchema_keeps {q : Option Kind} (hq : q = none ∨ q = some .url)
    (h : Part.Holds .target c.flags.trailing n t) : (c.reqSchema ch).Keeps len t q (n + 1) := by
  unfold Core.reqSchema
  split
  · trivial
  · exact urlChar_keeps hq h

theorem reqUrl_keeps {q : Option Kind} (hq : q = none ∨ q = some .url)
    (h : Part.Holds .target c.flags.trailing n t) (hn : n + 1 ≤ maxHeaderSize) :
    (c.reqUrl ch).Keeps len t q (n + 1) := by
  have hreach : t.text.reach ≤ textLimit len := by
    have := room_le_limit hn false len
    have := (h.mono 1).2.2
    omega
  unfold Core.reqUrl
  split
  · exact keeps_data (t := t) (k := .url) nofun hq true hreach (keeps_same h rfl rfl)
  split
  · refine keeps_data (t := t) (k := .url) nofun hq true hreach ?_
    by_cases hcr : ch = CR
    · rw [if_pos hcr]
      exact keeps_same (c := c) h rfl rfl
    · rw [if_neg hcr]
      exact keeps_same (c := c) (h.line (.inr rfl)) rfl rfl
  · exact urlChar_keeps hq h

theorem reqHttpStart_keeps (h : Part.Holds .target c.flags.trailing n t)
    (hs : c.state.part = .target) : (c.reqHttpStart ch).Keeps len t none (n + 1) := by
  unfold Core.reqHttpStart
  split
  · exact keeps_same h rfl rfl
  split
  · exact keeps_same h hs rfl
  · trivial

theorem reqHttpEnd_keeps (h : Part.Holds .target c.flags.trailing n t) :
    (c.reqHttpEnd ch).Keeps len t none (n + 1) := by
  unfold Core.reqHttpEnd
  split
  · exact keeps_same h rfl rfl
  split
  · exact keeps_same (h.line (.inr rfl)) rfl rfl
  · trivial

/-! ### Bodies -/

/-- On to a state of a body, however much has been counted. -/
theorem keeps_body (m : Nat) (h : Part.Holds .body c.flags.trailing n t) {c' : Core}
    (hp : c'.state.part = .body) (hf : c'.flags = c.flags) :
    (Move.next c').Keeps len t none m := by
  refine keeps_next ?_
  unfold Core.Tracks
  rw [hp, hf]
  exact h

/-- Bytes of a body, which begins here or has begun before. -/
theorem mark_body {q : Option Kind} (hq : q = none ∨ q = some .body) {m : Nat} {move : Move}
    (h : Part.Holds .body trailing n t)
    (hmove : ∀ v, Part.Holds .body trailing n v → move.Keeps len v (some .body) m) :
    (Move.mark .body move).Keeps len t q m := by
  rcases hq with rfl | rfl
  · have hnext : t.stage.next (.body []) = some .body := by
      rw [h.1]
      rfl
    exact .inr ⟨rfl, _, next_eq hnext, hmove _ ⟨rfl, h.2.1, h.2.2⟩⟩
  · exact .inl ⟨rfl, hmove t h⟩

/-- A part of a body goes on, with what is marked. -/
theorem keeps_part (m : Nat) (h : Part.Holds .body c.flags.trailing n t) {c' : Core}
    (hs : c'.state.marks = .atMost .body) (hp : c'.state.part = .body)
    (hf : c'.flags = c.flags) : (Move.next c').Keeps len t (some .body) m := by
  refine ⟨?_, ?_⟩
  · rintro k ⟨⟩
    exact .inr hs
  · unfold Core.Tracks
    rw [hp, hf]
    exact h

theorem bodyIdentity_keeps {q : Option Kind} (h : Part.Holds .body c.flags.trailing n t)
    (hs : c.state = .bodyIdentity) (hq : q = none ∨ q = some .body) (xs : List UInt8) (m : Nat) :
    (c.bodyIdentity xs).Keeps len t q m := by
  have hlimit := room_le_limit (Nat.le_refl maxHeaderSize) false len
  unfold Core.bodyIdentity
  split
  · trivial
  refine mark_body hq h fun v hv => ?_
  show Move.Keeps len v (some .body) m (if _ then _ else _)
  split
  · refine .inr ⟨rfl, hv.2.2.trans (by omega), fun _ => .inl hv.1, ?_⟩
    exact messageDone_keeps (.inl hv.1)
  · exact keeps_part (c := c) m hv (by rw [hs]; rfl) (by rw [hs]; rfl) rfl

theorem chunkData_keeps {q : Option Kind} (h : Part.Holds .body c.flags.trailing n t)
    (hs : c.state = .chunkData) (hq : q = none ∨ q = some .body) (xs : List UInt8) (m : Nat) :
    (c.chunkData xs).Keeps len t q m := by
  unfold Core.chunkData
  split
  · trivial
  refine mark_body hq h fun v hv => ?_
  show Move.Keeps len v (some .body) m (.next (if _ then _ else _))
  split
  · exact keeps_part (c := c) m hv rfl rfl rfl
  · exact keeps_part (c := c) m hv (by rw [hs]; rfl) (by rw [hs]; rfl) rfl

theorem chunkDataAlmostDone_keeps {q : Option Kind} (h : Part.Holds .body c.flags.trailing n t)
    (hq : q = none ∨ q = some .body) (m : Nat) : c.chunkDataAlmostDone.Keeps len t q m := by
  have hlimit := room_le_limit (Nat.le_refl maxHeaderSize) false len
  unfold Core.chunkDataAlmostDone
  split
  · trivial
  · have hnext : (Move.next (c.updateState .chunkDataDone)).Keeps len t none m :=
      keeps_body m h rfl rfl
    rcases hq with rfl | rfl
    · exact .inl ⟨rfl, hnext⟩
    · exact .inr ⟨rfl, h.2.2.trans (by omega), fun _ => h, hnext⟩

theorem chunkSizeStart_keeps (h : Part.Holds .body c.flags.trailing n t) (m : Nat) :
    (c.chunkSizeStart ch).Keeps len t none m := by
  unfold Core.chunkSizeStart
  show Move.Keeps len t none m (if _ then _ else _)
  split
  · trivial
  cases unhex ch with
  | none => trivial
  | some d => exact keeps_body (c := c) m h rfl rfl

theorem chunkSize_keeps (h : Part.Holds .body c.flags.trailing n t) (hs : c.state = .chunkSize)
    (m : Nat) : (c.chunkSize ch).Keeps len t none m := by
  unfold Core.chunkSize
  split
  · trivial
  split
  · exact keeps_body m h rfl rfl
  cases unhex ch with
  | none =>
    dsimp only
    split
    · exact keeps_body m h rfl rfl
    · trivial
  | some d =>
    dsimp only
    split
    · trivial
    · exact keeps_body (c := c) m h (by rw [hs]; rfl) rfl

theorem chunkParameters_keeps (h : Part.Holds .body c.flags.trailing n t)
    (hs : c.state = .chunkParameters) (m : Nat) : (c.chunkParameters ch).Keeps len t none m := by
  unfold Core.chunkParameters
  split
  · trivial
  split
  · exact keeps_body m h rfl rfl
  · exact keeps_body m h (by rw [hs]; rfl) rfl

/-- The last chunk: the trailers are counted from 0 on, with the room of a head more. -/
theorem chunkSizeAlmostDone_keeps (h : Part.Holds .body c.flags.trailing n t) (m : Nat) :
    c.chunkSizeAlmostDone.Keeps len t none m := by
  unfold Core.chunkSizeAlmostDone
  split
  · trivial
  show Move.Keeps len t none 0 (.next (if _ then _ else _))
  split
  · refine keeps_next ⟨.inl h.1, ?_⟩
    have hreach := h.2.2
    unfold room at hreach
    show t.text.reach + 2 ≤ room true 0
    unfold room
    simp only [Bool.false_eq_true, if_false, if_true] at hreach ⊢
    omega
  · exact keeps_body 0 h rfl rfl

theorem chunkDataDone_keeps (h : Part.Holds .body c.flags.trailing n t) (m : Nat) :
    c.chunkDataDone.Keeps len t none m := by
  unfold Core.chunkDataDone
  split
  · trivial
  · have hnext : (Move.next (c.updateState .chunkSizeStart)).Keeps len t none 0 :=
      keeps_body 0 h rfl rfl
    exact hnext

/-! ### A turn -/

theorem State.Marks.none {s : State} {q : Option Kind} (h : s.Marks q) (hs : s.marks = .clear) :
    q = none := by
  rcases q with _ | k
  · rfl
  · rcases h k rfl with h | h <;> rw [hs] at h <;> cases h

/-- The `switch` keeps the callbacks in order and pays for the text, for every state and every
    byte. -/
theorem switch_keeps {q : Option Kind} (h : c.Tracks n t) (hq : c.state.Marks q)
    {rest : List UInt8} (hlen : rest.length + 1 ≤ len) {m : Nat}
    (hm : c.state.parsingHeader = true → m = n + 1 ∧ n + 1 ≤ maxHeaderSize) :
    (c.switch ch rest).Keeps len t q m := by
  have hlen' : (ch :: rest).length ≤ len := hlen
  unfold Core.Tracks at h
  unfold Core.switch
  -- a byte of a head is counted
  have hcounted (h : c.state.parsingHeader = true) : m = n + 1 ∧ n + 1 ≤ maxHeaderSize := hm h
  cases hs : c.state <;> rw [hs] at h hq hcounted <;> dsimp only
  case chunkData => exact chunkData_keeps h hs (hq.eq (.inr rfl)) _ m
  case chunkDataAlmostDone => exact chunkDataAlmostDone_keeps h (hq.eq (.inr rfl)) m
  case chunkDataDone =>
    obtain rfl := hq.none rfl
    exact chunkDataDone_keeps h m
  case bodyIdentity => exact bodyIdentity_keeps h hs (hq.eq (.inr rfl)) _ m
  case bodyIdentityEof =>
    refine mark_body (hq.eq (.inr rfl)) h fun v hv => ?_
    show Move.Keeps len v (some .body) m (.next c)
    exact keeps_part m hv (by rw [hs]; rfl) (by rw [hs]; rfl) rfl
  case messageDone =>
    obtain rfl := hq.none rfl
    exact messageDone_keeps h
  all_goals obtain ⟨rfl, hn⟩ := hcounted rfl
  case headerField => exact headerField_keeps h hs (hs ▸ hq) _
  case headerValue => exact headerValue_keeps h hs (hs ▸ hq) hn hlen'
  case resStatus => exact resStatus_keeps h hs (hq.eq (.inl rfl)) hn
  case reqSchema | reqSchemaSlash | reqSchemaSlashSlash | reqServerStart =>
    exact reqSchema_keeps (hq.eq (.inl rfl)) h
  case reqServer | reqServerWithAt | reqPath | reqQueryStringStart | reqQueryString
      | reqFragmentStart | reqFragment => exact reqUrl_keeps (hq.eq (.inl rfl)) h hn
  -- nothing is marked in any other state
  all_goals obtain rfl := hq.none rfl
  case dead =>
    split
    · refine keeps_next ?_
      unfold Core.Tracks
      rw [hs]
      trivial
    · trivial
  case startReqOrRes => exact startReqOrRes_keeps h (by rw [hs]; rfl)
  case resOrRespH => exact resOrRespH_keeps h
  case startRes => exact startRes_keeps h (by rw [hs]; rfl)
  case startReq => exact startReq_keeps h (by rw [hs]; rfl)
  case resHttpMajor | resHttpMinor | reqHttpMajor | reqHttpMinor =>
    exact digit_keeps h (fun _ => rfl) rfl
  case resHttpDot | resHttpEnd | reqHttpDot => exact expect_keeps h rfl
  case reqLineAlmostDone => exact expect_keeps (h.line (.inr rfl)) rfl
  case resFirstStatusCode => exact resFirstStatusCode_keeps h (by rw [hs]; rfl)
  case resStatusCode => exact resStatusCode_keeps h (by rw [hs]; rfl) hn
  case resStatusStart => exact resStatusStart_keeps h hn
  case resLineAlmostDone => exact keeps_same (h.line (.inl rfl)) rfl rfl
  case reqMethod => exact reqMethod_keeps h (by rw [hs]; rfl)
  case reqSpacesBeforeUrl => exact reqSpacesBeforeUrl_keeps h (by rw [hs]; rfl)
  case reqHttpStart => exact reqHttpStart_keeps h (by rw [hs]; rfl)
  case reqHttpEnd => exact reqHttpEnd_keeps h
  case headerFieldStart => exact headerFieldStart_keeps h hn
  case headerValueDiscardWs => exact headerValueDiscardWs_keeps h hs
  case headerValueDiscardWsAlmostDone =>
    have hfield : t.InField c.flags.trailing n 2 := h
    exact keeps_next (hfield.count 1)
  case headerValueDiscardLws => exact headerValueDiscardLws_keeps h hn
  case headerValueStart => exact headerValueStart_keeps h
  case headerValueLws => exact headerValueLws_keeps h hn
  case headerAlmostDone =>
    have hvalue : t.InValue c.flags.trailing n 0 := h
    exact headerAlmostDone_keeps (hvalue.count 1)
  case headersAlmostDone => exact headersAlmostDone_keeps (h.mono 1) hn
  case headersDone => exact headersDone_keeps (h.mono 1)
  case chunkSizeStart => exact chunkSizeStart_keeps h _
  case chunkSize => exact chunkSize_keeps h hs _
  case chunkParameters => exact chunkParameters_keeps h hs _
  case chunkSizeAlmostDone => exact chunkSizeAlmostDone_keeps h _
  -- the letters of `HTTP`
  all_goals exact keeps_same h rfl rfl

/-- **A turn of the loop keeps the callbacks in order and pays for the text**, for every state and
    every byte. -/
theorem turn_keeps {q : Option Kind} (h : c.Tracks n t) (hq : c.state.Marks q)
    {rest : List UInt8} (hlen : rest.length + 1 ≤ len) : (c.turn ch rest).Keeps len t q n := by
  unfold Core.turn
  split
  · exact fun hcount => switch_keeps h hq hlen fun _ => ⟨rfl, hcount⟩
  · rename_i hheader
    exact switch_keeps h hq hlen fun hs => absurd hs hheader

end Dv8.Http
