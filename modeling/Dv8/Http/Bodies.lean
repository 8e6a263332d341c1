import Dv8.Http.Fields

namespace Dv8.Http

open Dv8.Lib

/-!
# Bodies of requests

What the parser does at the end of a head, and with the three ways a body can follow.

* `takes_headersDone` — the last byte of a head: `headers_complete_cb`, and the state that the
  headers ask for;
* `takes_body` — a body of known length;
* `takes_chunk`, `takes_lastChunk` — a body in chunks.
-/

variable {c c' d q : Core} {p : Parser} {xs ys : List UInt8} {cbs : List Callback} {b : UInt8}
  {n : Nat}

theorem Parser.Takes.cons {r s : Parser} {cbs' : List Callback} (h : p.Takes [b] cbs r)
    (h' : r.Takes xs cbs' s) : p.Takes (b :: xs) (cbs ++ cbs') s := h.append h'

/-- Inside a head. -/
theorem Core.Runs.takes (h : c.Runs xs cbs c') (hn : n + 2 * xs.length ≤ maxHeaderSize) :
    ∃ n' ≤ n + 2 * xs.length, Parser.Takes ⟨c, n⟩ xs cbs ⟨c', n'⟩ := h n hn

/-! ### The end of a head -/

/-- A head that asks for nothing but a body. -/
structure Core.Simple (c : Core) : Prop extends c.Live where
  type : c.type = .request
  method : c.method ≠ .connect
  trailing : c.flags.trailing = false
  upgrade' : c.flags.upgrade = false
  skipbody : c.flags.skipbody = false
  lengths : (c.flags.chunked && c.flags.contentlength) = false

/-- The state behind the head, when a body follows. -/
def Core.bodyState (c : Core) : Option State :=
  if c.flags.chunked then some .chunkSizeStart
  else if c.contentLength = 0 then none
  else if c.contentLength ≠ ULLONG_MAX then some .bodyIdentity
  else none

theorem needsEof_request (h : c.type = .request) : c.messageNeedsEof = false := by
  unfold Core.messageNeedsEof
  rw [if_pos h]

theorem headersDone_simple (h : c.Simple) :
    c.headersDone = .reset (c.bodyState.elim
      (.notify .messageComplete c.newMessage true (.next c.newMessage))
      fun s => .next (c.updateState s)) := by
  unfold Core.headersDone Core.bodyState
  rw [if_neg (by simp [h.upgrade]), if_neg (by simp [h.skipbody]), needsEof_request h.type]
  split_ifs <;> first | rfl | contradiction

theorem headersAlmostDone_simple (h : c.Simple) :
    c.headersAlmostDone = .notify (.headersComplete c.info) (c.updateState .headersDone) false
      (c.updateState .headersDone).headersDone := by
  have hc : ({ c with state := .headersDone, upgrade := false } : Core) =
      c.updateState .headersDone := by
    rw [← h.upgrade]
    rfl
  unfold Core.headersAlmostDone
  rw [if_neg (by simp [h.trailing]), if_neg (by simp [h.lengths])]
  simp only [h.upgrade', Bool.false_and, Bool.false_eq_true, if_false, h.method, decide_false, hc]
  rfl

theorem Core.Simple.updateState (h : c.Simple) (s : State) : (c.updateState s).Simple :=
  ⟨h.toLive.updateState s, h.type, h.method, h.trailing, h.upgrade', h.skipbody, h.lengths⟩

/-- **The end of a head**, when a body follows. -/
theorem takes_headersDone {s : State} (h : c.Simple) (hs : c.state = .headersAlmostDone)
    (hn : n + 1 ≤ maxHeaderSize) (hbody : c.bodyState = some s) :
    Parser.Takes ⟨c, n⟩ [LF] [.headersComplete c.info] ⟨c.updateState s, 0⟩ := by
  have hclear := marked_none (c := c) (by rw [hs]; rfl)
  refine takes_clear (p := ⟨c, n⟩) (t := ⟨⟨c.updateState s, 0⟩, 0, c.marked,
    [⟨.headersComplete c.info, 0, ⟨c.updateState .headersDone, n + 1⟩, false⟩]⟩)
    h.errno ?_ rfl hclear h.errno h.upgrade
  have hbody' : (c.updateState .headersDone).bodyState = some s := hbody
  show Scan.perform [LF] (Parser.scan ⟨c, n⟩) (c.turn LF []) = _
  unfold Core.turn
  rw [if_pos (by rw [hs]; rfl), perform_count (s := Parser.scan ⟨c, n⟩) hn]
  simp only [Core.switch, hs]
  rw [headersAlmostDone_simple h, headersDone_simple (h.updateState _), hbody']
  rfl

/-- **The end of a message without a body.** -/
theorem takes_complete (h : c.Simple) (hs : c.state = .headersAlmostDone)
    (hn : n + 1 ≤ maxHeaderSize) (hbody : c.bodyState = none) :
    Parser.Takes ⟨c, n⟩ [LF] [.headersComplete c.info, .messageComplete] ⟨c.newMessage, 0⟩ := by
  have hclear := marked_none (c := c) (by rw [hs]; rfl)
  refine takes_clear (p := ⟨c, n⟩) (t := ⟨⟨c.newMessage, 0⟩, 0, c.marked,
    [⟨.headersComplete c.info, 0, ⟨c.updateState .headersDone, n + 1⟩, false⟩,
      ⟨.messageComplete, 1, ⟨c.newMessage, 0⟩, false⟩]⟩)
    h.errno ?_ rfl hclear h.errno h.upgrade
  have hbody' : (c.updateState .headersDone).bodyState = none := hbody
  show Scan.perform [LF] (Parser.scan ⟨c, n⟩) (c.turn LF []) = _
  unfold Core.turn
  rw [if_pos (by rw [hs]; rfl), perform_count (s := Parser.scan ⟨c, n⟩) hn]
  simp only [Core.switch, hs]
  rw [headersAlmostDone_simple h, headersDone_simple (h.updateState _), hbody']
  rfl

/-! ### Bodies of known length -/

/-- The parser with `a` bytes of a body to come. -/
def Core.owing (c : Core) (s : State) (a : Nat) : Core :=
  { c with state := s, contentLength := a }

/-- A byte of a body behind which nothing is called back yet. -/
theorem takes_mark (h : c.Live) (hbody : c.state.parsingHeader = false)
    (hmark : c.state.initialMark = none)
    (hm : c.switch b [] = .mark .body (.skip 0 (.next c'))) (h' : c'.Live) :
    Parser.Takes ⟨c, n⟩ [b] [.body [b]] ⟨c', n⟩ := by
  have hnone := marked_none hmark
  refine takes_set (p := ⟨c, n⟩) (k := .body)
    (t := ⟨⟨c', n⟩, 0, Function.update c.marked .body (some 0), []⟩) h.errno ?_ rfl (by simp)
    (fun l hl => (Function.update_of_ne hl ..).trans (hnone l)) h'.errno h'.upgrade
  show Scan.perform [b] ⟨⟨c, n⟩, 0, c.marked, []⟩ (c.turn b []) = _
  unfold Core.turn
  rw [if_neg (by simp [hbody]), hm, Scan.perform]
  dsimp only
  rw [hnone .body]
  rfl

/-- A byte of a body that is not the last. -/
theorem takes_bodyByte {a : Nat} (hl : c.Live) (ha : 0 < a) (hmax : a + 1 < ULLONG_MAX) :
    Parser.Takes ⟨c.owing .bodyIdentity (a + 1), n⟩ [b] [.body [b]]
      ⟨c.owing .bodyIdentity a, n⟩ := by
  refine takes_mark ⟨hl.errno, hl.upgrade⟩ rfl rfl ?_ ⟨hl.errno, hl.upgrade⟩
  have hzero : ¬ ((decide (a + 1 = 0) || decide (a + 1 = ULLONG_MAX)) = true) := by
    simp
    omega
  have hmin : min (a + 1) [b].length = 1 := by simp
  show (if (decide (a + 1 = 0) || decide (a + 1 = ULLONG_MAX)) = true then _ else
    Move.mark Kind.body (.skip (min (a + 1) [b].length - 1)
      (if a + 1 - min (a + 1) [b].length = 0 then _ else
        .next (c.owing .bodyIdentity (a + 1 - min (a + 1) [b].length))))) = _
  rw [if_neg hzero, hmin, Nat.add_sub_cancel, if_neg ha.ne']

/-- The last byte of a body. -/
theorem takes_bodyEnd (hl : c.Live) :
    Parser.Takes ⟨c.owing .bodyIdentity 1, n⟩ [b] [.body [b], .messageComplete]
      ⟨(c.owing .bodyIdentity 0).newMessage, n⟩ := by
  have hmove : (c.owing .bodyIdentity 1).bodyIdentity [b] =
      .mark .body (.skip 0 (.data .body (c.owing .messageDone 0) true false
        (.notify .messageComplete (c.owing .bodyIdentity 0).newMessage true
          (.next (c.owing .bodyIdentity 0).newMessage)))) := by
    unfold Core.bodyIdentity
    show Move.mark Kind.body (.skip 0 (.data .body (c.owing .messageDone 0) true false
      (c.owing .messageDone 0).messageDone)) = _
    unfold Core.messageDone
    have hupgrade : (c.owing .messageDone 0).upgrade = c.upgrade := rfl
    rw [hupgrade, hl.upgrade, if_neg (by simp)]
    rfl
  refine takes_clear (p := ⟨c.owing .bodyIdentity 1, n⟩)
    (t := ⟨⟨(c.owing .bodyIdentity 0).newMessage, n⟩, 0,
      Function.update (Function.update (c.owing .bodyIdentity 1).marked .body (some 0)) .body none,
      [⟨.body [b], 0, ⟨c.owing .messageDone 0, n⟩, false⟩,
        ⟨.messageComplete, 1, ⟨(c.owing .bodyIdentity 0).newMessage, n⟩, false⟩]⟩)
    hl.errno ?_ rfl (fun k => ?_) hl.errno hl.upgrade
  · show Scan.perform [b] _ ((c.owing .bodyIdentity 1).bodyIdentity [b]) = _
    rw [hmove]
    rfl
  · rw [Function.update_idem]
    by_cases hk : k = .body
    · simp [hk]
    · exact (Function.update_of_ne hk ..).trans (marked_none rfl k)

/-- **A body of known length.** -/
theorem takes_body (hl : c.Live) (hxs : xs ≠ []) (hmax : xs.length < ULLONG_MAX) :
    Parser.Takes ⟨c.owing .bodyIdentity xs.length, n⟩ xs [.body xs, .messageComplete]
      ⟨(c.owing .bodyIdentity 0).newMessage, n⟩ := by
  induction xs with
  | nil => contradiction
  | cons b xs ih =>
    cases xs with
    | nil => exact takes_bodyEnd hl
    | cons b' xs =>
      have hfirst := takes_bodyByte (b := b) (n := n) hl (a := (b' :: xs).length)
        (Nat.succ_pos _) hmax
      have hrest := ih (List.cons_ne_nil _ _) (Nat.lt_of_succ_lt hmax)
      exact (hfirst.cons hrest).congr
        (gather_joined (j := pieces) (z := .body (b :: b' :: xs)) rfl [.messageComplete])

/-! ### Bodies in chunks -/

/-- The character of a hexadecimal digit. -/
def hexChar (d : Nat) : UInt8 := if d < 10 then UInt8.ofNat (48 + d) else UInt8.ofNat (87 + d)

theorem hexChar_spec {d : Nat} (hd : d < 16) : unhex (hexChar d) = some d ∧ hexChar d ≠ CR := by
  revert d
  decide

/-- The hexadecimal text of a number. -/
def hexadecimal (n : Nat) : List UInt8 := (numeral 16 n).map hexChar

/-- A chunk as it is written. -/
def chunk (xs : List UInt8) : List UInt8 := hexadecimal xs.length ++ crlf ++ xs ++ crlf

/-- The first digit of a size, which `nread` is looked at for. -/
theorem takes_sizeStart {a d : Nat} (hl : c.Live) (hchunked : c.flags.chunked = true)
    (hd : d < 16) :
    Parser.Takes ⟨c.owing .chunkSizeStart a, 0⟩ [hexChar d] [] ⟨c.owing .chunkSize d, 1⟩ := by
  refine takes_clear (p := ⟨c.owing .chunkSizeStart a, 0⟩)
    (t := ⟨⟨c.owing .chunkSize d, 1⟩, 0, (c.owing .chunkSizeStart a).marked, []⟩)
    hl.errno ?_ rfl (marked_none (c := c.owing .chunkSizeStart a) rfl) hl.errno hl.upgrade
  have hmove : (c.owing .chunkSizeStart a).chunkSizeStart (hexChar d) =
      .counted (.next (c.owing .chunkSize d)) := by
    unfold Core.chunkSizeStart
    rw [if_neg (by simp [show (c.owing .chunkSizeStart a).flags = c.flags from rfl, hchunked]),
      (hexChar_spec hd).1]
    rfl
  show Scan.perform [hexChar d] (Parser.scan ⟨c.owing .chunkSizeStart a, 0⟩)
    (.count 1 _ ((c.owing .chunkSizeStart a).chunkSizeStart (hexChar d))) = _
  rw [hmove]
  rfl

/-- Another digit of a size: neither the check for an overflow nor the width of the word
    matters. -/
theorem chunkSize_digit {a d : Nat} (hchunked : c.flags.chunked = true) (hd : d < 16)
    (hmax : a * 16 + d ≤ ULLONG_MAX - 16) :
    (c.owing .chunkSize a).chunkSize (hexChar d) = .next (c.owing .chunkSize (a * 16 + d)) := by
  obtain ⟨hunhex, hcr⟩ := hexChar_spec hd
  have hmod : (a * 16 + d) % 2 ^ 64 = a * 16 + d :=
    Nat.mod_eq_of_lt (by unfold ULLONG_MAX at hmax; omega)
  have hsmall : ¬ (ULLONG_MAX - 16) / 16 < a := by omega
  unfold Core.chunkSize
  rw [if_neg (by simp [show (c.owing .chunkSize a).flags = c.flags from rfl, hchunked]),
    if_neg hcr, hunhex]
  show (if (ULLONG_MAX - 16) / 16 < a then _ else
    Move.next (c.owing .chunkSize ((a * 16 + d) % 2 ^ 64))) = _
  rw [if_neg hsmall, hmod]

theorem runs_size {a : Nat} {ds : List Nat} (hl : c.Live) (hchunked : c.flags.chunked = true)
    (hds : ∀ d ∈ ds, d < 16) (hmax : value 16 a ds ≤ ULLONG_MAX - 16) :
    (c.owing .chunkSize a).Runs (ds.map hexChar) [] (c.owing .chunkSize (value 16 a ds)) := by
  induction ds generalizing a with
  | nil => exact .refl _
  | cons d ds ih =>
    have hle : a * 16 + d ≤ value 16 a (d :: ds) := le_value (by decide) _ ds
    have hfirst : (c.owing .chunkSize a).Runs [hexChar d] [] (c.owing .chunkSize (a * 16 + d)) :=
      runs_next ⟨hl.errno, hl.upgrade⟩ rfl rfl
        (chunkSize_digit hchunked (hds d List.mem_cons_self) (hle.trans hmax))
        ⟨hl.errno, hl.upgrade⟩
    exact hfirst.cons (ih (fun b hb => hds b (List.mem_cons_of_mem _ hb)) hmax)

/-- The state behind the size of a chunk. -/
def Core.sized (c : Core) (a : Nat) : Core :=
  if a = 0 then { c.owing .headerFieldStart a with flags.trailing := true }
  else c.owing .chunkData a

theorem sized_live (hl : c.Live) (a : Nat) : (c.sized a).Live := by
  unfold Core.sized
  split <;> exact ⟨hl.errno, hl.upgrade⟩

/-- The end of the line with a size. -/
theorem takes_sizeEnd {a : Nat} (hl : c.Live) (hchunked : c.flags.chunked = true)
    (hn : n + 3 ≤ maxHeaderSize) :
    Parser.Takes ⟨c.owing .chunkSize a, n⟩ crlf [] ⟨c.sized a, 0⟩ := by
  have hflags : ∀ s, (c.owing s a).flags.chunked = true := fun _ => hchunked
  have hcr : (c.owing .chunkSize a).Runs [CR] [] (c.owing .chunkSizeAlmostDone a) := by
    refine runs_next ⟨hl.errno, hl.upgrade⟩ rfl rfl ?_ ⟨hl.errno, hl.upgrade⟩
    show Core.chunkSize _ CR = _
    unfold Core.chunkSize
    rw [if_neg (by simp [hflags])]
    rfl
  obtain ⟨n', hn', htakes⟩ := hcr n (by simpa using Nat.le_of_succ_le hn)
  rw [List.length_singleton] at hn'
  have hcount : n' + 1 ≤ maxHeaderSize := by omega
  have hl' := sized_live hl a
  refine htakes.cons (takes_clear (p := ⟨c.owing .chunkSizeAlmostDone a, n'⟩)
    (t := ⟨⟨c.sized a, 0⟩, 0, (c.owing .chunkSizeAlmostDone a).marked, []⟩)
    hl.errno ?_ rfl (marked_none (c := c.owing .chunkSizeAlmostDone a) rfl) hl'.errno
    hl'.upgrade)
  show Scan.perform [LF] (Parser.scan ⟨c.owing .chunkSizeAlmostDone a, n'⟩)
    (.count 1 _ (c.owing .chunkSizeAlmostDone a).chunkSizeAlmostDone) = _
  rw [perform_count (s := Parser.scan ⟨c.owing .chunkSizeAlmostDone a, n'⟩) hcount]
  unfold Core.chunkSizeAlmostDone
  rw [if_neg (by simp [hflags])]
  rfl

/-- **The size of a chunk.** -/
theorem takes_size {a k : Nat} (hl : c.Live) (hchunked : c.flags.chunked = true)
    (hk : k ≤ ULLONG_MAX - 16) :
    Parser.Takes ⟨c.owing .chunkSizeStart a, 0⟩ (hexadecimal k ++ crlf) [] ⟨c.sized k, 0⟩ := by
  have hvalue := value_numeral 16 k
  have hlt : ∀ d ∈ numeral 16 k, d < 16 := fun d => lt_of_mem_numeral (by decide)
  have hlength : (numeral 16 k).length ≤ 16 :=
    numeral_length_le (by decide) (by decide) (by unfold ULLONG_MAX at hk; omega)
  unfold hexadecimal
  obtain ⟨x, ds, hcons⟩ := List.exists_cons_of_ne_nil (numeral_ne_nil 16 k)
  rw [hcons] at hvalue hlt hlength ⊢
  rw [value_cons, Nat.zero_mul, Nat.zero_add] at hvalue
  rw [List.length_cons] at hlength
  have hfirst := takes_sizeStart (a := a) hl hchunked (hlt x List.mem_cons_self)
  obtain ⟨n', hn', hrest⟩ := runs_size hl hchunked (a := x)
    (fun b hb => hlt b (List.mem_cons_of_mem _ hb)) (hvalue.trans_le hk) 1
    (by rw [List.length_map]; unfold maxHeaderSize HTTP_MAX_HEADER_SIZE; omega)
  rw [List.length_map] at hn'
  rw [hvalue] at hrest
  have hend := takes_sizeEnd (a := k) (n := n') hl hchunked
    (by unfold maxHeaderSize HTTP_MAX_HEADER_SIZE; omega)
  exact (hfirst.cons hrest).append hend

/-- A byte of a chunk. -/
theorem takes_chunkByte {a : Nat} (hl : c.Live) (hchunked : c.flags.chunked = true)
    (hmax : a + 1 < ULLONG_MAX) :
    Parser.Takes ⟨c.owing .chunkData (a + 1), n⟩ [b] [.body [b]]
      ⟨c.owing (if a = 0 then .chunkDataAlmostDone else .chunkData) a, n⟩ := by
  refine takes_mark ⟨hl.errno, hl.upgrade⟩ rfl rfl ?_ ⟨hl.errno, hl.upgrade⟩
  have hzero : ¬ ((!c.flags.chunked || decide (a + 1 = 0) || decide (a + 1 = ULLONG_MAX)) =
      true) := by
    simp [hchunked]
    omega
  have hmin : min (a + 1) [b].length = 1 := by simp
  show (if (!c.flags.chunked || decide (a + 1 = 0) || decide (a + 1 = ULLONG_MAX)) = true then _
    else Move.mark Kind.body (.skip (min (a + 1) [b].length - 1)
      (.next (if a + 1 - min (a + 1) [b].length = 0 then
        c.owing .chunkDataAlmostDone (a + 1 - min (a + 1) [b].length)
        else c.owing .chunkData (a + 1 - min (a + 1) [b].length))))) = _
  rw [if_neg hzero, hmin, Nat.add_sub_cancel]
  split <;> rfl

theorem takes_chunkData (hl : c.Live) (hchunked : c.flags.chunked = true) (hxs : xs ≠ [])
    (hmax : xs.length < ULLONG_MAX) :
    Parser.Takes ⟨c.owing .chunkData xs.length, n⟩ xs [.body xs]
      ⟨c.owing .chunkDataAlmostDone 0, n⟩ := by
  induction xs with
  | nil => contradiction
  | cons b xs ih =>
    have hfirst := takes_chunkByte (b := b) (n := n) hl hchunked (a := xs.length) hmax
    cases xs with
    | nil => exact hfirst
    | cons b' xs =>
      rw [if_neg (by simp)] at hfirst
      exact (hfirst.cons (ih (List.cons_ne_nil _ _) (Nat.lt_of_succ_lt hmax))).congr
        (gather_joined (j := pieces) (z := .body (b :: b' :: xs)) rfl [])

/-- The end of the line behind a chunk. -/
theorem takes_chunkEnd (hl : c.Live) (hchunked : c.flags.chunked = true) :
    Parser.Takes ⟨c.owing .chunkDataAlmostDone 0, n⟩ crlf [] ⟨c.owing .chunkSizeStart 0, 0⟩ := by
  have hflags : ∀ s, (c.owing s 0).flags.chunked = true := fun _ => hchunked
  have hcr : Parser.Takes ⟨c.owing .chunkDataAlmostDone 0, n⟩ [CR] []
      ⟨c.owing .chunkDataDone 0, n⟩ := by
    refine takes_clear (p := ⟨c.owing .chunkDataAlmostDone 0, n⟩)
      (t := ⟨⟨c.owing .chunkDataDone 0, n⟩, 0, (c.owing .chunkDataAlmostDone 0).marked, []⟩)
      hl.errno ?_ rfl (marked_none (c := c.owing .chunkDataAlmostDone 0) rfl) hl.errno hl.upgrade
    show Scan.perform [CR] _ (c.owing .chunkDataAlmostDone 0).chunkDataAlmostDone = _
    unfold Core.chunkDataAlmostDone
    rw [if_neg (by simp [hflags]; rfl)]
    rfl
  have hlf : Parser.Takes ⟨c.owing .chunkDataDone 0, n⟩ [LF] []
      ⟨c.owing .chunkSizeStart 0, 0⟩ := by
    refine takes_clear (p := ⟨c.owing .chunkDataDone 0, n⟩)
      (t := ⟨⟨c.owing .chunkSizeStart 0, 0⟩, 0, (c.owing .chunkDataDone 0).marked, []⟩)
      hl.errno ?_ rfl (marked_none (c := c.owing .chunkDataDone 0) rfl) hl.errno hl.upgrade
    show Scan.perform [LF] _ (c.owing .chunkDataDone 0).chunkDataDone = _
    unfold Core.chunkDataDone
    rw [if_neg (by simp [hflags])]
    rfl
  exact hcr.cons hlf

/-- **A chunk.** -/
theorem takes_chunk {a : Nat} (hl : c.Live) (hchunked : c.flags.chunked = true) (hxs : xs ≠ [])
    (hmax : xs.length ≤ ULLONG_MAX - 16) :
    Parser.Takes ⟨c.owing .chunkSizeStart a, 0⟩ (chunk xs) [.body xs]
      ⟨c.owing .chunkSizeStart 0, 0⟩ := by
  have hlength : xs.length ≠ 0 := fun h => hxs (List.eq_nil_of_length_eq_zero h)
  have hsize := takes_size (a := a) hl hchunked hmax
  unfold Core.sized at hsize
  rw [if_neg hlength] at hsize
  have hdata := takes_chunkData (n := 0) hl hchunked hxs (by unfold ULLONG_MAX at hmax ⊢; omega)
  exact (hsize.append hdata).append (takes_chunkEnd hl hchunked)

/-- **The last chunk**, and the end of the message. -/
theorem takes_lastChunk {a : Nat} (hl : c.Live) (hchunked : c.flags.chunked = true) :
    ∃ n ≤ 4, Parser.Takes ⟨c.owing .chunkSizeStart a, 0⟩ (hexadecimal 0 ++ crlf ++ crlf)
      [.messageComplete]
      ⟨{ (c.owing .messageDone 0).newMessage with flags.trailing := true }, n⟩ := by
  have hsize := takes_size (a := a) (k := 0) hl hchunked (Nat.zero_le _)
  unfold Core.sized at hsize
  rw [if_pos rfl] at hsize
  generalize hd : ({ c.owing .headerFieldStart 0 with flags.trailing := true } : Core) = d at hsize
  have hld : d.Live := by
    rw [← hd]
    exact ⟨hl.errno, hl.upgrade⟩
  have hcr : d.Runs [CR] [] (d.updateState .headersAlmostDone) :=
    LineStart.last (.start d (by rw [← hd]; rfl)) hld
  have hlf : (d.updateState .headersAlmostDone).Runs [LF] [.messageComplete] d.newMessage := by
    refine runs_notify (hld.updateState _) rfl rfl
      (show _ = Move.notify .messageComplete d.newMessage true (.next d.newMessage) from ?_)
      (hld.updateState _)
    show Core.headersAlmostDone _ = _
    unfold Core.headersAlmostDone Core.messageDone
    rw [if_pos (by rw [← hd]; rfl), if_neg]
    · rfl
    · show ¬ d.upgrade = true
      simp [hld.upgrade]
  obtain ⟨n, hn, hend⟩ := (hcr.cons (hlf.cons (.refl _))) 0 (by decide)
  refine ⟨n, hn, ?_⟩
  rw [← hd] at hend hsize
  exact hsize.append hend

/-- The callback for a body, if there is one. -/
def bodyCallbacks (xs : List UInt8) : List Callback := if xs = [] then [] else [.body xs]

theorem gather_bodyCallbacks (hxs : xs ≠ []) (ys : List UInt8) :
    pieces.gather ([.body xs] ++ bodyCallbacks ys) = pieces.gather (bodyCallbacks (xs ++ ys)) := by
  have hne : xs ++ ys ≠ [] := fun h => hxs (List.append_eq_nil_iff.mp h).1
  unfold bodyCallbacks
  rw [if_neg hne]
  by_cases hys : ys = []
  · rw [if_pos hys, hys, List.append_nil, List.append_nil]
  · rw [if_neg hys]
    exact gather_joined (j := pieces) (z := .body (xs ++ ys)) rfl []

/-- **A body in chunks.** -/
theorem takes_chunks {chunks : List (List UInt8)} {a : Nat} (hl : c.Live)
    (hchunked : c.flags.chunked = true)
    (hchunks : ∀ x ∈ chunks, x ≠ [] ∧ x.length ≤ ULLONG_MAX - 16) :
    ∃ a', Parser.Takes ⟨c.owing .chunkSizeStart a, 0⟩ (chunks.flatMap chunk)
      (bodyCallbacks chunks.flatten) ⟨c.owing .chunkSizeStart a', 0⟩ := by
  induction chunks generalizing a with
  | nil => exact ⟨a, .refl _⟩
  | cons x chunks ih =>
    obtain ⟨hx, hmax⟩ := hchunks x List.mem_cons_self
    obtain ⟨a', hrest⟩ := ih (a := 0) fun y hy => hchunks y (List.mem_cons_of_mem _ hy)
    exact ⟨a', ((takes_chunk hl hchunked hx hmax).append hrest).congr
      (gather_bodyCallbacks hx _)⟩

end Dv8.Http
