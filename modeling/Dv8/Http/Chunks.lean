import Dv8.Http.Lockstep

namespace Dv8.Http

open Dv8.Lib

/-!
# The cut of a connection into reads

TCP cuts what a peer has sent into reads as it likes.  What `http_parser` makes of it does not
depend on the cut, as long as it accepts the same bytes one at a time: the callbacks say the same,
and so does the parser that is left, but for `nread`, which counts the first byte of each read
twice.

* `Core.switch_batch` — a turn takes one byte, or a run of bytes of a header or a body;
* `execute_cons` — a read is the same as its first byte and its other bytes;
* `feed_chunks` — so every cut is the same as the finest.
-/

/-! ### Turns that take more than a byte -/

/-- A turn that goes on to bytes behind the first. -/
def Core.Batch (c : Core) (b : UInt8) : Prop :=
  match c.state with
  | .headerField => token b ≠ 0
  | .headerValue => b ≠ CR ∧ b ≠ LF ∧ (!c.lenientHttpHeaders && !isHeaderChar b) = false ∧
      ∀ e, c.valueStep c.headerState b ≠ .fail e
  | .chunkData | .bodyIdentity => 1 < c.contentLength
  | .bodyIdentityEof => True
  | _ => False

theorem min_succ_eq_one {length n : Nat} (h : ¬ 1 < length) :
    min length (n + 1) = min length (0 + 1) := by
  omega

/-- A turn takes one byte, or a run of bytes of a header or a body. -/
theorem Core.switch_batch (c : Core) (b : UInt8) (rest : List UInt8) :
    c.switch b rest = c.switch b [] ∨ c.Batch b := by
  unfold Core.switch Core.Batch
  cases hs : c.state
  case headerField =>
    by_cases htoken : token b = 0
    · left
      simp [Core.headerField, Core.fieldLoop, htoken]
    · exact .inr htoken
  case headerValue =>
    by_cases hcr : b = CR
    · left
      simp [Core.headerValue, Core.valueLoop, hcr]
    by_cases hlf : b = LF
    · left
      simp [Core.headerValue, Core.valueLoop, hlf]
    by_cases hchar : (!c.lenientHttpHeaders && !isHeaderChar b) = true
    · left
      simp only [Core.headerValue, Core.valueLoop, if_neg hcr, if_neg hlf, if_pos hchar]
    by_cases hfail : ∃ e, c.valueStep c.headerState b = .fail e
    · left
      obtain ⟨e, hfail⟩ := hfail
      simp only [Core.headerValue, Core.valueLoop, hfail]
    · exact .inr ⟨hcr, hlf, Bool.eq_false_of_not_eq_true hchar, fun e he => hfail ⟨e, he⟩⟩
  case chunkData =>
    by_cases hone : 1 < c.contentLength
    · exact .inr hone
    · left
      simp only [Core.chunkData, List.length_cons, List.length_nil, min_succ_eq_one hone]
  case bodyIdentity =>
    by_cases hone : 1 < c.contentLength
    · exact .inr hone
    · left
      simp only [Core.bodyIdentity, List.length_cons, List.length_nil, min_succ_eq_one hone]
  case bodyIdentityEof => exact .inr trivial
  all_goals exact .inl rfl

/-! ### The first byte of a read -/

variable {D d : List UInt8} {off room len : Nat} {before : List Callback} {a : Marks}
  {n : Option Nat} {S s t u : Scan}

/-- A call on the bytes behind the first begins where the call on them all is. -/
theorem Between.restart {b : UInt8} {rest : List UInt8} (hrest : rest ≠ [])
    (h : Between (b :: rest) [b] 0 [] S s) (hs : s.p = 1) :
    Between (b :: rest) rest 1 (s.events [b]) S s.parser.scan := by
  have hlength := List.length_pos_iff.mpr hrest
  have halike := h.alike
  have hpos := halike.pos
  refine ⟨h.core, by dsimp only [Parser.scan]; omega, by dsimp only [Parser.scan]; omega,
    halike.big, scan_marks _ hlength, fun k hk => ?_, nofun, halike.nread, halike.max, ?_⟩
  · -- what is marked in front of the loop has been marked before
    have hmarks := halike.big
    dsimp only [Parser.scan] at hk
    split at hk
    · rename_i hinitial
      rw [State.marks_of_initialMark hinitial] at hmarks
      obtain ⟨⟨i, hi, -⟩, -⟩ := hmarks
      rw [hi]
      exact nofun
    · exact absurd rfl hk
  · have hevents : pieces.gather (S.events (b :: rest)) = pieces.gather (s.events [b]) :=
      halike.events
    rw [hevents]
    cases hinitial : s.parser.state.initialMark with
    | none =>
      have hnone : ∀ k, s.parser.scan.mark k = none := fun k =>
        if_neg (show ¬ s.parser.state.initialMark = some k by rw [hinitial]; exact nofun)
      rw [events_clear hnone]
      exact congrArg _ (List.append_nil _).symm
    | some k =>
      have hsmall := halike.small
      rw [State.marks_of_initialMark hinitial] at hsmall
      obtain ⟨⟨i, hi, -⟩, hj⟩ := hsmall
      have hk : s.parser.scan.mark k = some 0 := if_pos hinitial
      have hl : ∀ l ≠ k, s.parser.scan.mark l = none := fun l hl =>
        if_neg fun h => hl (Option.some.inj (h.symm.trans hinitial))
      rw [events_set hk hl, events_set hi hj]
      show _ = pieces.gather (_ ++ ([] ++ (k.callback (slice rest 0 (0 - 0))).toList))
      rw [Nat.sub_self, slice_zero, List.nil_append, gather_append pieces (_ ++ _),
        ← gather_callback, List.append_nil]

/-! ### Runs of bytes -/

/-- A counter that stays inside its bounds. -/
theorem perform_count {data : List UInt8} {v : Nat} {c : Core} {m : Move}
    (h : s.parser.nread + v ≤ maxHeaderSize) :
    s.perform data (.count v c m) =
      ({ s with parser := ⟨c, s.parser.nread + v⟩ } : Scan).perform data m := by
  have hlt : s.parser.nread + v < 2 ^ 32 := h.trans_lt (by decide)
  rw [Scan.perform, Nat.mod_eq_of_lt hlt, if_neg (Nat.not_lt.mpr h)]

/-- A counter behind which the parser goes on. -/
theorem count_next {data : List UInt8} {v : Nat} {c : Core} {m : Move}
    (hlt : s.parser.nread + v < 2 ^ 32) (h : s.perform data (.count v c m) = .next t) :
    s.parser.nread + v ≤ maxHeaderSize ∧
      ({ s with parser := ⟨c, s.parser.nread + v⟩ } : Scan).perform data m = .next t := by
  rw [Scan.perform, Nat.mod_eq_of_lt hlt] at h
  split at h
  · cases h
  · exact ⟨Nat.le_of_not_lt ‹_›, h⟩

/-- The same where a callback comes first. -/
theorem data_count_next {data : List UInt8} {k : Kind} {whole advance : Bool} {v : Nat}
    {c q : Core} {m : Move} (hlt : s.parser.nread + v < 2 ^ 32)
    (h : s.perform data (.data k c whole advance (.count v q m)) = .next t) :
    s.parser.nread + v ≤ maxHeaderSize := by
  rw [Scan.perform] at h
  split at h
  · cases h
  · rename_i s' hdata
    have hnread := data_nread hdata
    rw [← hnread] at hlt ⊢
    exact (count_next hlt h).1

/-- What a move comes to does not depend on the fields that a move sets. -/
theorem perform_stored (data : List UInt8) (c : Core) (m : Move) (s : Scan) :
    ({ s with parser := s.stored c } : Scan).perform data m = s.perform data m := by
  induction m generalizing s c with
  | next c' => rfl
  | ret c' advance => rfl
  | fail c' e => rfl
  | abort => rfl
  | mark k m ih => exact ih c { s with mark := Function.update s.mark k _ }
  | data k c' whole advance m ih =>
    unfold Scan.perform Scan.data
    dsimp only
    cases s.mark k with
    | none => exact ih c s
    | some i =>
      dsimp only
      split_ifs
      · rfl
      · rfl
  | notify cb c' advance m ih => rfl
  | count v c' m ih => rfl
  | reset m ih => exact ih c { s with parser.nread := 0 }
  | counted m ih =>
    show (if s.parser.nread = 1 then Scan.perform data { s with parser := s.stored c } m
      else .abort) = if s.parser.nread = 1 then s.perform data m else .abort
    rw [ih c s]
  | skip n m ih => exact ih c { s with p := s.p + n }
  | back m ih => exact ih c { s with p := s.p - 1 }

/-- A mark that is set stays where it is. -/
theorem update_getD (f : Kind → Option Nat) (k : Kind) (x y : Nat) :
    Function.update (Function.update f k (some x)) k
      (some ((Function.update f k (some x) k).getD y)) = Function.update f k (some x) := by
  rw [Function.update_self, Function.update_idem]
  rfl

/-- The first byte of a read, alone and in front of others: where the call on the others begins,
    and where the call on them all is by then. -/
structure First (p : Parser) (b : UInt8) (rest : List UInt8) (before : List Callback)
    (t T : Scan) : Prop where
  inv : p.Inv
  errno : p.httpErrno = .ok
  small : p.scan.perform [b] (p.turn b []) = .next t
  big : p.scan.perform (b :: rest) (p.turn b []) = .next T
  between : Between (b :: rest) rest 1 before { T with p := T.p + 1 } t.parser.scan
  ready : t.parser.scan.Ready rest

theorem window_tail (b : UInt8) (rest : List UInt8) : Window (b :: rest) rest 1 :=
  ⟨[b], [], by simp, rfl⟩

section
variable {p : Parser} {b ch : UInt8} {rest : List UInt8} {T : Scan}

/-- The parser behind a byte of a header. -/
theorem First.header (h : First p b (ch :: rest) before t T) {c : Core}
    (hone : p.turn b [] = .count 1 p.toCore (.skip 1 (.count 1 c (.back (.next c))))) :
    t.parser = ⟨c, p.nread + 2⟩ ∧ p.nread + 2 ≤ maxHeaderSize ∧
      T = { p.scan with parser := ⟨c, p.nread + 2⟩ } := by
  have hnread := h.inv.nread h.errno
  have hmax : maxHeaderSize + 2 < 2 ^ 32 := by decide
  have hsmall := h.small
  have hbig := h.big
  rw [hone] at hsmall hbig
  obtain ⟨-, hsmall⟩ := count_next (show p.nread + 1 < 2 ^ 32 by omega) hsmall
  obtain ⟨hle, hsmall⟩ := count_next (show p.nread + 1 + 1 < 2 ^ 32 by omega) hsmall
  obtain ⟨-, hbig⟩ := count_next (show p.nread + 1 < 2 ^ 32 by omega) hbig
  obtain ⟨-, hbig⟩ := count_next (show p.nread + 1 + 1 < 2 ^ 32 by omega) hbig
  cases hsmall
  cases hbig
  exact ⟨rfl, hle, rfl⟩

/-- Moves of which the second is made with one byte less. -/
def Shorter (D d : List UInt8) (off : Nat) (before : List Callback) (M m : Move) : Prop :=
  ∀ {len room : Nat} {a : Marks} {S s u : Scan},
    Alike D d off before a none room S s → S.parser.nread + 1 ≤ s.parser.nread →
    m.Sound len a none room → len + maxHeaderSize < 2 ^ 32 → s.perform d m = .next u →
    ∃ T, S.perform D M = .next T ∧
      Between D d off before { T with p := T.p + 1 } { u with p := u.p + 1 }

/-- A counter that is ahead by the byte the other has counted before. -/
theorem Alike.counts (h : Alike D d off before a n room S s)
    (hnread : S.parser.nread + 1 ≤ s.parser.nread) {v : Nat} (hlt : s.parser.nread + v < 2 ^ 32)
    {c : Core} {m : Move} (hu : s.perform d (.count v c m) = .next u) :
    ∃ S' s', S.perform D (.count (v + 1) c m) = S'.perform D m ∧ s'.perform d m = .next u ∧
      Alike D d off before a none room S' s' := by
  obtain ⟨hle, hu⟩ := count_next hlt hu
  have hLe : S.parser.nread + (v + 1) ≤ maxHeaderSize := by omega
  exact ⟨_, _, perform_count hLe, hu, h.nreads nofun (by dsimp only; omega) hle⟩

theorem shorter_count (hw : Window D d off) (hd : d ≠ []) (v : Nat) (c : Core) (m : Move) :
    Shorter D d off before (.count (v + 1) c m) (.count v c m) := by
  intro len room a S s u h hnread hm hlen hu
  obtain ⟨hv, hm⟩ := hm
  have hmax := h.max
  obtain ⟨S', s', hS, hs, h'⟩ := h.counts hnread (by omega) hu
  rw [hS]
  exact perform_alike hw hd hlen hm h' hs

theorem shorter_data (hw : Window D d off) (k : Kind) (v : Nat) (c : Core) (advance : Bool) :
    Shorter D d off before (.data k c false advance (.count (v + 1) c (.next c)))
      (.data k c false advance (.count v c (.next c))) := by
  intro len room a S s u h hnread hm hlen hu
  obtain ⟨hk, hwhole, hroom, -, -, -, hv, hm⟩ := hm
  obtain ⟨S', s', hS, hs, h'⟩ := h.data hw hk hwhole hroom c advance
  have hnreadS := data_nread hS
  have hnreads := data_nread hs
  have hmax := h'.max
  unfold Scan.perform at hu ⊢
  rw [hs] at hu
  rw [hS]
  obtain ⟨S'', s'', hS', hs', h''⟩ := h'.counts (by omega) (by omega) hu
  cases hs'
  exact ⟨_, hS', h''.next hw hm⟩

/-- A run of bytes of a header takes the first byte and the run behind it. -/
theorem First.run (h : First p b (ch :: rest) before t T) {c : Core} {v : Nat} {M m : Move}
    (hlen : (ch :: rest).length + maxHeaderSize < 2 ^ 32) (hstate : c.state ≠ .chunkSizeStart)
    (hone : p.turn b [] = .count 1 p.toCore (.skip 1 (.count 1 c (.back (.next c)))))
    (hall : p.turn b (ch :: rest) = .count 1 p.toCore (.skip (v + 1) M))
    (htail : c.turn ch rest = .count 1 c (.skip v m))
    (hshorter : Shorter (b :: ch :: rest) (ch :: rest) 1 before M m)
    (hu : t.parser.scan.perform (ch :: rest) (t.parser.turn ch rest) = .next u) :
    ∃ T', p.scan.perform (b :: ch :: rest) (p.turn b (ch :: rest)) = .next T' ∧
      Between (b :: ch :: rest) (ch :: rest) 1 before { T' with p := T'.p + 1 }
        { u with p := u.p + 1 } := by
  obtain ⟨htparser, hle, rfl⟩ := h.header hone
  have hsound := h.ready.sound ch (Nat.le_refl (rest.length + 1))
  have hbetween := h.between
  rw [htparser] at hu hsound hbetween
  change (c.turn ch rest).Sound _ c.state.marks _ _ at hsound
  change Scan.perform _ _ (c.turn ch rest) = _ at hu
  have hcount : (⟨c, p.nread + 2⟩ : Parser).scan.count = none := if_neg hstate
  rw [htail, hcount] at hsound
  rw [htail] at hu
  obtain ⟨-, hknown, hv, hm⟩ := hsound
  have hmax : maxHeaderSize + 1 < 2 ^ 32 := by decide
  obtain ⟨hle', hu⟩ := count_next (show p.nread + 2 + 1 < 2 ^ 32 by omega) hu
  rw [hall, perform_count (show p.nread + 1 ≤ maxHeaderSize by omega)]
  have halike := (hbetween.alike.nreads (P := ⟨p.toCore, p.nread + 1⟩) (p := ⟨c, p.nread + 3⟩)
    (N := none) nofun (by dsimp only; omega) hle').skip (window_tail b _) hknown hv
  refine hshorter (S := { p.scan with parser := ⟨p.toCore, p.nread + 1⟩, p := 0 + (v + 1) }) ?_
    (show p.nread + 1 + 1 ≤ p.nread + 2 + 1 by omega) hm hlen hu
  have hp : 0 + (v + 1) = p.scan.p + 1 + v := by
    rw [Nat.zero_add, Nat.add_comm v 1]
    rfl
  rw [hp]
  exact halike

/-- A run of bytes of a body takes the first byte and the run behind it. -/
theorem First.body (h : First p b (ch :: rest) before t T) {c : Core} {v : Nat} {m : Move}
    (hlen : (ch :: rest).length + maxHeaderSize < 2 ^ 32)
    (hone : p.turn b [] = .mark .body (.skip 0 (.next c)))
    (hall : p.turn b (ch :: rest) = .mark .body (.skip (v + 1) m))
    (htail : c.turn ch rest = .mark .body (.skip v m))
    (hu : t.parser.scan.perform (ch :: rest) (t.parser.turn ch rest) = .next u) :
    ∃ T', p.scan.perform (b :: ch :: rest) (p.turn b (ch :: rest)) = .next T' ∧
      Between (b :: ch :: rest) (ch :: rest) 1 before { T' with p := T'.p + 1 }
        { u with p := u.p + 1 } := by
  have hsmall := h.small
  have hbig := h.big
  rw [hone] at hsmall hbig
  cases hsmall
  cases hbig
  have hsound := h.ready.sound ch (Nat.le_refl (rest.length + 1))
  have hbetween := h.between
  have hcounted := hbetween.counted h.ready rfl
  change (c.turn ch rest).Sound _ c.state.marks _ _ at hsound
  change Scan.perform _ _ (c.turn ch rest) = _ at hu
  rw [htail] at hsound hu
  obtain ⟨hk, hroom, hknown, hv, hm⟩ := hsound
  have halike := (hcounted.mark (window_tail b _) hk hroom).skip (window_tail b _) hknown hv
  obtain ⟨T', hT', hbetween'⟩ := perform_alike (window_tail b _) (List.cons_ne_nil _ _) hlen hm
    halike hu
  refine ⟨T', ?_, hbetween'⟩
  have hp : p.scan.p + (v + 1) = p.scan.p + 0 + 1 + v := by omega
  rw [hall, ← hT', Scan.perform, Scan.perform, ← perform_stored _ c]
  dsimp only
  rw [update_getD, hp]
  rfl

end

/-! ### Headers -/

/-- The same step with another `header_state`. -/
def ValueStep.withState (x : HeaderState) : ValueStep → ValueStep
  | .go c h => .go { c with headerState := x } h
  | r => r

theorem valueStep_withState (c : Core) (x h : HeaderState) (ch : UInt8) :
    ({ c with headerState := x } : Core).valueStep h ch = (c.valueStep h ch).withState x := by
  have hnum : ({ c with headerState := x } : Core).contentLengthNum ch =
      (c.contentLengthNum ch).withState x := by
    unfold Core.contentLengthNum
    dsimp only
    split_ifs <;> rfl
  cases h <;> unfold Core.valueStep <;> dsimp only <;> (try split_ifs) <;> first | rfl | exact hnum

/-- `header_state` is set behind the loop only. -/
theorem valueLoop_withState (c : Core) (x h : HeaderState) (xs : List UInt8) :
    ({ c with headerState := x } : Core).valueLoop h xs =
      { c.valueLoop h xs with core := { (c.valueLoop h xs).core with headerState := x } } := by
  induction xs generalizing c h with
  | nil => rfl
  | cons ch xs ih =>
    unfold Core.valueLoop
    dsimp only
    rw [valueStep_withState]
    split_ifs
    · rfl
    · rfl
    · rfl
    · cases c.valueStep h ch with
      | go c' h' =>
        dsimp only [ValueStep.withState]
        rw [ih]
      | jump =>
        dsimp only [ValueStep.withState, Core.valueJump]
        split <;> rfl
      | fail e => rfl
      | abort => rfl

/-- The rest of a line that matters to nobody. -/
theorem valueLoop_general (c : Core) (xs : List UInt8) :
    (∃ e, (c.valueLoop .general xs).stop = .fail e) ∨
      c.valueLoop .general xs = c.valueJump .general xs := by
  cases xs with
  | nil => exact .inr rfl
  | cons ch xs =>
    -- the first byte is among those that `memchr` looks at
    have hmax : maxHeaderSize = maxHeaderSize - 1 + 1 := rfl
    unfold Core.valueLoop
    split_ifs with hcr hlf hchar
    · right
      unfold Core.valueJump
      rw [hmax, List.take_succ_cons, List.findIdx?_cons, hcr]
      rfl
    · right
      unfold Core.valueJump
      rw [hmax, List.take_succ_cons, List.findIdx?_cons, hlf]
      rfl
    · exact .inl ⟨_, rfl⟩
    · exact .inr rfl

/-- `memchr` finds the same end of the line one byte further on. -/
theorem valueJump_cons {c : Core} {h : HeaderState} {b : UInt8} {xs : List UInt8}
    (hcr : b ≠ CR) (hlf : b ≠ LF) (hle : (c.valueJump h xs).taken + 2 ≤ maxHeaderSize) :
    c.valueJump h (b :: xs) =
      { c.valueJump h xs with taken := (c.valueJump h xs).taken + 1 } := by
  have hmax : maxHeaderSize = maxHeaderSize - 1 + 1 := rfl
  let eol : UInt8 → Bool := fun ch => ch = CR || ch = LF
  have hb : eol b = false := by simp [eol, hcr, hlf]
  have hcons : ((b :: xs).take maxHeaderSize).findIdx? eol =
      ((xs.take (maxHeaderSize - 1)).findIdx? eol).map (· + 1) := by
    rw [hmax, List.take_succ_cons, List.findIdx?_cons, hb]
    rfl
  have htake : xs.take maxHeaderSize =
      xs.take (maxHeaderSize - 1) ++ (xs.drop (maxHeaderSize - 1)).take 1 := by
    rw [← List.take_add]
    rfl
  have hsame : (xs.take (maxHeaderSize - 1)).findIdx? eol =
      (xs.take maxHeaderSize).findIdx? eol := by
    cases hfirst : (xs.take (maxHeaderSize - 1)).findIdx? eol with
    | some i => rw [htake, List.findIdx?_append, hfirst, Option.some_or]
    | none =>
      cases hlast : ((xs.drop (maxHeaderSize - 1)).take 1).findIdx? eol with
      | none => rw [htake, List.findIdx?_append, hfirst, hlast, Option.map_none, Option.none_or]
      | some j =>
        -- it would be behind the bytes that one may count
        have hj : j < ((xs.drop (maxHeaderSize - 1)).take 1).length :=
          (List.findIdx?_eq_some_iff_getElem.mp hlast).1
        rw [List.length_take, List.length_drop] at hj
        have hlength : (xs.take (maxHeaderSize - 1)).length = maxHeaderSize - 1 := by
          rw [List.length_take]
          omega
        have hfind : (xs.take maxHeaderSize).findIdx? eol = some (j + (maxHeaderSize - 1)) := by
          rw [htake, List.findIdx?_append, hfirst, hlast, Option.none_or, hlength]
          rfl
        unfold Core.valueJump at hle
        rw [show (xs.take maxHeaderSize).findIdx? (fun ch => ch = CR || ch = LF) = _ from hfind]
          at hle
        dsimp only at hle
        omega
  unfold Core.valueJump
  rw [show ((b :: xs).take maxHeaderSize).findIdx? (fun ch => ch = CR || ch = LF) = _ from hcons,
    hsame]
  cases (xs.take maxHeaderSize).findIdx? eol <;> rfl

/-- A value that goes on behind its first byte. -/
theorem value_batch {c : Core} (h : c.Base) (hs : c.state = .headerValue)
    (hv : c.headerState.ValueIndex c.index) {b : UInt8} (hb : c.Batch b) :
    ∃ q : Core, c.headerValue [b] = .skip 1 (.count 1 q (.back (.next q))) ∧
      q.state = .headerValue ∧ ∀ xs,
        (∀ e, (q.valueLoop q.headerState xs).stop ≠ .fail e) →
        (q.valueLoop q.headerState xs).taken + 2 ≤ maxHeaderSize →
        ∃ R, c.valueLoop c.headerState (b :: xs) = R ∧
          R.taken = (q.valueLoop q.headerState xs).taken + 1 ∧
          R.stop = (q.valueLoop q.headerState xs).stop ∧
          ({ R.core with headerState := R.hState } : Core) =
            { (q.valueLoop q.headerState xs).core with
              headerState := (q.valueLoop q.headerState xs).hState } := by
  unfold Core.Batch at hb
  rw [hs] at hb
  obtain ⟨hcr, hlf, hchar, hfail⟩ := hb
  have hstep := valueStep_spec h hv hs b
  cases hgo : c.valueStep c.headerState b with
  | go c' h' =>
    rw [hgo] at hstep
    have hloop (xs : List UInt8) : c.valueLoop c.headerState (b :: xs) =
        { c'.valueLoop h' xs with taken := (c'.valueLoop h' xs).taken + 1 } := by
      rw [Core.valueLoop, if_neg hcr, if_neg hlf, hchar, hgo]
      rfl
    refine ⟨{ c' with headerState := h' }, ?_, hstep.2.2.trans hs, fun xs _ _ => ?_⟩
    · rw [Core.headerValue, hloop]
      rfl
    · rw [hloop, valueLoop_withState c' h' h' xs]
      exact ⟨_, rfl, rfl, rfl, rfl⟩
  | jump =>
    rw [hgo] at hstep
    have hloop (xs : List UInt8) : c.valueLoop c.headerState (b :: xs) =
        c.valueJump c.headerState (b :: xs) := by
      rw [Core.valueLoop, if_neg hcr, if_neg hlf, hchar, hgo]
      rfl
    have hgeneral : c.headerState = .general := hstep
    refine ⟨c, ?_, hs, fun xs hstop htaken => ?_⟩
    · have hnil : (c.valueJump c.headerState []).taken + 2 ≤ maxHeaderSize := by
        show 0 + 2 ≤ 80 * 1024
        decide
      rw [Core.headerValue, hloop, valueJump_cons hcr hlf hnil]
      rfl
    · rw [hloop]
      rw [hgeneral] at hstop htaken ⊢
      rcases valueLoop_general c xs with ⟨e, he⟩ | heq
      · exact absurd he (hstop e)
      rw [heq] at htaken ⊢
      rw [valueJump_cons hcr hlf htaken]
      exact ⟨_, rfl, rfl, rfl, rfl⟩
  | fail e => exact absurd hgo (hfail e)
  | abort =>
    rw [hgo] at hstep
    exact hstep.elim

/-! ### The first byte and the others -/

section
variable {p : Parser} {b ch : UInt8} {rest : List UInt8} {T : Scan}

theorem turn_headerField {c : Core} (hs : c.state = .headerField) (b : UInt8)
    (xs : List UInt8) : c.turn b xs = .count 1 c (c.headerField (b :: xs)) := by
  simp [Core.turn, Core.switch, State.parsingHeader, hs]

theorem turn_headerValue {c : Core} (hs : c.state = .headerValue) (b : UInt8)
    (xs : List UInt8) : c.turn b xs = .count 1 c (c.headerValue (b :: xs)) := by
  simp [Core.turn, Core.switch, State.parsingHeader, hs]

theorem First.headerField (h : First p b (ch :: rest) before t T)
    (hlen : (ch :: rest).length + maxHeaderSize < 2 ^ 32) (hs : p.state = .headerField)
    (htoken : token b ≠ 0)
    (hu : t.parser.scan.perform (ch :: rest) (t.parser.turn ch rest) = .next u) :
    ∃ T', p.scan.perform (b :: ch :: rest) (p.turn b (ch :: rest)) = .next T' ∧
      Between (b :: ch :: rest) (ch :: rest) 1 before { T' with p := T'.p + 1 }
        { u with p := u.p + 1 } := by
  have hinv := h.inv.core h.errno
  have hf : p.headerState.FieldIndex p.index := hinv.stateInv hs
  obtain ⟨c, hstep, hc, hfc, hsc⟩ := fieldStep_spec hinv.toBase hf b (token b)
  have hloop {xs : List UInt8} {q : Core} {v : Nat} (hq : c.fieldLoop xs = some (q, v)) :
      p.fieldLoop (b :: xs) = some (q, v + 1) := by
    rw [Core.fieldLoop, if_neg htoken, hstep, Option.bind_some, hq]
    rfl
  obtain ⟨q, v, htail, -⟩ := fieldLoop_spec (ch :: rest) hc hfc
  refine h.run (c := c) (v := v) hlen ?_ ?_ ?_ ?_ (shorter_count (window_tail b (ch :: rest))
    (List.cons_ne_nil _ _) v q (q.fieldEnd (ch :: rest)[v]?)) hu
  · rw [hsc, hs]
    exact State.noConfusion
  · rw [turn_headerField hs, Core.headerField, hloop (show c.fieldLoop [] = some (c, 0) from rfl)]
    rfl
  · rw [turn_headerField hs, Core.headerField, hloop htail]
    rfl
  · rw [turn_headerField (hsc.trans hs), Core.headerField, htail]

theorem First.headerValue (h : First p b (ch :: rest) before t T)
    (hlen : (ch :: rest).length + maxHeaderSize < 2 ^ 32) (hs : p.state = .headerValue)
    (hb : p.toCore.Batch b)
    (hu : t.parser.scan.perform (ch :: rest) (t.parser.turn ch rest) = .next u) :
    ∃ T', p.scan.perform (b :: ch :: rest) (p.turn b (ch :: rest)) = .next T' ∧
      Between (b :: ch :: rest) (ch :: rest) 1 before { T' with p := T'.p + 1 }
        { u with p := u.p + 1 } := by
  have hinv := h.inv.core h.errno
  have hv : p.headerState.ValueIndex p.index := hinv.stateInv hs
  obtain ⟨q, hone, hsq, hall⟩ := value_batch hinv.toBase hs hv hb
  have hone' := (turn_headerValue hs b []).trans (congrArg _ hone)
  have hstate : q.state ≠ .chunkSizeStart := by
    rw [hsq]
    exact State.noConfusion
  obtain ⟨htparser, hle, -⟩ := h.header hone'
  have hq : q.Inv := by
    have := h.ready.inv.core h.ready.errno
    rwa [show t.parser.scan.parser = t.parser from rfl, htparser] at this
  have hr := valueLoop_spec (ch :: rest) hq.toBase (hq.stateInv hsq) hsq
  have htail := turn_headerValue hsq ch rest
  have hu' := hu
  rw [htparser] at hu'
  change Scan.perform _ _ (q.turn ch rest) = _ at hu'
  rw [htail, Core.headerValue] at hu'
  rw [Core.headerValue] at htail
  have hmax : maxHeaderSize + 1 < 2 ^ 32 := by decide
  obtain ⟨hthree, hu'⟩ := count_next (show p.nread + 2 + 1 < 2 ^ 32 by omega) hu'
  have hthree : p.nread + 2 + 1 ≤ maxHeaderSize := hthree
  have hall' := hall (ch :: rest)
  generalize q.valueLoop q.headerState (ch :: rest) = r at hr hu' htail hall'
  have htaken := hr.taken
  have hlt : p.nread + 2 + 1 + r.taken < 2 ^ 32 := by omega
  have hfull (hstop : ∀ e, r.stop ≠ .fail e) (hle : r.taken + 2 ≤ maxHeaderSize) :
      p.turn b (ch :: rest) =
        .count 1 p.toCore ({ r with taken := r.taken + 1 } : ValueLoop).move := by
    obtain ⟨R, hR, hRtaken, hRstop, hRcore⟩ := hall' hstop hle
    rw [turn_headerValue hs, Core.headerValue, hR]
    unfold ValueLoop.move
    dsimp only
    rw [hRtaken, hRstop, hRcore]
  unfold ValueLoop.move at hu' htail hfull
  dsimp only at hfull
  cases hstop : r.stop with
  | cr =>
    rw [hstop] at hu' htail hfull
    have hle := data_count_next (show p.nread + 2 + 1 + r.taken < 2 ^ 32 from hlt) hu'
    change p.nread + 2 + 1 + r.taken ≤ maxHeaderSize at hle
    exact h.run hlen hstate hone' (hfull nofun (by omega)) htail
      (shorter_data (window_tail b _) _ _ _ _) hu
  | lf =>
    rw [hstop] at hu' htail hfull
    have hle := (count_next (show p.nread + 2 + 1 + r.taken < 2 ^ 32 from hlt) hu').1
    change p.nread + 2 + 1 + r.taken ≤ maxHeaderSize at hle
    exact h.run hlen hstate hone' (hfull nofun (by omega)) htail
      (shorter_count (window_tail b _) (List.cons_ne_nil _ _) _ _ _) hu
  | data =>
    rw [hstop] at hu' htail hfull
    have hle := (count_next (show p.nread + 2 + 1 + r.taken < 2 ^ 32 from hlt) hu').1
    change p.nread + 2 + 1 + r.taken ≤ maxHeaderSize at hle
    exact h.run hlen hstate hone' (hfull nofun (by omega)) htail
      (shorter_count (window_tail b _) (List.cons_ne_nil _ _) _ _ _) hu
  | fail e =>
    rw [hstop] at hu'
    cases hu'
  | abort => exact absurd hstop hr.abort

/-- A body of known length, of which there is more than a byte to come. -/
theorem First.length (h : First p b (ch :: rest) before t T)
    (hlen : (ch :: rest).length + maxHeaderSize < 2 ^ 32) {F : Nat → Move}
    (hlong : 1 < p.contentLength)
    (hall : ∀ x xs, p.turn x xs = .mark .body (.skip (min p.contentLength (xs.length + 1) - 1)
      (F (p.contentLength - min p.contentLength (xs.length + 1)))))
    (htail : ∀ x xs, ({ p.toCore with contentLength := p.contentLength - 1 } : Core).turn x xs =
      .mark .body (.skip (min (p.contentLength - 1) (xs.length + 1) - 1)
        (F (p.contentLength - 1 - min (p.contentLength - 1) (xs.length + 1)))))
    (hone : F (p.contentLength - 1) =
      .next { p.toCore with contentLength := p.contentLength - 1 })
    (hu : t.parser.scan.perform (ch :: rest) (t.parser.turn ch rest) = .next u) :
    ∃ T', p.scan.perform (b :: ch :: rest) (p.turn b (ch :: rest)) = .next T' ∧
      Between (b :: ch :: rest) (ch :: rest) 1 before { T' with p := T'.p + 1 }
        { u with p := u.p + 1 } := by
  refine h.body hlen ?_ ?_ (htail ch rest) hu
  · have hmin : min p.contentLength (([] : List UInt8).length + 1) = 1 := by
      rw [List.length_nil]
      omega
    rw [hall, hmin, hone]
  · have hskip : min p.contentLength ((ch :: rest).length + 1) - 1 =
        min (p.contentLength - 1) (rest.length + 1) - 1 + 1 := by
      rw [List.length_cons]
      omega
    have hleft : p.contentLength - min p.contentLength ((ch :: rest).length + 1) =
        p.contentLength - 1 - min (p.contentLength - 1) (rest.length + 1) := by
      rw [List.length_cons]
      omega
    rw [hall, hskip, hleft]

theorem turn_chunkData {c : Core} (hs : c.state = .chunkData) (hchunked : c.flags.chunked = true)
    (hpos : 0 < c.contentLength) (hlt : c.contentLength < ULLONG_MAX) (x : UInt8)
    (xs : List UInt8) :
    c.turn x xs = .mark .body (.skip (min c.contentLength (xs.length + 1) - 1)
      (.next (if c.contentLength - min c.contentLength (xs.length + 1) = 0
        then { c with
          contentLength := c.contentLength - min c.contentLength (xs.length + 1)
          state := .chunkDataAlmostDone }
        else { c with
          contentLength := c.contentLength - min c.contentLength (xs.length + 1) }))) := by
  have hguard : ¬ (!c.flags.chunked || c.contentLength = 0 || c.contentLength = ULLONG_MAX) =
      true := by
    simp only [hchunked, Bool.not_true, Bool.false_or, Bool.or_eq_true, decide_eq_true_eq]
    omega
  have hturn : c.turn x xs = c.chunkData (x :: xs) := by
    simp [Core.turn, Core.switch, State.parsingHeader, hs]
  rw [hturn, Core.chunkData, if_neg hguard]
  rfl

theorem turn_bodyIdentity {c : Core} (hs : c.state = .bodyIdentity)
    (hpos : 0 < c.contentLength) (hlt : c.contentLength < ULLONG_MAX) (x : UInt8)
    (xs : List UInt8) :
    c.turn x xs = .mark .body (.skip (min c.contentLength (xs.length + 1) - 1)
      (if c.contentLength - min c.contentLength (xs.length + 1) = 0
        then .data .body { c with
            contentLength := c.contentLength - min c.contentLength (xs.length + 1)
            state := .messageDone } true false
          ({ c with
            contentLength := c.contentLength - min c.contentLength (xs.length + 1)
            state := .messageDone } : Core).messageDone
        else .next { c with
          contentLength := c.contentLength - min c.contentLength (xs.length + 1) })) := by
  have hguard : ¬ (c.contentLength = 0 || c.contentLength = ULLONG_MAX) = true := by
    simp only [Bool.or_eq_true, decide_eq_true_eq]
    omega
  have hturn : c.turn x xs = c.bodyIdentity (x :: xs) := by
    simp [Core.turn, Core.switch, State.parsingHeader, hs]
  rw [hturn, Core.bodyIdentity, if_neg hguard]
  rfl

/-- The first byte of a run and the others behind it. -/
theorem First.batch (h : First p b (ch :: rest) before t T)
    (hlen : (ch :: rest).length + maxHeaderSize < 2 ^ 32) (hb : p.toCore.Batch b)
    (hu : t.parser.scan.perform (ch :: rest) (t.parser.turn ch rest) = .next u) :
    ∃ T', p.scan.perform (b :: ch :: rest) (p.turn b (ch :: rest)) = .next T' ∧
      Between (b :: ch :: rest) (ch :: rest) 1 before { T' with p := T'.p + 1 }
        { u with p := u.p + 1 } := by
  have hinv := h.inv.core h.errno
  have hb' := hb
  unfold Core.Batch at hb'
  cases hs : p.state <;> rw [hs] at hb' <;> dsimp only at hb'
  case headerField => exact h.headerField hlen hs hb' hu
  case headerValue => exact h.headerValue hlen hs hb hu
  case chunkData =>
    obtain ⟨hchunked, hpos, hlt⟩ := hinv.stateInv hs
    refine h.length hlen (F := fun k => .next (if k = 0
      then { p.toCore with contentLength := k, state := .chunkDataAlmostDone }
      else { p.toCore with contentLength := k })) hb' (turn_chunkData hs hchunked hpos hlt)
      (turn_chunkData (c := { p.toCore with contentLength := p.contentLength - 1 }) hs hchunked
        (Nat.sub_pos_of_lt hb') ((Nat.sub_le ..).trans_lt hlt)) ?_ hu
    dsimp only
    rw [if_neg (by omega)]
  case bodyIdentity =>
    obtain ⟨hpos, hlt⟩ := hinv.stateInv hs
    refine h.length hlen (F := fun k => if k = 0
      then .data .body { p.toCore with contentLength := k, state := .messageDone } true false
        ({ p.toCore with contentLength := k, state := .messageDone } : Core).messageDone
      else .next { p.toCore with contentLength := k }) hb' (turn_bodyIdentity hs hpos hlt)
      (turn_bodyIdentity (c := { p.toCore with contentLength := p.contentLength - 1 }) hs
        (Nat.sub_pos_of_lt hb') ((Nat.sub_le ..).trans_lt hlt)) ?_ hu
    dsimp only
    rw [if_neg (by omega)]
  case bodyIdentityEof =>
    have hturn (x : UInt8) (xs : List UInt8) :
        p.turn x xs = .mark .body (.skip xs.length (.next p.toCore)) := by
      simp [Core.turn, Core.switch, State.parsingHeader, hs]
    exact h.body hlen (hturn b []) (hturn b (ch :: rest)) (hturn ch rest) hu

end

/-! ### Reads -/

/-- A call that takes all it is given begins in the loop. -/
theorem Parser.scan_ready {p : Parser} (h : p.Inv) (herrno : p.httpErrno = .ok)
    (hd : d ≠ []) : p.scan.Ready d := by
  have hnone : ∀ m : Made Parser, m ∉ [] := fun m => List.not_mem_nil
  exact ⟨Nat.zero_le _, h, herrno, scan_marks p (List.length_pos_iff.mpr hd),
    fun m hm => absurd hm (hnone m), .inl fun m hm => absurd hm (hnone m)⟩

theorem execute_loop {p : Parser} {ex : Execution Parser} (hd : d ≠ [])
    (hex : p.execute d = some ex) (hthrough : ex.Through d) :
    p.httpErrno = .ok ∧ p.scan.loop d d.length = some ex := by
  unfold Parser.execute at hex
  by_cases herrno : p.httpErrno = .ok
  · rw [if_neg (not_not.mpr herrno), if_neg hd] at hex
    exact ⟨herrno, hex⟩
  · rw [if_pos herrno] at hex
    cases hex
    exact absurd hthrough.2.1 herrno

theorem execute_eq_loop {p : Parser} (herrno : p.httpErrno = .ok) (hd : d ≠ []) :
    p.execute d = p.scan.loop d d.length := by
  unfold Parser.execute
  rw [if_neg (not_not.mpr herrno), if_neg hd]

/-- A call takes what the same call takes when more has been counted before. -/
theorem execute_below {P p : Parser} (h : p.Inv) (hcore : P.toCore = p.toCore)
    (hnread : P.nread ≤ p.nread) (hd : d ≠ []) (hlen : d.length + maxHeaderSize < 2 ^ 32)
    {ex : Execution Parser} (hex : p.execute d = some ex) (hthrough : ex.Through d) :
    ∃ EX, P.execute d = some EX ∧ EX.Like d [] ex := by
  obtain ⟨herrno, hloop⟩ := execute_loop hd hex hthrough
  have hstate : P.state = p.state := congrArg Core.state hcore
  have hmark : P.scan.mark = p.scan.mark := by
    unfold Parser.scan
    rw [hstate]
  rw [execute_eq_loop ((congrArg Core.httpErrno hcore).trans herrno) hd]
  have hready := p.scan_ready h herrno hd
  have hw : Window d d 0 := ⟨[], [], by simp, rfl⟩
  refine loop_alike hw (Nat.zero_add _) hd hlen ⟨hcore, ?_⟩ hready
    (Nat.le_add_left ..) (Nat.le_add_left ..) hloop hthrough
  refine ⟨rfl, Nat.zero_add _, ?_, hready.marks, fun k hk => hmark ▸ hk, nofun, hnread,
    h.nread herrno, ?_⟩
  · rw [hmark]
    exact hready.marks
  · unfold Scan.events Scan.pending
    rw [hmark]
    rfl

/-- In front of the loop only an empty piece is due. -/
theorem scan_events (p : Parser) (data : List UInt8) :
    p.scan.events data = (p.state.initialMark.bind fun k => k.callback []).toList := by
  have hzero : slice data 0 (0 - 0) = [] := slice_zero ..
  cases hinitial : p.state.initialMark with
  | none =>
    have hnone : ∀ k, p.scan.mark k = none := fun k =>
      if_neg (show ¬ p.state.initialMark = some k by rw [hinitial]; exact nofun)
    rw [events_clear hnone]
    rfl
  | some k =>
    have hk : p.scan.mark k = some 0 := if_pos hinitial
    have hl : ∀ l ≠ k, p.scan.mark l = none := fun l hl =>
      if_neg fun h => hl (Option.some.inj (h.symm.trans hinitial))
    rw [events_set hk hl, show p.scan.p = 0 from rfl, hzero]
    rfl

/-- The turn that a call which goes on takes. -/
theorem loop_next (fuel : Nat) {ch : UInt8} {rest : List UInt8} {ex : Execution Parser}
    (hready : s.Ready d) (hdrop : d.drop s.p = ch :: rest)
    (hloop : Scan.loop d (fuel + 1) s = some ex) (hthrough : ex.Through d) :
    ∃ t, s.perform d (s.parser.turn ch rest) = .next t ∧ t.Turned d s.p ∧
      Scan.loop d fuel { t with p := t.p + 1 } = some ex := by
  have hturn := hready.turn hdrop
  rw [Scan.loop, hdrop] at hloop
  dsimp only at hloop
  cases hout : s.perform d (s.parser.turn ch rest) with
  | abort =>
    rw [hout] at hloop
    cases hloop
  | done ex' =>
    rw [hout] at hloop
    cases hloop
    exact absurd hthrough (perform_through (hready.sound ch (Nat.le_refl _)) hout)
  | next t =>
    rw [hout] at hloop hturn
    exact ⟨t, rfl, hturn, hloop⟩

theorem loop_of_next {fuel : Nat} {ch : UInt8} {rest : List UInt8} (hdrop : d.drop s.p = ch :: rest)
    (ht : s.perform d (s.parser.turn ch rest) = .next t) :
    Scan.loop d (fuel + 1) s = Scan.loop d fuel { t with p := t.p + 1 } := by
  rw [Scan.loop, hdrop]
  dsimp only
  rw [ht]

/-- **A read is its first byte and its other bytes.** -/
theorem execute_cons {p : Parser} (h : p.Inv) {b : UInt8} {rest : List UInt8} (hrest : rest ≠ [])
    (hlen : rest.length + maxHeaderSize < 2 ^ 32) {ex₁ ex₂ : Execution Parser}
    (h₁ : p.execute [b] = some ex₁) (hthrough₁ : ex₁.Through [b])
    (h₂ : ex₁.parser.execute rest = some ex₂) (hthrough₂ : ex₂.Through rest) :
    ∃ EX, p.execute (b :: rest) = some EX ∧
      EX.Like (b :: rest) (ex₁.made.map Made.cb) ex₂ := by
  have hmax : 1 + maxHeaderSize < 2 ^ 32 := by decide
  have hone : [b] ≠ [] := List.cons_ne_nil _ _
  obtain ⟨herrno, hloop₁⟩ := execute_loop hone h₁ hthrough₁
  obtain ⟨herrno₂, hloop₂⟩ := execute_loop hrest h₂ hthrough₂
  have hready := p.scan_ready h herrno hone
  -- the first byte, alone and in front of the others
  obtain ⟨t, hsmall, hturned, hfinish⟩ := loop_next 0 hready rfl hloop₁ hthrough₁
  have htp : t.p = 0 := Nat.lt_one_iff.mp hturned.room
  have hw : Window (b :: rest) [b] 0 := ⟨[], rest, rfl, rfl⟩
  have halike : Alike (b :: rest) [b] 0 [] p.state.marks none 1 p.scan p.scan :=
    ⟨rfl, rfl, scan_marks p (Nat.succ_pos _), hready.marks, fun _ => id, nofun, Nat.le_refl _,
      h.nread herrno, by rw [scan_events, List.nil_append, scan_events]⟩
  have hbefore : Between (b :: rest) [b] 0 [] p.scan p.scan := ⟨rfl, halike⟩
  have hsound := hready.sound b (Nat.le_refl (([] : List UInt8).length + 1))
  obtain ⟨T, hbig, hbetween⟩ := perform_alike hw hone hmax hsound
    (hbefore.counted hready (show [b].drop p.scan.p = [b] from rfl)) hsmall
  obtain ⟨made, hmade, hcbs⟩ := finish_events [b] (s := { t with p := t.p + 1 })
    (by dsimp only; rw [htp]; rfl) hbetween.alike.small
  obtain rfl := Option.some.inj (hmade.symm.trans hfinish)
  have hrestart := hbetween.restart hrest (by dsimp only; rw [htp])
  rw [← hcbs] at hrestart
  have hready₂ : t.parser.scan.Ready rest := t.parser.scan_ready hturned.inv herrno₂ hrest
  rw [execute_eq_loop herrno (List.cons_ne_nil _ _)]
  have hend : 1 + rest.length = (b :: rest).length := Nat.add_comm ..
  have hlength : (b :: rest).length = rest.length + 1 := rfl
  have hTp : T.p + 1 = 1 := by
    have hpos := hbetween.alike.pos
    dsimp only at hpos
    omega
  rcases p.toCore.switch_batch b rest with hswitch | hbatch
  · -- the first turn takes one byte
    have hturn : p.turn b rest = p.turn b [] := by
      unfold Core.turn
      rw [hswitch]
    rw [hlength, loop_of_next (s := p.scan) (d := b :: rest) (t := T) rfl
      (show Scan.perform _ _ (p.turn b rest) = _ from hturn ▸ hbig)]
    exact loop_alike (window_tail b rest) hend hrest hlen hrestart hready₂ (Nat.le_add_left ..)
      (by dsimp only; omega) hloop₂ hthrough₂
  · -- the first turn goes on to the others
    cases rest with
    | nil => exact absurd rfl hrest
    | cons ch rest =>
      obtain ⟨u, hu, hturnedu, hloop⟩ := loop_next rest.length hready₂ rfl hloop₂
        hthrough₂
      have hfirst : First p b (ch :: rest) _ t T := ⟨h, herrno, hsmall, hbig, hrestart, hready₂⟩
      obtain ⟨T', hT', hbetween'⟩ := hfirst.batch hlen hbatch hu
      have hpos := hbetween'.alike.pos
      rw [hlength, loop_of_next (s := p.scan) (d := b :: ch :: rest) rfl hT']
      refine loop_alike (window_tail b _) hend hrest hlen hbetween' hturnedu.ready ?_ ?_ hloop
        hthrough₂
      · rw [List.length_cons]
        dsimp only
        omega
      · rw [← hend]
        dsimp only at hpos ⊢
        omega

/-! ### Connections -/

/-- What a parser makes of a sequence of reads, of which each goes through: the callbacks, and
    the parser that is left. -/
def Parser.feed (p : Parser) : List (List UInt8) → Option (List Callback × Parser)
  | [] => some ([], p)
  | data :: reads => (p.execute data).bind fun ex =>
      if ex.Through data then
        (ex.parser.feed reads).map fun (cbs, q) => (ex.made.map Made.cb ++ cbs, q)
      else none

theorem feed_cons_eq_some {p q : Parser} {reads : List (List UInt8)} {cbs : List Callback} :
    p.feed (d :: reads) = some (cbs, q) ↔
      ∃ ex cbs', p.execute d = some ex ∧ ex.Through d ∧ ex.parser.feed reads = some (cbs', q) ∧
        cbs = ex.made.map Made.cb ++ cbs' := by
  rw [Parser.feed]
  cases p.execute d with
  | none => simp
  | some ex =>
    rw [Option.bind_some]
    by_cases hthrough : ex.Through d
    · rw [if_pos hthrough]
      constructor
      · intro h
        obtain ⟨⟨cbs', q'⟩, hfeed, heq⟩ := Option.map_eq_some_iff.mp h
        cases heq
        exact ⟨ex, cbs', rfl, hthrough, hfeed, rfl⟩
      · rintro ⟨ex', cbs', hex, -, hfeed, rfl⟩
        cases hex
        rw [hfeed]
        rfl
    · rw [if_neg hthrough]
      refine iff_of_false nofun ?_
      rintro ⟨ex', cbs', hex, hthrough', -⟩
      cases hex
      exact hthrough hthrough'

/-- The parsers left by two sequences of reads agree, and so do the callbacks. -/
structure Agree (CBS : List Callback) (Q : Parser) (cbs : List Callback) (q : Parser) : Prop where
  callbacks : pieces.gather CBS = pieces.gather cbs
  core : Q.toCore = q.toCore
  nread : Q.nread ≤ q.nread

/-- Reads that go through go through when less has been counted before. -/
theorem feed_below {P p q : Parser} {reads : List (List UInt8)} {cbs : List Callback}
    (h : p.Inv) (hcore : P.toCore = p.toCore) (hnread : P.nread ≤ p.nread)
    (hne : ∀ r ∈ reads, r ≠ []) (hlen : ∀ r ∈ reads, r.length + maxHeaderSize < 2 ^ 32)
    (hfeed : p.feed reads = some (cbs, q)) :
    ∃ CBS Q, P.feed reads = some (CBS, Q) ∧ Agree CBS Q cbs q := by
  induction reads generalizing P p cbs with
  | nil =>
    cases hfeed
    exact ⟨[], P, rfl, rfl, hcore, hnread⟩
  | cons d reads ih =>
    obtain ⟨ex, cbs', hex, hthrough, hrest, rfl⟩ := feed_cons_eq_some.mp hfeed
    obtain ⟨EX, hEX, hlike⟩ := execute_below h hcore hnread (hne d List.mem_cons_self)
      (hlen d List.mem_cons_self) hex hthrough
    have hinv : ex.parser.Inv := by
      obtain ⟨ex', hex', hsound⟩ := execute_sound h d
      exact Option.some.inj (hex.symm.trans hex') ▸ hsound.inv
    obtain ⟨CBS, Q, hFEED, hagree⟩ := ih hinv hlike.core hlike.nread
      (fun r hr => hne r (List.mem_cons_of_mem _ hr))
      (fun r hr => hlen r (List.mem_cons_of_mem _ hr)) hrest
    refine ⟨_, Q, feed_cons_eq_some.mpr ⟨EX, CBS, hEX, hlike.through, hFEED, rfl⟩, ?_,
      hagree.core, hagree.nread⟩
    rw [gather_congr hlike.callbacks]
    exact gather_congr_right hagree.callbacks _

/-- The bytes of a read, one at a time. -/
theorem feed_bytes {p q : Parser} {reads : List (List UInt8)} {cbs : List Callback} (h : p.Inv)
    (hd : d ≠ []) (hlen : d.length + maxHeaderSize < 2 ^ 32)
    (hfeed : p.feed (d.map ([·]) ++ reads) = some (cbs, q)) :
    ∃ EX cbs₁ cbs₂ p', p.execute d = some EX ∧ EX.Through d ∧ cbs = cbs₁ ++ cbs₂ ∧
      p'.Inv ∧ p'.feed reads = some (cbs₂, q) ∧
      Agree (EX.made.map Made.cb) EX.parser cbs₁ p' := by
  induction d generalizing p cbs with
  | nil => exact absurd rfl hd
  | cons b rest ih =>
    rw [List.map_cons, List.cons_append] at hfeed
    obtain ⟨ex, cbs', hex, hthrough, hrest, rfl⟩ := feed_cons_eq_some.mp hfeed
    have hinv : ex.parser.Inv := by
      obtain ⟨ex', hex', hsound⟩ := execute_sound h [b]
      exact Option.some.inj (hex.symm.trans hex') ▸ hsound.inv
    by_cases hne : rest = []
    · subst hne
      exact ⟨ex, _, cbs', ex.parser, hex, hthrough, rfl, hinv, hrest, rfl, rfl, Nat.le_refl _⟩
    · have hlen' : rest.length + maxHeaderSize < 2 ^ 32 := by
        rw [List.length_cons] at hlen
        omega
      obtain ⟨EX, cbs₁, cbs₂, p', hEX, hTHROUGH, rfl, hp', hfeed', hagree⟩ :=
        ih hinv hne hlen' hrest
      obtain ⟨EX', hEX', hlike⟩ := execute_cons h hne hlen' hex hthrough hEX hTHROUGH
      refine ⟨EX', ex.made.map Made.cb ++ cbs₁, cbs₂, p', hEX', hlike.through,
        (List.append_assoc ..).symm, hp', hfeed', ?_, hlike.core.trans hagree.core,
        hlike.nread.trans hagree.nread⟩
      rw [hlike.callbacks]
      exact gather_congr_right hagree.callbacks _

theorem feed_chunks_inv {p q : Parser} (h : p.Inv) {reads : List (List UInt8)}
    (hne : ∀ r ∈ reads, r ≠ []) (hlen : ∀ r ∈ reads, r.length + maxHeaderSize < 2 ^ 32)
    {cbs : List Callback} (hfeed : p.feed (reads.flatten.map ([·])) = some (cbs, q)) :
    ∃ CBS Q, p.feed reads = some (CBS, Q) ∧ Agree CBS Q cbs q := by
  induction reads generalizing p cbs with
  | nil =>
    cases hfeed
    exact ⟨[], q, rfl, rfl, rfl, Nat.le_refl _⟩
  | cons d reads ih =>
    rw [List.flatten_cons, List.map_append] at hfeed
    obtain ⟨EX, cbs₁, cbs₂, p', hEX, hthrough, rfl, hp', hfeed', hfirst⟩ := feed_bytes h
      (hne d List.mem_cons_self) (hlen d List.mem_cons_self) hfeed
    have hne' : ∀ r ∈ reads, r ≠ [] := fun r hr => hne r (List.mem_cons_of_mem _ hr)
    have hlen' : ∀ r ∈ reads, r.length + maxHeaderSize < 2 ^ 32 := fun r hr =>
      hlen r (List.mem_cons_of_mem _ hr)
    obtain ⟨CBS₂, Q₂, hFEED₂, hothers⟩ := ih hp' hne' hlen' hfeed'
    obtain ⟨CBS, Q, hFEED, hbelow⟩ := feed_below hp' hfirst.core hfirst.nread hne' hlen' hFEED₂
    refine ⟨_, Q, feed_cons_eq_some.mpr ⟨EX, CBS, hEX, hthrough, hFEED, rfl⟩, ?_,
      hbelow.core.trans hothers.core, hbelow.nread.trans hothers.nread⟩
    rw [gather_congr hfirst.callbacks]
    exact gather_congr_right (hbelow.callbacks.trans hothers.callbacks) _

/-- **However a connection is cut into reads**, the callbacks say the same, and the same parser
    is left, as when the bytes come one at a time. -/
theorem feed_chunks {p q : Parser} (h : Reached p) {reads : List (List UInt8)}
    (hne : ∀ r ∈ reads, r ≠ []) (hlen : ∀ r ∈ reads, r.length + maxHeaderSize < 2 ^ 32)
    {cbs : List Callback} (hfeed : p.feed (reads.flatten.map ([·])) = some (cbs, q)) :
    ∃ CBS Q, p.feed reads = some (CBS, Q) ∧ Agree CBS Q cbs q :=
  feed_chunks_inv h.inv hne hlen hfeed

/-- A request that comes in two reads. -/
theorem feed_chunks_get :
    ∃ cbs q CBS Q,
      (Parser.init .request).feed ((ascii "GET / HTTP/1.1\r\n\r\n").map ([·])) = some (cbs, q) ∧
      (Parser.init .request).feed [ascii "GET / HT", ascii "TP/1.1\r\n\r\n"] = some (CBS, Q) ∧
      Agree CBS Q cbs q := by
  have hbytes : ((Parser.init .request).feed
      ((ascii "GET / HTTP/1.1\r\n\r\n").map ([·]))).isSome = true := rfl
  obtain ⟨⟨cbs, q⟩, hfeed⟩ := Option.isSome_iff_exists.mp hbytes
  have hne : ∀ r ∈ [ascii "GET / HT", ascii "TP/1.1\r\n\r\n"], r ≠ [] := by decide
  obtain ⟨CBS, Q, hFEED, hagree⟩ := feed_chunks (.init .request) hne (by decide) hfeed
  exact ⟨cbs, q, CBS, Q, hfeed, hFEED, hagree⟩

end Dv8.Http
