import Dv8.Http.Reached
import Dv8.Lib.Merge

namespace Dv8.Http

open Dv8.Lib

/-!
# Two calls in lockstep

The same bytes are parsed in two calls: in one of them as part of longer data.  The two take the
same moves, and their callbacks say the same, although an element that is cut between two data is
called back in pieces.

* `pieces` — callbacks for pieces of one element are one callback;
* `Scan.events` — the callbacks so far, and the one that is due for what is marked;
* `Alike` — the variables of the two calls;
* `perform_alike`, `loop_alike` — what one of them accepts, the other does.
-/

/-! ### Callbacks for pieces -/

/-- The callback for two pieces of an element. -/
def Callback.join : Callback → Callback → Option Callback
  | .url x, .url y => some (.url (x ++ y))
  | .headerField x, .headerField y => some (.headerField (x ++ y))
  | .headerValue x, .headerValue y => some (.headerValue (x ++ y))
  | .body x, .body y => some (.body (x ++ y))
  | _, _ => none

/-- Callbacks for pieces of one element are one. -/
def pieces : Join Callback where
  join := Callback.join
  assoc := by
    intro w x y z h
    cases x <;> cases y <;> cases h <;> cases w <;> first
      | exact .inl ⟨rfl, rfl⟩
      | exact .inr ⟨_, _, rfl, rfl, congrArg some (by rw [List.append_assoc])⟩

/-- A callback for more bytes is one for some of them and one for the others. -/
theorem gather_callback (k : Kind) (cbs : List Callback) (x y : List UInt8) :
    pieces.gather (cbs ++ (k.callback (x ++ y)).toList) =
      (k.callback y).toList.foldl pieces.into
        (pieces.gather (cbs ++ (k.callback x).toList)) := by
  cases k <;> first
    | exact gather_pieces (j := pieces) rfl cbs
    | rfl

/-- The callback that is due for what is marked. -/
def Scan.pending (data : List UInt8) (s : Scan) : List Callback :=
  kinds.filterMap fun k => (s.mark k).bind fun i => k.callback (slice data i (s.p - i))

/-- The callbacks so far, and the one that is due. -/
def Scan.events (data : List UInt8) (s : Scan) : List Callback :=
  s.made.map Made.cb ++ s.pending data

theorem events_clear {data : List UInt8} {s : Scan} (h : ∀ k, s.mark k = none) :
    s.events data = s.made.map Made.cb := by
  simp [Scan.events, Scan.pending, h]

theorem events_set {data : List UInt8} {s : Scan} {k : Kind} {i : Nat} (hk : s.mark k = some i)
    (hj : ∀ j ≠ k, s.mark j = none) :
    s.events data = s.made.map Made.cb ++ (k.callback (slice data i (s.p - i))).toList := by
  cases k <;> simp [Scan.events, Scan.pending, kinds, hk, hj, Kind.callback]

/-! ### A window -/

/-- `d` stands in `D`, from `off` on. -/
def Window (D d : List UInt8) (off : Nat) : Prop :=
  ∃ before after, D = before ++ d ++ after ∧ before.length = off

variable {D d : List UInt8} {off : Nat}

theorem Window.slice (h : Window D d off) {i len : Nat} (hi : i + len ≤ d.length) :
    Dv8.Lib.slice D (off + i) len = Dv8.Lib.slice d i len := by
  obtain ⟨before, after, rfl, rfl⟩ := h
  rw [List.append_assoc, slice_append_right, slice_append_left hi]

theorem Window.length (h : Window D d off) : off + d.length ≤ D.length := by
  obtain ⟨before, after, rfl, rfl⟩ := h
  simp

/-- A marked range, and the bytes behind it. -/
theorem slice_grow (data : List UInt8) {i p : Nat} (hi : i ≤ p) (v : Nat) :
    slice data i (p + v - i) = slice data i (p - i) ++ slice data p v := by
  have hlen : p + v - i = p - i + v := by omega
  have hpos : i + (p - i) = p := by omega
  rw [hlen, slice_add, hpos]

/-! ### The variables of the two calls -/

/-- The variables of a call on `D` and of one on `d`, which stands in `D` from `off` on.  The
    callbacks `before` are those for the bytes in front of `d`. -/
structure Alike (D d : List UInt8) (off : Nat) (before : List Callback) (a : Marks)
    (n : Option Nat) (room : Nat) (S s : Scan) : Prop where
  pos : S.p = off + s.p
  room : s.p + room = d.length
  big : a.Holds S.mark S.p D.length
  small : a.Holds s.mark s.p d.length
  sub : ∀ k, s.mark k ≠ none → S.mark k ≠ none
  counted : ∀ v, n = some v → S.parser.nread = v % 2 ^ 32 ∧ s.parser.nread = v % 2 ^ 32
  nread : S.parser.nread ≤ s.parser.nread
  max : s.parser.nread ≤ maxHeaderSize
  events : pieces.gather (S.events D) = pieces.gather (before ++ s.events d)

variable {before : List Callback} {a : Marks} {n : Option Nat} {room len : Nat} {S s : Scan}

/-- The same with other fields of the parsers. -/
theorem Alike.stored (h : Alike D d off before a n room S s) (c c' : Core) :
    Alike D d off before a n room { S with parser := S.stored c }
      { s with parser := s.stored c' } :=
  ⟨h.pos, h.room, h.big, h.small, h.sub, h.counted, h.nread, h.max, h.events⟩

/-- The same with other counts. -/
theorem Alike.nreads (h : Alike D d off before a n room S s) {P p : Parser} {N : Option Nat}
    (hn : ∀ v, N = some v → P.nread = v % 2 ^ 32 ∧ p.nread = v % 2 ^ 32)
    (hle : P.nread ≤ p.nread) (hmax : p.nread ≤ maxHeaderSize) :
    Alike D d off before a N room { S with parser := P } { s with parser := p } :=
  ⟨h.pos, h.room, h.big, h.small, h.sub, hn, hle, hmax, h.events⟩

/-- The marks of the two, when it is known which are set. -/
theorem Alike.known (h : Alike D d off before a n room S s) (ha : a.Known) :
    (∀ k, S.mark k = none ∧ s.mark k = none) ∨
      ∃ k i j, S.mark k = some i ∧ i ≤ S.p ∧ s.mark k = some j ∧ j ≤ s.p ∧
        (∀ l ≠ k, S.mark l = none) ∧ ∀ l ≠ k, s.mark l = none := by
  have hbig := h.big
  have hsmall := h.small
  cases a with
  | clear => exact .inl fun k => ⟨hbig k, hsmall k⟩
  | set k =>
    obtain ⟨⟨i, hi, hip, -⟩, hl⟩ := hbig
    obtain ⟨⟨j, hj, hjp, -⟩, hl'⟩ := hsmall
    exact .inr ⟨k, i, j, hi, hip, hj, hjp, hl, hl'⟩
  | atMost k => exact absurd rfl (ha k)

/-- `p += v` -/
theorem Alike.skip (hw : Window D d off) (h : Alike D d off before a n room S s) (ha : a.Known)
    {v : Nat} (hv : v ≤ room) :
    Alike D d off before a n (room - v) { S with p := S.p + v } { s with p := s.p + v } := by
  have hpos := h.pos
  have hroom := h.room
  refine ⟨by dsimp only; omega, by dsimp only; omega, h.big.mono (Nat.le_add_right ..),
    h.small.mono (Nat.le_add_right ..), h.sub, h.counted, h.nread, h.max, ?_⟩
  have hevents := h.events
  rcases h.known ha with hnone | ⟨k, i, j, hi, hip, hj, hjp, hl, hl'⟩
  · have hnone' : ∀ k, s.mark k = none := fun k => (hnone k).2
    rw [events_clear fun k => (hnone k).1, events_clear hnone'] at hevents
    rwa [events_clear (s := { S with p := S.p + v }) fun k => (hnone k).1,
      events_clear (s := { s with p := s.p + v }) hnone']
  · rw [events_set hi hl, events_set hj hl', ← List.append_assoc] at hevents
    rw [events_set (s := { S with p := S.p + v }) hi hl,
      events_set (s := { s with p := s.p + v }) hj hl']
    dsimp only
    rw [slice_grow D hip, slice_grow d hjp, gather_callback, ← List.append_assoc,
      gather_callback, hevents, hpos, hw.slice (by omega)]

/-- `MARK` -/
theorem Alike.mark (hw : Window D d off) (h : Alike D d off before a n room S s) {k : Kind}
    (ha : a.Only k) (hroom : 0 < room) :
    Alike D d off before (.set k) n room
      { S with mark := Function.update S.mark k (some ((S.mark k).getD S.p)) }
      { s with mark := Function.update s.mark k (some ((s.mark k).getD s.p)) } := by
  have hpos := h.pos
  have hp := h.room
  have hlength := hw.length
  obtain ⟨hi, hl⟩ := h.big.only ha
  obtain ⟨hi', hl'⟩ := h.small.only ha
  have hset {f : Kind → Option Nat} {p : Nat} (hl : ∀ j ≠ k, f j = none) :
      ∀ j ≠ k, Function.update f k (some ((f k).getD p)) j = none := fun j hj =>
    (Function.update_of_ne hj ..).trans (hl j hj)
  refine ⟨hpos, hp, ⟨⟨_, Function.update_self .., ?_⟩, hset hl⟩,
    ⟨⟨_, Function.update_self .., ?_⟩, hset hl'⟩, fun j hj => ?_, h.counted, h.nread, h.max, ?_⟩
  · cases hmark : S.mark k with
    | none => exact ⟨Nat.le_refl _, by rw [Option.getD_none]; omega⟩
    | some i => exact hi i hmark
  · cases hmark : s.mark k with
    | none => exact ⟨Nat.le_refl _, by rw [Option.getD_none]; omega⟩
    | some i => exact hi' i hmark
  · by_cases hjk : j = k
    · subst hjk
      exact fun hnone => absurd ((Function.update_self ..).symm.trans hnone) nofun
    · exact absurd ((Function.update_of_ne hjk ..).trans (hl' j hjk)) hj
  · have hevents := h.events
    have hzero (data : List UInt8) (i : Nat) : slice data i (i - i) = [] := by
      rw [Nat.sub_self, slice_zero]
    rw [events_set (s := { S with mark := Function.update S.mark k (some ((S.mark k).getD S.p)) })
        (Function.update_self ..) (hset hl),
      events_set (s := { s with mark := Function.update s.mark k (some ((s.mark k).getD s.p)) })
        (Function.update_self ..) (hset hl'), ← List.append_assoc]
    dsimp only
    cases hs : s.mark k with
    | none =>
      have hnone' : ∀ j, s.mark j = none := fun j => if hj : j = k then hj ▸ hs else hl' j hj
      rw [events_clear hnone'] at hevents
      rw [Option.getD_none, hzero]
      cases hS : S.mark k with
      | none =>
        -- an empty piece in both
        have hnone : ∀ j, S.mark j = none := fun j => if hj : j = k then hj ▸ hS else hl j hj
        rw [events_clear hnone] at hevents
        rw [Option.getD_none, hzero]
        exact gather_congr hevents _
      | some i =>
        -- an empty piece behind an element that goes on
        rw [events_set hS hl] at hevents
        rw [Option.getD_some, gather_append pieces (before ++ _), ← hevents, ← gather_callback,
          List.append_nil]
    | some j =>
      cases hS : S.mark k with
      | none => exact absurd hS (h.sub k (by rw [hs]; exact nofun))
      | some i =>
        rw [events_set hS hl, events_set hs hl', ← List.append_assoc] at hevents
        exact hevents

/-- A callback that both make, while nothing is marked. -/
theorem Alike.called (h : Alike D d off before .clear n room S s) {M m : Made Parser}
    (hcb : M.cb = m.cb) :
    Alike D d off before .clear n room { S with made := S.made ++ [M] }
      { s with made := s.made ++ [m] } := by
  refine ⟨h.pos, h.room, h.big, h.small, h.sub, h.counted, h.nread, h.max, ?_⟩
  have hevents := h.events
  rw [events_clear h.big, events_clear h.small] at hevents
  rw [events_clear (s := { S with made := S.made ++ [M] }) h.big,
    events_clear (s := { s with made := s.made ++ [m] }) h.small]
  dsimp only
  rw [List.map_append, List.map_append, ← List.append_assoc, List.map_singleton,
    List.map_singleton, hcb]
  exact gather_congr hevents _

/-- What a callback for marked bytes leaves. -/
theorem data_eq (data : List UInt8) {s : Scan} {k : Kind} {i : Nat} (hk : s.mark k = some i)
    (hi : i ≤ s.p) (c : Core) (whole advance : Bool) :
    ∃ made, s.data data k c whole advance = some { s with
        parser := s.stored c, mark := Function.update s.mark k none, made := made } ∧
      made.map Made.cb = s.made.map Made.cb ++
        (k.callback (slice data i (s.p - i) ++ slice data s.p whole.toNat)).toList := by
  unfold Scan.data
  rw [hk]
  dsimp only
  rw [if_neg (by omega), slice_grow data hi]
  refine ⟨_, rfl, ?_⟩
  cases k <;> simp [Kind.callback]

/-- No mark of this kind is set. -/
theorem data_none {data : List UInt8} {s : Scan} {k : Kind} (hk : s.mark k = none) (c : Core)
    (whole advance : Bool) : s.data data k c whole advance = some s := by
  unfold Scan.data
  rw [hk]

/-- `CALLBACK_DATA_` does not count. -/
theorem data_nread {data : List UInt8} {s t : Scan} {k : Kind} {c : Core} {whole advance : Bool}
    (h : s.data data k c whole advance = some t) : t.parser.nread = s.parser.nread := by
  unfold Scan.data at h
  split at h
  · cases h
    rfl
  · split at h <;> cases h
    rfl

/-- `CALLBACK_DATA_` -/
theorem Alike.data (hw : Window D d off) (h : Alike D d off before a n room S s) {k : Kind}
    {whole : Bool} (ha : a.Only k) (hwhole : whole = true → a = .set k) (hroom : 0 < room)
    (c : Core) (advance : Bool) :
    ∃ S' s', S.data D k c whole advance = some S' ∧ s.data d k c whole advance = some s' ∧
      Alike D d off before .clear n room S' s' := by
  have hpos := h.pos
  have hp := h.room
  have hlen := whole.toNat_le
  obtain ⟨hi, hl⟩ := h.big.only ha
  obtain ⟨hj, hl'⟩ := h.small.only ha
  have hclear {f : Kind → Option Nat} (hl : ∀ j ≠ k, f j = none) :
      ∀ j, Function.update f k none j = none := by
    intro j
    by_cases hjk : j = k
    · rw [hjk, Function.update_self]
    · rw [Function.update_of_ne hjk, hl j hjk]
  have hevents := h.events
  cases hs : s.mark k with
  | none =>
    have hnone' : ∀ j, s.mark j = none := fun j => if hj : j = k then hj ▸ hs else hl' j hj
    rw [data_none hs]
    cases hS : S.mark k with
    | none =>
      have hnone : ∀ j, S.mark j = none := fun j => if hj : j = k then hj ▸ hS else hl j hj
      rw [data_none hS]
      exact ⟨_, _, rfl, rfl, hpos, hp, hnone, hnone', h.sub, h.counted, h.nread, h.max, hevents⟩
    | some i =>
      -- the whole element has been called back before `d`
      have hfalse : whole = false := by
        by_contra htrue
        have hset := hwhole (Bool.eq_true_of_not_eq_false htrue)
        have hsmall := h.small
        rw [hset] at hsmall
        obtain ⟨⟨i, hi, -⟩, -⟩ := hsmall
        exact absurd (hs.symm.trans hi) nofun
      subst hfalse
      obtain ⟨made, hdata, hmade⟩ := data_eq D hS (hi i hS).1 c false advance
      refine ⟨_, _, hdata, rfl, hpos, hp, hclear hl, hnone', fun j hj => absurd (hnone' j) hj,
        h.counted, h.nread, h.max, ?_⟩
      rw [events_clear (s := { S with
        parser := S.stored c, mark := Function.update S.mark k none, made := made }) (hclear hl)]
      dsimp only
      rw [hmade, ← hevents, events_set hS hl, Bool.toNat_false, slice_zero, List.append_nil]
  | some j =>
    cases hS : S.mark k with
    | none => exact absurd hS (h.sub k (by rw [hs]; exact nofun))
    | some i =>
      obtain ⟨made, hdata, hmade⟩ := data_eq D hS (hi i hS).1 c whole advance
      obtain ⟨made', hdata', hmade'⟩ := data_eq d hs (hj j hs).1 c whole advance
      refine ⟨_, _, hdata, hdata', hpos, hp, hclear hl, hclear hl',
        fun j hj => absurd (hclear hl' j) hj, h.counted, h.nread, h.max, ?_⟩
      rw [events_clear (s := { S with
          parser := S.stored c, mark := Function.update S.mark k none, made := made })
          (hclear hl),
        events_clear (s := { s with
          parser := s.stored c, mark := Function.update s.mark k none, made := made' })
          (hclear hl')]
      dsimp only
      rw [events_set hS hl, events_set hs hl', ← List.append_assoc] at hevents
      rw [hmade, hmade', gather_callback, ← List.append_assoc, gather_callback, hevents, hpos,
        hw.slice (by omega)]

/-- `COUNT_HEADER_SIZE`, when the counter of the one call is not behind that of the other. -/
theorem count_le {P p : Parser} {V v : Nat} (hle : P.nread + V ≤ p.nread + v)
    (hwrap : p.nread + v < 2 ^ 32) (hmax : ¬ maxHeaderSize < (p.nread + v) % 2 ^ 32) :
    (P.nread + V) % 2 ^ 32 = P.nread + V ∧ (p.nread + v) % 2 ^ 32 = p.nread + v ∧
      ¬ maxHeaderSize < (P.nread + V) % 2 ^ 32 := by
  rw [Nat.mod_eq_of_lt hwrap] at hmax ⊢
  rw [Nat.mod_eq_of_lt (hle.trans_lt hwrap)]
  exact ⟨rfl, rfl, by omega⟩

/-! ### A move of both -/

/-- A call that takes all it is given, without an error and without an upgrade. -/
def Execution.Through (data : List UInt8) (ex : Execution Parser) : Prop :=
  ex.np = data.length ∧ ex.parser.httpErrno = .ok ∧ ex.parser.upgrade = false

instance (data : List UInt8) (ex : Execution Parser) : Decidable (ex.Through data) :=
  inferInstanceAs (Decidable (_ ∧ _))

/-- A call that a move ends does not take all it is given. -/
theorem perform_through {data : List UInt8} {m : Move} (hm : m.Sound len a n room)
    {ex : Execution Parser} (h : s.perform data m = .done ex) : ¬ ex.Through data := by
  induction m generalizing s a n room with
  | next c => cases h
  | ret c advance =>
    cases h
    exact fun hthrough => absurd (hm.2.2.2.2.2.symm.trans hthrough.2.2) Bool.noConfusion
  | fail c e =>
    cases h
    exact fun hthrough => hm hthrough.2.1
  | abort => cases h
  | mark k m ih => exact ih hm.2.2 h
  | data k c whole advance m ih =>
    unfold Scan.perform at h
    split at h
    · cases h
    · exact ih hm.2.2.2.2.2.2 h
  | notify cb c advance m ih => exact ih hm.2.2.2.2.2 h
  | count v c m ih =>
    unfold Scan.perform at h
    dsimp only at h
    split at h
    · cases h
      exact fun hthrough => absurd hthrough.2.1 Errno.noConfusion
    · exact ih hm.2 h
  | reset m ih => exact ih hm h
  | counted m ih =>
    unfold Scan.perform at h
    split at h
    · exact ih hm.2 h
    · cases h
  | skip v m ih => exact ih hm.2.2 h
  | back m ih => exact ih hm.2.2 h

/-- The variables of the two calls between two bytes. -/
structure Between (D d : List UInt8) (off : Nat) (before : List Callback) (S s : Scan) : Prop where
  core : S.parser.toCore = s.parser.toCore
  alike : Alike D d off before s.parser.state.marks none (d.length - s.p) S s

/-- `break`, and on to the next byte. -/
theorem Alike.next (hw : Window D d off) (h : Alike D d off before a n room S s) {c : Core}
    (hm : (Move.next c).Sound len a n room) :
    Between D d off before { S with parser := S.stored c, p := S.p + 1 }
      { s with parser := s.stored c, p := s.p + 1 } := by
  obtain ⟨-, hfit, hroom, -⟩ := hm
  have hknown : a.Known := by
    rintro k rfl
    exact hfit
  have hskip := (h.skip hw hknown (v := 1) hroom).stored c c
  exact ⟨rfl, hskip.pos, by have := hskip.room; dsimp only at this ⊢; omega, hskip.big.fit hfit,
    hskip.small.fit hfit, hskip.sub, nofun, hskip.nread, hskip.max, hskip.events⟩

/-- **What one of the calls does, the other does.** -/
theorem perform_alike (hw : Window D d off) (hd : d ≠ []) (hlen : len + maxHeaderSize < 2 ^ 32)
    {m : Move} (hm : m.Sound len a n room) (h : Alike D d off before a n room S s) {t : Scan}
    (ht : s.perform d m = .next t) :
    ∃ T, S.perform D m = .next T ∧
      Between D d off before { T with p := T.p + 1 } { t with p := t.p + 1 } := by
  induction m generalizing S s a n room with
  | next c =>
    cases ht
    exact ⟨_, rfl, h.next hw hm⟩
  | ret c advance => cases ht
  | fail c e => cases ht
  | abort => cases ht
  | mark k m ih =>
    obtain ⟨hk, hroom, hm⟩ := hm
    exact ih hm (h.mark hw hk hroom) ht
  | data k c whole advance m ih =>
    obtain ⟨hk, hwhole, hroom, -, -, -, hm⟩ := hm
    obtain ⟨S', s', hS, hs, h⟩ := h.data hw hk hwhole hroom c advance
    unfold Scan.perform at ht ⊢
    rw [hs] at ht
    rw [hS]
    exact ih hm h ht
  | notify cb c advance m ih =>
    obtain ⟨rfl, -, -, -, -, hm⟩ := hm
    exact ih hm ((h.stored c c).called (M := ⟨cb, S.p + advance.toNat, S.stored c, m.returns⟩)
      (m := ⟨cb, s.p + advance.toNat, s.stored c, m.returns⟩) rfl) ht
  | count v c m ih =>
    obtain ⟨hv, hm⟩ := hm
    have hle := h.nread
    have hmax := h.max
    unfold Scan.perform at ht ⊢
    dsimp only at ht ⊢
    split at ht
    · cases ht
    · rename_i hnread
      obtain ⟨hP, hp, hNread⟩ := count_le (P := S.parser) (V := v) (Nat.add_le_add_right hle v)
        (by omega) hnread
      rw [if_neg hNread]
      refine ih hm (h.nreads ?_ (by dsimp only; omega) (Nat.le_of_not_lt hnread)) ht
      intro w hw
      obtain ⟨u, rfl, rfl⟩ := Option.map_eq_some_iff.mp hw
      obtain ⟨hU, hu⟩ := h.counted u rfl
      dsimp only
      rw [hU, hu, Nat.mod_add_mod]
      exact ⟨rfl, rfl⟩
  | reset m ih =>
    refine ih hm (h.nreads (P := { S.parser with nread := 0 }) (p := { s.parser with nread := 0 })
      ?_ (Nat.le_refl _) (Nat.zero_le _)) ht
    rintro v ⟨⟩
    exact ⟨rfl, rfl⟩
  | counted m ih =>
    obtain ⟨rfl, hm⟩ := hm
    obtain ⟨hP, hp⟩ := h.counted 1 rfl
    unfold Scan.perform at ht ⊢
    rw [if_pos (show s.parser.nread = 1 from hp)] at ht
    rw [if_pos (show S.parser.nread = 1 from hP)]
    exact ih hm h ht
  | skip v m ih =>
    obtain ⟨hknown, hv, hm⟩ := hm
    exact ih hm (h.skip hw hknown hv) ht
  | back m ih =>
    obtain ⟨rfl, ⟨c, rfl⟩, hm⟩ := hm
    cases ht
    have hp : s.p = d.length := h.room
    have hpos := h.pos
    have hlength := List.length_pos_iff.mpr hd
    have hS : S.p - 1 + 1 = S.p := by omega
    have hs : s.p - 1 + 1 = s.p := by omega
    refine ⟨_, rfl, rfl, ?_⟩
    have hfit := hm.2.1
    dsimp only
    rw [hS, hs]
    exact ⟨hpos, by dsimp only; omega, h.big.fit hfit, h.small.fit hfit, h.sub,
      fun v hv => (by cases hv), h.nread, h.max, h.events⟩

/-! ### The loop of both -/

/-- Behind the loop what is due is called back. -/
theorem finish_events (data : List UInt8) (hp : s.p = data.length)
    (ha : a.Holds s.mark s.p data.length) :
    ∃ made, s.finish data = some ⟨made, data.length, s.parser⟩ ∧
      made.map Made.cb = s.events data := by
  obtain ⟨k, hk⟩ := a.exists_only
  obtain ⟨hi, hj⟩ := ha.only hk
  cases hmark : s.mark k with
  | none =>
    have hnone : ∀ j, s.mark j = none := fun j => if hjk : j = k then hjk ▸ hmark else hj j hjk
    exact ⟨_, finish_clear hnone, (events_clear hnone).symm⟩
  | some i =>
    refine ⟨_, finish_set hp hmark (hi i hmark).1 hj, ?_⟩
    rw [events_set hmark hj, hp]
    unfold called
    cases k <;> simp [Kind.callback]

theorem loop_end {data : List UInt8} (hp : data.length ≤ s.p) (fuel : Nat) :
    Scan.loop data fuel s = s.finish data := by
  cases fuel with
  | zero => rfl
  | succ fuel => rw [Scan.loop, List.drop_eq_nil_of_le hp]

/-- What `nread` is taken to be in front of a turn. -/
def Scan.count (s : Scan) : Option Nat :=
  if s.parser.state = .chunkSizeStart then some 0 else none

theorem Scan.Ready.sound (h : s.Ready d) (ch : UInt8) {rest : List UInt8}
    (hlen : rest.length + 1 ≤ len) :
    (s.parser.turn ch rest).Sound len s.parser.state.marks s.count (rest.length + 1) :=
  turn_sound (h.inv.core h.errno) hlen fun hs => if_pos hs

/-- Where the size of a chunk begins, nothing is counted yet in either call. -/
theorem Between.counted (h : Between D d off before S s) (hready : s.Ready d) {ch : UInt8}
    {rest : List UInt8} (hdrop : d.drop s.p = ch :: rest) :
    Alike D d off before s.parser.state.marks s.count (rest.length + 1) S s := by
  have hlength : d.length - s.p = rest.length + 1 := by
    rw [← List.length_drop, hdrop, List.length_cons]
  have halike := h.alike
  rw [hlength] at halike
  refine ⟨halike.pos, halike.room, halike.big, halike.small, halike.sub, fun v hv => ?_,
    halike.nread, halike.max, halike.events⟩
  unfold Scan.count at hv
  split at hv
  · rename_i hs
    have hzero := hready.inv.chunk hready.errno hs
    have hle := halike.nread
    cases hv
    exact ⟨by rw [hzero] at hle; exact Nat.le_zero.mp hle, hzero⟩
  · cases hv

/-- What a call comes to, next to the callbacks `before` and the call on the bytes behind them. -/
structure Execution.Like (D : List UInt8) (before : List Callback) (EX ex : Execution Parser) :
    Prop where
  through : EX.Through D
  core : EX.parser.toCore = ex.parser.toCore
  nread : EX.parser.nread ≤ ex.parser.nread
  callbacks : pieces.gather (EX.made.map Made.cb) =
    pieces.gather (before ++ ex.made.map Made.cb)

/-- At the end of the data both loops end. -/
theorem Between.finish (h : Between D d off before S s) (hend : off + d.length = D.length)
    (hp : s.p = d.length) {fuel FUEL : Nat} {ex : Execution Parser}
    (hex : Scan.loop d fuel s = some ex) (hthrough : ex.Through d) :
    ∃ EX, Scan.loop D FUEL S = some EX ∧ EX.Like D before ex := by
  have hP : S.p = D.length := by
    rw [h.alike.pos, hp, hend]
  obtain ⟨made, hfinish, hmade⟩ := finish_events d hp h.alike.small
  obtain ⟨made', hfinish', hmade'⟩ := finish_events D hP h.alike.big
  rw [loop_end hp.ge] at hex
  rw [loop_end hP.ge]
  obtain rfl := Option.some.inj (hfinish.symm.trans hex)
  obtain ⟨-, herrno, hupgrade⟩ := hthrough
  refine ⟨_, hfinish', ⟨rfl, ?_, ?_⟩, h.core, h.alike.nread, ?_⟩
  · rw [← herrno]
    exact congrArg Core.httpErrno h.core
  · rw [← hupgrade]
    exact congrArg Core.upgrade h.core
  · rw [hmade, hmade']
    exact h.alike.events

/-- **What the call on the last bytes accepts, the call on all of them does.** -/
theorem loop_alike (hw : Window D d off) (hend : off + d.length = D.length) (hd : d ≠ [])
    (hlen : d.length + maxHeaderSize < 2 ^ 32) {fuel FUEL : Nat} (h : Between D d off before S s)
    (hready : s.Ready d) (hfuel : d.length ≤ s.p + fuel) (hFUEL : D.length ≤ S.p + FUEL)
    {ex : Execution Parser} (hex : Scan.loop d fuel s = some ex) (hthrough : ex.Through d) :
    ∃ EX, Scan.loop D FUEL S = some EX ∧ EX.Like D before ex := by
  induction fuel generalizing S s FUEL with
  | zero => exact h.finish hend (Nat.le_antisymm hready.pos hfuel) hex hthrough
  | succ fuel ih =>
    by_cases hp : d.length ≤ s.p
    · exact h.finish hend (Nat.le_antisymm hready.pos hp) hex hthrough
    have hpos := h.alike.pos
    cases FUEL with
    | zero => omega
    | succ FUEL =>
      unfold Scan.loop at hex ⊢
      have hdrop : D.drop S.p = d.drop s.p := by
        obtain ⟨pre, post, rfl, rfl⟩ := hw
        have hpost : post = [] := by
          rw [List.length_append, List.length_append] at hend
          exact List.length_eq_zero_iff.mp (by omega)
        rw [hpos, hpost, List.append_nil, List.drop_length_add_append]
      rw [hdrop]
      cases hrest : d.drop s.p with
      | nil => exact absurd (List.drop_eq_nil_iff.mp hrest) hp
      | cons ch rest =>
        have hsmall : rest.length + 1 ≤ d.length := by
          rw [← List.length_cons (a := ch), ← hrest, List.length_drop]
          omega
        have hsound := hready.sound ch hsmall
        have hcounted := h.counted hready hrest
        have hturn := hready.turn hrest
        rw [hrest] at hex
        dsimp only at hex ⊢
        rw [h.core]
        cases hout : s.perform d (s.parser.turn ch rest) with
        | abort =>
          rw [hout] at hex
          cases hex
        | done ex' =>
          rw [hout] at hex
          cases hex
          exact absurd hthrough (perform_through hsound hout)
        | next t =>
          rw [hout] at hex hturn
          obtain ⟨T, hT, hbetween⟩ := perform_alike hw hd hlen hsound hcounted hout
          rw [hT]
          have hstart := hturn.start
          have hroom := hturn.room
          have hposT := hbetween.alike.pos
          exact ih hbetween hturn.ready (by dsimp only; omega) (by dsimp only at hposT ⊢; omega) hex

end Dv8.Http
