import Dv8.Http.Course

namespace Dv8.Http

open Dv8.Lib

/-!
# The callbacks of a connection are in order

What `turn_keeps` says about a turn is lifted to a call of `http_parser_execute`, and from there to
the reads of a connection, wherever JavaScript pauses the parser.

In front of a response the parser calls `message_begin` again for each line end it skips, with no
end of a message in between; every other message begins once.

* `Told` — callbacks that are in order, each with no more text than there is room for;
* `perform_told`, `execute_told` — the callbacks of a move and of a call;
* `callbacks_in_order` — the callbacks of every run follow the order of `Stage`;
* `staysInside_of_limit` — a work buffer of `textLimit` bytes is large enough for every connection.
-/

/-! ### Callbacks that are in order -/

/-- What the parser says about the callbacks. -/
def Parser.Tracks (p : Parser) (t : Course) : Prop := p.toCore.Tracks p.nread t

/-- The callbacks lead from `t` to `v`, each has room, and the parser behind one that JavaScript
    can pause tracks them. -/
def Told (len : Nat) : Course → List (Made Parser) → Course → Prop
  | t, [], v => t = v
  | t, m :: made, v => t.text.Fits (textLimit len) true m.cb ∧
      ∃ u, t.next m.cb = some u ∧ (m.cb.CallsJs → m.parser.Tracks u) ∧ Told len u made v

variable {data : List UInt8} {len n room : Nat} {t₀ t v : Course} {q : Option Kind} {s : Scan}

theorem told_cons {m : Made Parser} {made : List (Made Parser)} :
    Told len t (m :: made) v ↔ t.text.Fits (textLimit len) true m.cb ∧
      ∃ u, t.next m.cb = some u ∧ (m.cb.CallsJs → m.parser.Tracks u) ∧ Told len u made v := Iff.rfl

theorem told_append {made made' : List (Made Parser)} :
    Told len t (made ++ made') v ↔ ∃ u, Told len t made u ∧ Told len u made' v := by
  induction made generalizing t with
  | nil =>
    constructor
    · exact fun h => ⟨t, rfl, h⟩
    · rintro ⟨u, rfl, h⟩
      exact h
  | cons m made ih =>
    constructor
    · rintro ⟨hfits, u, hnext, htracks, hrest⟩
      obtain ⟨w, hmade, hmade'⟩ := ih.mp hrest
      exact ⟨w, ⟨hfits, u, hnext, htracks, hmade⟩, hmade'⟩
    · rintro ⟨w, ⟨hfits, u, hnext, htracks, hmade⟩, hmade'⟩
      exact ⟨hfits, u, hnext, htracks, ih.mpr ⟨w, hmade, hmade'⟩⟩

/-- One callback more. -/
theorem Told.snoc {made : List (Made Parser)} (h : Told len t₀ made t) {m : Made Parser}
    (hfits : t.text.Fits (textLimit len) true m.cb) (hnext : t.next m.cb = some v)
    (htracks : m.cb.CallsJs → m.parser.Tracks v) : Told len t₀ (made ++ [m]) v :=
  told_append.mpr ⟨t, h, hfits, v, hnext, htracks, rfl⟩

/-- `t` is `v` with the callback that is due for what is marked in front of `p`. -/
inductive Due (mark : Kind → Option Nat) (p : Nat) (v : Course) : Option Kind → Course → Prop
  | clear (h : ∀ k, mark k = none) : Due mark p v none v
  | marked {k : Kind} {i : Nat} {u t : Course} (hmark : mark k = some i) (hle : i ≤ p)
      (hothers : ∀ j ≠ k, mark j = none) (hcall : v.call k [] = some u)
      (ht : t = u.grow (some k) (p - i)) : Due mark p v (some k) t

/-- The callbacks so far are in order, `t` with the one that is due for the mark of `q`, and `n`
    bytes have been counted. -/
structure Scan.Tells (len : Nat) (t₀ : Course) (q : Option Kind) (t : Course) (n : Nat)
    (s : Scan) : Prop where
  nread : s.parser.nread = n
  le : n ≤ maxHeaderSize
  told : ∃ v, Told len t₀ s.made v ∧ Due s.mark s.p v q t

/-- The callbacks of a call are in order, and unless there is an error the parser tracks them. -/
def Execution.Tells (len : Nat) (t₀ : Course) (ex : Execution Parser) : Prop :=
  ∃ v, Told len t₀ ex.made v ∧ (ex.parser.httpErrno = .ok → ex.parser.Tracks v)

/-- What a move comes to. -/
def Outcome.Tells (len : Nat) (t₀ : Course) : Outcome → Prop
  | .next s => ∃ q t, ({ s with p := s.p + 1 } : Scan).Tells len t₀ q t s.parser.nread ∧
      s.parser.state.Marks q ∧ s.parser.Tracks t
  | .done ex => ex.Tells len t₀
  | .abort => True

/-! ### A move -/

/-- What is marked grows with the bytes that `p` passes. -/
theorem Due.skip {mark : Kind → Option Nat} {p : Nat} (h : Due mark p v q t) (m : Nat) :
    Due mark (p + m) v q (t.grow q m) := by
  cases h with
  | clear h => exact .clear h
  | marked hmark hle hothers hcall ht =>
    refine .marked hmark (Nat.le_add_right_of_le hle) hothers hcall ?_
    rw [ht, grow_grow]
    congr 1
    omega

theorem update_none {mark : Kind → Option Nat} {k : Kind} (h : ∀ j ≠ k, mark j = none) :
    ∀ j, Function.update mark k none j = none := by
  intro j
  by_cases hj : j = k
  · rw [hj, Function.update_self]
  · rw [Function.update_of_ne hj, h j hj]

/-- The callback that is due has room. -/
theorem call_fits {k : Kind} {u : Course} (hcall : v.call k [] = some u) {buf : List UInt8}
    {cb : Callback} (hcb : k.callback buf = some cb) (hbuf : buf.length ≤ len)
    (hreach : (u.grow (some k) buf.length).text.reach ≤ textLimit len) :
    v.next cb = some (u.grow (some k) buf.length) ∧ v.text.Fits (textLimit len) true cb := by
  have hgrow := call_grow hcall buf
  have hnext : v.next cb = some (u.grow (some k) buf.length) := by
    rw [← hgrow, Course.call, hcb]
    rfl
  refine ⟨hnext, ?_⟩
  obtain ⟨s, -, hs⟩ := Option.map_eq_some_iff.mp hnext
  have htext : v.text.next cb = (u.grow (some k) buf.length).text := congrArg Course.text hs
  cases k <;> cases hcb
  case headerField | headerValue | url =>
    show (v.text.next _).reach ≤ _
    rwa [htext]
  case body =>
    intro _
    unfold textLimit
    omega

/-- The callback for the bytes from a mark on, at `p` or behind the byte there. -/
theorem told_called {k : Kind} {i : Nat} {u : Course} (hcall : v.call k [] = some u)
    (hle : i ≤ s.p + n) (hp : s.p + n ≤ data.length) (hlen : data.length ≤ len)
    (htold : Told len t₀ s.made v) {c : Core} {pos : Nat}
    (hreach : (u.grow (some k) (s.p + n - i)).text.reach ≤ textLimit len)
    (htracks : k = .body → c.Tracks s.parser.nread (u.grow (some k) (s.p + n - i))) :
    Told len t₀ (called s.made k (slice data i (s.p + n - i)) pos (s.stored c))
      (u.grow (some k) (s.p + n - i)) := by
  have hbuf : (slice data i (s.p + n - i)).length = s.p + n - i := length_slice (by omega)
  unfold called
  cases hcb : k.callback (slice data i (s.p + n - i)) with
  | none =>
    -- nobody is told the status
    cases k <;> cases hcb
    cases hcall
    exact htold
  | some cb =>
    have hshort : (slice data i (s.p + n - i)).length ≤ len := by omega
    obtain ⟨hnext, hfits⟩ := call_fits hcall hcb hshort (by rwa [hbuf])
    rw [hbuf] at hnext
    refine htold.snoc hfits hnext fun hjs => htracks ?_
    cases k <;> cases hcb <;> first | rfl | exact hjs.elim

/-- **A move that is sound keeps the callbacks in order**, when their text is paid for. -/
theorem perform_told {m : Move} {a : Marks} {o : Option Nat} (hsound : m.Sound len a o room)
    (hkeeps : m.Keeps len t q n) (h : s.Tells len t₀ q t n) (hpos : s.p + room = data.length)
    (hdata : 0 < data.length) (hle : data.length ≤ len) (hlen : maxHeaderSize + len < 2 ^ 32) :
    (s.perform data m).Tells len t₀ := by
  induction m generalizing s a o room t q n with
  | next c =>
    obtain ⟨rfl, hn, v, htold, hdue⟩ := h
    exact ⟨q, t.grow q 1, ⟨rfl, hn, v, htold, hdue.skip 1⟩, hkeeps⟩
  | ret c advance =>
    obtain ⟨rfl, -, v, htold, hdue⟩ := h
    obtain ⟨rfl, htracks⟩ := hkeeps
    cases hdue
    exact ⟨_, htold, fun _ => htracks⟩
  | fail c e =>
    obtain ⟨-, -, v, htold, -⟩ := h
    exact ⟨v, htold, fun herrno => absurd herrno hsound⟩
  | abort => trivial
  | mark k m ih =>
    obtain ⟨-, -, hm⟩ := hsound
    obtain ⟨hnread, hn, v, htold, hdue⟩ := h
    rcases hkeeps with ⟨rfl, hkeeps⟩ | ⟨rfl, u, hcall, hkeeps⟩
    · -- what is marked goes on
      cases hdue with
      | marked hmark hi hothers hcall ht =>
        refine ih hm hkeeps ⟨hnread, hn, v, htold, ?_⟩ hpos
        refine .marked ((Function.update_self ..).trans ?_) hi ?_ hcall ht
        · rw [hmark]
          rfl
        · exact fun j hj => (Function.update_of_ne hj ..).trans (hothers j hj)
    · cases hdue with
      | clear hnone =>
        refine ih hm hkeeps ⟨hnread, hn, _, htold, ?_⟩ hpos
        refine .marked ((Function.update_self ..).trans ?_) (Nat.le_refl s.p) ?_ hcall ?_
        · rw [hnone]
          rfl
        · exact fun j hj => (Function.update_of_ne hj ..).trans (hnone j)
        · dsimp only
          rw [Nat.sub_self, grow_zero]
  | data k c whole advance m ih =>
    obtain ⟨-, -, hroom, -, -, -, hm⟩ := hsound
    obtain ⟨hnread, hn, v, htold, hdue⟩ := h
    unfold Scan.perform Scan.data
    rcases hkeeps with ⟨rfl, hkeeps⟩ | ⟨rfl, hreach, htracks, hkeeps⟩
    · cases hdue with
      | clear hnone =>
        rw [hnone]
        exact ih hm hkeeps ⟨hnread, hn, _, htold, .clear hnone⟩ hpos
    · cases hdue with
      | marked hmark hi hothers hcall ht =>
        rename_i i u
        have hwhole := whole.toNat_le
        have hgrow : t.grow (some k) whole.toNat = u.grow (some k) (s.p + whole.toNat - i) := by
          rw [ht, grow_grow]
          congr 1
          omega
        rw [hgrow] at hreach htracks hkeeps
        rw [hmark]
        dsimp only
        rw [if_neg (by omega)]
        have hcalled : Told len t₀
            (called s.made k (slice data i (s.p + whole.toNat - i)) (s.p + advance.toNat)
              (s.stored c)) (u.grow (some k) (s.p + whole.toNat - i)) :=
          told_called hcall (by omega) (by omega) hle htold hreach (hnread ▸ htracks)
        exact ih hm hkeeps ⟨hnread, hn, _, hcalled, .clear (update_none hothers)⟩ hpos
  | notify cb c advance m ih =>
    obtain ⟨-, -, -, -, -, hm⟩ := hsound
    obtain ⟨rfl, hn, v, htold, hdue⟩ := h
    obtain ⟨rfl, hfits, u, hnext, htracks, hkeeps⟩ := hkeeps
    cases hdue with
    | clear hnone =>
      exact ih hm hkeeps ⟨rfl, hn, u, htold.snoc hfits hnext fun _ => htracks, .clear hnone⟩ hpos
  | count v c m ih =>
    obtain ⟨hv, hm⟩ := hsound
    obtain ⟨rfl, hn, u, htold, hdue⟩ := h
    have hmod : (s.parser.nread + v) % 2 ^ 32 = s.parser.nread + v := Nat.mod_eq_of_lt (by omega)
    unfold Scan.perform
    rw [hmod]
    dsimp only
    split
    · exact ⟨_, htold, fun herrno => absurd herrno Errno.noConfusion⟩
    · rename_i hcount
      have hcount := Nat.le_of_not_lt hcount
      exact ih hm (hkeeps hcount) ⟨rfl, hcount, u, htold, hdue⟩ hpos
  | reset m ih =>
    obtain ⟨-, -, v, htold, hdue⟩ := h
    exact ih hsound hkeeps ⟨rfl, Nat.zero_le _, v, htold, hdue⟩ hpos
  | counted m ih =>
    unfold Scan.perform
    split
    · exact ih hsound.2 hkeeps h hpos
    · trivial
  | skip v m ih =>
    obtain ⟨-, hv, hm⟩ := hsound
    obtain ⟨hnread, hn, u, htold, hdue⟩ := h
    exact ih hm hkeeps ⟨hnread, hn, u, htold, hdue.skip v⟩ (by dsimp only; omega)
  | back m ih =>
    obtain ⟨rfl, ⟨c, rfl⟩, -⟩ := hsound
    obtain ⟨rfl, hn, v, htold, hdue⟩ := h
    have hp : s.p - 1 + 1 = s.p := by omega
    refine ⟨q, t, ⟨rfl, hn, v, htold, ?_⟩, hkeeps c rfl⟩
    dsimp only
    rwa [hp]

/-! ### A call -/

/-- Between two reads nothing is due for the mark that is set in front of the loop. -/
theorem call_initialMark {p : Parser} (h : p.Tracks t) {k : Kind}
    (hk : p.state.initialMark = some k) : t.call k [] = some t := by
  unfold Parser.Tracks Core.Tracks at h
  obtain ⟨stage, text⟩ := t
  cases hs : p.state <;> rw [hs] at h hk <;> cases hk
  case headerField =>
    obtain ⟨rfl, hlastel, -⟩ := h
    obtain ⟨reach, lastel⟩ := text
    cases hlastel
    cases p.flags.trailing <;> rfl
  case headerValue =>
    obtain ⟨rfl, hlastel, -⟩ := h
    obtain ⟨reach, lastel⟩ := text
    cases hlastel
    cases p.flags.trailing <;> rfl
  case resStatus => rfl
  -- the states of a url
  all_goals
    obtain ⟨rfl, -, -⟩ := h
    rfl

/-- There is room for what is due at the end of the data. -/
theorem Parser.Tracks.reach_le {p : Parser} (h : p.Tracks t) {k : Kind}
    (hk : p.state.Marks (some k)) (hn : p.nread ≤ maxHeaderSize) :
    t.text.reach ≤ textLimit len := by
  have hlimit := room_le_limit hn p.flags.trailing len
  have hbody := room_le_limit (Nat.le_refl maxHeaderSize) false len
  have hmarks := hk k rfl
  unfold Parser.Tracks Core.Tracks at h
  cases hs : p.state <;> rw [hs] at h hmarks <;>
    first | (rcases hmarks with h | h <;> cases h; done) | clear hmarks
  case headerField =>
    have := h.reach
    omega
  case headerValue =>
    have := h.reach
    omega
  case chunkData | chunkDataAlmostDone | bodyIdentity | bodyIdentityEof =>
    exact h.2.2.trans (by omega)
  all_goals
    obtain ⟨-, htrailing, hreach⟩ := h
    rw [htrailing] at hlimit
    omega

/-- The variables in front of the loop. -/
theorem scan_tells {p : Parser} (h : p.Tracks t) (hn : p.nread ≤ maxHeaderSize) :
    p.scan.Tells len t p.state.initialMark t p.nread := by
  refine ⟨rfl, hn, t, rfl, ?_⟩
  unfold Parser.scan
  cases hk : p.state.initialMark with
  | none => exact .clear fun _ => rfl
  | some k =>
    refine .marked (if_pos rfl) (Nat.le_refl 0) (fun j hj => ?_) (call_initialMark h hk)
      (grow_zero ..).symm
    exact if_neg fun h => hj (Option.some.inj h).symm

theorem initialMark_marks (p : Parser) : p.state.Marks p.state.initialMark := by
  intro k hk
  exact .inl (State.marks_of_initialMark hk)

/-- Behind the loop. -/
theorem finish_told (h : s.Tells len t₀ q t n) (htracks : s.parser.Tracks t)
    (hq : s.parser.state.Marks q) (hp : s.p = data.length) (hle : data.length ≤ len)
    {ex : Execution Parser} (hex : s.finish data = some ex) : ex.Tells len t₀ := by
  obtain ⟨rfl, hn, v, htold, hdue⟩ := h
  cases hdue with
  | clear hnone =>
    rw [finish_clear hnone] at hex
    cases hex
    exact ⟨_, htold, fun _ => htracks⟩
  | marked hmark hi hothers hcall ht =>
    rename_i k i u
    rw [finish_set hp hmark hi hothers] at hex
    cases hex
    have hreach : t.text.reach ≤ textLimit len := htracks.reach_le hq hn
    rw [ht] at hreach htracks
    have hcalled : Told len t₀ (called s.made k (slice data i (s.p - i)) data.length s.parser)
        (u.grow (some k) (s.p - i)) :=
      told_called (n := 0) (c := s.parser.toCore) hcall hi (Nat.le_of_eq hp) hle htold hreach
        fun _ => htracks
    rw [hp] at hcalled htracks
    exact ⟨_, hcalled, fun _ => htracks⟩

/-- The loop keeps the callbacks in order. -/
theorem loop_told {fuel : Nat} (hready : s.Ready data) (h : s.Tells len t₀ q t s.parser.nread)
    (htracks : s.parser.Tracks t) (hq : s.parser.state.Marks q) (hfuel : data.length ≤ s.p + fuel)
    (hdata : 0 < data.length) (hle : data.length ≤ len) (hlen : maxHeaderSize + len < 2 ^ 32)
    {ex : Execution Parser} (hex : Scan.loop data fuel s = some ex) : ex.Tells len t₀ := by
  induction fuel generalizing s t q with
  | zero => exact finish_told h htracks hq (Nat.le_antisymm hready.pos hfuel) hle hex
  | succ fuel ih =>
    unfold Scan.loop at hex
    cases hdrop : data.drop s.p with
    | nil =>
      rw [hdrop] at hex
      have hp := Nat.le_antisymm hready.pos (List.drop_eq_nil_iff.mp hdrop)
      exact finish_told h htracks hq hp hle hex
    | cons ch rest =>
      rw [hdrop] at hex
      dsimp only at hex
      have hpos : s.p + (rest.length + 1) = data.length := by
        have := congrArg List.length hdrop
        rw [List.length_drop, List.length_cons] at this
        have := hready.pos
        omega
      have hturned := hready.turn hdrop
      have hsound : (s.parser.turn ch rest).Sound len s.parser.state.marks
          (if s.parser.state = .chunkSizeStart then some 0 else none) (rest.length + 1) :=
        turn_sound (hready.inv.core hready.errno) (by omega) fun hs => if_pos hs
      have hout := perform_told hsound (turn_keeps htracks hq (by omega)) h hpos hdata hle hlen
      cases hstep : s.perform data (s.parser.turn ch rest) with
      | next s' =>
        rw [hstep] at hex hturned hout
        obtain ⟨q', t', htells, hq', htracks'⟩ := hout
        have hstart := hturned.start
        exact ih hturned.ready htells htracks' hq' (by dsimp only; omega) hex
      | done ex' =>
        rw [hstep] at hex hout
        cases hex
        exact hout
      | abort =>
        rw [hstep] at hex
        cases hex

/-- **The callbacks of a call are in order**, and their text fits. -/
theorem execute_told {p : Parser} (hinv : p.Inv) (h : p.httpErrno = .ok → p.Tracks t)
    (hdata : data ≠ []) (hle : data.length ≤ len) (hlen : maxHeaderSize + len < 2 ^ 32)
    {ex : Execution Parser} (hex : p.execute data = some ex) : ex.Tells len t := by
  unfold Parser.execute at hex
  by_cases herrno : p.httpErrno = .ok
  · rw [if_neg (not_not.mpr herrno), if_neg hdata] at hex
    have hpos := List.length_pos_iff.mpr hdata
    have hready : p.scan.Ready data := ⟨Nat.zero_le _, hinv, herrno, scan_marks p hpos,
      fun m hm => absurd hm List.not_mem_nil, .inl fun m hm => absurd hm List.not_mem_nil⟩
    exact loop_told hready (scan_tells (h herrno) (hinv.nread herrno)) (h herrno)
      (initialMark_marks p) (Nat.le_add_left ..) hpos hle hlen hex
  · rw [if_pos herrno] at hex
    cases hex
    exact ⟨t, rfl, fun h => absurd h herrno⟩

/-! ### The reads of a connection -/

/-- The callbacks lead from `t` to `v`, and each has room. -/
def Orders (len : Nat) (t : Course) (cbs : List Callback) (v : Course) : Prop :=
  run Course.next t cbs = some v ∧
    Along Course.next (fun t cb => t.text.Fits (textLimit len) true cb) t cbs

theorem Orders.append {cbs cbs' : List Callback} {u : Course} (h : Orders len t cbs u)
    (h' : Orders len u cbs' v) : Orders len t (cbs ++ cbs') v := by
  refine ⟨?_, along_append.mpr ⟨h.2, fun w hw => ?_⟩⟩
  · rw [run_append, h.1]
    exact h'.1
  · cases h.1.symm.trans hw
    exact h'.2

theorem Orders.cons {cb : Callback} {cbs : List Callback} {u : Course}
    (hfits : t.text.Fits (textLimit len) true cb) (hnext : t.next cb = some u)
    (h : Orders len u cbs v) : Orders len t (cb :: cbs) v := by
  refine ⟨run_cons_eq_some.mpr ⟨u, hnext, h.1⟩, hfits, fun w hw => ?_⟩
  cases hnext.symm.trans hw
  exact h.2

/-- A callback, with the parser alone. -/
def Made.raw (m : Made {p : Parser // p.Inv}) : Made Parser := ⟨m.cb, m.pos, m.parser.1, m.exits⟩

@[simp] theorem cb_raw (m : Made {p : Parser // p.Inv}) : m.raw.cb = m.cb := rfl

@[simp] theorem parser_raw (m : Made {p : Parser // p.Inv}) : m.raw.parser = m.parser.1 := rfl

/-- A call of `httpParser`, as one of `http_parser.c`. -/
theorem execute_raw (p : {p : Parser // p.Inv}) (data : List UInt8) :
    p.1.execute data = some ⟨(httpParser.execute p data).made.map Made.raw,
      (httpParser.execute p data).np, (httpParser.execute p data).parser.1⟩ := by
  have hmade : (httpParser.execute p data).made.map Made.raw =
      ((p.1.execute data).get (execute_isSome p.2 data)).made := by
    show ((List.attach _).map _).map Made.raw = _
    rw [List.map_map]
    exact List.attach_map_subtype_val _
  rw [hmade]
  exact (Option.some_get _).symm

/-- The callbacks of a read, up to the first that pauses the parser and to the first copy that
    leaves the buffer. -/
theorem madeBy_orders (on : Callbacks) (pauses : List JsCall → Bool) (g : Progress)
    {made : List (Made {p : Parser // p.Inv})} (h : Told len t (made.map Made.raw) v) :
    ∃ u, Orders len t (madeBy on pauses g made) u ∧
      ∀ g' stop, firstPause on pauses g made = some (g', stop) →
        stop.elim (u = v) fun m => m.parser.1.Tracks u := by
  induction made generalizing g t with
  | nil =>
    obtain rfl := h
    refine ⟨t, ⟨rfl, trivial⟩, ?_⟩
    rintro g' stop ⟨⟩
    rfl
  | cons m made ih =>
    rw [List.map_cons, told_cons, cb_raw, parser_raw] at h
    obtain ⟨hfits, u, hnext, htracks, hrest⟩ := h
    have hstop : Orders len t [m.cb] u := .cons hfits hnext ⟨rfl, trivial⟩
    unfold madeBy firstPause
    cases hstep : step g.context m.cb with
    | none =>
      refine ⟨u, hstop, fun g' stop hfirst => ?_⟩
      rw [Option.bind_none] at hfirst
      contradiction
    | some s =>
      rw [Option.elim_some, Option.bind_some]
      cases hcall : on.call s m.cb with
      | none =>
        obtain ⟨w, horders, hw⟩ := ih { g with context := s } hrest
        exact ⟨w, .cons hfits hnext horders, hw⟩
      | some call =>
        dsimp only
        by_cases hpause : pauses (g.seen ++ [call])
        · -- the parser is left paused, as the callback finds it
          simp only [if_pos hpause]
          refine ⟨u, hstop, ?_⟩
          rintro g' stop ⟨⟩
          exact htracks (Callbacks.callsJs_of_call hcall)
        · simp only [if_neg hpause]
          obtain ⟨w, horders, hw⟩ := ih ⟨s, g.seen ++ [call]⟩ hrest
          exact ⟨w, .cons hfits hnext horders, hw⟩

/-- One read: its callbacks are in order, and the parser it leaves tracks them. -/
theorem read_orders (pauses : List JsCall → Bool) {s : HTTPParser {p : Parser // p.Inv}}
    (h : s.parser.1.httpErrno = .ok → s.parser.1.Tracks t) {r : Read} (hdata : r.data ≠ [])
    (hle : r.data.length ≤ len) (hlen : maxHeaderSize + len < 2 ^ 32) :
    ∃ v, Orders len t (s.made httpParser pauses r) v ∧
      ∀ s', s.step httpParser pauses r = some s' →
        s'.parser.1.httpErrno = .ok → s'.parser.1.Tracks v := by
  obtain ⟨v, htold, hlast⟩ :=
    execute_told s.parser.2 h hdata hle hlen (execute_raw s.parser r.data)
  obtain ⟨u, horders, hstop⟩ := madeBy_orders s.callbacks pauses s.progress htold
  refine ⟨u, horders, fun s' hs' => ?_⟩
  obtain ⟨⟨s'', stop⟩, hread, rfl⟩ := Option.map_eq_some_iff.mp hs'
  obtain ⟨hfirst, -, hparser⟩ := read_spec hread
  have htracks := hstop _ _ hfirst
  rw [hparser]
  cases stop with
  | none =>
    obtain rfl := htracks
    exact hlast
  | some m => exact fun _ => htracks

/-- The reads of a connection, none of them empty or longer than `len`. -/
theorem reads_orders (pauses : List JsCall → Bool) {s : HTTPParser {p : Parser // p.Inv}}
    (h : s.parser.1.httpErrno = .ok → s.parser.1.Tracks t) {reads : List Read}
    (hreads : ∀ r ∈ reads, r.data ≠ [] ∧ r.data.length ≤ len)
    (hlen : maxHeaderSize + len < 2 ^ 32) :
    ∃ v, Orders len t (callbacks httpParser pauses s reads) v := by
  induction reads generalizing s t with
  | nil => exact ⟨t, rfl, trivial⟩
  | cons r reads ih =>
    obtain ⟨hdata, hle⟩ := hreads r List.mem_cons_self
    obtain ⟨u, horders, htracks⟩ := read_orders pauses h hdata hle hlen
    unfold callbacks
    cases hstep : s.step httpParser pauses r with
    | none => exact ⟨u, horders.append ⟨rfl, trivial⟩⟩
    | some s' =>
      obtain ⟨v, hrest⟩ := ih (htracks s' hstep) fun r hr => hreads r (List.mem_cons_of_mem _ hr)
      exact ⟨v, horders.append hrest⟩

theorem init_tracks (type : ParserType) (text : Text) :
    (Parser.init type).Tracks ⟨.idle, text⟩ := by
  cases type
  case request | both => exact rfl
  case response => exact .inl rfl

/-- The stages of callbacks that are in order. -/
theorem run_stage {cbs : List Callback} (h : run Course.next t cbs = some v) :
    run Stage.next t.stage cbs = some v.stage := by
  induction cbs generalizing t with
  | nil =>
    cases h
    rfl
  | cons cb cbs ih =>
    obtain ⟨u, hnext, hrest⟩ := run_cons_eq_some.mp h
    obtain ⟨s, hs, rfl⟩ := Option.map_eq_some_iff.mp hnext
    exact run_cons_eq_some.mpr ⟨s, hs, ih hrest⟩

/-- **The callbacks of a connection are in order**: whatever the peer sends, however it is cut into
    reads and wherever JavaScript pauses the parser.  A message begins, once for each line end in
    front of a response and once more, and has its url, its headers in pairs, their end, its body,
    its trailers and its end before another one begins. -/
theorem callbacks_in_order {type : ParserType} {pauses : List JsCall → Bool}
    {s : HTTPParser {p : Parser // p.Inv}} (hs : s.parser.1 = Parser.init type)
    {reads : List Read}
    (hreads : ∀ r ∈ reads, r.data ≠ [] ∧ maxHeaderSize + r.data.length < 2 ^ 32) :
    ∃ stage, run Stage.next .idle (callbacks httpParser pauses s reads) = some stage := by
  have hshort : ∀ r ∈ reads, r.data ≠ [] ∧ r.data.length ≤ 2 ^ 32 - 1 - maxHeaderSize := by
    intro r hr
    obtain ⟨hdata, hlt⟩ := hreads r hr
    exact ⟨hdata, by omega⟩
  obtain ⟨v, hv, -⟩ := reads_orders pauses (t := ⟨.idle, s.progress.context.text⟩)
    (fun _ => hs ▸ init_tracks type _) hshort (by decide)
  exact ⟨v.stage, run_stage hv⟩

/-- A parser for requests, with a work buffer of this size. -/
def requestServer (size : Nat) (h : size < 2 ^ 32) : HTTPParser {p : Parser // p.Inv} where
  parser := ⟨Parser.init .request, init_inv .request⟩
  callbacks := ⟨true, true, true⟩
  progress := ⟨{ buf := ⟨List.replicate size 0, by rwa [List.length_replicate]⟩ }, []⟩

/-- The second read of a request, behind a pause in the first. -/
theorem callbacks_in_order_get :
    ∃ stage, run Stage.next .idle (callbacks httpParser (fun _ => true)
      (requestServer 32 (by decide)) [.execute get, .plugin (get ++ get)]) = some stage :=
  callbacks_in_order rfl (by decide +kernel)

/-- Room for callbacks in order is room for their text. -/
theorem fitsAll_of_along {length : Nat} {onBody : Bool} {cbs : List Callback}
    (hlength : textLimit len ≤ length) (hrun : run Course.next t cbs = some v)
    (h : Along Course.next (fun t cb => t.text.Fits (textLimit len) true cb) t cbs) :
    FitsAll length onBody t.text cbs := by
  induction cbs generalizing t with
  | nil => trivial
  | cons cb cbs ih =>
    obtain ⟨u, hnext, hrest⟩ := run_cons_eq_some.mp hrun
    obtain ⟨s, hs, rfl⟩ := Option.map_eq_some_iff.mp hnext
    refine ⟨?_, ih hrest (h.2 _ hnext)⟩
    have hfits := h.1
    cases cb with
    | url | headerField | headerValue => exact hfits.trans hlength
    | headersComplete => exact hfits.trans hlength
    | body => exact fun _ => (hfits rfl).trans hlength
    | messageBegin | messageComplete => trivial

/-- **A work buffer of `textLimit` bytes is never left**: whatever the peer sends, in reads of at
    most `len` bytes, and wherever JavaScript pauses the parser. -/
theorem staysInside_of_limit {type : ParserType} {pauses : List JsCall → Bool}
    {s : HTTPParser {p : Parser // p.Inv}} (hs : s.parser.1 = Parser.init type)
    {reads : List Read} (hreads : ∀ r ∈ reads, r.data ≠ [] ∧ r.data.length ≤ len)
    (hlen : maxHeaderSize + len < 2 ^ 32)
    (hbuf : textLimit len ≤ s.progress.context.buf.bytes.length) :
    StaysInside httpParser pauses s reads := by
  obtain ⟨v, hrun, halong⟩ := reads_orders pauses
    (t := ⟨.idle, s.progress.context.text⟩) (fun _ => hs ▸ init_tracks type _) hreads hlen
  exact (staysInside_iff ..).mpr (fitsAll_of_along hbuf hrun halong)

theorem staysInside_of_limit_get :
    StaysInside httpParser (fun _ => false) (requestServer (textLimit 18) (by decide))
      [.execute get, .plugin get] := by
  have hreads : ∀ r ∈ [Read.execute get, .plugin get], r.data ≠ [] ∧ r.data.length ≤ 18 := by
    decide +kernel
  exact staysInside_of_limit rfl hreads (by decide) (Nat.le_of_eq List.length_replicate.symm)

end Dv8.Http
