import Dv8.Http.Moves

namespace Dv8.Http

open Dv8.Lib

/-!
# The parsers a connection reaches

What `Core.turn_sound` says about a turn is lifted to a call of `http_parser_execute`, and from
there to whole connections.

* `perform_sound`, `loop_sound`, `execute_sound` — a move, the loop and a call keep `Parser.Inv`;
* `httpParser` — so `http_parser.c` is an `HttpParser`, with what the reads of `httpParser.cc` take
  for granted;
* `reached_execute` — no `assert` fails, no matter how a connection is cut into reads and where
  JavaScript pauses it, and the fields of the parser stay inside their bits.
-/

/-! ### What is kept -/

/-- What holds of a parser between two reads; behind an error nothing does. -/
structure Parser.Inv (p : Parser) : Prop where
  core : p.httpErrno = .ok → p.toCore.Inv
  nread : p.httpErrno = .ok → p.nread ≤ maxHeaderSize
  /-- `assert(parser->nread == 1)` -/
  chunk : p.httpErrno = .ok → p.state = .chunkSizeStart → p.nread = 0

/-- The marks that are set, none of them behind `p`. -/
def Marks.Holds (a : Marks) (mark : Kind → Option Nat) (p length : Nat) : Prop :=
  match a with
  | .clear => ∀ k, mark k = none
  | .set k => (∃ i, mark k = some i ∧ i ≤ p ∧ i < length) ∧ ∀ j ≠ k, mark j = none
  | .atMost k => (∀ i, mark k = some i → i ≤ p ∧ i < length) ∧ ∀ j ≠ k, mark j = none

/-- A callback behind which there is more to look at. -/
def Made.Early (data : List UInt8) (m : Made Parser) : Prop := m.cb.CallsJs → ¬ m.AtEnd data

/-- What holds of a callback. -/
structure Made.Kept (data : List UInt8) (m : Made Parser) : Prop where
  pos : m.pos ≤ data.length
  inv : m.parser.Inv

/-- Only the last callback may be at the end, and it leaves the parser `q`. -/
def Last (data : List UInt8) (made : List (Made Parser)) (q : Parser) : Prop :=
  (∀ m ∈ made, m.Early data) ∨
    ∃ before m, made = before ++ [m] ∧ (∀ m ∈ before, m.Early data) ∧ m.parser = q

/-- A callback at the end is the last one. -/
theorem Last.at_end {data : List UInt8} {before after : List (Made Parser)} {m : Made Parser}
    {q : Parser} (h : Last data (before ++ m :: after) q) (hjs : m.cb.CallsJs)
    (hend : m.AtEnd data) : after = [] ∧ m.parser = q := by
  rcases h with hearly | ⟨before', m', heq, hearly, hq⟩
  · exact absurd hend (hearly m (by simp) hjs)
  rcases List.eq_nil_or_concat after with rfl | ⟨after', x, rfl⟩
  · obtain ⟨-, hm⟩ := List.append_inj' heq rfl
    obtain rfl := List.singleton_inj.mp hm
    exact ⟨rfl, hq⟩
  · rw [List.concat_eq_append, ← List.cons_append, ← List.append_assoc] at heq
    obtain ⟨rfl, -⟩ := List.append_inj' heq rfl
    exact absurd hend (hearly m (by simp) hjs)

/-- What holds of a call. -/
structure Execution.Sound (data : List UInt8) (ex : Execution Parser) : Prop where
  inv : ex.parser.Inv
  kept : ∀ m ∈ ex.made, m.Kept data
  last : Last data ex.made ex.parser

/-- The variables in the course of a turn that began at `start`. -/
structure Scan.Fits (data : List UInt8) (start : Nat) (a : Marks) (n : Option Nat) (room : Nat)
    (s : Scan) : Prop where
  pos : s.p + room = data.length
  start : start ≤ s.p ∧ start < data.length
  marks : a.Holds s.mark s.p data.length
  counted : ∀ v, n = some v → s.parser.nread = v % 2 ^ 32
  nread : s.parser.nread ≤ maxHeaderSize
  kept : ∀ m ∈ s.made, m.Kept data
  early : ∀ m ∈ s.made, m.Early data

/-- The variables behind a turn, with `p` still at its last byte. -/
structure Scan.Turned (data : List UInt8) (start : Nat) (s : Scan) : Prop where
  start : start ≤ s.p
  room : s.p < data.length
  inv : s.parser.Inv
  errno : s.parser.httpErrno = .ok
  marks : s.parser.state.marks.Holds s.mark s.p data.length
  kept : ∀ m ∈ s.made, m.Kept data
  last : (∀ m ∈ s.made, m.Early data) ∨
    s.p + 1 = data.length ∧ (∀ k, s.mark k = none) ∧ Last data s.made s.parser

/-- What a move comes to when no `assert` fails. -/
def Outcome.Sound (data : List UInt8) (start : Nat) : Outcome → Prop
  | .next s => s.Turned data start
  | .done ex => ex.Sound data
  | .abort => False

/-! ### Marks -/

theorem Marks.Holds.mono {a : Marks} {mark : Kind → Option Nat} {p q length : Nat}
    (h : a.Holds mark p length) (hpq : p ≤ q) : a.Holds mark q length := by
  cases a with
  | clear => exact h
  | set k =>
    obtain ⟨⟨i, hi, hip, hlt⟩, hj⟩ := h
    exact ⟨⟨i, hi, hip.trans hpq, hlt⟩, hj⟩
  | atMost k => exact ⟨fun i hi => ⟨(h.1 i hi).1.trans hpq, (h.1 i hi).2⟩, h.2⟩

/-- A mark is before the end of the data. -/
theorem Marks.Holds.back {a : Marks} {mark : Kind → Option Nat} {p length : Nat}
    (h : a.Holds mark p length) (hp : p = length) : a.Holds mark (p - 1) length := by
  cases a with
  | clear => exact h
  | set k =>
    obtain ⟨⟨i, hi, -, hlt⟩, hj⟩ := h
    exact ⟨⟨i, hi, by omega, hlt⟩, hj⟩
  | atMost k => exact ⟨fun i hi => by have := h.1 i hi; omega, h.2⟩

theorem Marks.Holds.fit {a b : Marks} {mark : Kind → Option Nat} {p length : Nat}
    (h : a.Holds mark p length) (hfit : a.Fit b) : b.Holds mark p length := by
  have hatMost {k : Kind} (h : (Marks.set k).Holds mark p length) :
      (Marks.atMost k).Holds mark p length := by
    obtain ⟨⟨i, hi, hle⟩, hj⟩ := h
    exact ⟨fun i' hi' => Option.some.inj (hi.symm.trans hi') ▸ hle, hj⟩
  cases a with
  | clear =>
    rcases hfit with rfl | ⟨k, rfl⟩
    · exact h
    · exact ⟨fun i hi => absurd ((h k).symm.trans hi) nofun, fun j _ => h j⟩
  | set k =>
    rcases hfit with rfl | rfl
    · exact h
    · exact hatMost h
  | atMost k => exact hfit.elim

/-- No mark but that of `k` is set, and it is not behind `p`. -/
theorem Marks.Holds.only {a : Marks} {mark : Kind → Option Nat} {p length : Nat} {k : Kind}
    (h : a.Holds mark p length) (ha : a.Only k) :
    (∀ i, mark k = some i → i ≤ p ∧ i < length) ∧ ∀ j ≠ k, mark j = none := by
  rcases ha with rfl | rfl | rfl
  · exact ⟨fun i hi => absurd ((h k).symm.trans hi) nofun, fun j _ => h j⟩
  · obtain ⟨⟨i, hi, hle⟩, hj⟩ := h
    exact ⟨fun i' hi' => Option.some.inj (hi.symm.trans hi') ▸ hle, hj⟩
  · exact h

/-- There is a mark that may be set, whatever is known. -/
theorem Marks.exists_only (a : Marks) : ∃ k, a.Only k := by
  cases a with
  | clear => exact ⟨.body, .inl rfl⟩
  | set k => exact ⟨k, .inr (.inl rfl)⟩
  | atMost k => exact ⟨k, .inr (.inr rfl)⟩

/-! ### A move -/

variable {data : List UInt8} {start room len : Nat} {n : Option Nat} {a : Marks} {s : Scan}

/-- A parser in the course of a turn. -/
theorem Scan.stored_inv {c : Core} (hc : c.Inv) (hn : s.parser.nread ≤ maxHeaderSize)
    (hchunk : c.state = .chunkSizeStart → s.parser.nread = 0) : (s.stored c).Inv :=
  ⟨fun _ => hc, fun _ => hn, fun _ => hchunk⟩

theorem mem_snoc {α : Type*} {P : α → Prop} {l : List α} {x : α} (hl : ∀ y ∈ l, P y) (hx : P x) :
    ∀ y ∈ l ++ [x], P y := by
  intro y hy
  rcases List.mem_append.mp hy with hy | hy
  · exact hl y hy
  · exact List.mem_singleton.mp hy ▸ hx

/-- A call that returns behind a turn. -/
theorem Scan.Fits.done (h : s.Fits data start a n room) {ex : Execution Parser}
    (hmade : ex.made = s.made) (hinv : ex.parser.Inv) : ex.Sound data :=
  ⟨hinv, hmade ▸ h.kept, .inl (hmade ▸ h.early)⟩

/-- On to the next byte. -/
theorem Scan.Fits.next (h : s.Fits data start a n room) {c : Core}
    (hm : (Move.next c).Sound len a n room) : (Outcome.next { s with parser := s.stored c }).Sound
      data start := by
  obtain ⟨hc, hfit, hroom, hchunk⟩ := hm
  have hpos := h.pos
  refine ⟨h.start.1, by dsimp only; omega, Scan.stored_inv hc h.nread fun hs => ?_, hc.errno,
    h.marks.fit hfit, h.kept, .inl h.early⟩
  exact h.counted 0 (hchunk hs)

/-- A callback is made, with the byte at `p` or before it. -/
theorem Scan.Fits.callback (h : s.Fits data start a n room) (hroom : 0 < room) {c : Core}
    (hc : c.Inv) (hchunk : c.state ≠ .chunkSizeStart) {cb : Callback} {advance exits : Bool}
    {mark : Kind → Option Nat} (hmark : ∀ k, mark k = none) {m : Move}
    (hends : cb.CallsJs → advance = true ∨ exits = true → m.Ends c)
    (hexits : exits = true → m.returns = true) (hm : m.Sound len .clear n room)
    (ih : ∀ {s : Scan}, s.Fits data start .clear n room →
      (s.perform data m).Sound data start) :
    (({ s with parser := s.stored c, mark := mark,
               made := s.made ++ [⟨cb, s.p + advance.toNat, s.stored c, exits⟩] } :
      Scan).perform data m).Sound data start := by
  have hpos := h.pos
  have hadvance := advance.toNat_le
  have hinv : (s.stored c).Inv := Scan.stored_inv hc h.nread fun hs => absurd hs hchunk
  have hkept := mem_snoc h.kept
    (show Made.Kept data ⟨cb, s.p + advance.toNat, s.stored c, exits⟩ from
      ⟨by dsimp only; omega, hinv⟩)
  by_cases hearly : Made.Early data ⟨cb, s.p + advance.toNat, s.stored c, exits⟩
  · exact ih ⟨hpos, h.start, hmark, h.counted, h.nread, hkept, mem_snoc h.early hearly⟩
  · -- the callback is the last one, and nothing happens to the parser any more
    obtain ⟨hjs, hend⟩ := Classical.not_imp.mp hearly
    rw [not_not] at hend
    have hlast : Last data (s.made ++ [⟨cb, s.p + advance.toNat, s.stored c, exits⟩])
        (s.stored c) := .inr ⟨_, _, rfl, h.early, rfl⟩
    have hadv : advance = true ∨ exits = true := by
      rcases hend with hend | hend
      · left
        dsimp only at hend
        cases advance
        · simp at hend
          omega
        · rfl
      · exact .inr hend
    rcases hends hjs hadv with rfl | ⟨advance', rfl⟩
    · refine ⟨h.start.1, by dsimp only; omega, hinv, hc.errno, ?_, hkept, .inr ⟨?_, hmark, hlast⟩⟩
      · exact (show Marks.Holds .clear mark s.p data.length from hmark).fit hm.2.1
      · rcases hend with hend | hend
        · dsimp only at hend ⊢
          cases advance
          · simp at hend
            omega
          · exact hend
        · exact absurd (hexits hend) nofun
    · exact ⟨hinv, hkept, hlast⟩

/-- **A sound move goes through.** -/
theorem perform_sound {m : Move} (hm : m.Sound len a n room) (h : s.Fits data start a n room) :
    (s.perform data m).Sound data start := by
  induction m generalizing s a n room with
  | next c => exact h.next hm
  | ret c advance =>
    obtain ⟨hc, -, -, -, hchunk, -⟩ := hm
    exact h.done rfl (Scan.stored_inv hc h.nread fun hs => absurd hs hchunk)
  | fail c e => exact h.done rfl ⟨fun he => absurd he hm, fun he => absurd he hm,
      fun he => absurd he hm⟩
  | abort => exact hm
  | mark k m ih =>
    obtain ⟨hk, hroom, hm⟩ := hm
    obtain ⟨hi, hj⟩ := h.marks.only hk
    have hpos := h.pos
    refine ih hm ⟨h.pos, h.start, ⟨⟨_, Function.update_self .., ?_⟩, fun j hjk => ?_⟩, h.counted,
      h.nread, h.kept, h.early⟩
    · cases hmark : s.mark k with
      | none => exact ⟨Nat.le_refl _, by rw [Option.getD_none]; omega⟩
      | some i => exact hi i hmark
    · exact (Function.update_of_ne hjk ..).trans (hj j hjk)
  | data k c whole advance m ih =>
    obtain ⟨hk, -, hroom, hc, hchunk, hends, hm⟩ := hm
    obtain ⟨hi, hj⟩ := h.marks.only hk
    have hclear : ∀ j, Function.update s.mark k none j = none := by
      intro j
      by_cases hjk : j = k
      · rw [hjk, Function.update_self]
      · rw [Function.update_of_ne hjk, hj j hjk]
    unfold Scan.perform Scan.data
    cases hmark : s.mark k with
    | none =>
      refine ih hm ⟨h.pos, h.start, fun j => ?_, h.counted, h.nread, h.kept, h.early⟩
      by_cases hjk : j = k
      · rw [hjk, hmark]
      · exact hj j hjk
    | some i =>
      have hle := (hi i hmark).1
      dsimp only
      rw [if_neg (by omega)]
      dsimp only
      cases hcb : k.callback (slice data i (s.p + whole.toNat - i)) with
      | none => exact ih hm ⟨h.pos, h.start, hclear, h.counted, h.nread, h.kept, h.early⟩
      | some cb =>
        refine h.callback hroom hc hchunk hclear (fun hjs hadv => ?_) nofun hm (ih hm)
        refine hends ?_ (hadv.resolve_right nofun)
        cases k <;> cases hcb <;> first | rfl | exact hjs.elim
  | notify cb c advance m ih =>
    obtain ⟨rfl, hroom, hc, hchunk, hends, hm⟩ := hm
    exact h.callback hroom hc hchunk h.marks (fun _ => hends) id hm (ih hm)
  | count v c m ih =>
    obtain ⟨-, hm⟩ := hm
    unfold Scan.perform
    dsimp only
    split
    · exact h.done rfl ⟨nofun, nofun, nofun⟩
    · rename_i hle
      refine ih hm ⟨h.pos, h.start, h.marks, ?_, Nat.le_of_not_lt hle, h.kept, h.early⟩
      intro w hw
      obtain ⟨u, rfl, rfl⟩ := Option.map_eq_some_iff.mp hw
      dsimp only
      rw [h.counted u rfl, Nat.mod_add_mod]
  | reset m ih =>
    refine ih hm ⟨h.pos, h.start, h.marks, ?_, Nat.zero_le _, h.kept, h.early⟩
    rintro v ⟨⟩
    rfl
  | counted m ih =>
    obtain ⟨rfl, hm⟩ := hm
    unfold Scan.perform
    rw [if_pos (show s.parser.nread = 1 from h.counted 1 rfl)]
    exact ih hm h
  | skip v m ih =>
    obtain ⟨-, hv, hm⟩ := hm
    have hpos := h.pos
    refine ih hm ⟨?_, ⟨h.start.1.trans (Nat.le_add_right ..), h.start.2⟩,
      h.marks.mono (Nat.le_add_right ..), h.counted, h.nread, h.kept, h.early⟩
    dsimp only
    omega
  | back m ih =>
    obtain ⟨rfl, -, hm⟩ := hm
    have hpos := h.pos
    have hstart := h.start
    refine ih hm ⟨?_, ⟨?_, hstart.2⟩, h.marks.back hpos, h.counted, h.nread, h.kept, h.early⟩ <;>
      (dsimp only; omega)

/-! ### The loop -/

/-- The variables in front of a turn. -/
structure Scan.Ready (data : List UInt8) (s : Scan) : Prop where
  pos : s.p ≤ data.length
  inv : s.parser.Inv
  errno : s.parser.httpErrno = .ok
  marks : s.parser.state.marks.Holds s.mark s.p data.length
  kept : ∀ m ∈ s.made, m.Kept data
  last : (∀ m ∈ s.made, m.Early data) ∨
    s.p = data.length ∧ (∀ k, s.mark k = none) ∧ Last data s.made s.parser

/-- A turn of the loop. -/
theorem Scan.Ready.turn (h : s.Ready data) {ch : UInt8} {rest : List UInt8}
    (hdrop : data.drop s.p = ch :: rest) :
    (s.perform data (s.parser.turn ch rest)).Sound data s.p := by
  have hlength : s.p + (rest.length + 1) = data.length := by
    have := congrArg List.length hdrop
    rw [List.length_drop, List.length_cons] at this
    have := h.pos
    omega
  have hearly := h.last.resolve_right fun hend => by omega
  let n := if s.parser.state = .chunkSizeStart then some 0 else none
  have hn : s.parser.state = .chunkSizeStart → n = some 0 := fun hs => if_pos hs
  refine perform_sound (turn_sound (h.inv.core h.errno) (Nat.le_refl _) hn)
    ⟨hlength, ⟨Nat.le_refl _, ?_⟩, h.marks, fun v hv => ?_, h.inv.nread h.errno, h.kept, hearly⟩
  · omega
  · by_cases hs : s.parser.state = .chunkSizeStart
    · obtain rfl := Option.some.inj ((hn hs).symm.trans hv)
      exact h.inv.chunk h.errno hs
    · exact absurd ((if_neg hs).symm.trans hv) nofun

/-- The variables behind a turn are those in front of the next. -/
theorem Scan.Turned.ready (h : s.Turned data start) : ({ s with p := s.p + 1 } : Scan).Ready data :=
  ⟨h.room, h.inv, h.errno, h.marks.mono (Nat.le_succ _), h.kept, h.last⟩

/-- The callbacks with that for the bytes from a mark on. -/
def called (made : List (Made Parser)) (k : Kind) (buf : List UInt8) (pos : Nat) (q : Parser) :
    List (Made Parser) :=
  match k.callback buf with
  | some cb => made ++ [⟨cb, pos, q, false⟩]
  | none => made

/-- No mark is left. -/
theorem finish_clear (h : ∀ k, s.mark k = none) :
    s.finish data = some ⟨s.made, data.length, s.parser⟩ := by
  simp [Scan.finish, Scan.data, kinds, h]

/-- One mark is left. -/
theorem finish_set (hp : s.p = data.length) {k : Kind} {i : Nat} (hk : s.mark k = some i)
    (hi : i ≤ s.p) (hj : ∀ j ≠ k, s.mark j = none) :
    s.finish data = some ⟨called s.made k (slice data i (data.length - i)) data.length s.parser,
      data.length, s.parser⟩ := by
  have hlt : ¬ s.p < i := Nat.not_lt.mpr hi
  cases k <;>
    simp [Scan.finish, Scan.data, kinds, hk, hj, Scan.stored, ← hp, hlt, Function.update,
      Kind.callback, called]

/-- The mark that may be left at the end of the data is called back, with the parser that the
    call leaves. -/
theorem Scan.Ready.finish (h : s.Ready data) (hp : s.p = data.length) :
    ∃ ex, s.finish data = some ex ∧ ex.Sound data := by
  obtain ⟨k, hk⟩ := s.parser.state.marks.exists_only
  obtain ⟨hi, hj⟩ := h.marks.only hk
  cases hmark : s.mark k with
  | none =>
    have hnone : ∀ j, s.mark j = none := fun j => by
      by_cases hjk : j = k
      · rw [hjk, hmark]
      · exact hj j hjk
    exact ⟨_, finish_clear hnone, h.inv, h.kept, h.last.elim .inl fun hend => hend.2.2⟩
  | some i =>
    have hearly : ∀ m ∈ s.made, m.Early data := h.last.resolve_right fun hend => by
      rw [hend.2.1 k] at hmark
      exact absurd hmark nofun
    refine ⟨_, finish_set hp hmark (hi i hmark).1 hj, h.inv, ?_, ?_⟩
    · unfold called
      cases k.callback (slice data i (data.length - i)) with
      | none => exact h.kept
      | some cb => exact mem_snoc h.kept ⟨Nat.le_refl _, h.inv⟩
    · unfold called
      cases k.callback (slice data i (data.length - i)) with
      | none => exact .inl hearly
      | some cb => exact .inr ⟨_, _, rfl, hearly, rfl⟩

theorem loop_sound {fuel : Nat} (h : s.Ready data) (hfuel : data.length ≤ s.p + fuel) :
    ∃ ex, Scan.loop data fuel s = some ex ∧ ex.Sound data := by
  induction fuel generalizing s with
  | zero => exact h.finish (Nat.le_antisymm h.pos hfuel)
  | succ fuel ih =>
    unfold Scan.loop
    cases hdrop : data.drop s.p with
    | nil => exact h.finish (Nat.le_antisymm h.pos (List.drop_eq_nil_iff.mp hdrop))
    | cons ch rest =>
      have hturn := h.turn hdrop
      dsimp only
      cases hout : s.perform data (s.parser.turn ch rest) with
      | next t =>
        rw [hout] at hturn
        have := hturn.start
        exact ih hturn.ready (by dsimp only; omega)
      | done ex =>
        rw [hout] at hturn
        exact ⟨ex, rfl, hturn⟩
      | abort =>
        rw [hout] at hturn
        exact hturn.elim

/-! ### A call -/

theorem State.marks_of_initialMark {st : State} {k : Kind} (h : st.initialMark = some k) :
    st.marks = .set k := by
  cases st <;> cases h <;> rfl

theorem State.marks_fit {st : State} (h : st.initialMark = none) : Marks.clear.Fit st.marks := by
  have hmarks : st.marks = .clear ∨ st.marks = .atMost .body := by
    cases st <;> simp [State.marks, State.initialMark] at h ⊢
  exact hmarks.imp_right fun heq => ⟨_, heq⟩

/-- The marks in front of the loop. -/
theorem scan_marks (p : Parser) {length : Nat} (hlength : 0 < length) :
    p.state.marks.Holds p.scan.mark 0 length := by
  unfold Parser.scan
  dsimp only
  cases hk : p.state.initialMark with
  | none => exact Marks.Holds.fit (a := .clear) (fun _ => rfl) (State.marks_fit hk)
  | some k =>
    rw [State.marks_of_initialMark hk]
    exact ⟨⟨0, if_pos rfl, Nat.le_refl _, hlength⟩, fun j hj =>
      if_neg fun h => hj (Option.some.inj h).symm⟩

/-- The end of the connection. -/
theorem eof_sound {p : Parser} (h : p.Inv) : p.eof.Sound [] := by
  have hnone : ∀ m : Made Parser, m ∉ [] := fun m => List.not_mem_nil
  have hend {np : Nat} {q : Parser} (hq : q.Inv) : Execution.Sound [] ⟨[], np, q⟩ :=
    ⟨hq, fun m hm => absurd hm (hnone m), .inl fun m hm => absurd hm (hnone m)⟩
  unfold Parser.eof
  split
  · exact ⟨h, mem_snoc (fun m hm => absurd hm (hnone m)) ⟨Nat.le_refl _, h⟩,
      .inr ⟨[], _, rfl, fun m hm => absurd hm (hnone m), rfl⟩⟩
  all_goals first | exact hend h | exact hend ⟨nofun, nofun, nofun⟩

/-- **A call goes through**, and keeps what holds of a parser. -/
theorem execute_sound {p : Parser} (h : p.Inv) (data : List UInt8) :
    ∃ ex, p.execute data = some ex ∧ ex.Sound data := by
  have hnone : ∀ m : Made Parser, m ∉ [] := fun m => List.not_mem_nil
  unfold Parser.execute
  by_cases herrno : p.httpErrno = .ok
  · rw [if_neg (not_not.mpr herrno)]
    by_cases hdata : data = []
    · rw [if_pos hdata, hdata]
      exact ⟨_, rfl, eof_sound h⟩
    · rw [if_neg hdata]
      have hlength := List.length_pos_iff.mpr hdata
      exact loop_sound ⟨Nat.zero_le _, h, herrno, scan_marks p hlength,
        fun m hm => absurd hm (hnone m), .inl fun m hm => absurd hm (hnone m)⟩ (Nat.le_add_left ..)
  · rw [if_pos herrno]
    exact ⟨_, rfl, h, fun m hm => absurd hm (hnone m), .inl fun m hm => absurd hm (hnone m)⟩

/-! ### Connections -/

/-- `http_parser_init` -/
theorem init_inv (t : ParserType) : (Parser.init t).Inv := by
  have hlength : (0 : Nat) ≤ ULLONG_MAX := Nat.zero_le _
  cases t <;>
    exact ⟨fun _ => ⟨⟨rfl, Nat.zero_le _, hlength, Nat.zero_le _⟩, trivial⟩,
      fun _ => Nat.zero_le _, fun _ => State.noConfusion⟩

theorem execute_isSome {p : Parser} (h : p.Inv) (data : List UInt8) :
    (p.execute data).isSome = true := by
  obtain ⟨ex, hex, -⟩ := execute_sound h data
  rw [hex]
  rfl

theorem get_sound {p : Parser} (h : p.Inv) (data : List UInt8) :
    ((p.execute data).get (execute_isSome h data)).Sound data := by
  obtain ⟨ex, hex, hsound⟩ := execute_sound h data
  exact (Option.get_of_eq_some _ hex).symm ▸ hsound

/-- A call, for parsers that keep the invariant. -/
def executeInv (p : {p : Parser // p.Inv}) (data : List UInt8) :
    Execution {p : Parser // p.Inv} :=
  let ex := (p.1.execute data).get (execute_isSome p.2 data)
  { made := ex.made.attach.map fun m =>
      ⟨m.1.cb, m.1.pos, ⟨m.1.parser, ((get_sound p.2 data).kept m.1 m.2).inv⟩, m.1.exits⟩
    np := ex.np
    parser := ⟨ex.parser, (get_sound p.2 data).inv⟩ }

/-- A callback of such a call is one of `http_parser.c`. -/
theorem mem_executeInv {p : {p : Parser // p.Inv}} {data : List UInt8}
    {m : Made {p : Parser // p.Inv}} (hm : m ∈ (executeInv p data).made) :
    (⟨m.cb, m.pos, m.parser.1, m.exits⟩ : Made Parser) ∈
      ((p.1.execute data).get (execute_isSome p.2 data)).made := by
  obtain ⟨m', -, rfl⟩ := List.mem_map.mp hm
  exact m'.2

/-- `http_parser.c` is what `httpParser.cc` takes it for. -/
def httpParser : HttpParser {p : Parser // p.Inv} where
  execute := executeInv
  errno p := p.1.httpErrno.ctorIdx
  pos_le := by
    intro p data m hm _
    exact ((get_sound p.2 data).kept _ (mem_executeInv hm)).pos
  last := by
    intro p data before m after hmade hjs hend
    have hmap : ((p.1.execute data).get (execute_isSome p.2 data)).made =
        (executeInv p data).made.map fun m => ⟨m.cb, m.pos, m.parser.1, m.exits⟩ := by
      unfold executeInv
      dsimp only
      rw [List.map_map]
      exact (List.attach_map_subtype_val _).symm
    rw [hmade, List.map_append, List.map_cons] at hmap
    have hlast := (get_sound p.2 data).last
    rw [hmap] at hlast
    obtain ⟨hafter, hparser⟩ := hlast.at_end hjs hend
    exact ⟨List.map_eq_nil_iff.mp hafter, Subtype.ext hparser.symm⟩

/-- The parsers of `http_parser.c` that a connection reaches: from `http_parser_init`, by reads,
    and by a callback that has left the parser paused. -/
inductive Reached : Parser → Prop
  | init (t : ParserType) : Reached (Parser.init t)
  | read {p : Parser} {data : List UInt8} {ex : Execution Parser} (h : Reached p)
      (hex : p.execute data = some ex) : Reached ex.parser
  | paused {p : Parser} {data : List UInt8} {ex : Execution Parser} {m : Made Parser}
      (h : Reached p) (hex : p.execute data = some ex) (hm : m ∈ ex.made) : Reached m.parser

theorem Reached.inv {p : Parser} (h : Reached p) : p.Inv := by
  induction h with
  | init t => exact init_inv t
  | read _ hex ih =>
    obtain ⟨ex', heq, hsound⟩ := execute_sound ih _
    exact Option.some.inj (hex.symm.trans heq) ▸ hsound.inv
  | paused _ hex hm ih =>
    obtain ⟨ex', heq, hsound⟩ := execute_sound ih _
    obtain rfl := Option.some.inj (hex.symm.trans heq)
    exact (hsound.kept _ hm).inv

/-- **No `assert` of `http_parser_execute` fails**, in any parser that a connection reaches, and
    until there is an error its counters stay inside their fields. -/
theorem reached_execute {p : Parser} (h : Reached p) (data : List UInt8) :
    (∃ ex, p.execute data = some ex) ∧
      (p.httpErrno = .ok → p.nread ≤ maxHeaderSize ∧ p.index < 2 ^ 7 ∧ p.statusCode < 2 ^ 16 ∧
        p.contentLength < 2 ^ 64) := by
  obtain ⟨ex, hex, -⟩ := execute_sound h.inv data
  refine ⟨⟨ex, hex⟩, fun herrno => ?_⟩
  obtain ⟨⟨-, hindex, hlength, hstatus⟩, -⟩ := h.inv.core herrno
  have hlt : ULLONG_MAX < 2 ^ 64 := by decide
  exact ⟨h.inv.nread herrno, by omega, by omega, hlength.trans_lt hlt⟩

/-- The second read of a request, with a header that goes on in the third. -/
theorem reached_execute_read :
    ∃ ex, (Parser.init .request).execute (ascii "GET / HTTP/1.1\r\nHo") = some ex ∧
      (∃ ex', ex.parser.execute (ascii "st: ") = some ex') ∧
      (ex.parser.httpErrno = .ok → ex.parser.nread ≤ maxHeaderSize ∧ ex.parser.index < 2 ^ 7 ∧
        ex.parser.statusCode < 2 ^ 16 ∧ ex.parser.contentLength < 2 ^ 64) := by
  have hfirst : ((Parser.init .request).execute (ascii "GET / HTTP/1.1\r\nHo")).isSome = true := rfl
  obtain ⟨ex, hex⟩ := Option.isSome_iff_exists.mp hfirst
  exact ⟨ex, hex, reached_execute ((Reached.init .request).read hex) (ascii "st: ")⟩

end Dv8.Http
