import Dv8.Http.Chunks

namespace Dv8.Http

open Dv8.Lib

/-!
# One byte at a time

What the parser does with text that comes one byte at a time.  By `feed_chunks` this is what it
does with the text however it is cut, and a byte alone takes one turn of the loop.

* `Parser.Takes` — the parser takes the bytes, with these callbacks;
* `Core.Runs` — the same inside a head, where `nread` grows by at most two a byte;
* `runs_next`, `runs_mark`, … — the byte, for each form a move can have.
-/

variable {p q r : Parser} {xs ys : List UInt8} {cbs cbs' : List Callback}

/-! ### Takes -/

/-- The parser takes the bytes one at a time and is left as `q`; the callbacks say `cbs`. -/
def Parser.Takes (p : Parser) (xs : List UInt8) (cbs : List Callback) (q : Parser) : Prop :=
  ∃ made, p.feed (xs.map ([·])) = some (made, q) ∧ pieces.gather made = pieces.gather cbs

theorem Parser.Takes.refl (p : Parser) : p.Takes [] [] p := ⟨[], rfl, rfl⟩

/-- What two sequences of reads come to, one behind the other. -/
theorem feed_append {reads reads' : List (List UInt8)} (h : p.feed reads = some (cbs, q))
    (h' : q.feed reads' = some (cbs', r)) :
    p.feed (reads ++ reads') = some (cbs ++ cbs', r) := by
  induction reads generalizing p cbs with
  | nil =>
    cases h
    exact h'
  | cons d reads ih =>
    obtain ⟨ex, cbs₁, hex, hthrough, hrest, rfl⟩ := feed_cons_eq_some.mp h
    rw [List.cons_append, List.append_assoc]
    exact feed_cons_eq_some.mpr ⟨ex, _, hex, hthrough, ih hrest, rfl⟩

theorem Parser.Takes.append (h : p.Takes xs cbs q) (h' : q.Takes ys cbs' r) :
    p.Takes (xs ++ ys) (cbs ++ cbs') r := by
  obtain ⟨made, hfeed, hmade⟩ := h
  obtain ⟨made', hfeed', hmade'⟩ := h'
  refine ⟨made ++ made', ?_, ?_⟩
  · rw [List.map_append]
    exact feed_append hfeed hfeed'
  · rw [gather_congr hmade]
    exact gather_congr_right hmade' cbs

/-- Other callbacks that say the same. -/
theorem Parser.Takes.congr (h : p.Takes xs cbs q)
    (hcbs : pieces.gather cbs = pieces.gather cbs') : p.Takes xs cbs' q := by
  obtain ⟨made, hfeed, hmade⟩ := h
  exact ⟨made, hfeed, hmade.trans hcbs⟩

/-! ### A byte -/

/-- A byte whose turn goes on to the next one. -/
theorem takes_byte {b : UInt8} {t : Scan} {a : Marks} (hok : p.httpErrno = .ok)
    (hturn : p.scan.perform [b] (p.turn b []) = .next t) (hp : t.p = 0)
    (hmarks : a.Holds t.mark 1 1) (herrno : t.parser.httpErrno = .ok)
    (hupgrade : t.parser.upgrade = false) :
    p.Takes [b] ({ t with p := 1 }.events [b]) t.parser := by
  obtain ⟨made, hfinish, hmade⟩ := finish_events [b] (s := { t with p := 1 }) rfl hmarks
  refine ⟨made.map Made.cb ++ [], ?_, by rw [List.append_nil, hmade]⟩
  refine feed_cons_eq_some.mpr
    ⟨⟨made, 1, t.parser⟩, [], ?_, ⟨rfl, herrno, hupgrade⟩, rfl, rfl⟩
  rw [execute_eq_loop hok (List.cons_ne_nil _ _),
    show [b].length = 0 + 1 from rfl, loop_of_next (s := p.scan) rfl hturn, hp]
  exact hfinish

/-- A byte whose turn leaves no mark. -/
theorem takes_clear {b : UInt8} {t : Scan} (hok : p.httpErrno = .ok)
    (hturn : p.scan.perform [b] (p.turn b []) = .next t) (hp : t.p = 0)
    (hmarks : ∀ k, t.mark k = none) (herrno : t.parser.httpErrno = .ok)
    (hupgrade : t.parser.upgrade = false) : p.Takes [b] (t.made.map Made.cb) t.parser := by
  have htakes := takes_byte (a := .clear) hok hturn hp hmarks herrno hupgrade
  rwa [events_clear (s := { t with p := 1 }) hmarks] at htakes

/-- A byte whose turn leaves a mark in front of it. -/
theorem takes_set {b : UInt8} {t : Scan} {k : Kind} (hok : p.httpErrno = .ok)
    (hturn : p.scan.perform [b] (p.turn b []) = .next t) (hp : t.p = 0)
    (hk : t.mark k = some 0) (hl : ∀ l ≠ k, t.mark l = none)
    (herrno : t.parser.httpErrno = .ok) (hupgrade : t.parser.upgrade = false) :
    p.Takes [b] (t.made.map Made.cb ++ (k.callback [b]).toList) t.parser := by
  have hmarks : (Marks.set k).Holds t.mark 1 1 :=
    ⟨⟨0, hk, Nat.zero_le _, Nat.one_pos⟩, hl⟩
  have htakes := takes_byte hok hturn hp hmarks herrno hupgrade
  rwa [events_set (s := { t with p := 1 }) hk hl] at htakes

/-! ### Bytes of a head -/

variable {c c' d : Core} {b : UInt8} {k : Kind}

/-- Nothing has gone wrong, and the connection has not been handed over. -/
structure Core.Live (c : Core) : Prop where
  errno : c.httpErrno = .ok
  upgrade : c.upgrade = false

/-- The parser takes the bytes one at a time, as far as `nread` allows: a byte counts once or
    twice. -/
def Core.Runs (c : Core) (xs : List UInt8) (cbs : List Callback) (c' : Core) : Prop :=
  ∀ n, n + 2 * xs.length ≤ maxHeaderSize →
    ∃ n' ≤ n + 2 * xs.length, Parser.Takes ⟨c, n⟩ xs cbs ⟨c', n'⟩

theorem Core.Runs.refl (c : Core) : c.Runs [] [] c :=
  fun n _ => ⟨n, Nat.le_refl n, .refl _⟩

theorem Core.Runs.append {c'' : Core} (h : c.Runs xs cbs c') (h' : c'.Runs ys cbs' c'') :
    c.Runs (xs ++ ys) (cbs ++ cbs') c'' := by
  intro n hn
  rw [List.length_append] at hn ⊢
  obtain ⟨n₁, hn₁, htakes⟩ := h n (by omega)
  obtain ⟨n₂, hn₂, htakes'⟩ := h' n₁ (by omega)
  exact ⟨n₂, by omega, htakes.append htakes'⟩

theorem Core.Runs.congr (h : c.Runs xs cbs c') (hcbs : pieces.gather cbs = pieces.gather cbs') :
    c.Runs xs cbs' c' := by
  intro n hn
  obtain ⟨n', hn', htakes⟩ := h n hn
  exact ⟨n', hn', htakes.congr hcbs⟩

/-- The marks in front of the byte. -/
def Core.marked (c : Core) (k : Kind) : Option Nat :=
  if c.state.initialMark = some k then some 0 else none

theorem marked_none (hmark : c.state.initialMark = none) (k : Kind) : c.marked k = none :=
  if_neg (by rw [hmark]; exact nofun)

theorem marked_some (hmark : c.state.initialMark = some k) :
    c.marked k = some 0 ∧ ∀ l ≠ k, c.marked l = none :=
  ⟨if_pos hmark, fun _ hl => if_neg fun h => hl (Option.some.inj (h.symm.trans hmark))⟩

/-- The turn of a byte of a head. -/
theorem perform_turn {n : Nat} (hhead : c.state.parsingHeader = true)
    (hn : n + 2 ≤ maxHeaderSize) :
    (Parser.scan ⟨c, n⟩).perform [b] (c.turn b []) =
      Scan.perform [b] ⟨⟨c, n + 1⟩, 0, c.marked, []⟩ (c.switch b []) := by
  unfold Core.turn
  rw [if_pos hhead, perform_count (s := Parser.scan ⟨c, n⟩) (Nat.le_of_succ_le hn)]
  rfl

/-- A byte that is only counted. -/
theorem runs_next (h : c.Live) (hhead : c.state.parsingHeader = true)
    (hmark : c.state.initialMark = none) (hm : c.switch b [] = .next c') (h' : c'.Live) :
    c.Runs [b] [] c' := by
  intro n hn
  refine ⟨n + 1, by simp, takes_clear (t := ⟨⟨c', n + 1⟩, 0, c.marked, []⟩) h.errno ?_ rfl
    (marked_none hmark) h'.errno h'.upgrade⟩
  rw [perform_turn hhead hn, hm]
  rfl

/-- A byte with a callback. -/
theorem runs_notify {cb : Callback} (h : c.Live) (hhead : c.state.parsingHeader = true)
    (hmark : c.state.initialMark = none) (hm : c.switch b [] = .notify cb d true (.next c'))
    (h' : c'.Live) : c.Runs [b] [cb] c' := by
  intro n hn
  refine ⟨n + 1, by simp, takes_clear
    (t := ⟨⟨c', n + 1⟩, 0, c.marked, [⟨cb, 1, ⟨d, n + 1⟩, false⟩]⟩) h.errno ?_ rfl
    (marked_none hmark) h'.errno h'.upgrade⟩
  rw [perform_turn hhead hn, hm]
  rfl

/-- The first byte of an element. -/
theorem runs_mark (h : c.Live) (hhead : c.state.parsingHeader = true)
    (hmark : c.state.initialMark = none) (hm : c.switch b [] = .mark k (.next c'))
    (h' : c'.Live) : c.Runs [b] (k.callback [b]).toList c' := by
  intro n hn
  have hnone := marked_none hmark
  refine ⟨n + 1, by simp, takes_set
    (t := ⟨⟨c', n + 1⟩, 0, Function.update c.marked k (some 0), []⟩) h.errno ?_ rfl
    (Function.update_self ..) (fun l hl => ?_) h'.errno h'.upgrade⟩
  · rw [perform_turn hhead hn, hm, Scan.perform]
    dsimp only
    rw [hnone k]
    rfl
  · exact (Function.update_of_ne hl ..).trans (hnone l)

/-- Another byte of an element. -/
theorem runs_more (h : c.Live) (hhead : c.state.parsingHeader = true)
    (hmark : c.state.initialMark = some k) (hm : c.switch b [] = .next c') (h' : c'.Live) :
    c.Runs [b] (k.callback [b]).toList c' := by
  intro n hn
  obtain ⟨hk, hl⟩ := marked_some hmark
  refine ⟨n + 1, by simp, takes_set (t := ⟨⟨c', n + 1⟩, 0, c.marked, []⟩) h.errno ?_ rfl hk hl
    h'.errno h'.upgrade⟩
  rw [perform_turn hhead hn, hm]
  rfl

/-- Another byte of an element that a loop looks at. -/
theorem runs_loop (h : c.Live) (hhead : c.state.parsingHeader = true)
    (hmark : c.state.initialMark = some k)
    (hm : c.switch b [] = .skip 1 (.count 1 c' (.back (.next c')))) (h' : c'.Live) :
    c.Runs [b] (k.callback [b]).toList c' := by
  intro n hn
  obtain ⟨hk, hl⟩ := marked_some hmark
  refine ⟨n + 2, by simp, takes_set (t := ⟨⟨c', n + 2⟩, 0, c.marked, []⟩) h.errno ?_ rfl hk hl
    h'.errno h'.upgrade⟩
  rw [perform_turn hhead hn, hm, Scan.perform, perform_count hn]
  rfl

/-- The callback for what is marked in front of the byte. -/
theorem data_marked {s : Scan} (c : Core) (advance : Bool) (hp : s.p = 0) (hk : s.mark k = some 0)
    (hl : ∀ l ≠ k, s.mark l = none) :
    ∃ t, s.data [b] k c false advance = some t ∧ t.p = 0 ∧ (∀ l, t.mark l = none) ∧
      t.parser = s.stored c ∧
      t.made.map Made.cb = s.made.map Made.cb ++ (k.callback []).toList := by
  unfold Scan.data
  rw [hk, hp]
  refine ⟨_, rfl, rfl, fun l => ?_, rfl, ?_⟩
  · by_cases hlk : l = k
    · rw [hlk]
      exact Function.update_self ..
    · exact (Function.update_of_ne hlk ..).trans (hl l hlk)
  · cases h : k.callback [] <;> simp [h]

theorem perform_data {data : List UInt8} {s t : Scan} {whole advance : Bool} {m : Move}
    (h : s.data data k c whole advance = some t) :
    s.perform data (.data k c whole advance m) = t.perform data m := by
  rw [Scan.perform, h]

theorem perform_next {s : Scan} {n : Nat} (hs : s.parser = ⟨d, n⟩) :
    s.perform [b] (.next c') = .next { s with parser := ⟨c', n⟩ } := by
  rw [Scan.perform, Scan.stored, hs]

/-- The byte behind an element, whose turn comes to the callback for the element. -/
theorem runs_behind (a d : Core) (advance : Bool) (m : Move) (h : c.Live)
    (hhead : c.state.parsingHeader = true) (hmark : c.state.initialMark = some k)
    (hm : ∀ n, n + 1 ≤ maxHeaderSize →
      Scan.perform [b] ⟨⟨c, n⟩, 0, c.marked, []⟩ (c.switch b []) =
        Scan.perform [b] ⟨⟨a, n⟩, 0, c.marked, []⟩ (.data k d false advance m))
    (hnext : ∀ (s : Scan) n, n + 1 ≤ maxHeaderSize → s.p = 0 → s.parser = ⟨d, n⟩ →
      s.perform [b] m = .next { s with parser := ⟨c', n⟩ })
    (h' : c'.Live) : c.Runs [b] (k.callback []).toList c' := by
  intro n hn
  obtain ⟨hk, hl⟩ := marked_some hmark
  obtain ⟨t, ht, hp, hnone, hparser, hmade⟩ := data_marked (b := b)
    (s := ⟨⟨a, n + 1⟩, 0, c.marked, []⟩) d advance rfl hk hl
  have htakes := takes_clear (p := ⟨c, n⟩) (b := b) (t := { t with parser := ⟨c', n + 1⟩ })
    h.errno ?_ hp hnone h'.errno h'.upgrade
  · rw [show ({ t with parser := ⟨c', n + 1⟩ } : Scan).made = t.made from rfl, hmade] at htakes
    exact ⟨n + 1, by simp, htakes⟩
  · rw [perform_turn hhead hn, hm (n + 1) hn, perform_data ht]
    exact hnext t (n + 1) hn hp hparser

/-- The byte behind an element. -/
theorem runs_data (h : c.Live) (hhead : c.state.parsingHeader = true)
    (hmark : c.state.initialMark = some k)
    (hm : c.switch b [] = .data k c' false true (.next c')) (h' : c'.Live) :
    c.Runs [b] (k.callback []).toList c' := by
  refine runs_behind c c' true (.next c') h hhead hmark (fun n _ => ?_)
    (fun s n _ _ => perform_next) h'
  rw [hm]

/-- The byte behind a field. -/
theorem runs_field_end (h : c.Live) (hhead : c.state.parsingHeader = true)
    (hmark : c.state.initialMark = some k)
    (hm : c.switch b [] = .skip 0 (.count 0 d (.data k c' false true (.next c'))))
    (h' : c'.Live) : c.Runs [b] (k.callback []).toList c' := by
  refine runs_behind d c' true (.next c') h hhead hmark (fun n hn => ?_)
    (fun s n _ _ => perform_next) h'
  have hcount : n + 0 ≤ maxHeaderSize := Nat.le_of_succ_le hn
  rw [hm]
  exact perform_count (s := ⟨⟨c, n⟩, 0, c.marked, []⟩) hcount

/-- The byte behind a value. -/
theorem runs_value_end (h : c.Live) (hhead : c.state.parsingHeader = true)
    (hmark : c.state.initialMark = some k)
    (hm : c.switch b [] = .skip 0 (.data k c' false true (.count 0 c' (.next c'))))
    (h' : c'.Live) : c.Runs [b] (k.callback []).toList c' := by
  refine runs_behind c c' true (.count 0 c' (.next c')) h hhead hmark (fun n _ => ?_)
    (fun s n hn _ hs => ?_) h'
  · rw [hm]
    rfl
  · have hcount : s.parser.nread + 0 ≤ maxHeaderSize := by
      rw [hs]
      exact Nat.le_of_succ_le hn
    rw [perform_count hcount, Scan.perform, Scan.stored, hs]
    rfl

/-- The callback for an empty value, at the byte behind its line. -/
theorem empty_marked (hmark : c.state.initialMark = none) (n : Nat) (d : Core) (m : Move) :
    ∃ t : Scan, Scan.perform [b] ⟨⟨c, n⟩, 0, c.marked, []⟩
        (.mark .headerValue (.data .headerValue d false false m)) = t.perform [b] m ∧
      t.p = 0 ∧ (∀ l, t.mark l = none) ∧ t.parser = ⟨d, n⟩ ∧
      t.made.map Made.cb = [.headerValue []] := by
  have hnone := marked_none hmark
  obtain ⟨t, ht, hp, hclear, hparser, hmade⟩ := data_marked (b := b)
    (s := ⟨⟨c, n⟩, 0, Function.update c.marked .headerValue (some 0), []⟩) d false rfl
    (Function.update_self ..) (fun l hl => (Function.update_of_ne hl ..).trans (hnone l))
  refine ⟨t, ?_, hp, hclear, hparser, hmade⟩
  rw [Scan.perform]
  dsimp only
  rw [hnone .headerValue]
  exact perform_data ht

/-- The byte behind the line of an empty value, when it ends the head. -/
theorem runs_empty (h : c.Live) (hhead : c.state.parsingHeader = true)
    (hmark : c.state.initialMark = none)
    (hm : c.switch b [] = .mark .headerValue (.data .headerValue d false false (.next c')))
    (h' : c'.Live) : c.Runs [b] [.headerValue []] c' := by
  intro n hn
  obtain ⟨t, ht, hp, hclear, hparser, hmade⟩ :=
    empty_marked (b := b) hmark (n + 1) d (.next c')
  have htakes := takes_clear (p := ⟨c, n⟩) (b := b) (t := { t with parser := ⟨c', n + 1⟩ })
    h.errno ?_ hp hclear h'.errno h'.upgrade
  · rw [show ({ t with parser := ⟨c', n + 1⟩ } : Scan).made = t.made from rfl, hmade] at htakes
    exact ⟨n + 1, by simp, htakes⟩
  · rw [perform_turn hhead hn, hm, ht]
    exact perform_next hparser

/-- The byte behind the line of an empty value, when it begins a field. -/
theorem runs_empty_mark (h : c.Live) (hhead : c.state.parsingHeader = true)
    (hmark : c.state.initialMark = none)
    (hm : c.switch b [] = .mark .headerValue (.data .headerValue d false false
      (.mark .headerField (.next c'))))
    (h' : c'.Live) : c.Runs [b] [.headerValue [], .headerField [b]] c' := by
  intro n hn
  obtain ⟨t, ht, hp, hclear, hparser, hmade⟩ :=
    empty_marked (b := b) hmark (n + 1) d (.mark .headerField (.next c'))
  have htakes := takes_set (p := ⟨c, n⟩) (b := b) (k := .headerField)
    (t := ⟨⟨c', n + 1⟩, 0, Function.update t.mark .headerField (some 0), t.made⟩)
    h.errno ?_ rfl (Function.update_self Kind.headerField (some 0) t.mark)
    (fun l hl => (Function.update_of_ne hl ..).trans (hclear l)) h'.errno h'.upgrade
  · rw [hmade] at htakes
    exact ⟨n + 1, by simp, htakes⟩
  · rw [perform_turn hhead hn, hm, ht, Scan.perform]
    rw [hclear .headerField, hp]
    exact perform_next (s := ⟨t.parser, 0, _, t.made⟩) hparser

end Dv8.Http
