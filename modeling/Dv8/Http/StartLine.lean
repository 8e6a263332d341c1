import Dv8.Http.Takes
import Dv8.Lib.Digits

namespace Dv8.Http

open Dv8.Lib

/-!
# Start lines of requests

A request line as a client writes it, and what the parser makes of it: the callbacks for the
start of a message and for its url, and the fields of the parser that `headers_complete_cb` asks
for.

* `runs_method` — every method of `method_strings` is read as itself;
* `runs_target` — so is every url that the states of `parse_url_char` accept;
* `runs_startLine` — the whole line.
-/

variable {c c' : Core} {xs ys : List UInt8} {cbs cbs' : List Callback} {b ch : UInt8}

theorem Core.Runs.cons {c'' : Core} (h : c.Runs [b] cbs c') (h' : c'.Runs xs cbs' c'') :
    c.Runs (b :: xs) (cbs ++ cbs') c'' := h.append h'

/-! ### Methods -/

/-- What `s_req_method` makes of a letter at place `i`. -/
def Method.letter (m : Method) (i : Nat) (ch : UInt8) : Option Method :=
  if ch = 0 || ch = chr ' ' then none
  else if (m.string ++ [0])[i]? = some ch then some m
  else if ((m.string ++ [0])[i]?).isSome && ((chr 'A' ≤ ch && ch ≤ chr 'Z') || ch = chr '-') then
    m.other i ch
  else none

/-- The same for letters from place `i` on. -/
def Method.spell (m : Method) (i : Nat) : List UInt8 → Option Method
  | [] => some m
  | ch :: rest => (m.letter i ch).bind fun m' => m'.spell (i + 1) rest

/-- The letters of a method lead to it. -/
theorem spell_string (m : Method) :
    ∃ ch rest m₀, m.string = ch :: rest ∧ isAlpha ch = true ∧ Method.ofFirst ch = some m₀ ∧
      m₀.spell 1 rest = some m := by
  cases m <;> exact ⟨_, _, _, rfl, rfl, rfl, rfl⟩

/-- The parser in state `s`, with `i` letters of the method. -/
def Core.named (c : Core) (m : Method) (i : Nat) (s : State) : Core :=
  { c with method := m, index := i, state := s }

theorem Core.Live.named (h : c.Live) (m : Method) (i : Nat) (s : State) : (c.named m i s).Live :=
  ⟨h.errno, h.upgrade⟩

theorem reqMethod_letter {m : Method} (h : c.method.letter c.index ch = some m) :
    c.reqMethod ch = .next (c.named m (c.index + 1) c.state) := by
  unfold Method.letter at h
  split_ifs at h with hno hsame hother
  · obtain ⟨hzero, hspace⟩ : ch ≠ 0 ∧ ch ≠ chr ' ' := by simpa using hno
    cases h
    simp [Core.reqMethod, Core.named, hzero, hspace, hsame]
  · obtain ⟨hzero, hspace⟩ : ch ≠ 0 ∧ ch ≠ chr ' ' := by simpa using hno
    obtain ⟨hsome, hletter⟩ := Bool.and_eq_true_iff.mp hother
    obtain ⟨want, hwant⟩ := Option.isSome_iff_exists.mp hsome
    have hne : ch ≠ want := fun heq => hsame (heq ▸ hwant)
    unfold Core.reqMethod
    rw [if_neg hzero, hwant]
    dsimp only
    rw [if_neg (by simp [hspace]), if_neg hne, if_pos hletter, h]
    rfl

theorem runs_letters {m : Method} (hs : c.state = .reqMethod) (hl : c.Live)
    (h : c.method.spell c.index xs = some m) :
    c.Runs xs [] (c.named m (c.index + xs.length) .reqMethod) := by
  induction xs generalizing c with
  | nil =>
    obtain rfl := Option.some.inj h
    rw [← hs]
    exact .refl c
  | cons ch xs ih =>
    obtain ⟨m', hletter, hspell⟩ := Option.bind_eq_some_iff.mp h
    have hswitch : c.switch ch [] = .next (c.named m' (c.index + 1) .reqMethod) := by
      rw [← hs, ← reqMethod_letter hletter]
      simp only [Core.switch, hs]
    have hfirst := runs_next hl (by rw [hs]; rfl) (by rw [hs]; rfl) hswitch (hl.named ..)
    have hrest := ih (c := c.named m' (c.index + 1) .reqMethod) rfl (hl.named ..) hspell
    rw [List.length_cons, Nat.add_comm xs.length, ← Nat.add_assoc]
    exact hfirst.cons hrest

/-- The first letter of a method. -/
theorem switch_startReq {m : Method} (hs : c.state = .startReq) (halpha : isAlpha ch = true)
    (hfirst : Method.ofFirst ch = some m) :
    c.switch ch [] = .notify .messageBegin (c.fresh.named m 1 .reqMethod) true
      (.next (c.fresh.named m 1 .reqMethod)) := by
  -- a letter is no end of line
  have heol : ¬ ((decide (ch = CR) || decide (ch = LF)) = true) := by
    intro heol
    rcases Bool.or_eq_true_iff.mp heol with heq | heq <;>
      rw [of_decide_eq_true heq] at halpha <;> contradiction
  simp only [Core.switch, hs, Core.startReq]
  rw [if_neg heol, if_neg (by simp [halpha]), hfirst]
  rfl

/-- The space behind a method. -/
theorem switch_method_end (m : Method) :
    (c.named m m.string.length .reqMethod).switch (chr ' ') [] =
      .next (c.named m (m.string.length + 1) .reqSpacesBeforeUrl) := by
  have hspace : chr ' ' ≠ 0 := by decide
  simp [Core.switch, Core.reqMethod, Core.named, hspace]

/-- The method and the space behind it. -/
theorem runs_method (m : Method) (hs : c.state = .startReq) (hl : c.Live) :
    c.Runs (m.string ++ [chr ' ']) [.messageBegin]
      (c.fresh.named m (m.string.length + 1) .reqSpacesBeforeUrl) := by
  obtain ⟨ch, rest, m₀, hstring, halpha, hfirst, hspell⟩ := spell_string m
  have hl' : c.fresh.Live := ⟨hl.errno, hl.upgrade⟩
  have hbegin := runs_notify hl (by rw [hs]; rfl) (by rw [hs]; rfl)
    (switch_startReq hs halpha hfirst) (hl'.named ..)
  have hletters := runs_letters (c := c.fresh.named m₀ 1 .reqMethod) rfl
    (hl'.named ..) hspell
  have hlength : 1 + rest.length = m.string.length := by
    rw [hstring, List.length_cons, Nat.add_comm]
  have hspace := runs_next (hl'.named m m.string.length .reqMethod) rfl rfl
    (switch_method_end m) (hl'.named ..)
  rw [← hlength] at hspace
  rw [← hlength, hstring]
  exact hbegin.cons (hletters.append hspace)

/-! ### Urls -/

/-- The states of a url that can be its end. -/
def State.endsUrl : State → Bool
  | .reqServer | .reqServerWithAt | .reqPath | .reqQueryStringStart | .reqQueryString
  | .reqFragmentStart | .reqFragment => true
  | _ => false

/-- A url that `parse_url_char` accepts, behind a method other than `CONNECT`. -/
def IsTarget (target : List UInt8) : Prop :=
  (target.foldl parseUrlChar .reqSpacesBeforeUrl).endsUrl = true

instance (target : List UInt8) : Decidable (IsTarget target) :=
  inferInstanceAs (Decidable (_ = true))

/-- No url goes on behind a byte that is not part of one. -/
theorem foldl_dead (xs : List UInt8) : xs.foldl parseUrlChar .dead = .dead := by
  induction xs with
  | nil => rfl
  | cons ch xs ih =>
    have hdead : parseUrlChar .dead ch = .dead := by
      unfold parseUrlChar
      split <;> rfl
    rw [List.foldl_cons, hdead, ih]

theorem State.isUrl_mark {s : State} (h : s.isUrl = true) :
    s.initialMark = some .url ∧ s.parsingHeader = true := by
  cases s <;> first | contradiction | exact ⟨rfl, rfl⟩

/-- A byte that is part of the url. -/
theorem switch_url (hs : c.state.isUrl = true) (h : parseUrlChar c.state ch ≠ .dead) :
    c.switch ch [] = .next (c.updateState (parseUrlChar c.state ch)) := by
  have hblank : ¬ (ch = chr ' ' ∨ ch = CR ∨ ch = LF) := by
    intro hblank
    refine h ?_
    unfold parseUrlChar
    rw [if_pos (by simpa [or_assoc] using hblank)]
  have hurl : c.urlChar ch = .next (c.updateState (parseUrlChar c.state ch)) := if_neg h
  have hschema : c.reqSchema ch = .next (c.updateState (parseUrlChar c.state ch)) := by
    unfold Core.reqSchema
    rw [if_neg (by simpa [or_assoc] using hblank), hurl]
  have hend : c.reqUrl ch = .next (c.updateState (parseUrlChar c.state ch)) := by
    obtain ⟨hspace, heol⟩ := not_or.mp hblank
    unfold Core.reqUrl
    rw [if_neg hspace, if_neg (by simpa using heol), hurl]
  cases hstate : c.state <;> rw [hstate] at hs hschema hend <;>
    first | contradiction | (simp only [Core.switch, hstate]; assumption)

/-- A byte that begins the url. -/
theorem switch_target (hs : c.state = .reqSpacesBeforeUrl) (hmethod : c.method ≠ .connect)
    (h : parseUrlChar .reqSpacesBeforeUrl ch ≠ .dead) :
    c.switch ch [] =
      .mark .url (.next (c.updateState (parseUrlChar .reqSpacesBeforeUrl ch))) := by
  have hspace : ch ≠ chr ' ' := by
    rintro rfl
    exact h rfl
  have hurl : c.urlChar ch =
      .next (c.updateState (parseUrlChar .reqSpacesBeforeUrl ch)) := by
    rw [← hs] at h ⊢
    exact if_neg h
  simp only [Core.switch, hs]
  unfold Core.reqSpacesBeforeUrl
  rw [if_neg hspace, if_neg hmethod, hurl]

/-- The other bytes of a url. -/
theorem runs_url {s : State} (hs : s.isUrl = true) (hl : c.Live)
    (h : xs.foldl parseUrlChar s ≠ .dead) (x : List UInt8) :
    ∃ cbs, (c.updateState s).Runs xs cbs (c.updateState (xs.foldl parseUrlChar s)) ∧
      pieces.gather (.url x :: cbs) = [.url (x ++ xs)] := by
  induction xs generalizing s x with
  | nil => exact ⟨[], .refl _, by rw [List.append_nil]; rfl⟩
  | cons ch xs ih =>
    have hne : parseUrlChar s ch ≠ .dead := by
      intro hdead
      rw [List.foldl_cons, hdead, foldl_dead] at h
      exact h rfl
    obtain ⟨hmark, hhead⟩ := State.isUrl_mark hs
    obtain ⟨cbs, hrest, hcbs⟩ := ih ((parseUrlChar_isUrl s ch).resolve_left hne) h (x ++ [ch])
    have hfirst : (c.updateState s).Runs [ch] [.url [ch]] (c.updateState (parseUrlChar s ch)) :=
      runs_more (k := .url) ⟨hl.errno, hl.upgrade⟩ hhead hmark
        (switch_url (c := c.updateState s) hs hne) ⟨hl.errno, hl.upgrade⟩
    refine ⟨.url [ch] :: cbs, hfirst.cons hrest, ?_⟩
    -- the callback for the byte joins the one for the bytes in front
    rw [gather_joined (j := pieces) (z := .url (x ++ [ch])) rfl, hcbs, List.append_assoc,
      List.singleton_append]

/-- The url and the space behind it. -/
theorem runs_target {target : List UInt8} (ht : IsTarget target)
    (hs : c.state = .reqSpacesBeforeUrl) (hmethod : c.method ≠ .connect) (hl : c.Live) :
    c.Runs (target ++ [chr ' ']) [.url target] (c.updateState .reqHttpStart) := by
  cases target with
  | nil => contradiction
  | cons ch xs =>
    have hl' : ∀ s, (c.updateState s).Live := fun _ => ⟨hl.errno, hl.upgrade⟩
    have hend : (xs.foldl parseUrlChar (parseUrlChar .reqSpacesBeforeUrl ch)).endsUrl = true := ht
    have halive : xs.foldl parseUrlChar (parseUrlChar .reqSpacesBeforeUrl ch) ≠ .dead := by
      intro hdead
      rw [hdead] at hend
      contradiction
    have hne : parseUrlChar .reqSpacesBeforeUrl ch ≠ .dead := by
      intro hdead
      rw [hdead, foldl_dead] at halive
      exact halive rfl
    have hfirst : c.Runs [ch] [.url [ch]] _ :=
      runs_mark (k := .url) hl (by rw [hs]; rfl) (by rw [hs]; rfl) (switch_target hs hmethod hne)
        (hl' _)
    obtain ⟨cbs, hrest, hcbs⟩ := runs_url ((parseUrlChar_isUrl _ ch).resolve_left hne) hl halive
      [ch]
    have hspace : Core.Runs (c.updateState
        (xs.foldl parseUrlChar (parseUrlChar .reqSpacesBeforeUrl ch))) [chr ' '] [.url []]
        (c.updateState .reqHttpStart) := by
      generalize xs.foldl parseUrlChar (parseUrlChar .reqSpacesBeforeUrl ch) = s at hend
      refine runs_data (k := .url) (hl' _) ?_ ?_ ?_ (hl' _) <;>
        cases s <;> first | contradiction | rfl
    refine Core.Runs.congr ((hfirst.cons hrest).append hspace) ?_
    rw [List.singleton_append, List.cons_append, ← List.cons_append, gather_snoc, hcbs]
    show [Callback.url ([ch] ++ xs ++ [])] = _
    rw [List.append_nil]
    rfl

/-! ### Versions -/

/-- The character of a decimal digit. -/
def digitChar (d : Nat) : UInt8 := UInt8.ofNat (48 + d)

theorem digitChar_spec {d : Nat} (hd : d < 10) :
    isNum (digitChar d) = true ∧ (digitChar d).toNat - 48 = d := by
  revert d
  decide

theorem digit_digitChar {d : Nat} (hd : d < 10) (set : Core → Nat → Core) (s : State) :
    c.digit (digitChar d) set s = .next ((set c d).updateState s) := by
  obtain ⟨hnum, hvalue⟩ := digitChar_spec hd
  rw [Core.digit, hnum, hvalue]
  rfl

/-- The parser in state `s`, behind the version. -/
def Core.versioned (c : Core) (major minor : Nat) (s : State) : Core :=
  { c with httpMajor := major, httpMinor := minor, state := s }

/-- What stands between a url and the headers. -/
def version (major minor : Nat) : List UInt8 :=
  ascii "HTTP/" ++ [digitChar major, chr '.', digitChar minor] ++ crlf

theorem runs_version {major minor : Nat} (hmajor : major < 10) (hminor : minor < 10)
    (hs : c.state = .reqHttpStart) (hl : c.Live) :
    c.Runs (version major minor) [] (c.versioned major minor .headerFieldStart) := by
  have hl' : ∀ s, (c.updateState s).Live := fun _ => ⟨hl.errno, hl.upgrade⟩
  have hl'' : ∀ x y s, (c.versioned x y s).Live := fun _ _ _ => ⟨hl.errno, hl.upgrade⟩
  -- the letters
  have hletters : c.Runs (ascii "HTTP/") [] (c.updateState .reqHttpMajor) := by
    refine (runs_next hl (by rw [hs]; rfl) (by rw [hs]; rfl) ?_ (hl' .reqHttpH)).cons
      ((runs_next (hl' _) rfl rfl rfl (hl' .reqHttpHT)).cons
      ((runs_next (hl' _) rfl rfl rfl (hl' .reqHttpHTT)).cons
      ((runs_next (hl' _) rfl rfl rfl (hl' .reqHttpHTTP)).cons
      ((runs_next (hl' _) rfl rfl rfl (hl' .reqHttpMajor)).cons (.refl _)))))
    simp only [Core.switch, hs]
    rfl
  -- the two digits and the end of the line
  have hdigit : (c.updateState .reqHttpMajor).Runs [digitChar major] []
      (c.versioned major c.httpMinor .reqHttpDot) :=
    runs_next (hl' _) rfl rfl
      (digit_digitChar hmajor (fun c d => { c with httpMajor := d }) .reqHttpDot) (hl'' ..)
  have hdot : (c.versioned major c.httpMinor .reqHttpDot).Runs [chr '.'] []
      (c.versioned major c.httpMinor .reqHttpMinor) :=
    runs_next (hl'' ..) rfl rfl rfl (hl'' ..)
  have hdigit' : (c.versioned major c.httpMinor .reqHttpMinor).Runs [digitChar minor] []
      (c.versioned major minor .reqHttpEnd) :=
    runs_next (hl'' ..) rfl rfl
      (digit_digitChar hminor (fun c d => { c with httpMinor := d }) .reqHttpEnd) (hl'' ..)
  have heol : (c.versioned major minor .reqHttpEnd).Runs crlf []
      (c.versioned major minor .headerFieldStart) :=
    (runs_next (hl'' ..) rfl rfl rfl (hl'' major minor .reqLineAlmostDone)).cons
      ((runs_next (hl'' ..) rfl rfl rfl (hl'' ..)).cons (.refl _))
  exact (hletters.append (hdigit.cons (hdot.cons (hdigit'.cons (.refl _))))).append heol

/-- **The start line of a request.** -/
theorem runs_startLine {m : Method} {target : List UInt8} {major minor : Nat}
    (hm : m ≠ .connect) (ht : IsTarget target) (hmajor : major < 10) (hminor : minor < 10)
    (hs : c.state = .startReq) (hl : c.Live) :
    c.Runs (m.string ++ [chr ' '] ++ (target ++ [chr ' ']) ++ version major minor)
      [.messageBegin, .url target]
      ((c.fresh.named m (m.string.length + 1) .reqHttpStart).versioned major minor
        .headerFieldStart) := by
  have hl' : ∀ i s, (c.fresh.named m i s).Live := fun _ _ => ⟨hl.errno, hl.upgrade⟩
  have hmethod := runs_method m hs hl
  have htarget := runs_target (c := c.fresh.named m (m.string.length + 1) .reqSpacesBeforeUrl)
    ht rfl hm (hl' ..)
  have hversion := runs_version (c := c.fresh.named m (m.string.length + 1) .reqHttpStart)
    hmajor hminor rfl (hl' ..)
  exact (hmethod.append htarget).append hversion

end Dv8.Http
