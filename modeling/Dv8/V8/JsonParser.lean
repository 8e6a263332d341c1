import Dv8.V8.Json

namespace Dv8.V8

/-!
# What `JsonParser` reads

A parser of part of a text is `Local` when it takes a beginning of the text, and takes the same
with more text behind it, if there is something left after it.  (A number at the very end may go
on.)

* `parseJsonValue_local` — all parts of the parser are;
* `parseJsonValue_closed` — arrays and objects end with their bracket, so they are the same
  with anything behind them;
* `parseJsonValue_fuel` — more fuel than code units makes no difference.
-/

variable {α : Type}

/-- What is read is a beginning of the text, and stays so when the text goes on. -/
structure Scan.Local (item : Scan α) : Prop where
  consumes : ∀ {s : JsString} {x : α} {r : JsString}, item s = some (x, r) →
    ∃ u, u ≠ [] ∧ s = u ++ r
  append : ∀ {s : JsString} {x : α} {r : JsString} (t : JsString), item s = some (x, r) →
    r ≠ [] → item (s ++ t) = some (x, r ++ t)

/-! ### Whitespace, strings and literals -/

theorem skipWhitespace_append {s r : JsString} {c : UInt16} (t : JsString)
    (h : skipWhitespace s = c :: r) : skipWhitespace (s ++ t) = c :: (r ++ t) := by
  unfold skipWhitespace at h ⊢
  rw [List.dropWhile_append, h]
  rfl

theorem exists_skipWhitespace (s : JsString) : ∃ w, s = w ++ skipWhitespace s :=
  ⟨_, (List.takeWhile_append_dropWhile).symm⟩

/-- One unit of the string in front. -/
def prepend (u : UInt16) (p : JsString × JsString) : JsString × JsString := (u :: p.1, p.2)

theorem scanJsonString_quote (s : JsString) : scanJsonString (0x22 :: s) = some ([], s) := by
  rw [scanJsonString.eq_def]
  exact if_pos rfl

theorem scanJsonString_unicode (a b c d : UInt16) (s : JsString) :
    scanJsonString (0x5C :: 0x75 :: a :: b :: c :: d :: s) =
      (scanUnicodeCharacter a b c d).bind fun u => (scanJsonString s).map (prepend u) := by
  rw [scanJsonString.eq_def]
  simp only [if_true, if_neg (show ¬ (0x5C : UInt16) = 0x22 by decide)]
  rfl

theorem scanJsonString_escape {e : UInt16} (he : e ≠ 0x75) (s : JsString) :
    scanJsonString (0x5C :: e :: s) =
      (escapeKind e).bind fun u => (scanJsonString s).map (prepend u) := by
  rw [scanJsonString.eq_def]
  simp only [if_true, if_neg (show ¬ (0x5C : UInt16) = 0x22 by decide), if_neg he]
  rfl

theorem scanJsonString_plain {c : UInt16} (hquote : c ≠ 0x22) (hbackslash : c ≠ 0x5C)
    (hcontrol : ¬ c < 0x20) (s : JsString) :
    scanJsonString (c :: s) = (scanJsonString s).map (prepend c) := by
  rw [scanJsonString.eq_def]
  simp only [if_neg hquote, if_neg hbackslash, if_neg hcontrol]
  rfl

theorem map_prepend_eq_some {o : Option (JsString × JsString)} {c : UInt16} {x r : JsString}
    (h : o.map (prepend c) = some (x, r)) : ∃ str, o = some (str, r) ∧ x = c :: str := by
  obtain ⟨⟨str, rest⟩, ho, heq⟩ := Option.map_eq_some_iff.mp h
  cases heq
  exact ⟨str, ho, rfl⟩

/-- A string takes a beginning of the text, whatever follows. -/
theorem scanJsonString_spec {s x r : JsString} (h : scanJsonString s = some (x, r)) :
    ∃ u, u ≠ [] ∧ s = u ++ r ∧ ∀ t, scanJsonString (u ++ t) = some (x, t) := by
  fun_induction scanJsonString s generalizing x r with
  | case1 => contradiction
  | case2 s =>
    cases h
    exact ⟨[0x22], List.cons_ne_nil _ _, rfl, scanJsonString_quote⟩
  | case3 => contradiction
  | case4 a b c d s _ ih =>
    obtain ⟨u, hu, h⟩ := Option.bind_eq_some_iff.mp h
    obtain ⟨str, hrest, rfl⟩ := map_prepend_eq_some h
    obtain ⟨w, -, rfl, hw⟩ := ih hrest
    refine ⟨0x5C :: 0x75 :: a :: b :: c :: d :: w, List.cons_ne_nil _ _, rfl, fun t => ?_⟩
    rw [List.cons_append, List.cons_append, List.cons_append, List.cons_append, List.cons_append,
      List.cons_append, scanJsonString_unicode, hu, Option.bind_some, hw]
    rfl
  | case5 => contradiction
  | case6 e s he _ ih =>
    obtain ⟨u, hu, h⟩ := Option.bind_eq_some_iff.mp h
    obtain ⟨str, hrest, rfl⟩ := map_prepend_eq_some h
    obtain ⟨w, -, rfl, hw⟩ := ih hrest
    refine ⟨0x5C :: e :: w, List.cons_ne_nil _ _, rfl, fun t => ?_⟩
    rw [List.cons_append, List.cons_append, scanJsonString_escape he, hu, Option.bind_some, hw]
    rfl
  | case7 => contradiction
  | case8 c s hquote hbackslash hcontrol ih =>
    obtain ⟨str, hrest, rfl⟩ := map_prepend_eq_some h
    obtain ⟨w, -, rfl, hw⟩ := ih hrest
    refine ⟨c :: w, List.cons_ne_nil _ _, rfl, fun t => ?_⟩
    rw [List.cons_append, scanJsonString_plain hquote hbackslash hcontrol, hw]
    rfl

/-- A literal takes a beginning of the text, whatever follows. -/
theorem scanLiteral_spec {literal s r : JsString} {value x : Json}
    (h : scanLiteral literal value s = some (x, r)) :
    s = literal ++ r ∧ ∀ t, scanLiteral literal value (s ++ t) = some (x, r ++ t) := by
  unfold scanLiteral at h ⊢
  split at h
  · rename_i hprefix
    obtain ⟨w, rfl⟩ := List.isPrefixOf_iff_prefix.mp hprefix
    cases h
    rw [List.drop_left]
    refine ⟨rfl, fun t => ?_⟩
    have hlonger : literal.isPrefixOf (literal ++ w ++ t) = true := by
      rw [List.isPrefixOf_iff_prefix, List.append_assoc]
      exact List.prefix_append _ _
    rw [if_pos hlonger, List.append_assoc, List.drop_left]
  · contradiction

/-! ### Numbers -/

/-- A part of a number is a beginning of the text, and ends where it does unless the text
    goes on behind its end. -/
def NumberPart (part : JsString → Option JsString) : Prop :=
  ∀ s r, part s = some r →
    (∃ u, s = u ++ r) ∧ (r ≠ [] → ∀ t, part (s ++ t) = some (r ++ t))

theorem scanDigits_part : NumberPart scanDigits := by
  intro s r h
  cases s with
  | nil => contradiction
  | cons c s =>
    rw [scanDigits] at h
    split at h
    · rename_i hdigit
      cases h
      refine ⟨⟨c :: s.takeWhile isDecimalDigit, ?_⟩, fun hne t => ?_⟩
      · rw [List.cons_append, List.takeWhile_append_dropWhile]
      · rw [List.cons_append, scanDigits, if_pos hdigit, List.dropWhile_append]
        simp [hne]
    · contradiction

theorem scanInteger_part : NumberPart scanInteger := by
  intro s r h
  cases s with
  | nil => contradiction
  | cons c s =>
    rw [scanInteger] at h
    split at h
    · rename_i hzero
      split at h
      · contradiction
      · rename_i hnext
        cases h
        refine ⟨⟨[c], rfl⟩, fun hne t => ?_⟩
        obtain ⟨d, s', rfl⟩ := List.exists_cons_of_ne_nil hne
        rw [List.cons_append, scanInteger, if_pos hzero, if_neg]
        exact hnext
    · rename_i hzero
      obtain ⟨hu, happ⟩ := scanDigits_part _ _ h
      refine ⟨hu, fun hne t => ?_⟩
      rw [List.cons_append, scanInteger, if_neg hzero]
      exact happ hne t

theorem scanSigned_part : NumberPart scanSigned := by
  intro s r h
  cases s with
  | nil => contradiction
  | cons c s =>
    rw [scanSigned] at h
    split at h
    · rename_i hminus
      obtain ⟨⟨u, hu⟩, happ⟩ := scanInteger_part _ _ h
      refine ⟨⟨c :: u, by rw [hu]; rfl⟩, fun hne t => ?_⟩
      rw [List.cons_append, scanSigned, if_pos hminus]
      exact happ hne t
    · rename_i hminus
      obtain ⟨hu, happ⟩ := scanInteger_part _ _ h
      refine ⟨hu, fun hne t => ?_⟩
      rw [List.cons_append, scanSigned, if_neg hminus]
      exact happ hne t

theorem scanFraction_part : NumberPart scanFraction := by
  intro s r h
  cases s with
  | nil =>
    cases h
    exact ⟨⟨[], rfl⟩, fun hne => absurd rfl hne⟩
  | cons c s =>
    rw [scanFraction] at h
    split at h
    · rename_i hpoint
      obtain ⟨⟨u, hu⟩, happ⟩ := scanDigits_part _ _ h
      refine ⟨⟨c :: u, by rw [hu]; rfl⟩, fun hne t => ?_⟩
      rw [List.cons_append, scanFraction, if_pos hpoint]
      exact happ hne t
    · rename_i hpoint
      cases h
      refine ⟨⟨[], rfl⟩, fun _ t => ?_⟩
      rw [List.cons_append, scanFraction, if_neg hpoint]

theorem scanExponent_part : NumberPart scanExponent := by
  intro s r h
  cases s with
  | nil =>
    cases h
    exact ⟨⟨[], rfl⟩, fun hne => absurd rfl hne⟩
  | cons c s =>
    rw [scanExponent.eq_def] at h
    simp only at h
    split at h
    · rename_i he
      cases s with
      | nil => contradiction
      | cons d s =>
        simp only at h
        split at h
        · rename_i hsign
          obtain ⟨⟨u, hu⟩, happ⟩ := scanDigits_part _ _ h
          refine ⟨⟨c :: d :: u, by rw [hu]; rfl⟩, fun hne t => ?_⟩
          rw [List.cons_append, List.cons_append, scanExponent.eq_def]
          simp only [if_pos he, if_pos hsign]
          exact happ hne t
        · rename_i hsign
          obtain ⟨⟨u, hu⟩, happ⟩ := scanDigits_part _ _ h
          refine ⟨⟨c :: u, by rw [hu]; rfl⟩, fun hne t => ?_⟩
          rw [List.cons_append, List.cons_append, scanExponent.eq_def]
          simp only [if_pos he, if_neg hsign]
          exact happ hne t
    · rename_i he
      cases h
      refine ⟨⟨[], rfl⟩, fun _ t => ?_⟩
      rw [List.cons_append, scanExponent.eq_def]
      simp only [if_neg he]

/-- One part behind another. -/
theorem NumberPart.bind {f g : JsString → Option JsString} (hf : NumberPart f)
    (hg : NumberPart g) : NumberPart fun s => (f s).bind g := by
  intro s r h
  rw [Option.bind_eq_some_iff] at h
  obtain ⟨m, hm, h⟩ := h
  obtain ⟨⟨u, rfl⟩, happ⟩ := hf s m hm
  obtain ⟨⟨v, rfl⟩, happ'⟩ := hg m r h
  refine ⟨⟨u ++ v, (List.append_assoc _ _ _).symm⟩, fun hne t => ?_⟩
  have hmid : v ++ r ≠ [] := by simp [hne]
  simp only [happ hmid t, Option.bind_some]
  exact happ' hne t

theorem scanDigits_lt {s r : JsString} (h : scanDigits s = some r) : r.length < s.length := by
  cases s with
  | nil => contradiction
  | cons c s =>
    rw [scanDigits] at h
    split at h
    · cases h
      exact Nat.lt_succ_of_le (List.dropWhile_suffix _).length_le
    · contradiction

theorem scanInteger_lt {s r : JsString} (h : scanInteger s = some r) : r.length < s.length := by
  cases s with
  | nil => contradiction
  | cons c s =>
    rw [scanInteger] at h
    split at h
    · -- a leading zero stands alone
      split at h
      · contradiction
      · cases h
        exact Nat.lt_succ_self _
    · exact scanDigits_lt h

/-- A number has at least one digit. -/
theorem scanSigned_ne {s r : JsString} (h : scanSigned s = some r) : r.length < s.length := by
  cases s with
  | nil => contradiction
  | cons c s =>
    rw [scanSigned] at h
    split at h
    · exact Nat.lt_trans (scanInteger_lt h) (Nat.lt_succ_self _)
    · exact scanInteger_lt h

theorem parseJsonNumber_local : Scan.Local parseJsonNumber where
  consumes := by
    intro s x r h
    rw [parseJsonNumber, Option.map_eq_some_iff] at h
    obtain ⟨rest, h, heq⟩ := h
    cases heq
    rw [Option.bind_eq_some_iff] at h
    obtain ⟨m, hm, h⟩ := h
    obtain ⟨⟨v, rfl⟩, -⟩ := scanFraction_part.bind scanExponent_part m r h
    have hlt := scanSigned_ne hm
    obtain ⟨⟨u, rfl⟩, -⟩ := scanSigned_part _ _ hm
    refine ⟨u ++ v, ?_, (List.append_assoc _ _ _).symm⟩
    intro hnil
    obtain ⟨rfl, rfl⟩ := List.append_eq_nil_iff.mp hnil
    exact absurd hlt (Nat.lt_irrefl _)
  append := by
    intro s x r t h hne
    rw [parseJsonNumber, Option.map_eq_some_iff] at h
    obtain ⟨rest, h, heq⟩ := h
    cases heq
    have hpart := (scanSigned_part.bind (scanFraction_part.bind scanExponent_part)) s r h
    obtain ⟨⟨u, rfl⟩, happ⟩ := hpart
    have happ :
        ((scanSigned (u ++ r ++ t)).bind fun rest => (scanFraction rest).bind scanExponent) =
          some (r ++ t) := happ hne t
    rw [parseJsonNumber, happ, Option.map_some]
    -- the literal is what was consumed, and that is the same with `t` behind
    have hlen : (u ++ r ++ t).length - (r ++ t).length = (u ++ r).length - r.length := by
      simp only [List.length_append]
      omega
    have htake : (u ++ r ++ t).take ((u ++ r).length - r.length) =
        (u ++ r).take ((u ++ r).length - r.length) :=
      List.take_append_of_le_length (Nat.sub_le _ _)
    rw [hlen, htake]

/-! ### Items -/

theorem scanItems_spec {item : Scan α} (hitem : item.Local) {close : UInt16} {fuel : Nat}
    {s : JsString} {xs : List α} {r : JsString}
    (h : scanItems item close fuel s = some (xs, r)) :
    (∃ u, s = u ++ close :: r) ∧
      ∀ t, scanItems item close fuel (s ++ t) = some (xs, r ++ t) := by
  induction fuel generalizing s xs r with
  | zero => contradiction
  | succ fuel ih =>
    rw [scanItems, Option.bind_eq_some_iff] at h
    obtain ⟨⟨x, s₁⟩, hx, h⟩ := h
    simp only at h
    obtain ⟨u, -, rfl⟩ := hitem.consumes hx
    obtain ⟨w, hw⟩ := exists_skipWhitespace s₁
    split at h
    · rename_i c s₂ hskip
      rw [hskip] at hw
      have hne : s₁ ≠ [] := by
        rw [hw]
        simp
      split at h
      · rename_i hcomma
        rw [Option.map_eq_some_iff] at h
        obtain ⟨⟨xs', r'⟩, hrest, heq⟩ := h
        cases heq
        obtain ⟨⟨v, rfl⟩, happ⟩ := ih hrest
        refine ⟨⟨u ++ w ++ c :: v, by rw [hw]; simp⟩, fun t => ?_⟩
        rw [scanItems, hitem.append t hx hne, Option.bind_some]
        simp only [skipWhitespace_append t hskip, if_pos hcomma, happ]
        rfl
      · rename_i hcomma
        split at h
        · rename_i hclose
          cases h
          refine ⟨⟨u ++ w, by rw [hw, hclose]; simp⟩, fun t => ?_⟩
          rw [scanItems, hitem.append t hx hne, Option.bind_some]
          simp only [skipWhitespace_append t hskip, if_neg hcomma, if_pos hclose]
        · contradiction
    · contradiction

theorem scanBracketed_spec {item : Scan α} (hitem : item.Local) {close : UInt16} {fuel : Nat}
    {s : JsString} {xs : List α} {r : JsString}
    (h : scanBracketed item close fuel s = some (xs, r)) :
    (∃ u, s = u ++ close :: r) ∧
      ∀ t, scanBracketed item close fuel (s ++ t) = some (xs, r ++ t) := by
  unfold scanBracketed at h
  split at h
  · rename_i c s' hskip
    split at h
    · rename_i hclose
      cases h
      obtain ⟨w, hw⟩ := exists_skipWhitespace s
      rw [hskip, hclose] at hw
      refine ⟨⟨w, hw⟩, fun t => ?_⟩
      simp only [scanBracketed, skipWhitespace_append t hskip, if_pos hclose]
    · rename_i hclose
      obtain ⟨hu, happ⟩ := scanItems_spec hitem h
      refine ⟨hu, fun t => ?_⟩
      simp only [scanBracketed, skipWhitespace_append t hskip, if_neg hclose, happ]
  · contradiction

theorem scanMember_local {item : Scan α} (hitem : item.Local) : (scanMember item).Local := by
  -- both parts, from one walk over the branches
  have hboth : ∀ {s : JsString} {x : JsString × α} {r : JsString},
      scanMember item s = some (x, r) → (∃ u, u ≠ [] ∧ s = u ++ r) ∧
        (r ≠ [] → ∀ t, scanMember item (s ++ t) = some (x, r ++ t)) := by
    intro s x r h
    unfold scanMember at h
    split at h
    · rename_i c s₁ hskip
      split at h
      · rename_i hquote
        rw [Option.bind_eq_some_iff] at h
        obtain ⟨⟨k, s₂⟩, hk, h⟩ := h
        simp only at h
        split at h
        · rename_i d s₃ hskip'
          split at h
          · rename_i hcolon
            rw [Option.map_eq_some_iff] at h
            obtain ⟨⟨v, r'⟩, hv, heq⟩ := h
            cases heq
            obtain ⟨w, hw⟩ := exists_skipWhitespace s
            obtain ⟨w', hw'⟩ := exists_skipWhitespace s₂
            rw [hskip] at hw
            rw [hskip'] at hw'
            obtain ⟨u, -, hu, happ⟩ := scanJsonString_spec hk
            obtain ⟨u', -, rfl⟩ := hitem.consumes hv
            refine ⟨⟨w ++ c :: (u ++ w' ++ d :: u'), by simp, ?_⟩, fun hne t => ?_⟩
            · rw [hw, hu, hw']
              simp
            · have hstring : scanJsonString (s₁ ++ t) = some (k, s₂ ++ t) := by
                rw [hu, List.append_assoc]
                exact happ _
              simp only [scanMember, skipWhitespace_append t hskip, if_pos hquote, hstring,
                Option.bind_some, skipWhitespace_append t hskip', if_pos hcolon,
                hitem.append t hv hne, Option.map_some]
          · contradiction
        · contradiction
      · contradiction
    · contradiction
  exact ⟨fun h => (hboth h).1, fun t h hne => (hboth h).2 hne t⟩

/-! ### Values -/

/-- Arrays and objects. -/
def Json.isContainer : Json → Bool
  | .array _ | .object _ => true
  | _ => false

/-- What `parseToken` reads: a beginning of the text, which stays the same when the text goes
    on behind something or behind a bracket. -/
structure TokenSpec (item : Scan Json) (fuel : Nat) (c : UInt16) (s : JsString) (v : Json)
    (r : JsString) : Prop where
  consumes : ∃ u, u ≠ [] ∧ c :: s = u ++ r
  append : r ≠ [] ∨ v.isContainer = true → ∀ t, parseToken item fuel c (s ++ t) = some (v, r ++ t)
  bracket : v.isContainer = true → ∃ u d, (d = 0x7D ∨ d = 0x5D) ∧ c :: s = u ++ d :: r

/-- A token that is a literal. -/
private theorem TokenSpec.literal {item : Scan Json} {fuel : Nat} {c d : UInt16}
    {s r ds : JsString} {v value : Json} (hvalue : value.isContainer = false)
    (hscan : scanLiteral (d :: ds) value (c :: s) = some (v, r))
    (hsame : ∀ t, parseToken item fuel c (s ++ t) = scanLiteral (d :: ds) value (c :: (s ++ t))) :
    TokenSpec item fuel c s v r := by
  obtain ⟨heq, happ⟩ := scanLiteral_spec hscan
  have hv : v.isContainer = false := by
    unfold scanLiteral at hscan
    split at hscan
    · cases hscan
      exact hvalue
    · contradiction
  refine ⟨⟨_, List.cons_ne_nil _ _, heq⟩, fun _ t => (hsame t).trans (happ t), fun hc => ?_⟩
  rw [hv] at hc
  contradiction

/-- A token that opens an array or an object. -/
private theorem TokenSpec.bracketed {α : Type} {item : Scan Json} {item' : Scan α} {fuel : Nat}
    {c close : UInt16} {f : List α → Json} {s r : JsString} {v : Json} (hlocal : item'.Local)
    (hclose : close = 0x7D ∨ close = 0x5D)
    (hscan : (scanBracketed item' close fuel s).map (fun p => (f p.1, p.2)) = some (v, r))
    (hsame : ∀ t, parseToken item fuel c (s ++ t) =
      (scanBracketed item' close fuel (s ++ t)).map fun p => (f p.1, p.2)) :
    TokenSpec item fuel c s v r := by
  rw [Option.map_eq_some_iff] at hscan
  obtain ⟨⟨xs, r'⟩, hscan, heq⟩ := hscan
  cases heq
  obtain ⟨⟨u, hu⟩, happ⟩ := scanBracketed_spec hlocal hscan
  refine ⟨⟨c :: (u ++ [close]), List.cons_ne_nil _ _, ?_⟩, fun _ t => ?_, fun _ => ?_⟩
  · rw [hu]
    simp
  · rw [hsame, happ, Option.map_some]
  · exact ⟨c :: u, close, hclose, by rw [hu]; rfl⟩

theorem parseToken_spec {item : Scan Json} (hitem : item.Local) {fuel : Nat} {c : UInt16}
    {s r : JsString} {v : Json} (h : parseToken item fuel c s = some (v, r)) :
    TokenSpec item fuel c s v r := by
  unfold parseToken at h
  split_ifs at h with hquote hbrace hbrack htrue hfalse hnull hnumber
  · rw [Option.map_eq_some_iff] at h
    obtain ⟨⟨str, r'⟩, hscan, heq⟩ := h
    cases heq
    obtain ⟨u, -, rfl, happ⟩ := scanJsonString_spec hscan
    refine ⟨⟨c :: u, List.cons_ne_nil _ _, rfl⟩, fun _ t => ?_, fun hc => by contradiction⟩
    rw [parseToken, if_pos hquote, List.append_assoc, happ]
    rfl
  · apply TokenSpec.bracketed (scanMember_local hitem) (Or.inl rfl) h
    intro t
    rw [parseToken, if_neg hquote, if_pos hbrace]
  · apply TokenSpec.bracketed hitem (Or.inr rfl) h
    intro t
    rw [parseToken, if_neg hquote, if_neg hbrace, if_pos hbrack]
  · apply TokenSpec.literal rfl h
    intro t
    rw [parseToken, if_neg hquote, if_neg hbrace, if_neg hbrack, if_pos htrue]
  · apply TokenSpec.literal rfl h
    intro t
    rw [parseToken, if_neg hquote, if_neg hbrace, if_neg hbrack, if_neg htrue, if_pos hfalse]
  · apply TokenSpec.literal rfl h
    intro t
    rw [parseToken, if_neg hquote, if_neg hbrace, if_neg hbrack, if_neg htrue, if_neg hfalse,
      if_pos hnull]
  · -- more digits may follow, so a number needs something behind it
    have hv : v.isContainer = false := by
      rw [parseJsonNumber, Option.map_eq_some_iff] at h
      obtain ⟨rest, -, heq⟩ := h
      cases heq
      rfl
    refine ⟨parseJsonNumber_local.consumes h, fun hor t => ?_, fun hc => ?_⟩
    · rw [parseToken, if_neg hquote, if_neg hbrace, if_neg hbrack, if_neg htrue, if_neg hfalse,
        if_neg hnull, if_pos hnumber]
      apply parseJsonNumber_local.append t h (hor.resolve_right ?_)
      rw [hv]
      decide
    · rw [hv] at hc
      contradiction

/-- **All of the parser is local.** -/
theorem parseJsonValue_local (fuel : Nat) : (parseJsonValue fuel).Local := by
  induction fuel with
  | zero => exact ⟨fun h => by contradiction, fun _ h => by contradiction⟩
  | succ fuel ih =>
    constructor
    · intro s x r h
      rw [parseJsonValue] at h
      split at h
      · contradiction
      · rename_i c s₁ hskip
        obtain ⟨w, hw⟩ := exists_skipWhitespace s
        obtain ⟨u, hne, hu⟩ := (parseToken_spec ih h).consumes
        rw [hskip, hu] at hw
        exact ⟨w ++ u, by simp [hne], by rw [hw, List.append_assoc]⟩
    · intro s x r t h hne
      rw [parseJsonValue] at h ⊢
      split at h
      · contradiction
      · rename_i c s₁ hskip
        simp only [skipWhitespace_append t hskip]
        exact (parseToken_spec ih h).append (Or.inl hne) t

/-- **Arrays and objects end with a bracket**, and what follows it does not matter. -/
theorem parseJsonValue_closed {fuel : Nat} {s r : JsString} {v : Json}
    (h : parseJsonValue fuel s = some (v, r)) (hv : v.isContainer = true) :
    (∃ u d, (d = 0x7D ∨ d = 0x5D) ∧ s = u ++ d :: r) ∧
      ∀ t, parseJsonValue fuel (s ++ t) = some (v, r ++ t) := by
  cases fuel with
  | zero => contradiction
  | succ fuel =>
    rw [parseJsonValue] at h
    split at h
    · contradiction
    · rename_i c s₁ hskip
      have hspec := parseToken_spec (parseJsonValue_local fuel) h
      obtain ⟨w, hw⟩ := exists_skipWhitespace s
      obtain ⟨u, d, hd, hu⟩ := hspec.bracket hv
      rw [hskip, hu] at hw
      refine ⟨⟨w ++ u, d, hd, by rw [hw, List.append_assoc]⟩, fun t => ?_⟩
      rw [parseJsonValue]
      simp only [skipWhitespace_append t hskip]
      exact hspec.append (Or.inr hv) t

/-! ### Fuel -/

/-- Two parsers of items that agree on texts of at most `n` units make the same lists of them. -/
theorem scanItems_congr {item item' : Scan α} (hitem : item.Local) {n : Nat}
    (hsame : ∀ s : JsString, s.length ≤ n → item s = item' s) {close : UInt16} {f g : Nat}
    {s : JsString} (hs : s.length ≤ n) (hf : s.length < f) (hg : s.length < g) :
    scanItems item close f s = scanItems item' close g s := by
  induction f generalizing g s with
  | zero => omega
  | succ f ih =>
    cases g with
    | zero => omega
    | succ g =>
      rw [scanItems, scanItems, ← hsame s hs]
      cases hx : item s with
      | none => simp
      | some p =>
        obtain ⟨x, s₁⟩ := p
        obtain ⟨u, hne, hu⟩ := hitem.consumes hx
        obtain ⟨w, hw⟩ := exists_skipWhitespace s₁
        have hpos := List.length_pos_of_ne_nil hne
        simp only [Option.bind_some]
        split
        · rename_i c s₂ hskip
          -- the rest behind a comma is shorter than the text
          have hlen : s₂.length < s.length := by
            rw [hu, hw, hskip]
            simp only [List.length_append, List.length_cons]
            omega
          rw [ih (g := g) (by omega) (by omega) (by omega)]
        · simp

theorem scanBracketed_congr {item item' : Scan α} (hitem : item.Local) {n : Nat}
    (hsame : ∀ s : JsString, s.length ≤ n → item s = item' s) {close : UInt16} {f f' : Nat}
    {s : JsString} (hs : s.length ≤ n) (hf : s.length < f) (hf' : s.length < f') :
    scanBracketed item close f s = scanBracketed item' close f' s := by
  simp only [scanBracketed, scanItems_congr hitem hsame hs hf hf']

theorem scanMember_congr {item item' : Scan α} {n : Nat}
    (hsame : ∀ s : JsString, s.length ≤ n → item s = item' s) {s : JsString} (hs : s.length ≤ n) :
    scanMember item s = scanMember item' s := by
  obtain ⟨w, hw⟩ := exists_skipWhitespace s
  unfold scanMember
  split
  · rename_i c s₁ hskip
    split
    · cases hk : scanJsonString s₁ with
      | none => simp
      | some p =>
        obtain ⟨k, s₂⟩ := p
        obtain ⟨u, -, hu, -⟩ := scanJsonString_spec hk
        obtain ⟨w', hw'⟩ := exists_skipWhitespace s₂
        simp only [Option.bind_some]
        split
        · rename_i d s₃ hskip'
          have hlen : s₃.length ≤ n := by
            rw [hw, hskip, hu, hw', hskip'] at hs
            simp only [List.length_append, List.length_cons] at hs
            omega
          rw [hsame s₃ hlen]
        · rfl
    · rfl
  · rfl

theorem parseToken_congr {item item' : Scan Json} (hitem : item.Local) {n : Nat}
    (hsame : ∀ s : JsString, s.length ≤ n → item s = item' s) {f f' : Nat} {s : JsString}
    (hs : s.length ≤ n) (hf : s.length < f) (hf' : s.length < f') (c : UInt16) :
    parseToken item f c s = parseToken item' f' c s := by
  have hmember : ∀ s : JsString, s.length ≤ n → scanMember item s = scanMember item' s :=
    fun _ => scanMember_congr hsame
  simp only [parseToken, scanBracketed_congr hitem hsame hs hf hf',
    scanBracketed_congr (scanMember_local hitem) hmember hs hf hf']

/-- **More fuel than code units makes no difference.** -/
theorem parseJsonValue_fuel {n m : Nat} {s : JsString} (hn : s.length < n) (hm : s.length < m) :
    parseJsonValue n s = parseJsonValue m s := by
  induction n generalizing m s with
  | zero => omega
  | succ n ih =>
    cases m with
    | zero => omega
    | succ m =>
      obtain ⟨w, hw⟩ := exists_skipWhitespace s
      rw [parseJsonValue, parseJsonValue]
      split
      · rfl
      · rename_i c s₁ hskip
        have hlen : s₁.length < s.length := by
          rw [hw, hskip]
          simp only [List.length_append, List.length_cons]
          omega
        -- what stands behind the first unit is shorter, so the induction hypothesis covers it
        exact parseToken_congr (parseJsonValue_local n)
          (fun s' hs' => ih (m := m) (by omega) (by omega)) (Nat.le_refl _) (by omega) (by omega) c

end Dv8.V8
