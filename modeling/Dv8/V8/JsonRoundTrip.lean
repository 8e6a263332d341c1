import Mathlib.Data.List.TakeWhile
import Dv8.V8.JsonStrings

namespace Dv8.V8

open Dv8.Lib

/-!
# From `JSON.stringify` to `JSON.parse`

`JsonParser` undoes `JsonStringifier` on every value whose number texts are numbers and whose
objects have no key twice (`parseJson_stringify`).  The texts have surrogates in pairs only
(`wellFormed_stringify`).

Strings, numbers, members and lists of items are read back one by one, each with anything behind
it that may stand behind it; the values follow by induction.
-/

/-! ### Numbers -/

/-- One digit or more. -/
def Digits (s : JsString) : Prop := s ≠ [] ∧ ∀ d ∈ s, isDecimalDigit d = true

/-- The grammar of numbers. -/
inductive NumberText : JsString → Prop
  | intro {sign integer fraction exponent : JsString}
      (sign_eq : sign = [] ∨ sign = [0x2D])
      (integer_eq : integer = [0x30] ∨ Digits integer ∧ integer.head? ≠ some 0x30)
      (fraction_eq : fraction = [] ∨ ∃ ds, fraction = 0x2E :: ds ∧ Digits ds)
      (exponent_eq : exponent = [] ∨ ∃ e s ds, exponent = e :: (s ++ ds) ∧
        (e = 0x65 ∨ e = 0x45) ∧ (s = [] ∨ s = [0x2D] ∨ s = [0x2B]) ∧ Digits ds) :
      NumberText (sign ++ (integer ++ (fraction ++ exponent)))

/-- No digit comes next. -/
def NoDigit (r : JsString) : Prop := ∀ c ∈ r.head?, isDecimalDigit c = false

/-- Nothing comes next that could belong to a number. -/
def EndsNumber (r : JsString) : Prop :=
  ∀ c ∈ r.head?, isDecimalDigit c = false ∧ c ≠ 0x2E ∧ c ≠ 0x65 ∧ c ≠ 0x45

theorem EndsNumber.noDigit {r : JsString} (h : EndsNumber r) : NoDigit r := fun c hc => (h c hc).1

/-- The value of a digit. -/
theorem isDecimalDigit_iff {c : UInt16} :
    isDecimalDigit c = true ↔ 0x30 ≤ c.toNat ∧ c.toNat ≤ 0x39 := by
  rw [isDecimalDigit, Bool.and_eq_true, decide_eq_true_eq, decide_eq_true_eq]
  rfl

theorem dropWhile_digits {ds r : JsString} (hds : ∀ d ∈ ds, isDecimalDigit d = true)
    (hr : NoDigit r) : (ds ++ r).dropWhile isDecimalDigit = r := by
  rw [List.dropWhile_append_of_pos hds]
  cases r with
  | nil => rfl
  | cons c r => exact List.dropWhile_cons_of_neg (by rw [hr c rfl]; exact Bool.false_ne_true)

theorem scanDigits_append {ds r : JsString} (hds : Digits ds) (hr : NoDigit r) :
    scanDigits (ds ++ r) = some r := by
  obtain ⟨d, ds, rfl⟩ := List.exists_cons_of_ne_nil hds.1
  have hrest := dropWhile_digits (fun e he => hds.2 e (List.mem_cons_of_mem _ he)) hr
  rw [List.cons_append, scanDigits, if_pos (hds.2 d List.mem_cons_self), hrest]

theorem scanInteger_append {s r : JsString}
    (hs : s = [0x30] ∨ Digits s ∧ s.head? ≠ some 0x30) (hr : NoDigit r) :
    scanInteger (s ++ r) = some r := by
  rcases hs with rfl | ⟨hds, hhead⟩
  · have hno : ¬ r.head?.any isDecimalDigit = true := by
      rw [Option.any_eq_true]
      rintro ⟨c, hc, hdigit⟩
      rw [hr c hc] at hdigit
      contradiction
    rw [List.cons_append, List.nil_append, scanInteger, if_pos rfl, if_neg hno]
  · have hscan := scanDigits_append hds hr
    obtain ⟨d, ds, rfl⟩ := List.exists_cons_of_ne_nil hds.1
    have hd : d ≠ 0x30 := fun h => hhead (by rw [h]; rfl)
    rw [List.cons_append, scanInteger, if_neg hd]
    exact hscan

theorem scanSigned_append {sign s r : JsString} (hsign : sign = [] ∨ sign = [0x2D])
    (hs : s = [0x30] ∨ Digits s ∧ s.head? ≠ some 0x30) (hr : NoDigit r) :
    scanSigned (sign ++ (s ++ r)) = some r := by
  have hscan := scanInteger_append hs hr
  rcases hsign with rfl | rfl
  · obtain ⟨d, ds, rfl, hd⟩ : ∃ d ds, s = d :: ds ∧ d ≠ 0x2D := by
      rcases hs with rfl | ⟨hds, -⟩
      · exact ⟨0x30, [], rfl, by decide⟩
      · obtain ⟨d, ds, rfl⟩ := List.exists_cons_of_ne_nil hds.1
        refine ⟨d, ds, rfl, ?_⟩
        rintro rfl
        exact absurd (hds.2 0x2D List.mem_cons_self) (by decide)
    rw [List.nil_append, List.cons_append, scanSigned, if_neg hd]
    exact hscan
  · rw [List.cons_append, List.nil_append, scanSigned, if_pos rfl, hscan]

theorem scanFraction_append {s r : JsString}
    (hs : s = [] ∨ ∃ ds, s = 0x2E :: ds ∧ Digits ds) (hr : NoDigit r)
    (hpoint : ∀ c ∈ r.head?, c ≠ 0x2E) : scanFraction (s ++ r) = some r := by
  rcases hs with rfl | ⟨ds, rfl, hds⟩
  · cases r with
    | nil => rfl
    | cons c r => exact if_neg (hpoint c rfl)
  · rw [List.cons_append, scanFraction, if_pos rfl, scanDigits_append hds hr]

theorem scanExponent_append {s r : JsString}
    (hs : s = [] ∨ ∃ e sign ds, s = e :: (sign ++ ds) ∧ (e = 0x65 ∨ e = 0x45) ∧
      (sign = [] ∨ sign = [0x2D] ∨ sign = [0x2B]) ∧ Digits ds) (hr : EndsNumber r) :
    scanExponent (s ++ r) = some r := by
  rcases hs with rfl | ⟨e, sign, ds, rfl, he, hsign, hds⟩
  · cases r with
    | nil => rfl
    | cons c r =>
      obtain ⟨-, -, h₁, h₂⟩ := hr c rfl
      rw [List.nil_append, scanExponent.eq_def]
      exact if_neg (by simp [h₁, h₂])
  · have hscan := scanDigits_append hds hr.noDigit
    rw [List.cons_append, List.append_assoc, scanExponent.eq_def]
    simp only [if_pos he]
    rcases hsign with rfl | rfl | rfl
    · -- without a sign the first digit must not be taken for one
      obtain ⟨d, ds, rfl⟩ := List.exists_cons_of_ne_nil hds.1
      have hd : ¬ (d = 0x2D ∨ d = 0x2B) := by
        rintro (rfl | rfl)
        · exact absurd (hds.2 _ List.mem_cons_self) (by decide)
        · exact absurd (hds.2 _ List.mem_cons_self) (by decide)
      simp only [List.nil_append, List.cons_append, if_neg hd]
      exact hscan
    · exact hscan
    · exact hscan

/-- **A number is read back.** -/
theorem parseJsonNumber_append {text r : JsString} (h : NumberText text) (hr : EndsNumber r) :
    parseJsonNumber (text ++ r) = some (.number text, r) := by
  obtain ⟨hsign, hinteger, hfraction, hexponent⟩ := h
  rename_i sign integer fraction exponent
  have hexp : NoDigit (exponent ++ r) ∧ ∀ c ∈ (exponent ++ r).head?, c ≠ 0x2E := by
    rcases hexponent with rfl | ⟨e, s, ds, rfl, rfl | rfl, -, -⟩
    · exact ⟨hr.noDigit, fun c hc => (hr c hc).2.1⟩
    · exact ⟨fun c hc => by cases hc; decide, fun c hc => by cases hc; decide⟩
    · exact ⟨fun c hc => by cases hc; decide, fun c hc => by cases hc; decide⟩
  have hfrac : NoDigit (fraction ++ (exponent ++ r)) := by
    rcases hfraction with rfl | ⟨ds, rfl, -⟩
    · exact hexp.1
    · exact fun c hc => by cases hc; decide
  have hscan : ((scanSigned (sign ++ (integer ++ (fraction ++ exponent)) ++ r)).bind
      fun rest => (scanFraction rest).bind scanExponent) = some r := by
    rw [List.append_assoc, List.append_assoc, List.append_assoc,
      scanSigned_append hsign hinteger hfrac, Option.bind_some,
      scanFraction_append hfraction hexp.1 hexp.2, Option.bind_some,
      scanExponent_append hexponent hr]
  have hlen (text : JsString) : (text ++ r).take ((text ++ r).length - r.length) = text := by
    rw [List.length_append, Nat.add_sub_cancel, List.take_left]
  rw [parseJsonNumber, hscan, Option.map_some, hlen]

/-- A number starts with a sign or a digit. -/
theorem NumberText.head {text : JsString} (h : NumberText text) :
    ∃ c s, text = c :: s ∧ (c = 0x2D ∨ isDecimalDigit c = true) := by
  obtain ⟨rfl | rfl, hinteger, -, -⟩ := h
  · rcases hinteger with rfl | ⟨hds, -⟩
    · exact ⟨0x30, _, rfl, Or.inr (by decide)⟩
    · obtain ⟨d, ds, rfl⟩ := List.exists_cons_of_ne_nil hds.1
      exact ⟨d, _, rfl, Or.inr (hds.2 d List.mem_cons_self)⟩
  · exact ⟨0x2D, _, rfl, Or.inl rfl⟩

theorem Digits.isAscii {s : JsString} (h : Digits s) : IsAscii s := fun d hd => by
  have := isDecimalDigit_iff.mp (h.2 d hd)
  omega

theorem NumberText.isAscii {text : JsString} (h : NumberText text) : IsAscii text := by
  obtain ⟨hsign, hinteger, hfraction, hexponent⟩ := h
  rw [isAscii_append, isAscii_append, isAscii_append]
  refine ⟨?_, ?_, ?_, ?_⟩
  · rcases hsign with rfl | rfl <;> decide
  · rcases hinteger with rfl | ⟨hds, -⟩
    · decide
    · exact hds.isAscii
  · rcases hfraction with rfl | ⟨ds, rfl, hds⟩
    · decide
    · exact isAscii_cons.mpr ⟨by decide, hds.isAscii⟩
  · rcases hexponent with rfl | ⟨e, s, ds, rfl, he, hs, hds⟩
    · decide
    · rw [isAscii_cons, isAscii_append]
      refine ⟨?_, ?_, hds.isAscii⟩
      · rcases he with rfl | rfl <;> decide
      · rcases hs with rfl | rfl | rfl <;> decide

/-! ### Items -/

/-- Texts with commas between them. -/
def joined : List JsString → JsString
  | [] => []
  | [t] => t
  | t :: ts => t ++ 0x2C :: joined ts

theorem joined_cons_cons (t u : JsString) (ts : List JsString) :
    joined (t :: u :: ts) = t ++ 0x2C :: joined (u :: ts) := rfl

theorem serializeElements_eq (es : List Json) :
    serializeElements es = joined (es.map stringify) := by
  induction es with
  | nil => rfl
  | cons e es ih =>
    cases es with
    | nil => rfl
    | cons e' es =>
      rw [serializeElements, ih, List.map_cons, List.map_cons, List.map_cons, joined_cons_cons]
      simp

/-- The text of a member. -/
def memberText (m : JsString × Json) : JsString := serializeString m.1 ++ 0x3A :: stringify m.2

theorem serializeMembers_eq (ms : List (JsString × Json)) :
    serializeMembers ms = joined (ms.map memberText) := by
  induction ms with
  | nil => rfl
  | cons m ms ih =>
    obtain ⟨k, v⟩ := m
    cases ms with
    | nil => rfl
    | cons m' ms =>
      rw [serializeMembers, ih, List.map_cons, List.map_cons, List.map_cons, joined_cons_cons]
      · simp [memberText]
      · rintro ⟨⟩

theorem wellFormed_joined {ts : List JsString} (h : ∀ t ∈ ts, WellFormed t) :
    WellFormed (joined ts) := by
  induction ts with
  | nil => exact wellFormed_nil
  | cons t ts ih =>
    have ht := h t List.mem_cons_self
    have hts := ih fun u hu => h u (List.mem_cons_of_mem _ hu)
    cases ts with
    | nil => exact ht
    | cons u ts => exact ht.append ((wellFormed_of_ascii (s := [0x2C]) (by decide)).append hts)

theorem isAscii_joined {ts : List JsString} : IsAscii (joined ts) ↔ ∀ t ∈ ts, IsAscii t := by
  induction ts with
  | nil => simp [joined, IsAscii]
  | cons t ts ih =>
    cases ts with
    | nil => simp [joined]
    | cons u ts =>
      rw [joined_cons_cons, isAscii_append, isAscii_cons, ih, List.forall_mem_cons (a := t)]
      exact and_congr_right' (and_iff_right (by decide))

theorem skipWhitespace_of_not {c : UInt16} (h : isWhitespace c = false) (s : JsString) :
    skipWhitespace (c :: s) = c :: s :=
  List.dropWhile_cons_of_neg (by rw [h]; exact Bool.false_ne_true)

variable {α : Type}

/-- **A list of items is read back** when each item is, in front of a comma or `close`. -/
theorem scanItems_joined {item : Scan α} {close : UInt16} {write : α → JsString} {n f : Nat}
    (hcomma : close ≠ 0x2C) (hclose : isWhitespace close = false) {x : α} {xs : List α}
    (hitem : ∀ y ∈ x :: xs, ∀ r, r.head? = some 0x2C ∨ r.head? = some close →
      (write y ++ r).length < n → item (write y ++ r) = some (y, r))
    {r : JsString} (hn : (joined ((x :: xs).map write) ++ close :: r).length < n)
    (hf : (joined ((x :: xs).map write) ++ close :: r).length < f) :
    scanItems item close f (joined ((x :: xs).map write) ++ close :: r) = some (x :: xs, r) := by
  induction xs generalizing x f with
  | nil =>
    cases f with
    | zero => omega
    | succ f =>
      -- the last item stands before the bracket
      have hx := hitem x List.mem_cons_self (close :: r) (Or.inr rfl) hn
      have hskip := skipWhitespace_of_not hclose r
      show scanItems item close (f + 1) (write x ++ close :: r) = _
      rw [scanItems, hx, Option.bind_some]
      simp only [hskip, if_neg hcomma, if_true]
  | cons y ys ih =>
    cases f with
    | zero => omega
    | succ f =>
      rw [List.map_cons, List.map_cons, joined_cons_cons, ← List.map_cons, List.append_assoc,
        List.cons_append] at hn hf ⊢
      -- an item stands before a comma
      have hx := hitem x List.mem_cons_self _ (Or.inl rfl) hn
      have hlen : (joined ((y :: ys).map write) ++ close :: r).length <
          (write x ++ 0x2C :: (joined ((y :: ys).map write) ++ close :: r)).length := by
        simp only [List.length_append, List.length_cons]
        omega
      have hrest := ih (fun z hz => hitem z (List.mem_cons_of_mem _ hz)) (f := f)
        (Nat.lt_trans hlen hn) (by omega)
      have hskip := skipWhitespace_of_not (c := 0x2C) (by decide)
        (joined ((y :: ys).map write) ++ close :: r)
      rw [scanItems, hx, Option.bind_some]
      simp only [hskip, if_true, hrest, Option.map_some]

/-- A list between brackets is read back. -/
theorem scanBracketed_joined {item : Scan α} {close : UInt16} {write : α → JsString} {n f : Nat}
    (hcomma : close ≠ 0x2C) (hclose : isWhitespace close = false) {xs : List α}
    (hhead : ∀ x ∈ xs, ∃ c s, write x = c :: s ∧ isWhitespace c = false ∧ c ≠ close)
    (hitem : ∀ x ∈ xs, ∀ r, r.head? = some 0x2C ∨ r.head? = some close →
      (write x ++ r).length < n → item (write x ++ r) = some (x, r))
    {r : JsString} (hn : (joined (xs.map write) ++ close :: r).length < n)
    (hf : (joined (xs.map write) ++ close :: r).length < f) :
    scanBracketed item close f (joined (xs.map write) ++ close :: r) = some (xs, r) := by
  cases xs with
  | nil =>
    have hskip := skipWhitespace_of_not hclose r
    show scanBracketed item close f (close :: r) = _
    unfold scanBracketed
    simp only [hskip, if_true]
  | cons x xs =>
    obtain ⟨c, s, hx, hspace, hc⟩ := hhead x List.mem_cons_self
    have hread := scanItems_joined hcomma hclose hitem hn hf
    -- the text goes on with the first item, not with the bracket
    obtain ⟨t, ht⟩ : ∃ t, joined ((x :: xs).map write) ++ close :: r = c :: t := by
      cases xs with
      | nil => exact ⟨s ++ close :: r, by rw [List.map_cons, hx]; rfl⟩
      | cons y ys =>
        refine ⟨s ++ 0x2C :: (joined ((y :: ys).map write) ++ close :: r), ?_⟩
        rw [List.map_cons, List.map_cons, joined_cons_cons, hx]
        simp
    unfold scanBracketed
    rw [ht] at hread ⊢
    simp only [skipWhitespace_of_not hspace, if_neg hc, hread]

/-- A member is read back. -/
theorem scanMember_append {item : Scan α} {k t r : JsString} {v : α}
    (hitem : item (t ++ r) = some (v, r)) :
    scanMember item (serializeString k ++ 0x3A :: t ++ r) = some ((k, v), r) := by
  have hquote := skipWhitespace_of_not (c := 0x22) (by decide)
    (serializeUnits k ++ 0x22 :: 0x3A :: (t ++ r))
  have hcolon := skipWhitespace_of_not (c := 0x3A) (by decide) (t ++ r)
  have htext : serializeString k ++ 0x3A :: t ++ r =
      0x22 :: (serializeUnits k ++ 0x22 :: 0x3A :: (t ++ r)) := by simp [serializeString]
  unfold scanMember
  rw [htext]
  simp only [hquote, if_true, scanJsonString_serializeUnits, Option.bind_some, hcolon, hitem,
    Option.map_some]

/-! ### Values -/

/-- The values `JSON.stringify` can meet: number texts are numbers, and no object has a key
    twice. -/
inductive Json.Valid : Json → Prop
  | null : Valid .null
  | bool (b : Bool) : Valid (.bool b)
  | number {text : JsString} (h : NumberText text) : Valid (.number text)
  | string (s : JsString) : Valid (.string s)
  | array {es : List Json} (h : ∀ e ∈ es, Valid e) : Valid (.array es)
  | object {ms : List (JsString × Json)} (nodup : (ms.map Prod.fst).Nodup)
      (h : ∀ m ∈ ms, Valid m.2) : Valid (.object ms)

/-- Without a key twice every property is added. -/
theorem buildJsonObject_of_nodup {ms : List (JsString × Json)} (h : (ms.map Prod.fst).Nodup) :
    buildJsonObject ms = .object ms := by
  have hfold (acc ms : List (JsString × Json)) (h : ((acc ++ ms).map Prod.fst).Nodup) :
      ms.foldl defineProperty acc = acc ++ ms := by
    induction ms generalizing acc with
    | nil => exact (List.append_nil acc).symm
    | cons m ms ih =>
      have hnew : m.1 ∉ acc.map Prod.fst := by
        rw [List.map_append, List.map_cons] at h
        exact fun hmem => (List.nodup_append.mp h).2.2 _ hmem _ List.mem_cons_self rfl
      have hstep : defineProperty acc m = acc ++ [m] := if_neg hnew
      have happ : acc ++ [m] ++ ms = acc ++ m :: ms := by simp
      rw [List.foldl_cons, hstep, ih _ (by rwa [happ]), happ]
  rw [buildJsonObject, hfold [] ms h, List.nil_append]

theorem isWhitespace_digit {c : UInt16} (h : isDecimalDigit c = true) : isWhitespace c = false := by
  simp only [isWhitespace, Bool.or_eq_false_iff, decide_eq_false_iff_not]
  refine ⟨⟨⟨?_, ?_⟩, ?_⟩, ?_⟩ <;> rintro rfl <;> contradiction

/-- The first unit of a text is no whitespace, and no closing bracket. -/
theorem stringify_head {v : Json} (hv : v.Valid) :
    ∃ c s, stringify v = c :: s ∧ isWhitespace c = false ∧ c ≠ 0x5D := by
  cases hv with
  | null => exact ⟨_, _, rfl, by decide, by decide⟩
  | bool b => cases b <;> exact ⟨_, _, rfl, by decide, by decide⟩
  | number h =>
    obtain ⟨c, s, rfl, hc⟩ := h.head
    refine ⟨c, s, rfl, ?_⟩
    rcases hc with rfl | hc
    · exact ⟨by decide, by decide⟩
    · refine ⟨isWhitespace_digit hc, ?_⟩
      rintro rfl
      contradiction
  | string s => exact ⟨_, _, rfl, by decide, by decide⟩
  | array h => exact ⟨_, _, rfl, by decide, by decide⟩
  | object hnodup h => exact ⟨_, _, rfl, by decide, by decide⟩

/-- A token is read where it stands. -/
theorem parseJsonValue_token {c : UInt16} (h : isWhitespace c = false) (n : Nat) (s : JsString) :
    parseJsonValue (n + 1) (c :: s) = parseToken (parseJsonValue n) n c s := by
  rw [parseJsonValue, skipWhitespace_of_not h]

theorem scanLiteral_append (literal r : JsString) (value : Json) :
    scanLiteral literal value (literal ++ r) = some (value, r) := by
  have hprefix : literal.isPrefixOf (literal ++ r) = true :=
    List.isPrefixOf_iff_prefix.mpr (List.prefix_append _ _)
  rw [scanLiteral, if_pos hprefix, List.drop_left]

theorem parseToken_number {c : UInt16} (h : c = 0x2D ∨ isDecimalDigit c = true) (item : Scan Json)
    (f : Nat) (s : JsString) : parseToken item f c s = parseJsonNumber (c :: s) := by
  have hne (d : UInt16) (hd : ¬ (d = 0x2D ∨ isDecimalDigit d = true)) : c ≠ d := by
    rintro rfl
    exact hd h
  rw [parseToken, if_neg (hne _ (by decide)), if_neg (hne _ (by decide)),
    if_neg (hne _ (by decide)), if_neg (hne _ (by decide)), if_neg (hne _ (by decide)),
    if_neg (hne _ (by decide)), if_pos h]

/-- What stands in front of a comma or a bracket has ended. -/
theorem endsNumber_of_head {r : JsString} {close : UInt16} (hclose : close = 0x5D ∨ close = 0x7D)
    (h : r.head? = some 0x2C ∨ r.head? = some close) : EndsNumber r := by
  intro c hc
  rcases h with h | h <;> rw [h] at hc <;> cases hc
  · decide
  · rcases hclose with rfl | rfl <;> decide

/-- **A value is read back**, in front of anything that could not belong to a number. -/
theorem parseJsonValue_stringify {v : Json} (hv : v.Valid) {n : Nat} {r : JsString}
    (hr : EndsNumber r) (hn : (stringify v ++ r).length < n) :
    parseJsonValue n (stringify v ++ r) = some (v, r) := by
  obtain ⟨n, rfl⟩ : ∃ m, n = m + 1 := ⟨n - 1, by omega⟩
  induction hv generalizing n r with
  -- the first unit of a value picks the branch of `parseToken`
  | null =>
    exact (parseJsonValue_token (by decide) n _).trans
      (scanLiteral_append [0x6E, 0x75, 0x6C, 0x6C] r .null)
  | bool b =>
    cases b with
    | true =>
      exact (parseJsonValue_token (by decide) n _).trans
        (scanLiteral_append [0x74, 0x72, 0x75, 0x65] r (.bool true))
    | false =>
      exact (parseJsonValue_token (by decide) n _).trans
        (scanLiteral_append [0x66, 0x61, 0x6C, 0x73, 0x65] r (.bool false))
  | number h =>
    have hread := parseJsonNumber_append h hr
    obtain ⟨c, s, rfl, hc⟩ := h.head
    have hspace : isWhitespace c = false := by
      rcases hc with rfl | hc
      · decide
      · exact isWhitespace_digit hc
    show parseJsonValue (n + 1) (c :: (s ++ r)) = _
    rw [parseJsonValue_token hspace, parseToken_number hc]
    exact hread
  | string s =>
    have htext : stringify (.string s) ++ r = 0x22 :: (serializeUnits s ++ 0x22 :: r) := by
      simp [stringify, serializeString]
    rw [htext, parseJsonValue_token (by decide), parseToken, if_pos rfl,
      scanJsonString_serializeUnits]
    rfl
  | array h ih =>
    rename_i es
    have htext : stringify (.array es) ++ r =
        0x5B :: (joined (es.map stringify) ++ 0x5D :: r) := by
      simp [stringify, serializeElements_eq]
    rw [htext, List.length_cons] at hn
    -- an element is read with the fuel that is left: it is shorter than the text
    have hitem : ∀ e ∈ es, ∀ r', r'.head? = some 0x2C ∨ r'.head? = some 0x5D →
        (stringify e ++ r').length < n → parseJsonValue n (stringify e ++ r') = some (e, r') := by
      intro e he r' hr' hlen
      obtain ⟨m, rfl⟩ : ∃ m, n = m + 1 := ⟨n - 1, by omega⟩
      exact ih e he (endsNumber_of_head (Or.inl rfl) hr') m hlen
    have hread := scanBracketed_joined (by decide) (by decide) (fun e he => stringify_head (h e he))
      hitem (Nat.lt_of_succ_lt_succ hn) (Nat.lt_of_succ_lt_succ hn)
    rw [htext, parseJsonValue_token (by decide), parseToken, if_neg (by decide),
      if_neg (by decide), if_pos rfl, hread]
    rfl
  | object hnodup h ih =>
    rename_i ms
    have htext : stringify (.object ms) ++ r =
        0x7B :: (joined (ms.map memberText) ++ 0x7D :: r) := by
      simp [stringify, serializeMembers_eq]
    rw [htext, List.length_cons] at hn
    have hhead : ∀ m ∈ ms, ∃ c s, memberText m = c :: s ∧ isWhitespace c = false ∧ c ≠ 0x7D :=
      fun m _ => ⟨0x22, _, rfl, by decide, by decide⟩
    have hitem : ∀ m ∈ ms, ∀ r', r'.head? = some 0x2C ∨ r'.head? = some 0x7D →
        (memberText m ++ r').length < n →
        scanMember (parseJsonValue n) (memberText m ++ r') = some (m, r') := by
      rintro ⟨k, v⟩ hm r' hr' hlen
      have hlen' : (stringify v ++ r').length < n := by
        simp only [memberText, List.length_append, List.length_cons] at hlen
        rw [List.length_append]
        omega
      obtain ⟨m, rfl⟩ : ∃ m, n = m + 1 := ⟨n - 1, by omega⟩
      exact scanMember_append (ih (k, v) hm (endsNumber_of_head (Or.inr rfl) hr') m hlen')
    have hread := scanBracketed_joined (by decide) (by decide) hhead hitem
      (Nat.lt_of_succ_lt_succ hn) (Nat.lt_of_succ_lt_succ hn)
    -- a member read twice would replace the first; there is none
    rw [htext, parseJsonValue_token (by decide), parseToken, if_neg (by decide), if_pos rfl,
      hread, ← buildJsonObject_of_nodup hnodup]
    rfl

/-- **`JSON.parse` undoes `JSON.stringify`.** -/
theorem parseJson_stringify {v : Json} (hv : v.Valid) : parseJson (stringify v) = some v := by
  have h := parseJsonValue_stringify hv (n := (stringify v).length + 1) (r := [])
    (fun c hc => by cases hc) (by simp)
  rw [List.append_nil] at h
  rw [parseJson, h]
  rfl

/-! ### Texts that are no longer whole -/

theorem exists_of_parseJson {s : JsString} {v : Json} (h : parseJson s = some v) :
    ∃ r, parseJsonValue (s.length + 1) s = some (v, r) ∧ skipWhitespace r = [] := by
  rw [parseJson, Option.bind_eq_some_iff] at h
  obtain ⟨⟨w, r⟩, hread, hrest⟩ := h
  simp only at hrest
  split at hrest
  · rename_i hr
    cases hrest
    exact ⟨r, hread, hr⟩
  · contradiction

/-- The text of an array or object ends with a bracket, or with whitespace behind it. -/
theorem parseJson_last {s : JsString} {d : UInt16} {v : Json} (h : parseJson (s ++ [d]) = some v)
    (hv : v.isContainer = true) : isWhitespace d = true ∨ d = 0x7D ∨ d = 0x5D := by
  obtain ⟨r, hread, hr⟩ := exists_of_parseJson h
  obtain ⟨⟨u, b, hb, htext⟩, -⟩ := parseJsonValue_closed hread hv
  rcases List.eq_nil_or_concat r with rfl | ⟨r, e, rfl⟩
  · obtain ⟨-, hd⟩ := List.append_inj' htext rfl
    cases hd
    exact Or.inr hb
  · rw [List.concat_eq_append] at hr htext
    rw [← List.cons_append, ← List.append_assoc] at htext
    obtain ⟨-, hd⟩ := List.append_inj' htext rfl
    cases hd
    exact Or.inl (List.dropWhile_eq_nil_iff.mp hr d (by simp))

/-- **A proper beginning of the text of a value is not an array or object.** -/
theorem parseJson_short {v w : Json} (hv : v.Valid) {p q : JsString} (hpq : stringify v = p ++ q)
    (hq : q ≠ []) (h : parseJson p = some w) : w.isContainer = false := by
  obtain ⟨r, hread, -⟩ := exists_of_parseJson h
  by_contra hw
  -- with enough fuel for the whole text the beginning is read in the same way
  have hfuel : parseJsonValue ((p ++ q).length + 1) p = some (w, r) := by
    rw [← hread]
    refine parseJsonValue_fuel ?_ (Nat.lt_succ_self _)
    rw [List.length_append]
    omega
  have hlong := (parseJsonValue_closed hfuel (eq_true_of_ne_false hw)).2 q
  have hwhole := parseJsonValue_stringify hv (n := (p ++ q).length + 1) (r := [])
    (fun c hc => by cases hc) (by simp [hpq])
  rw [List.append_nil, hpq, hlong, Option.some.injEq, Prod.mk.injEq,
    List.append_eq_nil_iff] at hwhole
  exact hq hwhole.2.2

/-! ### The texts -/

theorem wellFormed_serializeString (s : JsString) : WellFormed (serializeString s) :=
  (wellFormed_of_ascii (s := [0x22]) (by decide)).append
    ((wellFormed_serializeUnits s).append (wellFormed_of_ascii (by decide)))

/-- **The text of a value has surrogates in pairs only.** -/
theorem wellFormed_stringify {v : Json} (hv : v.Valid) : WellFormed (stringify v) := by
  -- brackets are ASCII
  have hbrackets {b d : UInt16} {t : JsString} (hb : IsAscii [b]) (hd : IsAscii [d])
      (ht : WellFormed t) : WellFormed (b :: (t ++ [d])) :=
    (wellFormed_of_ascii hb).append (ht.append (wellFormed_of_ascii hd))
  induction hv with
  | null => exact wellFormed_of_ascii (by decide)
  | bool b => cases b <;> exact wellFormed_of_ascii (by decide)
  | number h => exact wellFormed_of_ascii h.isAscii
  | string s => exact wellFormed_serializeString s
  | array h ih =>
    rw [stringify, serializeElements_eq]
    refine hbrackets (by decide) (by decide) (wellFormed_joined ?_)
    simpa using ih
  | object hnodup h ih =>
    rw [stringify, serializeMembers_eq]
    refine hbrackets (by decide) (by decide) (wellFormed_joined ?_)
    intro t ht
    obtain ⟨m, hm, rfl⟩ := List.mem_map.mp ht
    exact (wellFormed_serializeString m.1).append
      ((wellFormed_of_ascii (s := [0x3A]) (by decide)).append (ih m hm))

theorem isAscii_serializeString (s : JsString) :
    IsAscii (serializeString s) ↔ isPlain s = true := by
  rw [serializeString, isAscii_cons, isAscii_append, isAscii_serializeUnits]
  exact (and_iff_right (by decide)).trans (and_iff_left (by decide))

/-- Which arrays and objects have texts in ASCII. -/
theorem isAscii_stringify_array (es : List Json) :
    IsAscii (stringify (.array es)) ↔ ∀ t ∈ es.map stringify, IsAscii t := by
  rw [stringify, serializeElements_eq, isAscii_cons, isAscii_append, isAscii_joined]
  exact (and_iff_right (by decide)).trans (and_iff_left (by decide))

theorem isAscii_stringify_object (ms : List (JsString × Json)) :
    IsAscii (stringify (.object ms)) ↔ ∀ t ∈ ms.map memberText, IsAscii t := by
  rw [stringify, serializeMembers_eq, isAscii_cons, isAscii_append, isAscii_joined]
  exact (and_iff_right (by decide)).trans (and_iff_left (by decide))

end Dv8.V8
