import Dv8.V8.JsonParser

namespace Dv8.V8

open Dv8.Lib

/-!
# Strings in JSON texts

`SerializeString_` leaves a unit alone, puts a backslash in front of it, or writes its number;
`ScanJsonString` undoes each of them.

* `scanJsonString_serializeUnits` — every string is read back;
* `wellFormed_serializeUnits` — a serialized string has surrogates in pairs only;
* `isAscii_serializeUnits` — which strings are serialized without a unit beyond ASCII.
-/

/-- Every unit of the string is ASCII, or a surrogate that is not part of a pair. -/
def isPlain : JsString → Bool
  | [] => true
  | c :: s =>
    (c ≤ 0x7F || 0xD800 ≤ c && c ≤ 0xDFFF &&
      !(c ≤ 0xDBFF && s.head?.any fun next => 0xDC00 ≤ next && next ≤ 0xDFFF)) && isPlain s

/-! ### Escapes -/

/-- A hexadecimal digit is read back. -/
theorem hexValue_hexDigit {n : Nat} (h : n < 16) : hexValue (hexDigit n) = some n := by
  have hall : ∀ i : Fin 16, hexValue (hexDigit i) = some i.val := by decide
  exact hall ⟨n, h⟩

theorem hexDigit_ascii {n : Nat} (h : n < 16) : (hexDigit n).toNat ≤ 0x7F := by
  have hall : ∀ i : Fin 16, (hexDigit i).toNat ≤ 0x7F := by decide
  exact hall ⟨n, h⟩

/-- The four digits of a unit are read back. -/
theorem scanUnicodeCharacter_hexDigit (c : UInt16) :
    scanUnicodeCharacter (hexDigit (c.toNat / 4096)) (hexDigit (c.toNat / 256 % 16))
      (hexDigit (c.toNat / 16 % 16)) (hexDigit (c.toNat % 16)) = some c := by
  have hc := c.toNat_lt
  have hvalue : ((c.toNat / 4096 * 16 + c.toNat / 256 % 16) * 16 + c.toNat / 16 % 16) * 16
      + c.toNat % 16 = c.toNat := by omega
  rw [scanUnicodeCharacter, hexValue_hexDigit (by omega), hexValue_hexDigit (by omega),
    hexValue_hexDigit (by omega), hexValue_hexDigit (by omega)]
  simp only [Option.bind_eq_bind, Option.bind_some, Option.pure_def, hvalue, UInt16.ofNat_toNat]

theorem scanJsonString_unicodeEscape (c : UInt16) (t : JsString) :
    scanJsonString (unicodeEscape c ++ t) = (scanJsonString t).map (prepend c) := by
  simp only [unicodeEscape, List.cons_append, List.nil_append]
  rw [scanJsonString_unicode, scanUnicodeCharacter_hexDigit, Option.bind_some]

theorem isAscii_unicodeEscape (c : UInt16) : IsAscii (unicodeEscape c) := by
  have hc := c.toNat_lt
  intro d hd
  simp only [unicodeEscape, List.mem_cons, List.not_mem_nil, or_false] at hd
  rcases hd with rfl | rfl | rfl | rfl | rfl | rfl
  · decide
  · decide
  · exact hexDigit_ascii (by omega)
  · exact hexDigit_ascii (by omega)
  · exact hexDigit_ascii (by omega)
  · exact hexDigit_ascii (by omega)

/-- An escape of one unit is read back. -/
theorem scanJsonString_shortEscape {e u : UInt16} (he : e ≠ 0x75) (hu : escapeKind e = some u)
    (t : JsString) : scanJsonString ([0x5C, e] ++ t) = (scanJsonString t).map (prepend u) := by
  rw [List.cons_append, List.cons_append, List.nil_append, scanJsonString_escape he, hu,
    Option.bind_some]

/-- **An entry of the table is read back.** -/
theorem scanJsonString_jsonEscapeTable (c : UInt16) (t : JsString) :
    scanJsonString (jsonEscapeTable c ++ t) = (scanJsonString t).map (prepend c) := by
  unfold jsonEscapeTable
  split_ifs with h₁ h₂ h₃ h₄ h₅ h₆ h₇ h₈
  · rw [h₁, scanJsonString_shortEscape (u := 0x08) (by decide) (by decide)]
  · rw [h₂, scanJsonString_shortEscape (u := 0x09) (by decide) (by decide)]
  · rw [h₃, scanJsonString_shortEscape (u := 0x0A) (by decide) (by decide)]
  · rw [h₄, scanJsonString_shortEscape (u := 0x0C) (by decide) (by decide)]
  · rw [h₅, scanJsonString_shortEscape (u := 0x0D) (by decide) (by decide)]
  · rw [h₆, scanJsonString_shortEscape (u := 0x22) (by decide) (by decide)]
  · rw [h₇, scanJsonString_shortEscape (u := 0x5C) (by decide) (by decide)]
  · exact scanJsonString_unicodeEscape c t
  · exact scanJsonString_plain h₆ h₇ h₈ t

theorem isAscii_jsonEscapeTable {c : UInt16} (h : c.toNat ≤ 0x7F) :
    IsAscii (jsonEscapeTable c) := by
  unfold jsonEscapeTable
  split_ifs
  · decide
  · decide
  · decide
  · decide
  · decide
  · decide
  · decide
  · exact isAscii_unicodeEscape c
  · intro d hd
    rwa [List.mem_singleton.mp hd]

/-! ### Which units are left alone -/

/-- A unit `DoNotEscape` lets through needs no escape. -/
theorem doNotEscape_spec {c : UInt16} (h : doNotEscape c = true) :
    c ≠ 0x22 ∧ c ≠ 0x5C ∧ ¬ c < 0x20 ∧ (c.toNat < 0xD800 ∨ 0xDFFF < c.toNat) := by
  simp only [doNotEscape, Bool.and_eq_true, decide_eq_true_eq, bne_iff_ne, Bool.or_eq_true] at h
  obtain ⟨⟨⟨hlo, hbackslash⟩, -⟩, hsurrogate⟩ := h
  have hlo' : 0x23 ≤ c.toNat := hlo
  refine ⟨?_, hbackslash, ?_, hsurrogate⟩
  · rintro rfl
    exact absurd hlo' (by decide)
  · intro hcontrol
    have : c.toNat < 0x20 := hcontrol
    omega

/-- What neither `DoNotEscape` lets through nor is a surrogate is ASCII. -/
theorem ascii_of_escape {c : UInt16} (h : ¬ doNotEscape c = true)
    (hsurrogate : ¬ (0xD800 ≤ c ∧ c ≤ 0xDFFF)) : c.toNat ≤ 0x7F := by
  have hcases : ¬ 0x23 ≤ c.toNat ∨ c = 0x5C ∨ c = 0x7F := by
    by_contra hno
    simp only [not_or, Decidable.not_not] at hno
    refine h ?_
    simp only [doNotEscape, Bool.and_eq_true, decide_eq_true_eq, bne_iff_ne, Bool.or_eq_true]
    refine ⟨⟨⟨hno.1, hno.2.1⟩, hno.2.2⟩, ?_⟩
    by_contra hmid
    simp only [not_or, UInt16.not_lt] at hmid
    exact hsurrogate hmid
  rcases hcases with hlow | rfl | rfl
  · omega
  · decide
  · decide

theorem isAscii_cons {c : UInt16} {s : JsString} :
    IsAscii (c :: s) ↔ c.toNat ≤ 0x7F ∧ IsAscii s := List.forall_mem_cons

theorem isAscii_append {s t : JsString} : IsAscii (s ++ t) ↔ IsAscii s ∧ IsAscii t :=
  List.forall_mem_append

theorem wellFormed_of_ascii {s : JsString} (h : IsAscii s) : WellFormed s := by
  obtain ⟨cs, -, hcs, -⟩ := exists_text_of_ascii h
  exact ⟨cs, hcs⟩

/-! ### Whole strings -/

/-- A surrogate is read as it stands. -/
theorem scanJsonString_surrogate {c : UInt16} (h : 0xD800 ≤ c) (t : JsString) :
    scanJsonString (c :: t) = (scanJsonString t).map (prepend c) := by
  have hlo : 0xD800 ≤ c.toNat := h
  refine scanJsonString_plain ?_ ?_ ?_ t
  · rintro rfl
    exact absurd hlo (by decide)
  · rintro rfl
    exact absurd hlo (by decide)
  · intro hcontrol
    have : c.toNat < 0x20 := hcontrol
    omega

theorem isPlain_cons {c : UInt16} {s : JsString} :
    isPlain (c :: s) = true ↔
      (c.toNat ≤ 0x7F ∨ (0xD800 ≤ c ∧ c ≤ 0xDFFF) ∧
        ¬ (c ≤ 0xDBFF ∧ ∃ next ∈ s.head?, 0xDC00 ≤ next ∧ next ≤ 0xDFFF)) ∧
      isPlain s = true := by
  rw [isPlain, Bool.and_eq_true, Bool.or_eq_true, Bool.and_eq_true, Bool.and_eq_true,
    decide_eq_true_eq, decide_eq_true_eq, decide_eq_true_eq, Bool.not_eq_true', ← Bool.not_eq_true,
    Bool.and_eq_true, decide_eq_true_eq, Option.any_eq_true]
  simp only [Bool.and_eq_true, decide_eq_true_eq]
  rfl

/-- A surrogate is not ASCII. -/
theorem not_ascii_of_surrogate {c : UInt16} (h : 0xD800 ≤ c) : ¬ c.toNat ≤ 0x7F := by
  have hlo : 0xD800 ≤ c.toNat := h
  omega

/-- A surrogate that is escaped is plain. -/
theorem isPlain_lone {c : UInt16} {s : JsString} (h : 0xD800 ≤ c ∧ c ≤ 0xDFFF)
    (hlone : ¬ (c ≤ 0xDBFF ∧ ∃ next ∈ s.head?, 0xDC00 ≤ next ∧ next ≤ 0xDFFF)) :
    isPlain (c :: s) = true ↔ isPlain s = true :=
  isPlain_cons.trans (and_iff_right (Or.inr ⟨h, hlone⟩))

/-- **A serialized string is read back**, whatever follows its closing quote. -/
theorem scanJsonString_serializeUnits (s r : JsString) :
    scanJsonString (serializeUnits s ++ 0x22 :: r) = some (s, r) := by
  fun_induction serializeUnits s with
  | case1 => exact scanJsonString_quote r
  | case2 c s hplain ih =>
    obtain ⟨hquote, hbackslash, hcontrol, -⟩ := doNotEscape_spec hplain
    rw [List.cons_append, scanJsonString_plain hquote hbackslash hcontrol, ih]
    rfl
  | case3 c hescape hsurrogate hlead =>
    rw [scanJsonString_unicodeEscape, scanJsonString_quote]
    rfl
  | case4 c hescape hsurrogate hlead next s htrail ih =>
    rw [List.cons_append, List.cons_append, scanJsonString_surrogate hsurrogate.1,
      scanJsonString_surrogate (UInt16.le_trans (by decide) htrail.1), ih]
    rfl
  | case5 c hescape hsurrogate hlead next s htrail ih =>
    rw [List.append_assoc, scanJsonString_unicodeEscape, ih]
    rfl
  | case6 c s hescape hsurrogate hlead ih =>
    rw [List.append_assoc, scanJsonString_unicodeEscape, ih]
    rfl
  | case7 c s hescape hsurrogate ih =>
    rw [List.append_assoc, scanJsonString_jsonEscapeTable, ih]
    rfl

/-- **A serialized string has surrogates in pairs only.** -/
theorem wellFormed_serializeUnits (s : JsString) : WellFormed (serializeUnits s) := by
  fun_induction serializeUnits s with
  | case1 => exact wellFormed_nil
  | case2 c s hplain ih =>
    exact (wellFormed_unit (doNotEscape_spec hplain).2.2.2).append ih
  | case3 c hescape hsurrogate hlead =>
    exact wellFormed_of_ascii (isAscii_unicodeEscape c)
  | case4 c hescape hsurrogate hlead next s htrail ih =>
    exact (wellFormed_pair hsurrogate.1 hlead htrail.1 htrail.2).append ih
  | case5 c hescape hsurrogate hlead next s htrail ih =>
    exact (wellFormed_of_ascii (isAscii_unicodeEscape c)).append ih
  | case6 c s hescape hsurrogate hlead ih =>
    exact (wellFormed_of_ascii (isAscii_unicodeEscape c)).append ih
  | case7 c s hescape hsurrogate ih =>
    have hascii := isAscii_jsonEscapeTable (ascii_of_escape hescape hsurrogate)
    exact (wellFormed_of_ascii hascii).append ih

/-- **Exactly the plain strings are serialized in ASCII.** -/
theorem isAscii_serializeUnits (s : JsString) :
    IsAscii (serializeUnits s) ↔ isPlain s = true := by
  fun_induction serializeUnits s with
  | case1 => simp [IsAscii, isPlain]
  | case2 c s hplain ih =>
    obtain ⟨-, -, -, hno⟩ := doNotEscape_spec hplain
    have hunit : ¬ (0xD800 ≤ c ∧ c ≤ 0xDFFF) := by
      rintro ⟨hlo, hhi⟩
      have hlo' : 0xD800 ≤ c.toNat := hlo
      have hhi' : c.toNat ≤ 0xDFFF := hhi
      omega
    rw [isAscii_cons, isPlain_cons, ih]
    simp only [hunit, false_and, or_false]
  | case3 c hescape hsurrogate hlead =>
    rw [isPlain_lone hsurrogate (by simp)]
    exact iff_of_true (isAscii_unicodeEscape c) rfl
  | case4 c hescape hsurrogate hlead next s htrail ih =>
    -- the pair is written as it stands, and is what makes the string not plain
    refine iff_of_false (fun h => ?_) (fun h => ?_)
    · exact not_ascii_of_surrogate hsurrogate.1 (isAscii_cons.mp h).1
    · rcases (isPlain_cons.mp h).1 with hascii | ⟨-, hlone⟩
      · exact not_ascii_of_surrogate hsurrogate.1 hascii
      · exact hlone ⟨hlead, next, rfl, htrail⟩
  | case5 c hescape hsurrogate hlead next s htrail ih =>
    rw [isAscii_append, isPlain_lone hsurrogate (by simpa using fun _ => htrail), ih]
    exact and_iff_right (isAscii_unicodeEscape c)
  | case6 c s hescape hsurrogate hlead ih =>
    rw [isAscii_append, isPlain_lone hsurrogate (fun h => hlead h.1), ih]
    exact and_iff_right (isAscii_unicodeEscape c)
  | case7 c s hescape hsurrogate ih =>
    have hascii := ascii_of_escape hescape hsurrogate
    rw [isAscii_append, isPlain_cons, ih]
    exact and_congr_left' (iff_of_true (isAscii_jsonEscapeTable hascii) (Or.inl hascii))

end Dv8.V8
