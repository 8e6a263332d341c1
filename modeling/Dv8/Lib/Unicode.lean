import Mathlib.Data.List.Basic
import Mathlib.Data.List.Flatten

namespace Dv8.Lib

/-!
# Unicode text as bytes and as UTF-16 code units

A text is a list of scalar values (`Char`).  Its UTF-8 form is the concatenation of the
encodings of its characters and its UTF-16 form the concatenation of their one or two
code units.  The byte ranges a decoder looks at are read off `utf8_cases`: every
character has one of four shapes, given by the scalar value alone.

`Inside cs n` says that position `n` of the UTF-8 form of `cs` lies strictly inside
the encoding of one of its characters.
-/

/-- The UTF-8 form of a text. -/
def utf8 (cs : List Char) : List UInt8 :=
  cs.flatMap String.utf8EncodeChar

/-- The UTF-16 code units of a scalar value: itself, or a surrogate pair. -/
def units (c : Char) : List UInt16 :=
  if c.toNat < 0x10000 then [UInt16.ofNat c.toNat]
  else [UInt16.ofNat (0xD800 + (c.toNat - 0x10000) / 0x400),
    UInt16.ofNat (0xDC00 + c.toNat % 0x400)]

/-- The UTF-16 form of a text. -/
def utf16 (cs : List Char) : List UInt16 :=
  cs.flatMap units

@[simp] theorem utf8_nil : utf8 [] = [] := rfl
@[simp] theorem utf16_nil : utf16 [] = [] := rfl

theorem utf8_cons (c : Char) (cs : List Char) :
    utf8 (c :: cs) = String.utf8EncodeChar c ++ utf8 cs := List.flatMap_cons

theorem utf16_cons (c : Char) (cs : List Char) :
    utf16 (c :: cs) = units c ++ utf16 cs := List.flatMap_cons

theorem utf8_append (cs ds : List Char) : utf8 (cs ++ ds) = utf8 cs ++ utf8 ds :=
  List.flatMap_append

theorem utf16_append (cs ds : List Char) : utf16 (cs ++ ds) = utf16 cs ++ utf16 ds :=
  List.flatMap_append

/-- Scalar values stop at `0x10FFFF` and leave out the surrogates. -/
theorem toNat_valid (c : Char) : c.toNat < 0xD800 ∨ 0xDFFF < c.toNat ∧ c.toNat < 0x110000 :=
  c.valid

/-- A continuation byte carrying the low six bits of `v`. -/
def tailByte (v : Nat) : UInt8 := UInt8.ofNat (v % 0x40 + 0x80)

/-- **The four shapes of an encoded character.** -/
theorem utf8_cases (c : Char) :
    (c.toNat ≤ 0x7F ∧ String.utf8EncodeChar c = [UInt8.ofNat c.toNat]) ∨
    (0x80 ≤ c.toNat ∧ c.toNat ≤ 0x7FF ∧ String.utf8EncodeChar c =
      [UInt8.ofNat (c.toNat / 64 % 0x20 + 0xC0), tailByte c.toNat]) ∨
    (0x800 ≤ c.toNat ∧ c.toNat ≤ 0xFFFF ∧ String.utf8EncodeChar c =
      [UInt8.ofNat (c.toNat / 4096 % 0x10 + 0xE0), tailByte (c.toNat / 64),
        tailByte c.toNat]) ∨
    (0x10000 ≤ c.toNat ∧ String.utf8EncodeChar c =
      [UInt8.ofNat (c.toNat / 262144 % 0x08 + 0xF0), tailByte (c.toNat / 4096),
        tailByte (c.toNat / 64), tailByte c.toNat]) := by
  have hv : c.val.toNat = c.toNat := rfl
  unfold String.utf8EncodeChar
  simp only [hv, tailByte]
  by_cases h₁ : c.toNat ≤ 0x7F
  · exact Or.inl ⟨h₁, if_pos h₁⟩
  by_cases h₂ : c.toNat ≤ 0x7FF
  · exact Or.inr (Or.inl ⟨by omega, h₂, by rw [if_neg h₁, if_pos h₂]⟩)
  by_cases h₃ : c.toNat ≤ 0xFFFF
  · exact Or.inr (Or.inr (Or.inl ⟨by omega, h₃, by rw [if_neg h₁, if_neg h₂, if_pos h₃]⟩))
  · exact Or.inr (Or.inr (Or.inr ⟨by omega, by rw [if_neg h₁, if_neg h₂, if_neg h₃]⟩))

theorem utf8EncodeChar_length_pos (c : Char) : 0 < (String.utf8EncodeChar c).length := by
  rw [String.length_utf8EncodeChar]
  exact c.utf8Size_pos

/-- Only the empty text has no bytes. -/
theorem utf8_eq_nil {cs : List Char} : utf8 cs = [] ↔ cs = [] := by
  cases cs with
  | nil => simp
  | cons c cs =>
    have hpos := utf8EncodeChar_length_pos c
    rw [utf8_cons, List.append_eq_nil_iff]
    refine ⟨fun h => ?_, fun h => by cases h⟩
    rw [h.1, List.length_nil] at hpos
    omega

/-- An ASCII character is the one byte of its value, and the one unit. -/
theorem utf8EncodeChar_ascii {c : Char} (h : c.toNat ≤ 0x7F) :
    String.utf8EncodeChar c = [UInt8.ofNat c.toNat] := by
  rcases utf8_cases c with h' | h' | h' | h'
  · exact h'.2
  all_goals omega

theorem units_ascii {c : Char} (h : c.toNat ≤ 0x7F) : units c = [UInt16.ofNat c.toNat] := by
  rw [units, if_pos (by omega)]

/-! ### Code units -/

/-- The code units of a text: surrogates stand in pairs only. -/
def WellFormed (s : List UInt16) : Prop := ∃ cs, utf16 cs = s

theorem wellFormed_nil : WellFormed [] := ⟨[], rfl⟩

theorem WellFormed.append {s t : List UInt16} (hs : WellFormed s) (ht : WellFormed t) :
    WellFormed (s ++ t) := by
  obtain ⟨cs, rfl⟩ := hs
  obtain ⟨ds, rfl⟩ := ht
  exact ⟨cs ++ ds, utf16_append cs ds⟩

theorem toNat_ofNat_valid {n : Nat} (h : n < 0xD800 ∨ 0xDFFF < n ∧ n < 0x110000) :
    (Char.ofNat n).toNat = n := by
  rw [Char.ofNat, dif_pos (show n.isValidChar from h)]
  rfl

/-- A unit that is no surrogate is a character. -/
theorem wellFormed_unit {c : UInt16} (h : c.toNat < 0xD800 ∨ 0xDFFF < c.toNat) :
    WellFormed [c] := by
  have hlt : c.toNat < 0x10000 := c.toNat_lt
  have hval : (Char.ofNat c.toNat).toNat = c.toNat := toNat_ofNat_valid (by omega)
  refine ⟨[Char.ofNat c.toNat], ?_⟩
  rw [utf16_cons, utf16_nil, units, hval, if_pos hlt, UInt16.ofNat_toNat]
  simp

/-- A surrogate pair is a character. -/
theorem wellFormed_pair {lead trail : UInt16} (hlo : 0xD800 ≤ lead.toNat)
    (hhi : lead.toNat ≤ 0xDBFF) (htlo : 0xDC00 ≤ trail.toNat) (hthi : trail.toNat ≤ 0xDFFF) :
    WellFormed [lead, trail] := by
  obtain ⟨v, hv⟩ : ∃ v, v = 0x10000 + (lead.toNat - 0xD800) * 0x400 + (trail.toNat - 0xDC00) :=
    ⟨_, rfl⟩
  have hval : (Char.ofNat v).toNat = v := toNat_ofNat_valid (by omega)
  have hlead : 0xD800 + (v - 0x10000) / 0x400 = lead.toNat := by omega
  have htrail : 0xDC00 + v % 0x400 = trail.toNat := by omega
  refine ⟨[Char.ofNat v], ?_⟩
  rw [utf16_cons, utf16_nil, units, hval, if_neg (by omega), hlead, htrail, UInt16.ofNat_toNat,
    UInt16.ofNat_toNat]
  simp

theorem length_units_pos (c : Char) : 0 < (units c).length := by
  unfold units
  split <;> simp

theorem length_units_le (c : Char) : (units c).length ≤ (String.utf8EncodeChar c).length := by
  rcases utf8_cases c with ⟨h, heq⟩ | ⟨-, h, heq⟩ | ⟨-, h, heq⟩ | ⟨h, heq⟩
  · rw [heq, units, if_pos (by omega)]
    simp
  · rw [heq, units, if_pos (by omega)]
    simp
  · rw [heq, units, if_pos (by omega)]
    simp
  · rw [heq, units, if_neg (by omega)]
    simp

/-- A character beyond ASCII has more bytes than units. -/
theorem length_units_lt {c : Char} (h : 0x7F < c.toNat) :
    (units c).length < (String.utf8EncodeChar c).length := by
  rcases utf8_cases c with ⟨h₁, -⟩ | ⟨-, h₂, heq⟩ | ⟨h₁, h₂, heq⟩ | ⟨h₁, heq⟩
  · omega
  · rw [heq, units, if_pos (by omega)]
    simp
  · rw [heq, units, if_pos (by omega)]
    simp
  · rw [heq, units, if_neg (by omega)]
    simp

theorem length_utf16_le (cs : List Char) : (utf16 cs).length ≤ (utf8 cs).length := by
  induction cs with
  | nil => simp
  | cons c cs ih =>
    have := length_units_le c
    rw [utf16_cons, utf8_cons, List.length_append, List.length_append]
    omega

/-- Three bytes a unit, at most. -/
theorem length_utf8_le (cs : List Char) : (utf8 cs).length ≤ 3 * (utf16 cs).length := by
  induction cs with
  | nil => simp
  | cons c cs ih =>
    have hchar : (String.utf8EncodeChar c).length ≤ 3 * (units c).length := by
      rcases utf8_cases c with ⟨h, heq⟩ | ⟨-, h, heq⟩ | ⟨-, h, heq⟩ | ⟨h, heq⟩
      · rw [heq, units, if_pos (by omega)]
        simp
      · rw [heq, units, if_pos (by omega)]
        simp
      · rw [heq, units, if_pos (by omega)]
        simp
      · rw [heq, units, if_neg (by omega)]
        simp
    rw [utf16_cons, utf8_cons, List.length_append, List.length_append]
    omega

/-- A text that is not ASCII has more bytes than units. -/
theorem length_utf16_lt {cs : List Char} (h : ∃ c ∈ cs, 0x7F < c.toNat) :
    (utf16 cs).length < (utf8 cs).length := by
  obtain ⟨c, hc, hlt⟩ := h
  obtain ⟨pre, post, rfl⟩ := List.append_of_mem hc
  have h₁ := length_utf16_le pre
  have h₂ := length_units_lt hlt
  have h₃ := length_utf16_le post
  simp only [utf16_append, utf8_append, utf16_cons, utf8_cons, List.length_append]
  omega

/-! ### Inside a character -/

/-- Position `n` of `utf8 cs` lies strictly inside a character of `cs`. -/
def Inside (cs : List Char) (n : Nat) : Prop :=
  ∃ pre c post, cs = pre ++ c :: post ∧
    (utf8 pre).length < n ∧ n < (utf8 (pre ++ [c])).length

/-- Peeling the first character off: inside it, or inside the rest. -/
theorem inside_cons (c : Char) (cs : List Char) (n : Nat) :
    Inside (c :: cs) n ↔ (0 < n ∧ n < (String.utf8EncodeChar c).length) ∨
      ((String.utf8EncodeChar c).length ≤ n ∧
        Inside cs (n - (String.utf8EncodeChar c).length)) := by
  constructor
  · rintro ⟨pre, d, post, heq, hlo, hhi⟩
    cases pre with
    | nil =>
      cases heq
      left
      simpa [utf8_cons] using And.intro hlo hhi
    | cons p pre =>
      cases heq
      right
      rw [utf8_cons, List.length_append] at hlo
      rw [List.cons_append, utf8_cons, List.length_append] at hhi
      exact ⟨by omega, pre, d, post, rfl, by omega, by omega⟩
  · rintro (⟨hlo, hhi⟩ | ⟨hle, pre, d, post, rfl, hlo, hhi⟩)
    · exact ⟨[], c, cs, rfl, hlo, by simpa [utf8_cons] using hhi⟩
    · refine ⟨c :: pre, d, post, rfl, ?_, ?_⟩
      · rw [utf8_cons, List.length_append]
        omega
      · rw [List.cons_append, utf8_cons, List.length_append]
        omega

theorem not_inside_nil (n : Nat) : ¬ Inside [] n := by
  rintro ⟨pre, c, post, heq, -, -⟩
  cases pre <;> cases heq

/-- A position inside a character is inside the text. -/
theorem Inside.lt_length {cs : List Char} {n : Nat} (h : Inside cs n) :
    n < (utf8 cs).length := by
  obtain ⟨pre, c, post, rfl, -, hhi⟩ := h
  have hsplit : pre ++ c :: post = (pre ++ [c]) ++ post := by simp
  rw [hsplit, utf8_append, List.length_append]
  omega

/-- The start of a text is not inside a character. -/
theorem not_inside_zero (cs : List Char) : ¬ Inside cs 0 := by
  rintro ⟨pre, c, post, -, hlo, -⟩
  omega

/-- ASCII text has no position inside a character. -/
theorem not_inside_ascii {cs : List Char} (h : ∀ c ∈ cs, c.toNat ≤ 0x7F) (n : Nat) :
    ¬ Inside cs n := by
  rintro ⟨pre, c, post, rfl, hlo, hhi⟩
  rw [utf8_append, utf8_cons, utf8_nil, utf8EncodeChar_ascii (h c (by simp))] at hhi
  simp only [List.length_append, List.length_cons, List.length_nil] at hhi
  omega

end Dv8.Lib
