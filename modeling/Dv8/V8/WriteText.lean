import Mathlib.Algebra.Group.Nat.Defs
import Dv8.V8.WriteUtf8

namespace Dv8.V8

open Dv8.Lib

/-!
# What `WriteUtf8` stores of a text

A text whose surrogates stand in pairs is stored character by character, up to the capacity.
There are two ways to end (`Stored`): after whole characters, or in the middle of a surrogate
pair, when the three bytes of its lead just fit and nothing is left for its trail.

`decode_stored` is the other direction for a capacity of as many bytes as the text has units,
on a block of zeros: a text that is not ASCII then has more bytes than the capacity, and what is
decoded ends in U+0000 or in U+FFFD, or is a beginning of the text.
-/

/-! ### `Utf8::Encode` of a character -/

/-- The upper six bits of a unit. -/
theorem and_high {x : Nat} (h : x < 0x10000) : x &&& 0xFC00 = x / 1024 * 1024 := by
  have hlow : (x &&& 0xFC00) % 2 ^ 10 = 0 := by
    rw [Nat.and_mod_two_pow]
    exact Nat.and_zero _
  have hmask : x / 2 ^ 10 &&& (2 ^ 6 - 1) = x / 2 ^ 10 % 2 ^ 6 := Nat.and_two_pow_sub_one_eq_mod _ _
  have hhigh : (x &&& 0xFC00) / 2 ^ 10 = x / 1024 := by
    rw [← Nat.shiftRight_eq_div_pow, Nat.shiftRight_and_distrib, Nat.shiftRight_eq_div_pow,
      show (0xFC00 >>> 10 : Nat) = 2 ^ 6 - 1 from rfl, hmask]
    omega
  have hdiv := Nat.div_add_mod (x &&& 0xFC00) (2 ^ 10)
  omega

theorem isLeadSurrogate_iff {c : UInt16} :
    isLeadSurrogate c = true ↔ 0xD800 ≤ c.toNat ∧ c.toNat ≤ 0xDBFF := by
  rw [isLeadSurrogate, and_high c.toNat_lt, beq_iff_eq]
  omega

theorem isTrailSurrogate_iff {c : UInt16} :
    isTrailSurrogate c = true ↔ 0xDC00 ≤ c.toNat ∧ c.toNat ≤ 0xDFFF := by
  rw [isTrailSurrogate, and_high c.toNat_lt, beq_iff_eq]
  omega

/-- A continuation byte, as `Utf8::Encode` makes it. -/
theorem or_tail (v : Nat) : UInt8.ofNat (0x80 ||| (v &&& kMask)) = tailByte v := by
  have hall : ∀ w : Fin 256, 0x80 ||| (w.val &&& 0xBF) = w.val % 64 + 128 := by decide +kernel
  have hmod : (0x80 ||| (v &&& kMask)) % 2 ^ 8 = 0x80 ||| (v % 2 ^ 8 &&& 0xBF) := by
    rw [Nat.or_mod_two_pow, Nat.and_mod_two_pow]
    rfl
  apply UInt8.toNat_inj.mp
  rw [tailByte_toNat, UInt8.toNat_ofNat', hmod, hall ⟨v % 2 ^ 8, Nat.mod_lt _ (by decide)⟩]
  show v % 2 ^ 8 % 64 + 128 = v % 64 + 128
  omega

/-- A lead byte, as `Utf8::Encode` makes it. -/
theorem or_lead {a k q : Nat} (h : q < 2 ^ k) : a <<< k ||| q = q % 2 ^ k + a <<< k := by
  rw [← Nat.shiftLeft_add_eq_or_of_lt h, Nat.mod_eq_of_lt h, Nat.add_comm]

theorem encodeValue_three {v : Nat} (hlo : 0x800 ≤ v) (hhi : v ≤ 0xFFFF) :
    encodeValue v =
      [UInt8.ofNat (v / 4096 % 0x10 + 0xE0), tailByte (v / 64), tailByte v] := by
  have hlead : 0xE0 ||| v / 2 ^ 12 = v / 4096 % 0x10 + 0xE0 :=
    or_lead (a := 14) (k := 4) (q := v / 4096) (by omega)
  unfold encodeValue
  rw [if_neg (by omega), if_neg (by omega), if_pos hhi, or_tail, or_tail,
    Nat.shiftRight_eq_div_pow, Nat.shiftRight_eq_div_pow, hlead]

/-- **`Utf8::Encode` of a scalar value is its UTF-8 form.** -/
theorem encodeValue_char (c : Char) : encodeValue c.toNat = String.utf8EncodeChar c := by
  have hv := toNat_valid c
  rcases utf8_cases c with ⟨h, heq⟩ | ⟨h₁, h₂, heq⟩ | ⟨h₁, h₂, heq⟩ | ⟨h₁, heq⟩
  · rw [heq, encodeValue_ascii h]
  · have hlead : 0xC0 ||| c.toNat / 2 ^ 6 = c.toNat / 64 % 0x20 + 0xC0 :=
      or_lead (a := 6) (k := 5) (q := c.toNat / 64) (by omega)
    unfold encodeValue
    rw [heq, if_neg (by omega), if_pos h₂, or_tail, Nat.shiftRight_eq_div_pow, hlead]
  · rw [heq, encodeValue_three h₁ h₂]
  · have hlead : 0xF0 ||| c.toNat / 2 ^ 18 = c.toNat / 262144 % 0x08 + 0xF0 :=
      or_lead (a := 30) (k := 3) (q := c.toNat / 262144) (by omega)
    unfold encodeValue
    rw [heq, if_neg (by omega), if_neg (by omega), if_neg (by omega), or_tail, or_tail, or_tail,
      Nat.shiftRight_eq_div_pow, Nat.shiftRight_eq_div_pow, Nat.shiftRight_eq_div_pow, hlead]

/-! ### The units of a character -/

/-- A character that is one unit. -/
theorem units_one {c : Char} (h : c.toNat < 0x10000) :
    ∃ u : UInt16, units c = [u] ∧ u.toNat = c.toNat ∧ isTrailSurrogate u = false := by
  have hv := toNat_valid c
  have hu : (UInt16.ofNat c.toNat).toNat = c.toNat := by
    rw [UInt16.toNat_ofNat']
    omega
  refine ⟨_, if_pos h, hu, ?_⟩
  by_contra htrail
  have := isTrailSurrogate_iff.mp (eq_true_of_ne_false htrail)
  omega

/-- A character that is a surrogate pair. -/
theorem units_two {c : Char} (h : 0x10000 ≤ c.toNat) :
    ∃ lead trail : UInt16, units c = [lead, trail] ∧ isLeadSurrogate lead = true ∧
      isTrailSurrogate trail = true ∧ combineSurrogatePair lead trail = c.toNat := by
  have hv := toNat_valid c
  have hlead : (UInt16.ofNat (0xD800 + (c.toNat - 0x10000) / 0x400)).toNat =
      0xD800 + (c.toNat - 0x10000) / 0x400 := by
    rw [UInt16.toNat_ofNat']
    omega
  have htrail : (UInt16.ofNat (0xDC00 + c.toNat % 0x400)).toNat = 0xDC00 + c.toNat % 0x400 := by
    rw [UInt16.toNat_ofNat']
    omega
  have hmask (x : Nat) : x &&& 0x3FF = x % 2 ^ 10 := Nat.and_two_pow_sub_one_eq_mod x 10
  refine ⟨_, _, if_neg (by omega), isLeadSurrogate_iff.mpr (by omega),
    isTrailSurrogate_iff.mpr (by omega), ?_⟩
  rw [combineSurrogatePair, hlead, htrail, hmask, hmask, Nat.shiftLeft_eq]
  omega

/-- A lead surrogate never completes a pair. -/
theorem isTrailSurrogate_lead {c : UInt16} (h : isLeadSurrogate c = true) :
    isTrailSurrogate c = false := by
  have := isLeadSurrogate_iff.mp h
  by_contra htrail
  have := isTrailSurrogate_iff.mp (eq_true_of_ne_false htrail)
  omega

theorem isSurrogatePair_of_not_trail (prev : Option UInt16) {c : UInt16}
    (h : isTrailSurrogate c = false) : isSurrogatePair prev c = false := by
  cases prev with
  | none => rfl
  | some p => exact (congrArg (isLeadSurrogate p && ·) h).trans (Bool.and_false _)

/-- A trail surrogate replaces the bytes of its lead. -/
theorem encode_trail {out : List UInt8} {lead trail : UInt16} (hlead : isLeadSurrogate lead = true)
    (htrail : isTrailSurrogate trail = true) :
    encode (out ++ encodeValue lead.toNat) trail (some lead) =
      out ++ encodeValue (combineSurrogatePair lead trail) := by
  have hpair : isSurrogatePair (some lead) trail = true :=
    Bool.and_eq_true_iff.mpr ⟨hlead, htrail⟩
  rw [encode, if_pos hpair, List.length_append, length_encodeValue_lead hlead,
    Nat.add_sub_cancel, List.take_left]

/-! ### The second phase -/

/-- What is stored of `cs` in `cap` bytes. -/
inductive Stored (cs : List Char) (cap : Nat) : List UInt8 → Prop
  | whole {ds es : List Char} (split : cs = ds ++ es) (fits : (utf8 ds).length ≤ cap) :
      Stored cs cap (utf8 ds)
  | cut {ds es : List Char} {c : Char} {lead trail : UInt16} (split : cs = ds ++ c :: es)
      (pair : units c = [lead, trail]) (isLead : isLeadSurrogate lead = true)
      (full : (utf8 ds).length + 3 = cap) : Stored cs cap (utf8 ds ++ encodeValue lead.toNat)

/-- The second phase, after the characters `ds`. -/
theorem slowLoop_go_utf16 {cap : Nat} {ds es : List Char} {w : Writer} (hout : w.out = utf8 ds)
    (hroom : (utf8 ds).length ≤ cap) :
    Stored (ds ++ es) cap (Writer.slowLoop.go cap (utf16 es) w).out := by
  induction es generalizing ds w with
  | nil =>
    show Stored _ _ w.out
    rw [hout]
    exact .whole rfl hroom
  | cons c es ih =>
    -- the characters written so far, and one more
    have hsnoc : utf8 (ds ++ [c]) = utf8 ds ++ String.utf8EncodeChar c := by
      rw [utf8_append, utf8_cons, utf8_nil, List.append_nil]
    have hassoc : ds ++ c :: es = (ds ++ [c]) ++ es := by simp
    rw [utf16_cons]
    by_cases hc : c.toNat < 0x10000
    · obtain ⟨u, hu, hval, htrail⟩ := units_one hc
      have hpair := isSurrogatePair_of_not_trail w.prevChar htrail
      have hcode : encodeValue u.toNat = String.utf8EncodeChar c := by
        rw [hval, encodeValue_char]
      rw [hu, List.cons_append, List.nil_append, Writer.slowLoop.go]
      split_ifs with hfull hp hover
      · rw [hpair] at hp
        contradiction
      · rw [hout]
        exact .whole rfl hroom
      · rw [hassoc]
        have hput : (w.put u (utf16 es)).out = utf8 (ds ++ [c]) := by
          rw [Writer.put_out_of_not_pair hpair, hout, hcode, hsnoc]
        refine ih hput ?_
        rw [hsnoc, List.length_append, ← hcode, ← hout]
        omega
      · rw [hout]
        exact .whole rfl hroom
    · obtain ⟨lead, trail, hu, hlead, htrail, hcomb⟩ := units_two (Nat.not_lt.mp hc)
      have hpair := isSurrogatePair_of_not_trail w.prevChar (isTrailSurrogate_lead hlead)
      have hthree := length_encodeValue_lead hlead
      rw [hu, List.cons_append, List.cons_append, List.nil_append, Writer.slowLoop.go]
      split_ifs with hfull hp hover
      · rw [hpair] at hp
        contradiction
      · rw [hout]
        exact .whole rfl hroom
      · -- the lead is stored; its trail replaces it, if there is room for one byte more
        have hput : (w.put lead (trail :: utf16 es)).out = utf8 ds ++ encodeValue lead.toNat := by
          rw [Writer.put_out_of_not_pair hpair, hout]
        have hpair' : isSurrogatePair (w.put lead (trail :: utf16 es)).prevChar trail = true :=
          Bool.and_eq_true_iff.mpr ⟨hlead, htrail⟩
        rw [Writer.slowLoop.go]
        split_ifs with hfull'
        · have hput' : ((w.put lead (trail :: utf16 es)).put trail (utf16 es)).out =
              utf8 (ds ++ [c]) := by
            show encode (w.put lead (trail :: utf16 es)).out trail (some lead) = _
            rw [hput, encode_trail hlead htrail, hcomb, encodeValue_char, hsnoc]
          have hfour : (String.utf8EncodeChar c).length = 4 := by
            rcases utf8_cases c with ⟨_, -⟩ | ⟨-, _, -⟩ | ⟨-, _, -⟩ | ⟨-, heq⟩
            · omega
            · omega
            · omega
            · rw [heq]
              rfl
          rw [hassoc]
          refine ih hput' ?_
          rw [hput, List.length_append, hthree] at hfull'
          rw [hsnoc, List.length_append, hfour]
          omega
        · rw [hput, List.length_append, hthree] at hfull'
          rw [hout, hthree] at hover
          rw [hput]
          exact .cut rfl hu hlead (by omega)
      · rw [hout]
        exact .whole rfl hroom

/-- **`WriteUtf8` stores a beginning of the text**, and perhaps half a pair. -/
theorem stored_writeUtf8 (cs : List Char) (cap : Nat) :
    Stored cs cap (writeUtf8 (utf16 cs) cap).1 := by
  have hall :
      Stored ([] ++ cs) cap (Writer.slowLoop.go cap (utf16 cs) ⟨[], 0, utf16 cs, none⟩).out :=
    slowLoop_go_utf16 rfl (Nat.zero_le _)
  rw [writeUtf8_eq_slowLoop]
  exact hall

theorem Stored.length_le {cs : List Char} {cap : Nat} {out : List UInt8} (h : Stored cs cap out) :
    out.length ≤ cap := by
  cases h with
  | whole _ hfit => exact hfit
  | cut _ _ hlead hfull =>
    rw [List.length_append, length_encodeValue_lead hlead]
    omega

/-! ### Reading it back -/

/-- A continuation byte that breaks a sequence is read once more: U+FFFD, twice. -/
theorem feed_break {d : Decoder} {v : Nat}
    (h : states d.state (transitions (v % 64 + 128)) = .kReject) (hd : d.state ≠ .kAccept) :
    d.feed (tailByte v) = (Decoder.start, List.replicate 2 (UInt16.ofNat kBadChar)) := by
  have hstate : (d.dfaDecode (tailByte v).toNat).state = .kReject := by
    rw [tailByte_toNat]
    exact h
  have hstart : ((⟨.kAccept, 0⟩ : Decoder).dfaDecode (tailByte v).toNat).state = .kReject := by
    show states .kAccept (transitions (tailByte v).toNat) = .kReject
    rw [tailByte_toNat, transitions_tail]
    split_ifs <;> rfl
  have hhigh : ¬ (tailByte v).toNat ≤ 0x7F := by
    rw [tailByte_toNat]
    omega
  unfold Decoder.feed valueOfIncremental
  simp only [hhigh, false_and, if_false, hstate, hd, ne_eq, not_false_eq_true, decide_true,
    if_true, hstart]
  rfl

/-- A lead surrogate without its trail decodes to U+FFFD, three times. -/
theorem feedAll_lead {lead : UInt16} (h : isLeadSurrogate lead = true) :
    Decoder.start.feedAll (encodeValue lead.toNat) =
      (Decoder.start, List.replicate 3 (UInt16.ofNat kBadChar)) := by
  have hlead := isLeadSurrogate_iff.mp h
  have hfirst : lead.toNat / 4096 % 0x10 + 0xE0 = 0xED := by omega
  have hsecond : Decoder.start.feed (UInt8.ofNat 0xED) = (⟨.kThreeByteLowMid, 0xD⟩, []) := by decide
  have hbreak : states .kThreeByteLowMid (transitions (lead.toNat / 64 % 64 + 128)) = .kReject := by
    rw [transitions_tail, if_neg (by omega), if_neg (by omega)]
    rfl
  rw [encodeValue_three (by omega) (by omega), hfirst, Decoder.feedAll_cons, hsecond,
    Decoder.feedAll_cons, feed_break hbreak DfaState.noConfusion, Decoder.feedAll_cons, feed_stray]
  rfl

/-- Zeros are U+0000. -/
theorem utf8_zeros (n : Nat) : utf8 (List.replicate n '\x00') = List.replicate n 0 := by
  induction n with
  | zero => rfl
  | succ n ih => rw [List.replicate_succ, utf8_cons, ih]; rfl

/-- What comes back of a text that is not ASCII. -/
inductive Garbled (t : JsString) : JsString → Prop
  | padded (u : JsString) : Garbled t (u ++ [0])
  | broken (u : JsString) : Garbled t (u ++ [UInt16.ofNat kBadChar])
  | short {p q : JsString} (h : t = p ++ q) (rest : q ≠ []) : Garbled t p

/-- **A text that does not fit is not read back.** -/
theorem decode_stored {cs : List Char} {cap : Nat} {out : List UInt8} (h : Stored cs cap out)
    (hcap : cap < (utf8 cs).length) :
    Garbled (utf16 cs) (decode (out ++ List.replicate (cap - out.length) 0)) := by
  cases h with
  | @whole ds es hsplit hfit =>
    rw [← utf8_zeros, ← utf8_append, decode_utf8]
    cases hpad : cap - (utf8 ds).length with
    | zero =>
      rw [List.replicate_zero, List.append_nil, hsplit, utf16_append]
      refine .short rfl fun hes => ?_
      -- the characters left out have units
      have hnil : es = [] := by
        cases es with
        | nil => rfl
        | cons c es =>
          rw [utf16_cons, List.append_eq_nil_iff] at hes
          have hpos := length_units_pos c
          rw [hes.1] at hpos
          contradiction
      rw [hsplit, hnil, List.append_nil] at hcap
      omega
    | succ n =>
      have hlast : utf16 (ds ++ List.replicate (n + 1) '\x00') =
          utf16 (ds ++ List.replicate n '\x00') ++ [0] := by
        rw [List.replicate_succ', ← List.append_assoc, utf16_append]
        rfl
      rw [hlast]
      exact .padded _
  | @cut ds es c lead trail hsplit hpair hlead hfull =>
    have hlen : cap - (utf8 ds ++ encodeValue lead.toNat).length = 0 := by
      rw [List.length_append, length_encodeValue_lead hlead]
      omega
    have hdecode : decode (utf8 ds ++ encodeValue lead.toNat) =
        (utf16 ds ++ List.replicate 2 (UInt16.ofNat kBadChar)) ++ [UInt16.ofNat kBadChar] := by
      rw [decode, Decoder.feedAll_append, feedAll_utf8, feedAll_lead hlead, Decoder.finish_start,
        List.append_nil, List.append_assoc]
      rfl
    rw [hlen, List.replicate_zero, List.append_nil, hdecode]
    exact .broken _

end Dv8.V8
