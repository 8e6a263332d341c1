import Mathlib.Algebra.Group.Nat.Defs
import Dv8.Lib.Unicode

namespace Dv8.V8

open Dv8.Lib

/-!
# `Utf8Decoder` — from bytes to a JavaScript string

`String::NewFromUtf8` decodes with a table-driven automaton.  A byte is looked up in
`transitions`, the pair (state, byte class) in `states`, and the accumulated value is
shifted left by six bits.  A rejected byte yields U+FFFD; when it broke a sequence already begun
it is read once more from the initial state.  At the end a pending sequence yields U+FFFD.

* `feedAll_char` — the bytes of a character give exactly its code units;
* `feedAll_char_prefix` / `feed_stray` — a proper prefix of a character leaves the decoder
  waiting, and a continuation byte out of place gives U+FFFD;
* `decode_utf8` — valid UTF-8 decodes to its UTF-16 form.
-/

/-- A JavaScript string: its UTF-16 code units. -/
abbrev JsString := List UInt16

/-- The byte classes of the decoder, in the order of the columns of `states`. -/
inductive ByteClass where
  | x00_7F | x80_8F | x90_9F | xA0_BF | xC2_DF | xE1_EF | xED | xF1_F3 | xF4 | illegal | xE0 | xF0
  deriving DecidableEq, Repr

/-- `transitions`: the class of a byte. -/
def transitions (byte : Nat) : ByteClass :=
  if byte ≤ 0x7F then .x00_7F
  else if byte ≤ 0x8F then .x80_8F
  else if byte ≤ 0x9F then .x90_9F
  else if byte ≤ 0xBF then .xA0_BF
  else if byte ≤ 0xC1 then .illegal
  else if byte ≤ 0xDF then .xC2_DF
  else if byte = 0xE0 then .xE0
  else if byte = 0xED then .xED
  else if byte ≤ 0xEF then .xE1_EF
  else if byte = 0xF0 then .xF0
  else if byte ≤ 0xF3 then .xF1_F3
  else if byte = 0xF4 then .xF4
  else .illegal

/-- The number the table stores for a class. -/
def ByteClass.type : ByteClass → Nat
  | .x00_7F => 0 | .x80_8F => 1 | .x90_9F => 2 | .xA0_BF => 3 | .xC2_DF => 4 | .xE1_EF => 5
  | .xED => 6 | .xF1_F3 => 7 | .xF4 => 8 | .illegal => 9 | .xE0 => 10 | .xF0 => 11

/-- `Utf8DfaDecoder::State`. -/
inductive DfaState where
  | kReject | kAccept | kTwoByte | kThreeByte | kThreeByteLowMid | kFourByte | kFourByteLow
  | kThreeByteHigh | kFourByteMidHigh
  deriving DecidableEq, Repr

/-- `states`: the row of the state, the column of the class; every other entry is `kReject`. -/
def states : DfaState → ByteClass → DfaState
  | .kAccept, .x00_7F => .kAccept
  | .kAccept, .xC2_DF => .kTwoByte
  | .kAccept, .xE1_EF => .kThreeByte
  | .kAccept, .xED => .kThreeByteLowMid
  | .kAccept, .xF1_F3 => .kFourByte
  | .kAccept, .xF4 => .kFourByteLow
  | .kAccept, .xE0 => .kThreeByteHigh
  | .kAccept, .xF0 => .kFourByteMidHigh
  | .kTwoByte, .x80_8F | .kTwoByte, .x90_9F | .kTwoByte, .xA0_BF => .kAccept
  | .kThreeByte, .x80_8F | .kThreeByte, .x90_9F | .kThreeByte, .xA0_BF => .kTwoByte
  | .kThreeByteLowMid, .x80_8F | .kThreeByteLowMid, .x90_9F => .kTwoByte
  | .kFourByte, .x80_8F | .kFourByte, .x90_9F | .kFourByte, .xA0_BF => .kThreeByte
  | .kFourByteLow, .x80_8F => .kThreeByte
  | .kThreeByteHigh, .xA0_BF => .kTwoByte
  | .kFourByteMidHigh, .x90_9F | .kFourByteMidHigh, .xA0_BF => .kThreeByte
  | _, _ => .kReject

/-- The decoder between two bytes: automaton state and accumulated value. -/
structure Decoder where
  state : DfaState
  buffer : Nat
  deriving DecidableEq, Repr

/-- The initial decoder. -/
def Decoder.start : Decoder := ⟨.kAccept, 0⟩

/-- `Utf8DfaDecoder::Decode`: one transition of the automaton. -/
def Decoder.dfaDecode (d : Decoder) (byte : Nat) : Decoder :=
  let type := transitions byte
  ⟨states d.state type, (d.buffer <<< 6) ||| (byte &&& (0x7F >>> (type.type >>> 1)))⟩

/-- `kBadChar`. -/
def kBadChar : Nat := 0xFFFD

/-- What `ValueOfIncremental` did with a byte: the decoder after it, the value it returns
    (`none` for `kIncomplete`), and whether the cursor stepped back. -/
structure Incremental where
  decoder : Decoder
  value : Option Nat
  reprocess : Bool
  deriving DecidableEq, Repr

/-- `Utf8::ValueOfIncremental`. -/
def valueOfIncremental (d : Decoder) (next : Nat) : Incremental :=
  if next ≤ 0x7F ∧ d.state = .kAccept then ⟨d, some next, false⟩
  else
    let d' := d.dfaDecode next
    match d'.state with
    | .kAccept => ⟨⟨.kAccept, 0⟩, some d'.buffer, false⟩
    | .kReject => ⟨⟨.kAccept, 0⟩, some kBadChar, decide (d.state ≠ .kAccept)⟩
    | _ => ⟨d', none, false⟩

/-- The code units `Utf8Decoder::Decode` stores for a value. -/
def store : Option Nat → JsString
  | none => []
  | some t =>
    if t ≤ 0xFFFF then [UInt16.ofNat t]
    else [UInt16.ofNat (0xD800 + (((t - 0x10000) >>> 10) &&& 0x3FF)),
      UInt16.ofNat (0xDC00 + (t &&& 0x3FF))]

/-- One byte through the loop of `Utf8Decoder::Decode`.  A byte is reprocessed from the
    initial state, where no byte is reprocessed, so at most once. -/
def Decoder.feed (d : Decoder) (byte : UInt8) : Decoder × JsString :=
  let r := valueOfIncremental d byte.toNat
  if r.reprocess then
    let r' := valueOfIncremental r.decoder byte.toNat
    (r'.decoder, store r.value ++ store r'.value)
  else (r.decoder, store r.value)

/-- The loop of `Utf8Decoder::Decode`. -/
def Decoder.feedAll (d : Decoder) : List UInt8 → Decoder × JsString
  | [] => (d, [])
  | b :: bs =>
    let r := (d.feed b).1.feedAll bs
    (r.1, (d.feed b).2 ++ r.2)

/-- `ValueOfIncrementalFinish`: a sequence that was begun yields `kBadChar`. -/
def Decoder.finish (d : Decoder) : JsString :=
  if d.state = .kAccept then [] else [UInt16.ofNat kBadChar]

/-- `Utf8Decoder`: the string `String::NewFromUtf8` makes of a byte range. -/
def decode (bs : List UInt8) : JsString :=
  let r := Decoder.start.feedAll bs
  r.2 ++ r.1.finish

/-! ### The loop -/

@[simp] theorem Decoder.feedAll_nil (d : Decoder) : d.feedAll [] = (d, []) := rfl

theorem Decoder.feedAll_cons (d : Decoder) (b : UInt8) (bs : List UInt8) :
    d.feedAll (b :: bs)
      = (((d.feed b).1.feedAll bs).1, (d.feed b).2 ++ ((d.feed b).1.feedAll bs).2) := rfl

theorem Decoder.feedAll_append (d : Decoder) (xs ys : List UInt8) :
    d.feedAll (xs ++ ys)
      = (((d.feedAll xs).1.feedAll ys).1, (d.feedAll xs).2 ++ ((d.feedAll xs).1.feedAll ys).2) := by
  induction xs generalizing d with
  | nil => rfl
  | cons b xs ih =>
    rw [List.cons_append, feedAll_cons, ih, feedAll_cons, List.append_assoc]

@[simp] theorem Decoder.finish_start : Decoder.start.finish = [] := rfl

/-! ### One transition -/

/-- A transition into a waiting state stores nothing. -/
theorem Decoder.feed_wait {d : Decoder} {b : UInt8} {s : DfaState}
    (h : states d.state (transitions b.toNat) = s) (ha : s ≠ .kAccept) (hr : s ≠ .kReject)
    (hd : d.state ≠ .kAccept ∨ 0x7F < b.toNat) : d.feed b = (d.dfaDecode b.toNat, []) := by
  have hstate : (d.dfaDecode b.toNat).state = s := h
  have hfast : ¬ (b.toNat ≤ 0x7F ∧ d.state = .kAccept) := by
    rintro ⟨hb, hacc⟩
    rcases hd with hd | hd
    · exact hd hacc
    · omega
  unfold feed valueOfIncremental
  simp only [if_neg hfast, hstate]
  cases s <;> simp_all [store]

/-- A transition into `kAccept` stores the accumulated value. -/
theorem Decoder.feed_done {d : Decoder} {b : UInt8}
    (h : states d.state (transitions b.toNat) = .kAccept) (hd : d.state ≠ .kAccept) :
    d.feed b = (start, store (some (d.dfaDecode b.toNat).buffer)) := by
  have hstate : (d.dfaDecode b.toNat).state = .kAccept := h
  unfold feed valueOfIncremental
  simp only [hd, and_false, if_false, hstate]
  rfl

/-- A byte that cannot start a sequence is one U+FFFD. -/
theorem Decoder.feed_bad {b : UInt8}
    (h : states .kAccept (transitions b.toNat) = .kReject) (hb : 0x7F < b.toNat) :
    start.feed b = (start, [UInt16.ofNat kBadChar]) := by
  have hstate : (start.dfaDecode b.toNat).state = .kReject := h
  have hfast : ¬ (b.toNat ≤ 0x7F ∧ start.state = .kAccept) := fun hc => by omega
  unfold feed valueOfIncremental
  simp only [if_neg hfast, hstate]
  rfl

/-! ### Lead and continuation bytes -/

@[simp] theorem tailByte_toNat (v : Nat) : (tailByte v).toNat = v % 64 + 128 := by
  rw [tailByte, UInt8.toNat_ofNat']
  omega

theorem transitions_tail (v : Nat) :
    transitions (v % 64 + 128) =
      if v % 64 < 16 then .x80_8F else if v % 64 < 32 then .x90_9F else .xA0_BF := by
  unfold transitions
  rw [if_neg (by omega)]
  by_cases h₁ : v % 64 < 16
  · rw [if_pos (by omega), if_pos h₁]
  by_cases h₂ : v % 64 < 32
  · rw [if_neg (by omega), if_pos (by omega), if_neg h₁, if_pos h₂]
  · rw [if_neg (by omega), if_neg (by omega), if_pos (by omega), if_neg h₁, if_neg h₂]

/-- Shifting six bits in, whatever mask of at least six bits the class selects. -/
private theorem shift_or (buf b k r : Nat) (hr : b % 2 ^ k = r) (h : r < 64) :
    (buf <<< 6) ||| (b &&& (2 ^ k - 1)) = buf * 64 + r := by
  rw [Nat.and_two_pow_sub_one_eq_mod, hr, ← Nat.shiftLeft_add_eq_or_of_lt (by omega),
    Nat.shiftLeft_eq]

/-- A continuation byte shifts its six bits in. -/
theorem dfaDecode_tail (d : Decoder) (v : Nat) :
    (d.dfaDecode (v % 64 + 128)).buffer = d.buffer * 64 + v % 64 := by
  show (d.buffer <<< 6) ||| ((v % 64 + 128) &&& _) = _
  rw [transitions_tail]
  by_cases h₁ : v % 64 < 16
  · rw [if_pos h₁]
    exact shift_or _ _ 7 _ (by omega) (by omega)
  by_cases h₂ : v % 64 < 32
  · rw [if_neg h₁, if_pos h₂]
    exact shift_or _ _ 6 _ (by omega) (by omega)
  · rw [if_neg h₁, if_neg h₂]
    exact shift_or _ _ 6 _ (by omega) (by omega)

/-- A continuation byte that leads on to `s`. -/
theorem feed_tail {t : DfaState} {buf v n : Nat} {s : DfaState}
    (h : states t (transitions (v % 64 + 128)) = s) (hn : buf * 64 + v % 64 = n)
    (ht : t ≠ .kAccept) (ha : s ≠ .kAccept) (hr : s ≠ .kReject) :
    Decoder.feed ⟨t, buf⟩ (tailByte v) = (⟨s, n⟩, []) := by
  have hw := Decoder.feed_wait (d := ⟨t, buf⟩) (b := tailByte v) (s := s)
    (by rw [tailByte_toNat]; exact h) ha hr (Or.inl ht)
  rw [hw, tailByte_toNat]
  congr 1
  show (⟨_, (Decoder.dfaDecode ⟨t, buf⟩ (v % 64 + 128)).buffer⟩ : Decoder) = _
  rw [dfaDecode_tail, h, hn]

/-- The last continuation byte. -/
theorem feed_last (buf v : Nat) :
    Decoder.feed ⟨.kTwoByte, buf⟩ (tailByte v)
      = (Decoder.start, store (some (buf * 64 + v % 64))) := by
  have h : states .kTwoByte (transitions (v % 64 + 128)) = .kAccept := by
    rw [transitions_tail]
    split_ifs <;> rfl
  rw [Decoder.feed_done (by rw [tailByte_toNat]; exact h) DfaState.noConfusion, tailByte_toNat,
    dfaDecode_tail]

/-- The second continuation byte from the end. -/
theorem feed_second_last {buf v n : Nat} (hn : buf * 64 + v % 64 = n) :
    Decoder.feed ⟨.kThreeByte, buf⟩ (tailByte v) = (⟨.kTwoByte, n⟩, []) := by
  refine feed_tail ?_ hn (by decide) (by decide) (by decide)
  rw [transitions_tail]
  split_ifs <;> rfl

/-- A continuation byte out of place is one U+FFFD. -/
theorem feed_stray (v : Nat) :
    Decoder.start.feed (tailByte v) = (Decoder.start, [UInt16.ofNat kBadChar]) := by
  refine Decoder.feed_bad ?_ (by rw [tailByte_toNat]; omega)
  rw [tailByte_toNat, transitions_tail]
  split_ifs <;> rfl

/-- A lead byte of class `cl` keeps the low bits its class leaves. -/
theorem feed_lead {n k : Nat} {cl : ByteClass} {s : DfaState} (hn : 0x7F < n) (hn' : n < 256)
    (hcl : transitions n = cl) (hk : 0x7F >>> (cl.type >>> 1) = 2 ^ k - 1)
    (hs : states .kAccept cl = s) (ha : s ≠ .kAccept) (hr : s ≠ .kReject) :
    Decoder.start.feed (UInt8.ofNat n) = (⟨s, n % 2 ^ k⟩, []) := by
  have hto : (UInt8.ofNat n).toNat = n := by
    rw [UInt8.toNat_ofNat']
    omega
  rw [Decoder.feed_wait (s := s) (by rw [hto, hcl]; exact hs) ha hr (Or.inr (by omega)), hto]
  congr 1
  show (⟨states .kAccept (transitions n), 0 <<< 6 ||| (n &&& 0x7F >>> ((transitions n).type >>> 1))⟩
    : Decoder) = _
  rw [hcl, hs, hk, Nat.and_two_pow_sub_one_eq_mod, Nat.zero_shiftLeft, Nat.zero_or]

/-- An ASCII byte between characters is itself. -/
theorem feed_ascii {n : Nat} (h : n ≤ 0x7F) :
    Decoder.start.feed (UInt8.ofNat n) = (Decoder.start, store (some n)) := by
  have hto : (UInt8.ofNat n).toNat = n := by
    rw [UInt8.toNat_ofNat']
    omega
  have hr : valueOfIncremental Decoder.start n = ⟨Decoder.start, some n, false⟩ :=
    if_pos ⟨h, rfl⟩
  unfold Decoder.feed
  rw [hto, hr]
  rfl

/-! ### Whole characters -/

/-- What `Decode` stores for a scalar value is its UTF-16 form. -/
theorem store_units (c : Char) : store (some c.toNat) = units c := by
  have hv := toNat_valid c
  unfold store units
  by_cases h : c.toNat ≤ 0xFFFF
  · simp only [if_pos h, if_pos (show c.toNat < 0x10000 by omega)]
  · simp only [if_neg h, if_neg (show ¬ c.toNat < 0x10000 by omega)]
    have hhi : ((c.toNat - 0x10000) >>> 10) &&& 0x3FF = (c.toNat - 0x10000) / 0x400 := by
      rw [Nat.and_two_pow_sub_one_eq_mod _ 10, Nat.shiftRight_eq_div_pow]
      omega
    have hlo : c.toNat &&& 0x3FF = c.toNat % 0x400 := Nat.and_two_pow_sub_one_eq_mod _ 10
    rw [hhi, hlo]

/-! The class of each lead byte, for the four kinds of leads. -/

private theorem class_two {n : Nat} (h₁ : 0xC2 ≤ n) (h₂ : n ≤ 0xDF) : transitions n = .xC2_DF := by
  unfold transitions
  rw [if_neg (by omega), if_neg (by omega), if_neg (by omega), if_neg (by omega),
    if_neg (by omega), if_pos h₂]

private theorem class_three {n : Nat} (h₁ : 0xE1 ≤ n) (h₂ : n ≤ 0xEF) (h₃ : n ≠ 0xED) :
    transitions n = .xE1_EF := by
  unfold transitions
  rw [if_neg (by omega), if_neg (by omega), if_neg (by omega), if_neg (by omega),
    if_neg (by omega), if_neg (by omega), if_neg (by omega), if_neg h₃, if_pos h₂]

private theorem class_four {n : Nat} (h₁ : 0xF1 ≤ n) (h₂ : n ≤ 0xF3) : transitions n = .xF1_F3 := by
  unfold transitions
  rw [if_neg (by omega), if_neg (by omega), if_neg (by omega), if_neg (by omega),
    if_neg (by omega), if_neg (by omega), if_neg (by omega), if_neg (by omega),
    if_neg (by omega), if_neg (by omega), if_pos h₂]

/-- The lead byte of a two-byte character. -/
private theorem lead_two {v : Nat} (h₁ : 0x80 ≤ v) (h₂ : v ≤ 0x7FF) :
    Decoder.start.feed (UInt8.ofNat (v / 64 % 0x20 + 0xC0)) = (⟨.kTwoByte, v / 64⟩, []) := by
  obtain ⟨q, hq, hlo, hhi⟩ : ∃ q, v / 64 = q ∧ 2 ≤ q ∧ q < 32 := ⟨_, rfl, by omega, by omega⟩
  rw [hq, Nat.mod_eq_of_lt hhi, feed_lead (k := 5) (by omega) (by omega)
    (class_two (by omega) (by omega)) rfl rfl (by decide) (by decide)]
  congr 2
  omega

/-- The first two bytes of a three-byte character, through whichever of the three states
    its range selects. -/
private theorem lead_three {v : Nat} (h₁ : 0x800 ≤ v) (h₂ : v ≤ 0xFFFF)
    (hs : v < 0xD800 ∨ 0xDFFF < v) :
    ∃ d : Decoder, d.state ≠ .kAccept ∧
      Decoder.start.feed (UInt8.ofNat (v / 4096 % 0x10 + 0xE0)) = (d, []) ∧
      d.feed (tailByte (v / 64)) = (⟨.kTwoByte, v / 64⟩, []) := by
  obtain ⟨q, hq, hhi⟩ : ∃ q, v / 4096 = q ∧ q < 16 := ⟨_, rfl, by omega⟩
  have hbuf : q * 64 + v / 64 % 64 = v / 64 := by omega
  rw [hq, Nat.mod_eq_of_lt hhi]
  rcases show q = 0 ∨ q = 0xD ∨ (1 ≤ q ∧ q ≠ 0xD) by omega with rfl | rfl | hmid
  · refine ⟨⟨.kThreeByteHigh, 0⟩, DfaState.noConfusion, ?_, feed_tail ?_ hbuf ?_ ?_ ?_⟩
    · exact feed_lead (k := 2) (by decide) (by decide) rfl rfl rfl (by decide) (by decide)
    · rw [transitions_tail, if_neg (by omega), if_neg (by omega)]
      rfl
    all_goals decide
  · refine ⟨⟨.kThreeByteLowMid, 0xD⟩, DfaState.noConfusion, ?_, feed_tail ?_ hbuf ?_ ?_ ?_⟩
    · exact feed_lead (k := 4) (by decide) (by decide) rfl rfl rfl (by decide) (by decide)
    · have hlow : v / 64 % 64 < 32 := by omega
      rw [transitions_tail]
      by_cases h : v / 64 % 64 < 16
      · rw [if_pos h]
        rfl
      · rw [if_neg h, if_pos hlow]
        rfl
    all_goals decide
  · refine ⟨⟨.kThreeByte, q⟩, DfaState.noConfusion, ?_, feed_second_last hbuf⟩
    rw [feed_lead (k := 5) (by omega) (by omega) (class_three (by omega) (by omega) (by omega))
      rfl rfl (by decide) (by decide)]
    congr 2
    omega

/-- The first two bytes of a four-byte character. -/
private theorem lead_four {v : Nat} (h₁ : 0x10000 ≤ v) (h₂ : v < 0x110000) :
    ∃ d : Decoder, d.state ≠ .kAccept ∧
      Decoder.start.feed (UInt8.ofNat (v / 262144 % 0x08 + 0xF0)) = (d, []) ∧
      d.feed (tailByte (v / 4096)) = (⟨.kThreeByte, v / 4096⟩, []) := by
  obtain ⟨q, hq, hhi⟩ : ∃ q, v / 262144 = q ∧ q < 8 := ⟨_, rfl, by omega⟩
  have hbuf : q * 64 + v / 4096 % 64 = v / 4096 := by omega
  rw [hq, Nat.mod_eq_of_lt hhi]
  rcases show q = 0 ∨ q = 4 ∨ (1 ≤ q ∧ q ≤ 3) by omega with rfl | rfl | hmid
  · refine ⟨⟨.kFourByteMidHigh, 0⟩, DfaState.noConfusion, ?_, feed_tail ?_ hbuf ?_ ?_ ?_⟩
    · exact feed_lead (k := 2) (by decide) (by decide) rfl rfl rfl (by decide) (by decide)
    · rw [transitions_tail, if_neg (by omega)]
      split_ifs <;> rfl
    all_goals decide
  · refine ⟨⟨.kFourByteLow, 4⟩, DfaState.noConfusion, ?_, feed_tail ?_ hbuf ?_ ?_ ?_⟩
    · exact feed_lead (k := 3) (by decide) (by decide) rfl rfl rfl (by decide) (by decide)
    · rw [transitions_tail, if_pos (by omega)]
      rfl
    all_goals decide
  · refine ⟨⟨.kFourByte, q⟩, DfaState.noConfusion, ?_, feed_tail ?_ hbuf ?_ ?_ ?_⟩
    · rw [feed_lead (k := 4) (by omega) (by omega) (class_four (by omega) (by omega)) rfl rfl
        (by decide) (by decide)]
      congr 2
      omega
    · rw [transitions_tail]
      split_ifs <;> rfl
    all_goals decide

/-- **A character decodes to its code units**, and the decoder is back where it began. -/
theorem feedAll_char (c : Char) :
    Decoder.start.feedAll (String.utf8EncodeChar c) = (Decoder.start, units c) := by
  have hv := toNat_valid c
  rcases utf8_cases c with ⟨h, heq⟩ | ⟨h₁, h₂, heq⟩ | ⟨h₁, h₂, heq⟩ | ⟨h₁, heq⟩
  · rw [heq, Decoder.feedAll_cons, feed_ascii h, Decoder.feedAll_nil, store_units,
      List.append_nil]
  · have hbuf : c.toNat / 64 * 64 + c.toNat % 64 = c.toNat := by omega
    simp only [heq, Decoder.feedAll_cons, lead_two h₁ h₂, feed_last, hbuf, store_units,
      Decoder.feedAll_nil, List.append_nil, List.nil_append]
  · have hbuf : c.toNat / 64 * 64 + c.toNat % 64 = c.toNat := by omega
    obtain ⟨d, -, hlead, hnext⟩ := lead_three h₁ h₂ (by omega)
    simp only [heq, Decoder.feedAll_cons, hlead, hnext, feed_last, hbuf, store_units,
      Decoder.feedAll_nil, List.append_nil, List.nil_append]
  · have hmid : c.toNat / 4096 * 64 + c.toNat / 64 % 64 = c.toNat / 64 := by omega
    have hbuf : c.toNat / 64 * 64 + c.toNat % 64 = c.toNat := by omega
    obtain ⟨d, -, hlead, hnext⟩ := lead_four h₁ (by omega)
    simp only [heq, Decoder.feedAll_cons, hlead, hnext, feed_second_last hmid, feed_last, hbuf,
      store_units, Decoder.feedAll_nil, List.append_nil, List.nil_append]

/-- **A begun character leaves the decoder waiting**, with nothing stored. -/
theorem feedAll_char_prefix (c : Char) {xs ys : List UInt8} (hxs : xs ≠ []) (hys : ys ≠ [])
    (h : xs ++ ys = String.utf8EncodeChar c) :
    ∃ d : Decoder, Decoder.start.feedAll xs = (d, []) ∧ d.state ≠ .kAccept := by
  have hv := toNat_valid c
  obtain ⟨x, xs, rfl⟩ := List.exists_cons_of_ne_nil hxs
  rcases utf8_cases c with ⟨h₁, heq⟩ | ⟨h₁, h₂, heq⟩ | ⟨h₁, h₂, heq⟩ | ⟨h₁, heq⟩ <;>
    rw [heq, List.cons_append, List.cons.injEq] at h <;> obtain ⟨rfl, h⟩ := h
  · exact absurd (List.append_eq_nil_iff.mp h).2 hys
  · -- two bytes: the prefix is the lead byte
    rcases xs with - | ⟨x₁, xs⟩
    · exact ⟨_, by rw [Decoder.feedAll_cons, lead_two h₁ h₂]; rfl, DfaState.noConfusion⟩
    · simp only [List.cons_append, List.cons.injEq, List.append_eq_nil_iff] at h
      exact absurd h.2.2 hys
  · obtain ⟨d, hd, hlead, hnext⟩ := lead_three h₁ h₂ (by omega)
    rcases xs with - | ⟨x₁, - | ⟨x₂, xs⟩⟩
    · exact ⟨d, by rw [Decoder.feedAll_cons, hlead]; rfl, hd⟩
    · obtain ⟨rfl, -⟩ := List.cons.inj h
      exact ⟨_, by rw [Decoder.feedAll_cons, hlead, Decoder.feedAll_cons, hnext]; rfl,
        DfaState.noConfusion⟩
    · simp only [List.cons_append, List.cons.injEq, List.append_eq_nil_iff] at h
      exact absurd h.2.2.2 hys
  · have hmid : c.toNat / 4096 * 64 + c.toNat / 64 % 64 = c.toNat / 64 := by omega
    obtain ⟨d, hd, hlead, hnext⟩ := lead_four h₁ (by omega)
    rcases xs with - | ⟨x₁, - | ⟨x₂, - | ⟨x₃, xs⟩⟩⟩
    · exact ⟨d, by rw [Decoder.feedAll_cons, hlead]; rfl, hd⟩
    · obtain ⟨rfl, -⟩ := List.cons.inj h
      exact ⟨_, by rw [Decoder.feedAll_cons, hlead, Decoder.feedAll_cons, hnext]; rfl,
        DfaState.noConfusion⟩
    · simp only [List.cons_append, List.nil_append, List.cons.injEq] at h
      obtain ⟨rfl, rfl, -⟩ := h
      exact ⟨_, by rw [Decoder.feedAll_cons, hlead, Decoder.feedAll_cons, hnext,
        Decoder.feedAll_cons, feed_second_last hmid]; rfl, DfaState.noConfusion⟩
    · simp only [List.cons_append, List.cons.injEq, List.append_eq_nil_iff] at h
      exact absurd h.2.2.2.2 hys

/-- Only the first byte of a character is not a continuation byte. -/
theorem utf8_tail_mem (c : Char) {xs ys : List UInt8} (hxs : xs ≠ [])
    (h : xs ++ ys = String.utf8EncodeChar c) : ∀ b ∈ ys, ∃ v, b = tailByte v := by
  obtain ⟨x, xs, rfl⟩ := List.exists_cons_of_ne_nil hxs
  intro b hb
  have hmem : b ∈ (String.utf8EncodeChar c).tail := by
    rw [← h, List.cons_append, List.tail_cons]
    exact List.mem_append_right _ hb
  rcases utf8_cases c with ⟨_, heq⟩ | ⟨_, _, heq⟩ | ⟨_, _, heq⟩ | ⟨_, heq⟩ <;>
    rw [heq, List.tail_cons] at hmem <;>
      simp only [List.mem_cons, List.not_mem_nil, or_false] at hmem
  · exact ⟨_, hmem⟩
  · rcases hmem with h | h <;> exact ⟨_, h⟩
  · rcases hmem with h | h | h <;> exact ⟨_, h⟩

/-- **Valid UTF-8 decodes to its UTF-16 form.** -/
theorem feedAll_utf8 (cs : List Char) :
    Decoder.start.feedAll (utf8 cs) = (Decoder.start, utf16 cs) := by
  induction cs with
  | nil => rfl
  | cons c cs ih => rw [utf8_cons, utf16_cons, Decoder.feedAll_append, feedAll_char, ih]

theorem decode_utf8 (cs : List Char) : decode (utf8 cs) = utf16 cs := by
  rw [decode, feedAll_utf8]
  exact List.append_nil _

end Dv8.V8
