import Dv8.V8.Utf8Decoder

namespace Dv8.V8

open Dv8.Lib

/-!
# `String::WriteUtf8` — from a JavaScript string to bytes

`WriteUtf8Impl` with `NO_NULL_TERMINATION` and without replacement writes a flat string
into a buffer of bounded capacity in two phases.  The first writes runs of code units
that surely fit, without looking at the capacity; the second checks every unit.
`Utf8::Encode` encodes one unit; the trail unit of a surrogate pair takes back the three
bytes of its lead and writes the four bytes of the pair.

* `writeUtf8_eq_slowLoop` — both phases together stop where the checked loop alone
  would;
* `writeUtf8_ascii` — an ASCII string is written byte for byte.
-/

/-! ### Encoding one unit -/

/-- `Utf16::IsLeadSurrogate`. -/
def isLeadSurrogate (code : UInt16) : Bool := code.toNat &&& 0xFC00 == 0xD800

/-- `Utf16::IsTrailSurrogate`. -/
def isTrailSurrogate (code : UInt16) : Bool := code.toNat &&& 0xFC00 == 0xDC00

/-- `Utf16::IsSurrogatePair`; `none` is `kNoPreviousCharacter`. -/
def isSurrogatePair : Option UInt16 → UInt16 → Bool
  | none, _ => false
  | some lead, trail => isLeadSurrogate lead && isTrailSurrogate trail

/-- `Utf16::CombineSurrogatePair`. -/
def combineSurrogatePair (lead trail : UInt16) : Nat :=
  0x10000 + ((lead.toNat &&& 0x3FF) <<< 10) + (trail.toNat &&& 0x3FF)

/-- `kMask`, a 32-bit word with bit six cleared. -/
def kMask : Nat := 0xFFFFFFBF

/-- `Utf8::Encode` of a value that does not complete a pair. -/
def encodeValue (c : Nat) : List UInt8 :=
  if c ≤ 0x7F then [UInt8.ofNat c]
  else if c ≤ 0x7FF then
    [UInt8.ofNat (0xC0 ||| (c >>> 6)), UInt8.ofNat (0x80 ||| (c &&& kMask))]
  else if c ≤ 0xFFFF then
    [UInt8.ofNat (0xE0 ||| (c >>> 12)), UInt8.ofNat (0x80 ||| ((c >>> 6) &&& kMask)),
      UInt8.ofNat (0x80 ||| (c &&& kMask))]
  else
    [UInt8.ofNat (0xF0 ||| (c >>> 18)), UInt8.ofNat (0x80 ||| ((c >>> 12) &&& kMask)),
      UInt8.ofNat (0x80 ||| ((c >>> 6) &&& kMask)), UInt8.ofNat (0x80 ||| (c &&& kMask))]

/-- `Utf8::Encode` at the end of the bytes written so far.  A unit that completes a pair
    overwrites the three bytes of its lead (`str - kUnmatchedSize`). -/
def encode (out : List UInt8) (c : UInt16) (prev : Option UInt16) : List UInt8 :=
  match prev with
  | some lead =>
    if isSurrogatePair prev c then
      out.take (out.length - 3) ++ encodeValue (combineSurrogatePair lead c)
    else out ++ encodeValue c.toNat
  | none => out ++ encodeValue c.toNat

/-! ### The two phases -/

/-- The variables of `WriteUtf8Impl`: the bytes before `current_write`, the units read and
    those still to read, and `prev_char`. -/
structure Writer where
  out : List UInt8
  readIndex : Nat
  rest : List UInt16
  prevChar : Option UInt16
  deriving DecidableEq, Repr

/-- One unit written and read. -/
def Writer.put (w : Writer) (c : UInt16) (cs : List UInt16) : Writer :=
  { out := encode w.out c w.prevChar, readIndex := w.readIndex + 1, rest := cs,
    prevChar := some c }

/-- The inner loop of the first phase: `n` units without a capacity check. -/
def Writer.putMany (w : Writer) : Nat → Writer
  | 0 => w
  | n + 1 =>
    match w.rest with
    | [] => w
    | c :: cs => (w.put c cs).putMany n

/-- The first phase.  Every turn reads at least one unit, so `fuel` is the string's length. -/
def Writer.fastLoop (kMaxSizePerChar writeCapacity : Nat) : Nat → Writer → Writer
  | 0, w => w
  | fuel + 1, w =>
    if w.rest = [] then w
    else
      let remainingCapacity := writeCapacity - w.out.length
      let writableLength := (remainingCapacity - kMaxSizePerChar) / kMaxSizePerChar
      if writableLength = 0 then w
      else fastLoop kMaxSizePerChar writeCapacity fuel
        (w.putMany (min w.rest.length writableLength))

/-- The second phase: stop when the capacity is used up or the next unit does not fit. -/
def Writer.slowLoop (writeCapacity : Nat) (w : Writer) : Writer :=
  go w.rest w
where
  go : List UInt16 → Writer → Writer
  | [], w => w
  | c :: cs, w =>
    if w.out.length < writeCapacity then
      if isSurrogatePair w.prevChar c then go cs (w.put c cs)
      else if writeCapacity < w.out.length + (encodeValue c.toNat).length then w
      else go cs (w.put c cs)
    else w

/-- `WriteUtf8Impl`. -/
def writeUtf8Impl (kMaxSizePerChar : Nat) (string : JsString) (writeCapacity : Nat) : Writer :=
  (Writer.fastLoop kMaxSizePerChar writeCapacity string.length ⟨[], 0, string, none⟩).slowLoop
    writeCapacity

/-- `String::WriteUtf8`: the bytes stored and `nchars`, the number of units read.  A string
    of Latin-1 units is flat one-byte content, any other two-byte content. -/
def writeUtf8 (string : JsString) (capacity : Nat) : List UInt8 × Nat :=
  let kMaxSizePerChar := if string.all (· < 0x100) then 2 else 3
  let w := writeUtf8Impl kMaxSizePerChar string capacity
  (w.out, w.readIndex)

/-! ### Sizes -/

theorem length_encodeValue_le (c : UInt16) : (encodeValue c.toNat).length ≤ 3 := by
  have hc : c.toNat ≤ 0xFFFF := Nat.le_of_lt_succ c.toNat_lt
  unfold encodeValue
  rw [if_pos hc]
  split_ifs <;> simp

theorem length_encodeValue_latin1 {c : UInt16} (h : c < 0x100) :
    (encodeValue c.toNat).length ≤ 2 := by
  have hc : c.toNat < 0x100 := h
  unfold encodeValue
  rw [if_pos (show c.toNat ≤ 0x7FF by omega)]
  split_ifs <;> simp

theorem encodeValue_ascii {n : Nat} (h : n ≤ 0x7F) : encodeValue n = [UInt8.ofNat n] := if_pos h

/-- A lead surrogate is at least `0xD800`. -/
theorem le_of_isLeadSurrogate {c : UInt16} (h : isLeadSurrogate c = true) : 0xD800 ≤ c.toNat := by
  rw [← beq_iff_eq.mp h]
  exact Nat.and_le_left

/-- A trail surrogate is at least `0xDC00`. -/
theorem le_of_isTrailSurrogate {c : UInt16} (h : isTrailSurrogate c = true) :
    0xDC00 ≤ c.toNat := by
  rw [← beq_iff_eq.mp h]
  exact Nat.and_le_left

theorem length_encodeValue_lead {c : UInt16} (h : isLeadSurrogate c = true) :
    (encodeValue c.toNat).length = 3 := by
  have hc : c.toNat ≤ 0xFFFF := Nat.le_of_lt_succ c.toNat_lt
  have hlo := le_of_isLeadSurrogate h
  unfold encodeValue
  rw [if_neg (by omega), if_neg (by omega), if_pos hc]
  rfl

/-- The bytes of a lead surrogate are there to be taken back. -/
def Writer.LeadStored (w : Writer) : Prop :=
  ∀ p, w.prevChar = some p → isLeadSurrogate p = true → 3 ≤ w.out.length

/-- A unit that does not complete a pair is appended. -/
theorem encode_of_not_pair {out : List UInt8} {c : UInt16} {prev : Option UInt16}
    (h : isSurrogatePair prev c = false) : encode out c prev = out ++ encodeValue c.toNat := by
  cases prev with
  | none => rfl
  | some p => exact if_neg (by rw [h]; exact Bool.noConfusion)

theorem Writer.put_out_of_not_pair {w : Writer} {c : UInt16} {cs : List UInt16}
    (h : isSurrogatePair w.prevChar c = false) :
    (w.put c cs).out = w.out ++ encodeValue c.toNat := encode_of_not_pair h

theorem length_encodeValue_pair (lead trail : UInt16) :
    (encodeValue (combineSurrogatePair lead trail)).length = 4 := by
  have hbig : 0x10000 ≤ combineSurrogatePair lead trail := by
    unfold combineSurrogatePair
    omega
  unfold encodeValue
  rw [if_neg (by omega), if_neg (by omega), if_neg (by omega)]
  rfl

/-- Completing a pair adds at most one byte. -/
theorem Writer.length_put_pair {w : Writer} {c : UInt16} (cs : List UInt16)
    (hw : w.LeadStored) (h : isSurrogatePair w.prevChar c = true) :
    (w.put c cs).out.length ≤ w.out.length + 1 ∧ 3 ≤ (w.put c cs).out.length := by
  obtain ⟨out, n, rest, prev⟩ := w
  cases prev with
  | none => exact absurd h Bool.noConfusion
  | some p =>
    have hp : 3 ≤ out.length := hw p rfl (Bool.and_eq_true_iff.mp h).1
    have hout : (Writer.put ⟨out, n, rest, some p⟩ c cs).out
        = out.take (out.length - 3) ++ encodeValue (combineSurrogatePair p c) := if_pos h
    rw [hout, List.length_append, List.length_take, length_encodeValue_pair]
    show _ ≤ out.length + 1 ∧ _
    omega

/-- A unit adds at most `k` bytes when its own encoding does. -/
theorem Writer.length_put_le {w : Writer} {c : UInt16} (cs : List UInt16) {k : Nat}
    (hw : w.LeadStored) (hk : 1 ≤ k) (hc : (encodeValue c.toNat).length ≤ k) :
    (w.put c cs).out.length ≤ w.out.length + k := by
  by_cases h : isSurrogatePair w.prevChar c = true
  · have := (length_put_pair cs hw h).1
    omega
  · rw [put_out_of_not_pair (Bool.eq_false_iff.mpr h), List.length_append]
    omega

theorem Writer.leadStored_put {w : Writer} {c : UInt16} {cs : List UInt16} (hw : w.LeadStored) :
    (w.put c cs).LeadStored := by
  rintro p hp hlead
  cases hp
  by_cases h : isSurrogatePair w.prevChar c = true
  · exact (length_put_pair cs hw h).2
  · rw [put_out_of_not_pair (Bool.eq_false_iff.mpr h), List.length_append,
      length_encodeValue_lead hlead]
    omega

/-! ### The two phases agree -/

/-- A unit that fits is written by the second phase. -/
theorem Writer.slowLoop_put {cap : Nat} {w : Writer} {c : UInt16} {cs : List UInt16}
    (hrest : w.rest = c :: cs) (hroom : w.out.length < cap)
    (hfit : isSurrogatePair w.prevChar c = true ∨
      w.out.length + (encodeValue c.toNat).length ≤ cap) :
    w.slowLoop cap = (w.put c cs).slowLoop cap := by
  unfold slowLoop
  rw [hrest, slowLoop.go, if_pos hroom]
  by_cases h : isSurrogatePair w.prevChar c = true
  · rw [if_pos h]
    rfl
  · rw [if_neg h, if_neg (Nat.not_lt.mpr (hfit.resolve_left h))]
    rfl

/-- Units written without a check would have passed it. -/
theorem Writer.slowLoop_putMany {cap k : Nat} (hk : 1 ≤ k) (n : Nat) {w : Writer}
    (hw : w.LeadStored) (hsize : ∀ c ∈ w.rest, (encodeValue c.toNat).length ≤ k)
    (hroom : w.out.length + n * k ≤ cap) :
    (w.putMany n).slowLoop cap = w.slowLoop cap ∧ (w.putMany n).LeadStored ∧
      (w.putMany n).rest = w.rest.drop n := by
  induction n generalizing w with
  | zero => exact ⟨rfl, hw, rfl⟩
  | succ n ih =>
    cases hrest : w.rest with
    | nil => exact ⟨by rw [putMany, hrest], by rw [putMany, hrest]; exact hw,
        by rw [putMany, hrest]; exact hrest⟩
    | cons c cs =>
      rw [hrest] at hsize
      rw [Nat.succ_mul] at hroom
      have hc := hsize c List.mem_cons_self
      have hlen := length_put_le cs hw hk hc
      obtain ⟨h₁, h₂, h₃⟩ := ih (w := w.put c cs) (leadStored_put hw)
        (fun d hd => hsize d (List.mem_cons_of_mem _ hd)) (by omega)
      have hput : w.putMany (n + 1) = (w.put c cs).putMany n := by rw [putMany, hrest]
      rw [hput]
      exact ⟨by rw [h₁, slowLoop_put hrest (by omega) (Or.inr (by omega))], h₂, h₃⟩

theorem Writer.slowLoop_fastLoop {cap k : Nat} (hk : 1 ≤ k) (fuel : Nat) {w : Writer}
    (hw : w.LeadStored) (hsize : ∀ c ∈ w.rest, (encodeValue c.toNat).length ≤ k) :
    (fastLoop k cap fuel w).slowLoop cap = w.slowLoop cap := by
  induction fuel generalizing w with
  | zero => rfl
  | succ fuel ih =>
    rw [fastLoop]
    by_cases hrest : w.rest = []
    · rw [if_pos hrest]
    · rw [if_neg hrest]
      by_cases hn : (cap - w.out.length - k) / k = 0
      · simp only [hn, if_true]
      · simp only [if_neg hn]
        have hroom : w.out.length + min w.rest.length ((cap - w.out.length - k) / k) * k ≤ cap := by
          have h₁ := Nat.div_mul_le_self (cap - w.out.length - k) k
          have h₂ : k ≤ cap - w.out.length - k :=
            (Nat.div_ne_zero_iff.mp hn).2
          have h₃ := Nat.mul_le_mul_right k
            (Nat.min_le_right w.rest.length ((cap - w.out.length - k) / k))
          omega
        obtain ⟨h₁, h₂, h₃⟩ := slowLoop_putMany hk _ hw hsize hroom
        rw [ih h₂ (fun c hc => hsize c (List.mem_of_mem_drop (h₃ ▸ hc))), h₁]

/-- **Both phases together stop where the checked loop alone would.** -/
theorem writeUtf8_eq_slowLoop (string : JsString) (capacity : Nat) :
    writeUtf8 string capacity =
      (((⟨[], 0, string, none⟩ : Writer).slowLoop capacity).out,
        ((⟨[], 0, string, none⟩ : Writer).slowLoop capacity).readIndex) := by
  have hw : (⟨[], 0, string, none⟩ : Writer).LeadStored := fun p hp => by cases hp
  unfold writeUtf8 writeUtf8Impl
  by_cases h : string.all (· < 0x100) = true
  · have hsize : ∀ c ∈ string, (encodeValue c.toNat).length ≤ 2 := fun c hc =>
      length_encodeValue_latin1 (of_decide_eq_true (List.all_eq_true.mp h c hc))
    simp only [if_pos h, Writer.slowLoop_fastLoop (by decide) _ hw hsize]
  · have hsize : ∀ c ∈ string, (encodeValue c.toNat).length ≤ 3 := fun c _ =>
      length_encodeValue_le c
    simp only [if_neg h, Writer.slowLoop_fastLoop (by decide) _ hw hsize]

/-! ### ASCII strings -/

/-- Every unit of the string is an ASCII character. -/
def IsAscii (s : JsString) : Prop := ∀ c ∈ s, c.toNat ≤ 0x7F

instance (s : JsString) : Decidable (IsAscii s) :=
  List.decidableBAll (fun c : UInt16 => c.toNat ≤ 0x7F) s

/-- The bytes of an ASCII string. -/
def asciiBytes (s : JsString) : List UInt8 := s.map fun c => UInt8.ofNat c.toNat

/-- An ASCII unit never completes a pair. -/
theorem isSurrogatePair_ascii (prev : Option UInt16) {c : UInt16} (h : c.toNat ≤ 0x7F) :
    isSurrogatePair prev c = false := by
  cases prev with
  | none => rfl
  | some p =>
    by_contra hp
    have hboth := Bool.and_eq_true_iff.mp (eq_true_of_ne_false hp)
    have := le_of_isTrailSurrogate hboth.2
    omega

private theorem slowLoop_go_ascii {cap : Nat} {s : JsString} (hs : IsAscii s) {w : Writer}
    (hroom : w.out.length + s.length ≤ cap) :
    (Writer.slowLoop.go cap s w).out = w.out ++ asciiBytes s ∧
      (Writer.slowLoop.go cap s w).readIndex = w.readIndex + s.length := by
  induction s generalizing w with
  | nil => exact ⟨(List.append_nil _).symm, rfl⟩
  | cons c s ih =>
    have hc := hs c List.mem_cons_self
    have hpair := isSurrogatePair_ascii w.prevChar hc
    have hput : (w.put c s).out = w.out ++ [UInt8.ofNat c.toNat] := by
      rw [Writer.put_out_of_not_pair hpair, encodeValue_ascii hc]
    rw [List.length_cons] at hroom
    have hfit : ¬ cap < w.out.length + (encodeValue c.toNat).length := by
      rw [encodeValue_ascii hc, List.length_singleton]
      omega
    rw [Writer.slowLoop.go, if_pos (by omega), if_neg (by rw [hpair]; exact Bool.noConfusion),
      if_neg hfit]
    obtain ⟨h₁, h₂⟩ := ih (fun d hd => hs d (List.mem_cons_of_mem _ hd)) (w := w.put c s)
      (by rw [hput, List.length_append, List.length_singleton]; omega)
    refine ⟨by rw [h₁, hput, List.append_assoc]; rfl, ?_⟩
    rw [h₂, List.length_cons]
    show w.readIndex + 1 + s.length = _
    omega

/-- **An ASCII string is written byte for byte.** -/
theorem writeUtf8_ascii {s : JsString} (hs : IsAscii s) {capacity : Nat}
    (hroom : s.length ≤ capacity) : writeUtf8 s capacity = (asciiBytes s, s.length) := by
  have hfit : 0 + s.length ≤ capacity := by omega
  have h := slowLoop_go_ascii hs (w := ⟨[], 0, s, none⟩) hfit
  rw [writeUtf8_eq_slowLoop]
  exact Prod.ext h.1 (h.2.trans (Nat.zero_add _))

/-! ### Capacity -/

theorem length_encodeValue_pos (n : Nat) : 1 ≤ (encodeValue n).length := by
  unfold encodeValue
  split_ifs <;> simp

/-- A unit that is not ASCII takes two bytes or more. -/
theorem two_le_length_encodeValue {n : Nat} (h : 0x7F < n) : 2 ≤ (encodeValue n).length := by
  unfold encodeValue
  rw [if_neg (by omega)]
  split_ifs <;> simp

/-- Every unit adds a byte or more. -/
theorem Writer.length_lt_put {w : Writer} {c : UInt16} (cs : List UInt16) (hw : w.LeadStored) :
    w.out.length + 1 ≤ (w.put c cs).out.length := by
  by_cases h : isSurrogatePair w.prevChar c = true
  · obtain ⟨out, n, rest, prev⟩ := w
    cases prev with
    | none => exact absurd h Bool.noConfusion
    | some p =>
      have hp : 3 ≤ out.length := hw p rfl (Bool.and_eq_true_iff.mp h).1
      have hout : (Writer.put ⟨out, n, rest, some p⟩ c cs).out
          = out.take (out.length - 3) ++ encodeValue (combineSurrogatePair p c) := if_pos h
      rw [hout, List.length_append, List.length_take, length_encodeValue_pair]
      show out.length + 1 ≤ _
      omega
  · rw [put_out_of_not_pair (Bool.eq_false_iff.mpr h), List.length_append]
    have := length_encodeValue_pos c.toNat
    omega

/-- The second phase keeps to the capacity. -/
theorem Writer.slowLoop_go_length_le {cap : Nat} {s : List UInt16} {w : Writer}
    (hw : w.LeadStored) (h : w.out.length ≤ cap) : (slowLoop.go cap s w).out.length ≤ cap := by
  induction s generalizing w with
  | nil => exact h
  | cons c s ih =>
    rw [slowLoop.go]
    split_ifs with hroom hpair hover
    · have := (length_put_pair s hw hpair).1
      exact ih (leadStored_put hw) (by omega)
    · exact h
    · refine ih (leadStored_put hw) ?_
      rw [put_out_of_not_pair (Bool.eq_false_iff.mpr hpair), List.length_append]
      omega
    · exact h

/-- Where the second phase reads the whole string, it has stored a byte for each unit, and
    more for a unit that is not ASCII. -/
theorem Writer.slowLoop_go_whole {cap : Nat} {s : List UInt16} {w : Writer} (hw : w.LeadStored)
    (h : (slowLoop.go cap s w).readIndex = w.readIndex + s.length) :
    w.out.length + s.length ≤ (slowLoop.go cap s w).out.length ∧
      ((∀ p, w.prevChar = some p → isLeadSurrogate p = false) → ¬ IsAscii s →
        w.out.length + s.length < (slowLoop.go cap s w).out.length) := by
  induction s generalizing w with
  | nil => exact ⟨Nat.le_refl _, fun _ hs => absurd (fun c hc => by cases hc) hs⟩
  | cons c s ih =>
    rw [List.length_cons] at h ⊢
    -- a unit that is not written is not read either
    have hgo : slowLoop.go cap (c :: s) w = slowLoop.go cap s (w.put c s) := by
      rw [slowLoop.go] at h ⊢
      split_ifs at h ⊢ <;> first | rfl | omega
    rw [hgo] at h ⊢
    have hlen := length_lt_put (w := w) (c := c) s hw
    obtain ⟨hle, hlt⟩ := ih (leadStored_put hw) (h.trans (by
      show _ = w.readIndex + 1 + s.length
      omega))
    refine ⟨by omega, fun hprev hs => ?_⟩
    by_cases hc : c.toNat ≤ 0x7F
    · have hlead : ∀ p, (w.put c s).prevChar = some p → isLeadSurrogate p = false := by
        rintro p hp
        cases hp
        by_contra hp
        have := le_of_isLeadSurrogate (eq_true_of_ne_false hp)
        omega
      have hrest : ¬ IsAscii s := fun hall => hs fun d hd => by
        rcases List.mem_cons.mp hd with rfl | hd
        · exact hc
        · exact hall d hd
      have := hlt hlead hrest
      omega
    · have hpair : isSurrogatePair w.prevChar c = false := by
        cases hp : w.prevChar with
        | none => rfl
        | some p =>
          rw [isSurrogatePair, hprev p hp]
          rfl
      have htwo := two_le_length_encodeValue (Nat.lt_of_not_le hc)
      rw [put_out_of_not_pair hpair, List.length_append] at hle
      omega

/-- **Capacity for one byte a unit** is enough for the whole string exactly when it is ASCII. -/
theorem writeUtf8_whole_iff (s : JsString) : (writeUtf8 s s.length).2 = s.length ↔ IsAscii s := by
  constructor
  · intro h
    by_contra hs
    obtain ⟨w, hw⟩ : ∃ w : Writer, w = ⟨[], 0, s, none⟩ := ⟨_, rfl⟩
    have hlead : w.LeadStored := fun p hp => by rw [hw] at hp; cases hp
    have hread : (Writer.slowLoop.go s.length s w).readIndex = w.readIndex + s.length := by
      rw [writeUtf8_eq_slowLoop] at h
      rw [hw]
      exact h.trans (Nat.zero_add _).symm
    obtain ⟨-, hlt⟩ := Writer.slowLoop_go_whole hlead hread
    have hstart : w.out.length ≤ s.length := by
      rw [hw]
      exact Nat.zero_le _
    have hle : (Writer.slowLoop.go s.length s w).out.length ≤ s.length :=
      Writer.slowLoop_go_length_le hlead hstart
    have := hlt (fun p hp => by rw [hw] at hp; cases hp) hs
    omega
  · intro h
    rw [writeUtf8_ascii h (Nat.le_refl _)]

theorem isAscii_utf16 {cs : List Char} (h : ∀ c ∈ cs, c.toNat ≤ 0x7F) : IsAscii (utf16 cs) := by
  intro u hu
  obtain ⟨c, hc, hu⟩ := List.mem_flatMap.mp hu
  have hle := h c hc
  rw [units_ascii hle, List.mem_singleton] at hu
  rw [hu, UInt16.toNat_ofNat']
  omega

/-- The ASCII strings are the UTF-16 forms of ASCII texts. -/
theorem exists_text_of_ascii {s : JsString} (hs : IsAscii s) :
    ∃ cs : List Char, (∀ c ∈ cs, c.toNat ≤ 0x7F) ∧ utf16 cs = s ∧ utf8 cs = asciiBytes s := by
  induction s with
  | nil => exact ⟨[], by simp, rfl, rfl⟩
  | cons c s ih =>
    obtain ⟨cs, hcs, h₁, h₂⟩ := ih fun d hd => hs d (List.mem_cons_of_mem _ hd)
    have hc := hs c List.mem_cons_self
    have hval : (Char.ofNat c.toNat).toNat = c.toNat := by
      rw [Char.ofNat, dif_pos (show c.toNat.isValidChar from Or.inl (by omega))]
      rfl
    have hle : (Char.ofNat c.toNat).toNat ≤ 0x7F := by omega
    refine ⟨Char.ofNat c.toNat :: cs, ?_, ?_, ?_⟩
    · intro d hd
      rcases List.mem_cons.mp hd with rfl | hd
      · exact hle
      · exact hcs d hd
    · rw [utf16_cons, units_ascii hle, hval, h₁, UInt16.ofNat_toNat]
      rfl
    · rw [utf8_cons, utf8EncodeChar_ascii hle, hval, h₂]
      rfl

end Dv8.V8
