import Dv8.V8.Utf8Decoder
import Mathlib.Tactic.SplitIfs

namespace Dv8.V8

open Dv8.Lib

/-!
# ASCII in any text

An ASCII byte is itself a character wherever it stands: a sequence it breaks off is over, and no
other bytes give its code unit, since the decoder takes no character in more bytes than it needs.
This holds of all bytes, also of those that are not UTF-8.

* `decode_cut` — a text may be cut before and behind an ASCII byte;
* `mem_decode_iff` — an ASCII code unit is in a string exactly when its byte is in the text.
-/

/-- The code unit of an ASCII byte. -/
def unit (b : UInt8) : UInt16 := UInt16.ofNat b.toNat

/-! ### Cuts -/

/-- Between characters nothing is accumulated. -/
def Decoder.Clean (d : Decoder) : Prop := d.state = .kAccept → d = start

theorem Decoder.clean_start : start.Clean := fun _ => rfl

theorem valueOfIncremental_clean {d : Decoder} (hd : d.Clean) (next : Nat) :
    (valueOfIncremental d next).decoder.Clean := by
  unfold valueOfIncremental
  split_ifs with hfast
  · exact hd
  · dsimp only
    split
    · exact fun _ => rfl
    · exact fun _ => rfl
    · rename_i hne _
      exact fun hacc => absurd hacc hne

theorem Decoder.feed_clean {d : Decoder} (hd : d.Clean) (b : UInt8) : (d.feed b).1.Clean := by
  unfold feed
  dsimp only
  split_ifs
  · exact valueOfIncremental_clean (valueOfIncremental_clean hd _) _
  · exact valueOfIncremental_clean hd _

theorem Decoder.feedAll_clean {d : Decoder} (hd : d.Clean) (bs : List UInt8) :
    (d.feedAll bs).1.Clean := by
  induction bs generalizing d with
  | nil => exact hd
  | cons b bs ih =>
    rw [feedAll_cons]
    exact ih (feed_clean hd b)

/-- Between characters an ASCII byte is read at once. -/
theorem valueOfIncremental_unit {b : UInt8} (hb : b.toNat ≤ 0x7F) :
    valueOfIncremental Decoder.start b.toNat = ⟨Decoder.start, some b.toNat, false⟩ :=
  if_pos ⟨hb, rfl⟩

/-- Inside a character it is read again, behind a U+FFFD. -/
theorem valueOfIncremental_broken {d : Decoder} (hd : d.state ≠ .kAccept) {b : UInt8}
    (hb : b.toNat ≤ 0x7F) :
    valueOfIncremental d b.toNat = ⟨Decoder.start, some kBadChar, true⟩ := by
  have hclass : transitions b.toNat = .x00_7F := if_pos hb
  have hstate : (d.dfaDecode b.toNat).state = .kReject := by
    show states d.state (transitions b.toNat) = .kReject
    rw [hclass]
    cases hs : d.state with
    | kAccept => exact absurd hs hd
    | _ => rfl
  unfold valueOfIncremental
  simp only [hd, and_false, if_false, hstate, ne_eq, not_false_eq_true, decide_true]
  rfl

theorem store_unit {b : UInt8} (hb : b.toNat ≤ 0x7F) : store (some b.toNat) = [unit b] :=
  if_pos (by omega)

/-- **An ASCII byte** ends what was begun, and is a character of its own. -/
theorem Decoder.feed_unit {d : Decoder} (hd : d.Clean) {b : UInt8} (hb : b.toNat ≤ 0x7F) :
    d.feed b = (start, d.finish ++ [unit b]) := by
  by_cases hacc : d.state = .kAccept
  · rw [hd hacc, feed, valueOfIncremental_unit hb]
    simp only [Bool.false_eq_true, if_false, store_unit hb, finish_start, List.nil_append]
  · rw [feed, valueOfIncremental_broken hacc hb]
    simp only [if_true, valueOfIncremental_unit hb, store_unit hb, finish, if_neg hacc]
    rfl

/-- **A text may be cut at an ASCII byte.** -/
theorem decode_cut (xs ys : List UInt8) {b : UInt8} (hb : b.toNat ≤ 0x7F) :
    decode (xs ++ b :: ys) = decode xs ++ unit b :: decode ys := by
  have hfeed := Decoder.feed_unit (Decoder.feedAll_clean Decoder.clean_start xs) hb
  simp only [decode, Decoder.feedAll_append, Decoder.feedAll_cons, hfeed, List.append_assoc,
    List.cons_append, List.nil_append]

/-! ### Characters in no more bytes than they need -/

/-- The least value accumulated on the way to a state; at the end of a character, the least
    character that takes more than one byte. -/
def DfaState.least : DfaState → Nat
  | .kAccept => 0x80
  | .kTwoByte => 2
  | .kThreeByte | .kThreeByteLowMid | .kFourByte | .kFourByteLow => 1
  | .kThreeByteHigh | .kFourByteMidHigh | .kReject => 0

/-- Inside a character at least the least value is accumulated. -/
def Decoder.Long (d : Decoder) : Prop := d.state ≠ .kAccept → d.state.least ≤ d.buffer

/-- The bits of a byte that its class leaves. -/
def payloadBits (n : Nat) : Nat := n &&& (0x7F >>> ((transitions n).type >>> 1))

/-- The table: the first byte, or the value so far, is at least what the next state needs. -/
theorem states_least :
    ∀ n < 256, ∀ s : DfaState, s ≠ .kAccept ∨ 0x7F < n → states s (transitions n) ≠ .kReject →
      (states s (transitions n)).least ≤ payloadBits n ∨
        s ≠ .kAccept ∧ (states s (transitions n)).least ≤ s.least * 64 := by
  intro n hn s
  revert n
  cases s <;> decide +kernel

theorem dfaDecode_long {d : Decoder} (hd : d.Long) {n : Nat} (hn : n < 256)
    (hslow : d.state ≠ .kAccept ∨ 0x7F < n) (hr : (d.dfaDecode n).state ≠ .kReject) :
    (d.dfaDecode n).state.least ≤ (d.dfaDecode n).buffer := by
  have hbuffer : (d.dfaDecode n).buffer = d.buffer <<< 6 ||| payloadBits n := rfl
  rw [hbuffer]
  rcases states_least n hn d.state hslow hr with hbits | ⟨hacc, hleast⟩
  · exact Nat.le_trans hbits Nat.right_le_or
  · have hsofar : d.state.least * 64 ≤ d.buffer <<< 6 := by
      rw [Nat.shiftLeft_eq]
      exact Nat.mul_le_mul_right 64 (hd hacc)
    exact Nat.le_trans hleast (Nat.le_trans hsofar Nat.left_le_or)

/-- A character of more than one byte has no ASCII code unit. -/
theorem store_long {t : Nat} (ht : 0x7F < t) {u : UInt16} (hu : u ∈ store (some t)) :
    0x7F < u.toNat := by
  have hhigh : ((t - 0x10000) >>> 10) &&& 0x3FF ≤ 0x3FF := Nat.and_le_right
  have hlow : t &&& 0x3FF ≤ 0x3FF := Nat.and_le_right
  unfold store at hu
  dsimp only at hu
  split_ifs at hu with h
  · rw [List.mem_singleton.mp hu, UInt16.toNat_ofNat']
    omega
  · rcases List.mem_cons.mp hu with rfl | hu
    · rw [UInt16.toNat_ofNat']
      omega
    · rw [List.mem_singleton.mp hu, UInt16.toNat_ofNat']
      omega

/-- What one byte stores is its own code unit, or not ASCII. -/
def Stores (b : UInt8) (s : JsString) : Prop :=
  ∀ u ∈ s, 0x7F < u.toNat ∨ b.toNat ≤ 0x7F ∧ u = unit b

theorem valueOfIncremental_stores {d : Decoder} (hd : d.Long) (b : UInt8) :
    (valueOfIncremental d b.toNat).decoder.Long ∧
      Stores b (store (valueOfIncremental d b.toNat).value) := by
  have hbad : ∀ u ∈ store (some kBadChar), 0x7F < u.toNat := fun u hu =>
    store_long (by decide) hu
  unfold valueOfIncremental
  split_ifs with hfast
  · rw [store_unit hfast.1]
    exact ⟨hd, fun u hu => .inr ⟨hfast.1, List.mem_singleton.mp hu⟩⟩
  have hslow : d.state ≠ .kAccept ∨ 0x7F < b.toNat := by
    by_cases hacc : d.state = .kAccept
    · exact .inr (by
        by_contra hle
        exact hfast ⟨by omega, hacc⟩)
    · exact .inl hacc
  have hlong := dfaDecode_long hd b.toNat_lt hslow
  dsimp only
  split
  · rename_i hacc
    rw [hacc] at hlong
    exact ⟨fun h => absurd rfl h, fun u hu => .inl (store_long (hlong (by decide)) hu)⟩
  · exact ⟨fun h => absurd rfl h, fun u hu => .inl (hbad u hu)⟩
  · rename_i hr
    exact ⟨fun _ => hlong hr, fun u hu => absurd hu List.not_mem_nil⟩

theorem Decoder.feed_stores {d : Decoder} (hd : d.Long) (b : UInt8) :
    (d.feed b).1.Long ∧ Stores b (d.feed b).2 := by
  obtain ⟨hlong, hstores⟩ := valueOfIncremental_stores hd b
  unfold feed
  dsimp only
  split_ifs
  · obtain ⟨hlong', hstores'⟩ := valueOfIncremental_stores hlong b
    exact ⟨hlong', fun u hu => (List.mem_append.mp hu).elim (hstores u) (hstores' u)⟩
  · exact ⟨hlong, hstores⟩

theorem Decoder.feedAll_units {d : Decoder} (hd : d.Long) {bs : List UInt8} {u : UInt16}
    (hu : u ∈ (d.feedAll bs).2) : 0x7F < u.toNat ∨ ∃ b ∈ bs, b.toNat ≤ 0x7F ∧ u = unit b := by
  induction bs generalizing d with
  | nil => exact absurd hu List.not_mem_nil
  | cons b bs ih =>
    obtain ⟨hlong, hstores⟩ := feed_stores hd b
    rw [feedAll_cons] at hu
    rcases List.mem_append.mp hu with hu | hu
    · exact (hstores u hu).imp_right fun h => ⟨b, List.mem_cons_self, h⟩
    · exact (ih hlong hu).imp_right fun ⟨b', hb', h⟩ => ⟨b', List.mem_cons_of_mem _ hb', h⟩

/-- **No ASCII from elsewhere**: an ASCII code unit is in a string exactly when its byte is in the
    text. -/
theorem mem_decode_iff {bs : List UInt8} {b : UInt8} (hb : b.toNat ≤ 0x7F) :
    unit b ∈ decode bs ↔ b ∈ bs := by
  have hunit : ∀ b : UInt8, (unit b).toNat = b.toNat := fun b => by
    have := b.toNat_lt
    rw [unit, UInt16.toNat_ofNat']
    omega
  constructor
  · intro hmem
    rcases List.mem_append.mp hmem with hmem | hmem
    · rcases Decoder.feedAll_units (fun h => absurd rfl h) hmem with hlong | ⟨b', hb', -, heq⟩
      · rw [hunit] at hlong
        omega
      · have := congrArg UInt16.toNat heq
        rw [hunit, hunit] at this
        rwa [UInt8.toNat_inj.mp this]
    · -- at the end there is at most one U+FFFD
      unfold Decoder.finish at hmem
      split_ifs at hmem
      · exact absurd hmem List.not_mem_nil
      · have := congrArg UInt16.toNat (List.mem_singleton.mp hmem)
        rw [hunit, UInt16.toNat_ofNat', show kBadChar = 0xFFFD from rfl] at this
        omega
  · intro hmem
    obtain ⟨xs, ys, rfl⟩ := List.append_of_mem hmem
    rw [decode_cut xs ys hb]
    exact List.mem_append_right _ List.mem_cons_self

end Dv8.V8
