import Dv8.Builtins.Buffer
import Dv8.Uv.Stream
import Mathlib.Data.Nat.Count
import Mathlib.Tactic.IntervalCases

namespace Dv8.Pico

open Dv8.Builtins Dv8.Uv

/-!
# The header scan of the Pico parser

`on_plugin_read_data` looks for `CR LF CR LF` in windows of sixteen bytes that start twelve bytes
apart, and takes the first match of each.  A window has the matches of its first twelve
positions for itself, its *slot*.  Where the scan differs from a plain search:

* of several matches in a slot only the first is seen (`missed`);
* the last windows reach past the bytes that were read, and what an earlier read left there can
  complete a match (`stale`).

The memory behind `context->base` is a function, of which the first `nread` bytes are new.
-/

/-- `"\r\n\r\n"`. -/
def needle : List UInt8 := [13, 10, 13, 10]

/-- The needle, cut off at the end of the window, matches at `j`. -/
def matchesAt (needle haystack : List UInt8) (j : Nat) : Bool :=
  needle.take (16 - j) == (haystack.drop j).take needle.length

/-- `_mm_cmpestri` of sixteen bytes in equal-ordered mode: the least index of a match, or 16. -/
def cmpestri (needle haystack : List UInt8) : Nat :=
  ((List.range 16).find? (matchesAt needle haystack)).getD 16

/-- `_mm_loadu_si128`. -/
def loadu (mem : Nat → UInt8) (off : Nat) : List UInt8 :=
  (List.range 16).map fun i => mem (off + i)

/-- The loop of `on_plugin_read_data`: how often it calls `onHeaders`. -/
def scan (mem : Nat → UInt8) (onHeaders : Bool) (hlen : Int) : Nat → Nat → Nat
  | 0, _ => 0
  | fuel + 1, off =>
    if (off : Int) < hlen then
      let r := cmpestri needle (loadu mem off)
      (if r < 16 - needle.length then if onHeaders then 1 else 0 else 0) +
        scan mem onHeaders hlen fuel (off + (16 - needle.length))
    else 0

/-- `on_plugin_read_data`: how often it calls `onHeaders`.  Every turn is twelve bytes on, so
    `nread` turns are enough. -/
def onPluginReadData (mem : Nat → UInt8) (onHeaders : Bool) (nread : Nat) : Nat :=
  if nread ≤ 0 then 0 else scan mem onHeaders (int32Value nread) nread 0

/-! ### The plain search -/

/-- `CR LF CR LF` stands at `p`. -/
def Occurs (mem : Nat → UInt8) (p : Nat) : Prop :=
  mem p = 13 ∧ mem (p + 1) = 10 ∧ mem (p + 2) = 13 ∧ mem (p + 3) = 10

instance (mem : Nat → UInt8) : DecidablePred (Occurs mem) := fun _ =>
  inferInstanceAs (Decidable (_ ∧ _ ∧ _ ∧ _))

/-- How often it stands in the first `nread` bytes. -/
def occurrences (mem : Nat → UInt8) (nread : Nat) : Nat :=
  Nat.count (fun p => Occurs mem p ∧ p + 4 ≤ nread) nread

/-- `p` is the first match of its slot. -/
def First (mem : Nat → UInt8) (p : Nat) : Prop :=
  Occurs mem p ∧ ∀ q < p, p / 12 * 12 ≤ q → ¬ Occurs mem q

instance (mem : Nat → UInt8) : DecidablePred (First mem) := fun _ =>
  inferInstanceAs (Decidable (_ ∧ _))

/-- The matches in the first `nread` bytes behind another one of their slot. -/
def missed (mem : Nat → UInt8) (nread : Nat) : Nat :=
  Nat.count (fun p => (Occurs mem p ∧ p + 4 ≤ nread) ∧ ¬ First mem p) nread

/-- The windows that start in the first `nread` bytes. -/
def windows (nread : Nat) : Nat := (nread + 11) / 12

/-- The slots whose first match is not in the first `nread` bytes. -/
def stale (mem : Nat → UInt8) (nread : Nat) : Nat :=
  Nat.count (fun p => First mem p ∧ ¬ p + 4 ≤ nread) (12 * windows nread)

/-! ### One window -/

theorem window_eq (mem : Nat → UInt8) (off : Nat) {j : Nat} (hj : j < 12) :
    ((loadu mem off).drop j).take 4 =
      [mem (off + j), mem (off + j + 1), mem (off + j + 2), mem (off + j + 3)] := by
  interval_cases j <;> rfl

/-- A match in the slot is a whole match. -/
theorem matchesAt_iff (mem : Nat → UInt8) (off : Nat) {j : Nat} (hj : j < 12) :
    matchesAt needle (loadu mem off) j = true ↔ Occurs mem (off + j) := by
  have hneedle : needle.take (16 - j) = [13, 10, 13, 10] :=
    List.take_of_length_le (show 4 ≤ 16 - j by omega)
  have hwindow : ((loadu mem off).drop j).take needle.length = _ := window_eq mem off hj
  rw [matchesAt, hneedle, hwindow, beq_iff_eq, Occurs]
  simp only [List.cons.injEq, and_true, eq_comm]

/-- **What `r < 16 - nlen` says**: there is a match in the slot of the window. -/
theorem cmpestri_lt_iff (mem : Nat → UInt8) (off : Nat) :
    cmpestri needle (loadu mem off) < 12 ↔ ∃ j < 12, Occurs mem (off + j) := by
  rw [cmpestri]
  cases hfind : (List.range 16).find? (matchesAt needle (loadu mem off)) with
  | none =>
    rw [List.find?_range_eq_none] at hfind
    constructor
    · intro h
      rw [Option.getD_none] at h
      omega
    · rintro ⟨j, hj, hocc⟩
      have hmiss := hfind j (by omega)
      rw [(matchesAt_iff mem off hj).mpr hocc] at hmiss
      cases hmiss
  | some i =>
    obtain ⟨hmatch, -, hleast⟩ := List.find?_range_eq_some.mp hfind
    rw [Option.getD_some]
    constructor
    · intro hi
      exact ⟨i, hi, (matchesAt_iff mem off hi).mp hmatch⟩
    · rintro ⟨j, hj, hocc⟩
      by_contra hlate
      -- `j` is an earlier index
      have hmiss := hleast j (by omega)
      rw [(matchesAt_iff mem off hj).mpr hocc] at hmiss
      cases hmiss

/-! ### All windows -/

/-- One of the numbers below `n` that satisfy `P` is the least. -/
theorem count_least (P : Nat → Prop) [DecidablePred P] (n : Nat) :
    Nat.count (fun k => P k ∧ ∀ q < k, ¬ P q) n = if ∃ k < n, P k then 1 else 0 := by
  induction n with
  | zero => simp
  | succ n ih =>
    rw [Nat.count_succ, ih]
    by_cases hbefore : ∃ k < n, P k
    · obtain ⟨k, hk, hP⟩ := hbefore
      rw [if_pos ⟨k, hk, hP⟩, if_neg (fun h => h.2 k hk hP), if_pos ⟨k, by omega, hP⟩]
    · have hnone : ∀ q < n, ¬ P q := fun q hq hP => hbefore ⟨q, hq, hP⟩
      rw [if_neg hbefore]
      by_cases hn : P n
      · rw [if_pos ⟨hn, hnone⟩, if_pos ⟨n, by omega, hn⟩]
      · rw [if_neg (fun h => hn h.1), if_neg]
        rintro ⟨k, hk, hP⟩
        rcases Nat.lt_succ_iff_lt_or_eq.mp hk with hlt | rfl
        · exact hnone k hlt hP
        · exact hn hP

/-- A slot has a first match or none. -/
theorem count_first_slot (mem : Nat → UInt8) (k : Nat) :
    Nat.count (fun j => First mem (12 * k + j)) 12 =
      if cmpestri needle (loadu mem (12 * k)) < 12 then 1 else 0 := by
  have hslot : ∀ j < 12, (First mem (12 * k + j) ↔
      Occurs mem (12 * k + j) ∧ ∀ q < j, ¬ Occurs mem (12 * k + q)) := by
    intro j hj
    have hdiv : (12 * k + j) / 12 * 12 = 12 * k := by omega
    rw [First, hdiv]
    refine and_congr_right fun _ => ⟨fun h q hq => h _ (by omega) (by omega), fun h q hq hle => ?_⟩
    obtain ⟨d, rfl⟩ : ∃ d, q = 12 * k + d := ⟨q - 12 * k, by omega⟩
    exact h d (by omega)
  simp only [cmpestri_lt_iff]
  rw [← count_least (fun j => Occurs mem (12 * k + j)) 12]
  exact le_antisymm (Nat.count_mono_left fun j hj => (hslot j hj).mp)
    (Nat.count_mono_left fun j hj => (hslot j hj).mpr)

/-- **The scan counts first matches**, from window `k` on. -/
theorem scan_eq (mem : Nat → UInt8) {nread fuel k : Nat} (hfuel : nread ≤ 12 * k + fuel)
    (hk : k ≤ windows nread) :
    scan mem true nread fuel (12 * k) =
      Nat.count (fun j => First mem (12 * k + j)) (12 * (windows nread - k)) := by
  induction fuel generalizing k with
  | zero =>
    have hend : windows nread - k = 0 := by
      unfold windows
      omega
    rw [hend]
    rfl
  | succ fuel ih =>
    rw [scan]
    by_cases hwindow : 12 * k < nread
    · have hk' : k + 1 ≤ windows nread := by
        unfold windows
        omega
      have hsplit : 12 * (windows nread - k) = 12 + 12 * (windows nread - (k + 1)) := by omega
      have hnext : 12 * k + (16 - needle.length) = 12 * (k + 1) := rfl
      rw [if_pos (by exact_mod_cast hwindow), hnext, ih (by omega) hk', hsplit, Nat.count_add,
        count_first_slot]
      simp only [if_true, ← Nat.add_assoc, Nat.mul_add, Nat.mul_one]
      rfl
    · have hend : windows nread - k = 0 := by
        unfold windows
        omega
      rw [if_neg (by exact_mod_cast hwindow), hend]
      rfl

/-! ### Against the plain search -/

theorem count_split (P Q : Nat → Prop) [DecidablePred P] [DecidablePred Q] (n : Nat) :
    Nat.count P n = Nat.count (fun k => P k ∧ Q k) n + Nat.count (fun k => P k ∧ ¬ Q k) n := by
  induction n with
  | zero => simp
  | succ n ih =>
    rw [Nat.count_succ, Nat.count_succ, Nat.count_succ, ih]
    by_cases hP : P n <;> by_cases hQ : Q n <;> simp only [hP, hQ] <;> simp <;> omega

/-- Numbers from `m` on that do not satisfy `P` add nothing. -/
theorem count_beyond (P : Nat → Prop) [DecidablePred P] {m n : Nat} (hle : m ≤ n)
    (h : ∀ k, m ≤ k → ¬ P k) : Nat.count P n = Nat.count P m := by
  obtain ⟨d, rfl⟩ := Nat.exists_eq_add_of_le hle
  rw [Nat.count_add, Nat.count_iff_forall_not.mpr fun k _ => h (m + k) (by omega), Nat.add_zero]

/-- **What the scan sees**: every occurrence that is not missed, and the stale ones. -/
theorem onPluginReadData_eq (mem : Nat → UInt8) {nread : Nat} (h : nread ≤ maxRwCount) :
    onPluginReadData mem true nread + missed mem nread =
      occurrences mem nread + stale mem nread := by
  have hmax : maxRwCount < 2 ^ 31 := by decide
  have hend : nread ≤ 12 * windows nread := by
    unfold windows
    omega
  have hscan : onPluginReadData mem true nread = Nat.count (First mem) (12 * windows nread) := by
    rw [onPluginReadData, int32Value_natCast (by omega)]
    split
    · have hzero : nread = 0 := by omega
      rw [hzero]
      rfl
    · have hfuel : nread ≤ 12 * 0 + nread := by omega
      have hall := scan_eq mem hfuel (Nat.zero_le (windows nread))
      simpa only [Nat.mul_zero, Nat.zero_add, Nat.sub_zero] using hall
  -- a first match is seen, inside or stale; an occurrence is a first match or missed
  have hfirst := count_split (First mem) (fun p => p + 4 ≤ nread) (12 * windows nread)
  have hocc := count_split (fun p => Occurs mem p ∧ p + 4 ≤ nread) (First mem) nread
  have hsame : Nat.count (fun p => First mem p ∧ p + 4 ≤ nread) (12 * windows nread) =
      Nat.count (fun p => (Occurs mem p ∧ p + 4 ≤ nread) ∧ First mem p) nread := by
    rw [count_beyond _ hend fun k hk hP => by omega]
    exact le_antisymm (Nat.count_mono_left fun k _ hk => ⟨⟨hk.1.1, hk.2⟩, hk.1⟩)
      (Nat.count_mono_left fun k _ hk => ⟨hk.2, hk.1.2⟩)
  rw [hscan]
  unfold occurrences missed stale
  omega

/-- **The scan agrees with the plain search** exactly when as many matches are missed as are
    stale. -/
theorem onHeaders_iff (mem : Nat → UInt8) {nread : Nat} (h : nread ≤ maxRwCount) :
    onPluginReadData mem true nread = occurrences mem nread ↔
      missed mem nread = stale mem nread := by
  have := onPluginReadData_eq mem h
  omega

/-- A buffer, with zeros behind it. -/
def memory (bytes : List UInt8) (p : Nat) : UInt8 := bytes.getD p 0

/-- `A CR LF CR LF`. -/
theorem onHeaders_iff_one : onPluginReadData (memory [65, 13, 10, 13, 10]) true 5 =
    occurrences (memory [65, 13, 10, 13, 10]) 5 :=
  (onHeaders_iff (memory [65, 13, 10, 13, 10]) (by decide)).mpr (by decide)

/-- Two ends of headers in one slot are one call; three bytes in front of a byte left over are
    one call, too. -/
theorem not_agrees :
    (onPluginReadData (memory [13, 10, 13, 10, 65, 13, 10, 13, 10]) true 9 = 1 ∧
      occurrences (memory [13, 10, 13, 10, 65, 13, 10, 13, 10]) 9 = 2) ∧
    (onPluginReadData (memory [13, 10, 13, 10]) true 3 = 1 ∧
      occurrences (memory [13, 10, 13, 10]) 3 = 0) := by
  decide

end Dv8.Pico
