import Dv8.Lib.Cuts
import Dv8.V8.Utf8Decoder

namespace Dv8.V8

open Dv8.Lib

/-!
# Decoding a text piece by piece

A text read in several calls is decoded one piece at a time, each piece on its own, and
the strings are concatenated.  `feedEvents` is that reading over a cut stream: at
every cut the decoder is finished and a fresh one begins.

The result is the decoding of the whole text exactly when no cut falls strictly inside a
character (`pieces_eq_iff`).  The argument counts U+FFFD: a character that is cut yields
only U+FFFD and at least two of them (`feedEvents_char_cut`), and no character has two of
them in its own UTF-16 form, so the count grows with every character that is cut.
-/

/-- One event: a byte, or the end of a piece. -/
def Decoder.feedEvent (d : Decoder) : Option UInt8 → Decoder × JsString
  | some b => d.feed b
  | none => (.start, d.finish)

/-- The events of a cut stream. -/
def Decoder.feedEvents (d : Decoder) : List (Option UInt8) → Decoder × JsString
  | [] => (d, [])
  | x :: e =>
    let r := (d.feedEvent x).1.feedEvents e
    (r.1, (d.feedEvent x).2 ++ r.2)

theorem Decoder.feedEvents_cons (d : Decoder) (x : Option UInt8) (e : List (Option UInt8)) :
    d.feedEvents (x :: e) = (((d.feedEvent x).1.feedEvents e).1,
      (d.feedEvent x).2 ++ ((d.feedEvent x).1.feedEvents e).2) := rfl

theorem Decoder.feedEvents_append (d : Decoder) (e₁ e₂ : List (Option UInt8)) :
    d.feedEvents (e₁ ++ e₂) = (((d.feedEvents e₁).1.feedEvents e₂).1,
      (d.feedEvents e₁).2 ++ ((d.feedEvents e₁).1.feedEvents e₂).2) := by
  induction e₁ generalizing d with
  | nil => rfl
  | cons x e₁ ih => rw [List.cons_append, feedEvents_cons, ih, feedEvents_cons, List.append_assoc]

/-- Without cuts this is the plain loop. -/
theorem Decoder.feedEvents_map_some (d : Decoder) (bs : List UInt8) :
    d.feedEvents (bs.map some) = d.feedAll bs := by
  induction bs generalizing d with
  | nil => rfl
  | cons b bs ih =>
    rw [List.map_cons, feedEvents_cons, feedAll_cons, ih]
    rfl

/-- **Pieces are decoded one by one.** -/
theorem feedEvents_ofChunks (pieces : List (List UInt8)) :
    Decoder.start.feedEvents (ofChunks pieces) = (Decoder.start, pieces.flatMap decode) := by
  induction pieces with
  | nil => rfl
  | cons p pieces ih =>
    rw [ofChunks_cons, Decoder.feedEvents_append, Decoder.feedEvents_map_some,
      Decoder.feedEvents_cons, List.flatMap_cons]
    have hcut (d : Decoder) : d.feedEvent none = (Decoder.start, d.finish) := rfl
    rw [hcut, ih, decode, List.append_assoc]

/-- The string of a cut stream: its pieces decoded one by one, the last one finished too. -/
def decodeEvents (e : List (Option UInt8)) : JsString :=
  (Decoder.start.feedEvents e).2 ++ (Decoder.start.feedEvents e).1.finish

/-! ### Counting U+FFFD -/

/-- The number of replacement characters in a string. -/
def badChars (s : JsString) : Nat := s.count (UInt16.ofNat kBadChar)

@[simp] theorem badChars_append (s t : JsString) : badChars (s ++ t) = badChars s + badChars t :=
  List.count_append

theorem badChars_replicate (n : Nat) :
    badChars (List.replicate n (UInt16.ofNat kBadChar)) = n := List.count_replicate_self

/-- The UTF-16 form of one character holds at most one U+FFFD. -/
theorem badChars_units_le (c : Char) : badChars (units c) ≤ 1 := by
  have hv := toNat_valid c
  unfold units
  by_cases h : c.toNat < 0x10000
  · rw [if_pos h]
    exact List.count_le_length
  · rw [if_neg h]
    have hhi : UInt16.ofNat kBadChar ≠ UInt16.ofNat (0xD800 + (c.toNat - 0x10000) / 0x400) := by
      intro heq
      have := congrArg UInt16.toNat heq
      rw [UInt16.toNat_ofNat', UInt16.toNat_ofNat'] at this
      unfold kBadChar at this
      omega
    rw [badChars, List.count_cons_of_ne hhi.symm]
    exact List.count_le_length

/-! ### One character -/

/-- Stray continuation bytes are one U+FFFD each, however they are cut. -/
theorem feedEvents_strays {e : List (Option UInt8)}
    (h : ∀ b ∈ e.reduceOption, ∃ v, b = tailByte v) :
    Decoder.start.feedEvents e
      = (Decoder.start, List.replicate e.reduceOption.length (UInt16.ofNat kBadChar)) := by
  induction e with
  | nil => rfl
  | cons x e ih =>
    cases x with
    | none =>
      rw [List.reduceOption_cons_of_none] at h ⊢
      rw [Decoder.feedEvents_cons]
      show ((Decoder.start.feedEvents e).1, _ ++ (Decoder.start.feedEvents e).2) = _
      rw [ih h]
      rfl
    | some b =>
      rw [List.reduceOption_cons_of_some] at h ⊢
      obtain ⟨v, rfl⟩ := h b List.mem_cons_self
      have hb : Decoder.start.feedEvent (some (tailByte v)) = _ := feed_stray v
      rw [Decoder.feedEvents_cons, hb, ih fun b hb => h b (List.mem_cons_of_mem _ hb)]
      rfl

/-- **A character cut inside** yields nothing but U+FFFD, at least two of them. -/
theorem feedEvents_char_cut (c : Char) {xs : List UInt8} {e : List (Option UInt8)}
    (hxs : xs ≠ []) (he : e.reduceOption ≠ [])
    (h : xs ++ e.reduceOption = String.utf8EncodeChar c) :
    Decoder.start.feedEvents (xs.map some ++ none :: e) = (Decoder.start,
      List.replicate (e.reduceOption.length + 1) (UInt16.ofNat kBadChar)) := by
  obtain ⟨d, hd, hacc⟩ := feedAll_char_prefix c hxs he h
  have hfin : d.feedEvent none = (Decoder.start, [UInt16.ofNat kBadChar]) := by
    show (Decoder.start, d.finish) = _
    rw [Decoder.finish, if_neg hacc]
  rw [Decoder.feedEvents_append, Decoder.feedEvents_map_some, hd, Decoder.feedEvents_cons, hfin,
    feedEvents_strays (utf8_tail_mem c hxs h)]
  rfl

/-- Cuts after its last byte leave a character alone. -/
theorem feedEvents_char_whole (c : Char) {e : List (Option UInt8)} (he : e.reduceOption = []) :
    Decoder.start.feedEvents ((String.utf8EncodeChar c).map some ++ e)
      = (Decoder.start, units c) := by
  have hrest : Decoder.start.feedEvents e = (Decoder.start, []) := by
    rw [feedEvents_strays (by rw [he]; simp), he]
    rfl
  rw [Decoder.feedEvents_append, Decoder.feedEvents_map_some, feedAll_char, hrest, List.append_nil]

/-- Position `n` is strictly inside the bytes of `c`. -/
def InChar (c : Char) (n : Nat) : Prop := 0 < n ∧ n < (String.utf8EncodeChar c).length

/-- What the bytes of a character contribute, wherever they are cut. -/
structure CharOutcome (c : Char) (e : List (Option UInt8)) : Prop where
  ends : (Decoder.start.feedEvents e).1 = Decoder.start
  whole : AllCuts (fun n => ¬ InChar c n) e → (Decoder.start.feedEvents e).2 = units c
  cut : ¬ AllCuts (fun n => ¬ InChar c n) e → 2 ≤ badChars (Decoder.start.feedEvents e).2

private theorem charOutcome_whole (c : Char) {e : List (Option UInt8)} (he : e.reduceOption = []) :
    CharOutcome c ((String.utf8EncodeChar c).map some ++ e) := by
  have hout := feedEvents_char_whole c he
  refine ⟨by rw [hout], fun _ => by rw [hout], fun hcut => absurd ?_ hcut⟩
  rw [allCuts_append, reduceOption_map_some]
  refine ⟨allCuts_map_some _ _, allCuts_of_forall fun n hn hin => ?_⟩
  have := hin.2
  omega

private theorem charOutcome_cut (c : Char) {xs : List UInt8} {e : List (Option UInt8)}
    (hxs : xs ≠ []) (he : e.reduceOption ≠ [])
    (h : xs ++ e.reduceOption = String.utf8EncodeChar c) :
    CharOutcome c (xs.map some ++ none :: e) := by
  have hout := feedEvents_char_cut c hxs he h
  have hxpos := List.length_pos_of_ne_nil hxs
  have hepos := List.length_pos_of_ne_nil he
  refine ⟨by rw [hout], fun hall => ?_, fun _ => ?_⟩
  · rw [allCuts_append, allCuts_none, reduceOption_map_some, Nat.zero_add] at hall
    refine absurd ⟨hxpos, ?_⟩ hall.2.1
    rw [← h, List.length_append]
    omega
  · rw [hout, badChars_replicate]
    omega

/-- **The bytes of a character, cut anywhere.** -/
theorem feedEvents_char (c : Char) {e : List (Option UInt8)}
    (h : e.reduceOption = String.utf8EncodeChar c) : CharOutcome c e := by
  induction e with
  | nil => exact absurd h.symm (List.ne_nil_of_length_pos (utf8EncodeChar_length_pos c))
  | cons x e ih =>
    cases x with
    | none =>
      -- a cut before the first byte changes nothing
      obtain ⟨hends, hwhole, hcut⟩ := ih h
      exact ⟨hends, fun hall => hwhole hall.2,
        fun hall => hcut fun hall' => hall ⟨fun hin => Nat.lt_irrefl 0 hin.1, hall'⟩⟩
    | some b =>
      rw [List.reduceOption_cons_of_some] at h
      rcases events_first_cut e with he | ⟨xs, e', rfl⟩
      · have hc := charOutcome_whole c (e := []) rfl
        rwa [← h, List.append_nil, List.map_cons, ← he] at hc
      · rw [List.reduceOption_append, reduceOption_map_some, List.reduceOption_cons_of_none,
          ← List.cons_append] at h
        rw [← List.cons_append, ← List.map_cons]
        by_cases he' : e'.reduceOption = []
        · have hc := charOutcome_whole c (e := none :: e') he'
          rwa [← h, he', List.append_nil] at hc
        · exact charOutcome_cut c (List.cons_ne_nil _ _) he' h

/-! ### Whole texts -/

/-- What the bytes of a text contribute, wherever they are cut. -/
structure TextOutcome (cs : List Char) (e : List (Option UInt8)) : Prop where
  ends : (Decoder.start.feedEvents e).1 = Decoder.start
  whole : AllCuts (fun n => ¬ Inside cs n) e → (Decoder.start.feedEvents e).2 = utf16 cs
  le : badChars (utf16 cs) ≤ badChars (Decoder.start.feedEvents e).2
  cut : ¬ AllCuts (fun n => ¬ Inside cs n) e →
    badChars (utf16 cs) < badChars (Decoder.start.feedEvents e).2

/-- The cuts of a text are those of its first character and those of the rest. -/
private theorem allCuts_inside_cons (c : Char) (cs : List Char) {e₁ e₂ : List (Option UInt8)}
    (h₁ : e₁.reduceOption = String.utf8EncodeChar c) :
    AllCuts (fun n => ¬ Inside (c :: cs) n) (e₁ ++ e₂) ↔
      AllCuts (fun n => ¬ InChar c n) e₁ ∧ AllCuts (fun n => ¬ Inside cs n) e₂ := by
  rw [allCuts_append, h₁]
  refine and_congr ⟨fun h => h.mono fun n _ hn hin => hn ?_,
    fun h => h.mono fun n hle hn hin => ?_⟩
    ⟨fun h => h.mono fun n _ hn hin => hn ?_, fun h => h.mono fun n _ hn hin => hn ?_⟩
  · exact (inside_cons c cs n).mpr (Or.inl hin)
  · rcases (inside_cons c cs n).mp hin with hin | ⟨hge, hin⟩
    · exact hn hin
    · -- at the end of the character, position 0 of the rest
      rw [h₁] at hle
      obtain ⟨pre, d, post, -, hlo, -⟩ := hin
      omega
  · rw [inside_cons]
    refine Or.inr ⟨by omega, ?_⟩
    rwa [Nat.add_sub_cancel]
  · rcases (inside_cons c cs _).mp hin with hin | ⟨-, hin⟩
    · have := hin.2
      omega
    · rwa [Nat.add_sub_cancel] at hin

/-- **The bytes of a text, cut anywhere.** -/
theorem feedEvents_text (cs : List Char) {e : List (Option UInt8)}
    (h : e.reduceOption = utf8 cs) : TextOutcome cs e := by
  induction cs generalizing e with
  | nil =>
    have hout := feedEvents_strays (e := e) (by rw [h]; simp)
    rw [h] at hout
    refine ⟨by rw [hout], fun _ => by rw [hout]; rfl, Nat.zero_le _, fun hcut => absurd ?_ hcut⟩
    exact allCuts_of_forall fun n _ => not_inside_nil n
  | cons c cs ih =>
    rw [utf8_cons] at h
    obtain ⟨e₁, e₂, rfl, h₁, h₂⟩ := events_split h
    have hc := feedEvents_char c h₁
    have ht := ih h₂
    have hu := badChars_units_le c
    have hsplit : Decoder.start.feedEvents (e₁ ++ e₂) = (Decoder.start,
        (Decoder.start.feedEvents e₁).2 ++ (Decoder.start.feedEvents e₂).2) := by
      rw [Decoder.feedEvents_append, hc.ends, ht.ends]
    -- a cut only adds replacement characters, so none is made up for by another
    have hle : badChars (units c) ≤ badChars (Decoder.start.feedEvents e₁).2 := by
      by_cases hall : AllCuts (fun n => ¬ InChar c n) e₁
      · exact Nat.le_of_eq (congrArg badChars (hc.whole hall)).symm
      · have := hc.cut hall
        omega
    have hle' := ht.le
    refine ⟨by rw [hsplit], fun hall => ?_, ?_, fun hcut => ?_⟩
    · rw [allCuts_inside_cons c cs h₁] at hall
      rw [hsplit, utf16_cons, hc.whole hall.1, ht.whole hall.2]
    · rw [hsplit, utf16_cons, badChars_append, badChars_append]
      omega
    · rw [allCuts_inside_cons c cs h₁, not_and_or] at hcut
      rw [hsplit, utf16_cons, badChars_append, badChars_append]
      rcases hcut with hcut | hcut
      · have := hc.cut hcut
        omega
      · have := ht.cut hcut
        omega

/-- **Decoding piece by piece is decoding the text** exactly when no cut is inside a
    character. -/
theorem decodeEvents_eq_iff (cs : List Char) {e : List (Option UInt8)}
    (h : e.reduceOption = utf8 cs) :
    decodeEvents e = utf16 cs ↔ AllCuts (fun n => ¬ Inside cs n) e := by
  have ht := feedEvents_text cs h
  have hdec : decodeEvents e = (Decoder.start.feedEvents e).2 := by
    rw [decodeEvents, ht.ends]
    exact List.append_nil _
  rw [hdec]
  refine ⟨fun heq => ?_, ht.whole⟩
  by_contra hcut
  have := ht.cut hcut
  rw [heq] at this
  exact Nat.lt_irrefl _ this

/-- The same for a list of pieces. -/
theorem pieces_eq_iff (cs : List Char) {pieces : List (List UInt8)}
    (h : pieces.flatten = utf8 cs) :
    pieces.flatMap decode = utf16 cs ↔
      ∀ pre p post, pieces = pre ++ p :: post → ¬ Inside cs (pre ++ [p]).flatten.length := by
  have hiff := decodeEvents_eq_iff cs (e := ofChunks pieces) (by rw [reduceOption_ofChunks, h])
  rw [decodeEvents, feedEvents_ofChunks, allCuts_ofChunks] at hiff
  rwa [Decoder.finish_start, List.append_nil] at hiff

end Dv8.V8
