import Dv8.Builtins.Buffer
import Dv8.V8.WriteText

namespace Dv8.Builtins

open Dv8.Lib Dv8.V8

/-!
# Strings through a `Buffer`

`Buffer::Write` counts in two units at once: the capacity it gives to `WriteUtf8` is in bytes
and the number it returns is in code units, and both are taken from the length of the string.
`Buffer.fromString` allocates that many bytes.

* `encoding` — the UTF-8 form of any string, also of one with lone surrogates;
* `length_lt_encoding` — a string that is not ASCII has more bytes than units;
* `roundTrips_iff`, `holdsFromString_iff` — what comes through is ASCII.
-/

/-- The UTF-8 encoding of a string; a lone surrogate has its three bytes. -/
def encoding : JsString → List UInt8
  | [] => []
  | [c] => encodeValue c.toNat
  | lead :: trail :: s =>
    if isLeadSurrogate lead && isTrailSurrogate trail then
      encodeValue (combineSurrogatePair lead trail) ++ encoding s
    else encodeValue lead.toNat ++ encoding (trail :: s)

/-- `buf.write(str, off)`: a builtin that stores no byte does not leave its block. -/
def Buffer.store (block : List UInt8) (str : JsString) (off : Int) :
    Option (List UInt8 × Nat) :=
  if (writeUtf8 str str.length).1 = [] then some (block, (writeUtf8 str str.length).2)
  else Buffer.write block str off

/-- `Buffer.fromString`: the offset it leaves out is `0`. -/
def Buffer.fromString (str : JsString) : Option (List UInt8) :=
  (Buffer.store (Buffer.alloc str.length) str 0).map Prod.fst

/-- The encoding of the string is in the block at `off`. -/
def Holds (block : List UInt8) (off : Nat) (s : JsString) : Prop :=
  readAt block off (encoding s).length = some (encoding s)

instance (block : List UInt8) (off : Nat) (s : JsString) : Decidable (Holds block off s) :=
  inferInstanceAs (Decidable (_ = _))

/-- The string is written whole, its bytes are counted, and reading them gives it back. -/
def RoundTrips (block : List UInt8) (s : JsString) (off : Nat) : Prop :=
  ∃ block' n, Buffer.store block s off = some (block', n) ∧ Holds block' off s ∧
    n = (encoding s).length ∧ Buffer.read block' off n = some s

/-- `fromString` gives a buffer that holds the string. -/
def HoldsFromString (s : JsString) : Prop :=
  ∃ block, Buffer.fromString s = some block ∧ Holds block 0 s

/-! ### The encoding -/

theorem encoding_cons_of_not_pair {c : UInt16} {s : JsString}
    (h : ∀ d r, s = d :: r → (isLeadSurrogate c && isTrailSurrogate d) = false) :
    encoding (c :: s) = encodeValue c.toNat ++ encoding s := by
  cases s with
  | nil => exact (List.append_nil _).symm
  | cons d r => rw [encoding, h d r rfl, if_neg Bool.false_ne_true]

/-- **The encoding of a text is its UTF-8 form.** -/
theorem encoding_utf16 (cs : List Char) : encoding (utf16 cs) = utf8 cs := by
  induction cs with
  | nil => rfl
  | cons c cs ih =>
    rw [utf16_cons, utf8_cons]
    by_cases hc : c.toNat < 0x10000
    · obtain ⟨u, hu, hval, -⟩ := units_one hc
      have hlead : isLeadSurrogate u = false := by
        by_contra h
        have := isLeadSurrogate_iff.mp (eq_true_of_ne_false h)
        have := toNat_valid c
        omega
      rw [hu, List.cons_append, List.nil_append, encoding_cons_of_not_pair, ih, hval,
        encodeValue_char]
      intro d r _
      rw [hlead, Bool.false_and]
    · obtain ⟨lead, trail, hu, hlead, htrail, hcomb⟩ := units_two (Nat.not_lt.mp hc)
      rw [hu, List.cons_append, List.cons_append, List.nil_append, encoding, hlead, htrail,
        Bool.and_self, if_pos rfl, hcomb, encodeValue_char, ih]

/-- A byte a unit, at least. -/
theorem length_le_encoding (s : JsString) : s.length ≤ (encoding s).length := by
  induction s using encoding.induct with
  | case1 => exact Nat.le_refl 0
  | case2 c => exact length_encodeValue_pos c.toNat
  | case3 lead trail s hpair ih =>
    rw [encoding, if_pos hpair, List.length_append, length_encodeValue_pair, List.length_cons,
      List.length_cons]
    omega
  | case4 lead trail s hpair ih =>
    have := length_encodeValue_pos lead.toNat
    rw [encoding, if_neg hpair, List.length_append, List.length_cons]
    omega

/-- **A string that is not ASCII has more bytes than units.** -/
theorem length_lt_encoding {s : JsString} (hs : ¬ IsAscii s) :
    s.length < (encoding s).length := by
  induction s using encoding.induct with
  | case1 => exact absurd (fun c hc => by cases hc) hs
  | case2 c =>
    refine two_le_length_encodeValue (Nat.lt_of_not_le fun hc => hs fun d hd => ?_)
    rwa [List.mem_singleton.mp hd]
  | case3 lead trail s hpair ih =>
    have := length_le_encoding s
    rw [encoding, if_pos hpair, List.length_append, length_encodeValue_pair, List.length_cons,
      List.length_cons]
    omega
  | case4 lead trail s hpair ih =>
    rw [encoding, if_neg hpair, List.length_append, List.length_cons]
    by_cases hlead : lead.toNat ≤ 0x7F
    · have hrest : ¬ IsAscii (trail :: s) := fun hall => hs fun c hc => by
        rcases List.mem_cons.mp hc with rfl | hc
        · exact hlead
        · exact hall c hc
      have := ih hrest
      have := length_encodeValue_pos lead.toNat
      omega
    · have := length_le_encoding (trail :: s)
      have := two_le_length_encodeValue (Nat.lt_of_not_le hlead)
      omega

theorem encoding_ascii {s : JsString} (hs : IsAscii s) : encoding s = asciiBytes s := by
  obtain ⟨cs, -, hcs, hbytes⟩ := exists_text_of_ascii hs
  rw [← hbytes, ← hcs, encoding_utf16]

/-! ### What comes through -/

theorem readIndex_writeUtf8_le (s : JsString) (cap : Nat) : (writeUtf8 s cap).2 ≤ s.length := by
  have hgo (t : List UInt16) (w : Writer) :
      (Writer.slowLoop.go cap t w).readIndex ≤ w.readIndex + t.length := by
    induction t generalizing w with
    | nil => exact Nat.le_refl _
    | cons c t ih =>
      have hput : (w.put c t).readIndex + t.length = w.readIndex + (c :: t).length := by
        rw [List.length_cons, Nat.add_comm t.length, ← Nat.add_assoc]
        rfl
      rw [Writer.slowLoop.go]
      split_ifs
      · exact (ih _).trans hput.le
      · exact Nat.le_add_right _ _
      · exact (ih _).trans hput.le
      · exact Nat.le_add_right _ _
  rw [writeUtf8_eq_slowLoop]
  exact (hgo s _).trans (Nat.zero_add _).le

/-- A string whose encoding has no more bytes than it has units is ASCII. -/
theorem isAscii_of_encoding_le {s : JsString} (h : (encoding s).length ≤ s.length) :
    IsAscii s := by
  by_contra hs
  have := length_lt_encoding hs
  omega

/-- An ASCII string is stored whole; of the empty one nothing is stored anywhere. -/
theorem Buffer.store_ascii {block block' : List UInt8} {s : JsString} {off : Nat}
    (hblock : block.length < 2 ^ 32) (hs : IsAscii s) (hoff : off < 2 ^ 31 ∨ s = [])
    (hwrite : writeAt block off (encoding s) = some block') :
    Buffer.store block s off = some (block', s.length) := by
  obtain ⟨hfits, hblock'⟩ := writeAt_eq_some_iff.mp hwrite
  have hstored : writeUtf8 s s.length = (encoding s, s.length) := by
    rw [encoding_ascii hs, writeUtf8_ascii hs (Nat.le_refl _)]
  rw [Buffer.store, hstored]
  by_cases hnil : s = []
  · subst hnil
    rw [encoding, List.length_nil, List.append_nil, Nat.add_zero, List.take_append_drop] at hblock'
    exact (if_pos rfl).trans (by rw [hblock'])
  · have hne : encoding s ≠ [] := by
      rintro hempty
      have := length_le_encoding s
      rw [hempty] at this
      exact hnil (List.eq_nil_of_length_eq_zero (Nat.le_zero.mp this))
    have hoff' : off < 2 ^ 31 := hoff.resolve_right hnil
    rw [if_neg hne]
    refine (Buffer.write_eq_some_iff (by omega) hblock).mpr ⟨hoff', ?_, ?_⟩
    · rw [hstored]
      exact hwrite
    · rw [hstored]

/-- The bytes that were written are read back. -/
theorem holds_of_writeAt {block block' : List UInt8} {s : JsString} {off : Nat}
    (hwrite : writeAt block off (encoding s) = some block') : Holds block' off s := by
  have hfits := (writeAt_eq_some_iff.mp hwrite).1
  have hsize := writeAt_length hwrite
  rw [Holds, readAt_eq_some (by omega), slice_writeAt_same hwrite]

/-- `read` decodes what is held; of no bytes it does not ask where they are. -/
theorem Buffer.read_holds {block : List UInt8} {s : JsString} {off : Nat} (hs : IsAscii s)
    (hlen : s.length ≤ kMaxLength) (hoff : off < 2 ^ 31 ∨ s = []) (h : Holds block off s) :
    Buffer.read block off s.length = some s := by
  by_cases hnil : s = []
  · subst hnil
    rfl
  · obtain ⟨cs, -, rfl, hbytes⟩ := exists_text_of_ascii hs
    have hsize : (encoding (utf16 cs)).length = (utf16 cs).length := by
      rw [encoding_ascii hs, asciiBytes, List.length_map]
    rw [Holds, hsize] at h
    obtain ⟨hfits, hslice⟩ := readAt_eq_some_iff.mp h
    rw [Buffer.read_eq (hoff.resolve_right hnil) hlen hfits, ← hslice, encoding_utf16,
      decode_utf8]

/-- **A string comes through a buffer exactly when it is ASCII**, at an offset that is not
    negative for the builtin. -/
theorem roundTrips_iff {block : List UInt8} {s : JsString} {off : Nat}
    (hblock : block.length < 2 ^ 32) (hlen : s.length ≤ kMaxLength)
    (hfits : off + (encoding s).length ≤ block.length) :
    RoundTrips block s off ↔ IsAscii s ∧ (off < 2 ^ 31 ∨ s = []) := by
  constructor
  · rintro ⟨block', n, hstore, -, hn, -⟩
    have hcount : n = (writeUtf8 s s.length).2 := by
      rw [Buffer.store] at hstore
      split_ifs at hstore
      · exact (congrArg Prod.snd (Option.some.inj hstore)).symm
      · exact ((Buffer.write_eq_some_iff (by omega) hblock).mp hstore).2.2.symm
    have hle := readIndex_writeUtf8_le s s.length
    have hs := isAscii_of_encoding_le (s := s) (by omega)
    refine ⟨hs, ?_⟩
    by_cases hnil : s = []
    · exact Or.inr hnil
    · -- a byte is stored, and the builtin looks at its offset
      have hne : (writeUtf8 s s.length).1 ≠ [] := by
        rw [writeUtf8_ascii hs (Nat.le_refl _)]
        exact fun h => hnil (List.map_eq_nil_iff.mp h)
      rw [Buffer.store, if_neg hne] at hstore
      exact Or.inl ((Buffer.write_eq_some_iff (by omega) hblock).mp hstore).1
  · rintro ⟨hs, hoff⟩
    have hwrite := writeAt_eq_some hfits
    have hsize : s.length = (encoding s).length := by
      rw [encoding_ascii hs, asciiBytes, List.length_map]
    have hheld := holds_of_writeAt hwrite
    exact ⟨_, _, Buffer.store_ascii hblock hs hoff hwrite, hheld, hsize,
      Buffer.read_holds hs hlen hoff hheld⟩

/-- **`fromString` holds an ASCII string only.** -/
theorem holdsFromString_iff {s : JsString} (hlen : s.length ≤ kMaxLength) :
    HoldsFromString s ↔ IsAscii s := by
  have hmax : kMaxLength < 2 ^ 32 := by decide
  have hmod : s.length % 2 ^ 32 = s.length := Nat.mod_eq_of_lt (by omega)
  have hsize : (Buffer.alloc s.length).length = s.length := by
    rw [Buffer.alloc, List.length_replicate, hmod]
  constructor
  · rintro ⟨block, hfrom, hheld⟩
    obtain ⟨⟨block', n⟩, hstore, rfl⟩ := Option.map_eq_some_iff.mp hfrom
    have hblock : block'.length = s.length := by
      rw [Buffer.store] at hstore
      split_ifs at hstore
      · obtain ⟨rfl, -⟩ := Prod.mk.inj (Option.some.inj hstore)
        exact hsize
      · have hoff : 0 ≤ (Buffer.alloc s.length).length := Nat.zero_le _
        have hwrite := (Buffer.write_eq_some_iff hoff (by omega)).mp hstore
        rw [writeAt_length hwrite.2.1, hsize]
    refine isAscii_of_encoding_le ?_
    have hfits := (readAt_eq_some_iff.mp hheld).1
    rw [hblock, Nat.zero_add] at hfits
    exact hfits
  · intro hs
    have hfits : 0 + (encoding s).length ≤ (Buffer.alloc s.length).length := by
      rw [hsize, encoding_ascii hs, asciiBytes, List.length_map, Nat.zero_add]
    have hwrite := writeAt_eq_some hfits
    have hstore := Buffer.store_ascii (by omega) hs (Or.inl (by decide)) hwrite
    exact ⟨_, congrArg (Option.map Prod.fst) hstore, holds_of_writeAt hwrite⟩

/-- **Strings through a buffer**, for every string, every buffer and every offset at which its
    encoding fits. -/
theorem buffer_strings_iff {block : List UInt8} {s : JsString} {off : Nat}
    (hblock : block.length < 2 ^ 32) (hlen : s.length ≤ kMaxLength)
    (hfits : off + (encoding s).length ≤ block.length) :
    RoundTrips block s off ∧ HoldsFromString s ↔ IsAscii s ∧ (off < 2 ^ 31 ∨ s = []) := by
  rw [roundTrips_iff hblock hlen hfits, holdsFromString_iff hlen]
  exact ⟨fun h => h.1, fun h => ⟨h, h.1⟩⟩

/-- `hi` behind three other bytes. -/
theorem buffer_strings_iff_hi :
    RoundTrips (Buffer.alloc 8) [0x68, 0x69] 3 ∧ HoldsFromString [0x68, 0x69] :=
  (buffer_strings_iff (by decide) (by decide) (by decide)).mpr ⟨by decide, Or.inl (by decide)⟩

/-- U+00E9 in a buffer of eight bytes: nothing is stored, and the result is `0`. -/
theorem not_roundTrips_eacute :
    0 + (encoding [0xE9]).length ≤ (Buffer.alloc 8).length ∧
      ¬ RoundTrips (Buffer.alloc 8) [0xE9] 0 ∧ ¬ HoldsFromString [0xE9] := by
  refine ⟨by decide, ?_, ?_⟩
  · rintro ⟨block', n, hstore, -, hn, -⟩
    have hnone : Buffer.store (Buffer.alloc 8) [0xE9] (0 : Nat) = some (Buffer.alloc 8, 0) := by
      decide
    rw [hnone] at hstore
    obtain ⟨-, rfl⟩ := Prod.mk.inj (Option.some.inj hstore)
    exact absurd hn (by decide)
  · rintro ⟨block, hfrom, hheld⟩
    have hzero : Buffer.fromString [0xE9] = some [0] := by decide
    rw [hzero] at hfrom
    rw [← Option.some.inj hfrom] at hheld
    exact absurd hheld (by decide)

end Dv8.Builtins
