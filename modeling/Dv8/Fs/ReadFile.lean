import Dv8.Builtins.Buffer
import Dv8.V8.Utf8Pieces

namespace Dv8.Fs

open Dv8.Lib Dv8.V8 Dv8.Builtins

/-!
# `readFile`

The file is read in blocks of at most 16384 bytes, each block is decoded on its own and the
strings are joined.  The position of a read is the number of bytes read so far, as an `int32`
stored into a `uint32`: from `2 ^ 32` on it starts again at the front.

* `loop_eq` — below `2 ^ 32` bytes the blocks are the file, cut where the reads ended;
* `loop_endless` — from there on the loop has no end;
* `readsWhole_iff` — the text is the file's exactly when no read ended inside a character and
  there is a string for it.
-/

/-- `File::Read`: the buffer after it and the number of bytes, of which the system gives no more
    than `most`. -/
def File.read (content buf : List UInt8) (most len : Nat) (position : Int) :
    Option (List UInt8 × Nat) :=
  let off := (int32Value position % 2 ^ 32).toNat
  let bytes := slice content off (min most len)
  (writeAt buf 0 bytes).map fun buf => (buf, bytes.length)

/-- `parts.join('')`; a string that would be too long is a `RangeError`. -/
def join (parts : List JsString) : Option JsString :=
  if parts.flatten.length ≤ kMaxLength then some parts.flatten else none

/-- What `readFile` returns. -/
structure File where
  size : Nat
  text : JsString
  deriving DecidableEq, Repr

/-- The loop of `readFile`, from read number `i` on: the size and the parts. -/
def readFile.loop (content : List UInt8) (short : Nat → Nat) :
    Nat → Nat → List UInt8 → Nat → List JsString → Option (Nat × List JsString)
  | 0, _, _, _, _ => none
  | fuel + 1, i, buf, size, parts => do
    let (buf, len) ← File.read content buf (short i) 16384 size
    if 0 < len then
      let part ← Buffer.read buf 0 len
      loop content short fuel (i + 1) buf (size + len) (parts ++ [part])
    else some (size, parts)

/-- `readFile`, of a file the system gives in reads of at most `short 0`, `short 1`, … bytes. -/
def readFile (content : List UInt8) (short : Nat → Nat) (fuel : Nat) : Option File := do
  let (size, parts) ← readFile.loop content short fuel 0 (Buffer.alloc 16384) 0 []
  let text ← join parts
  some ⟨size, text⟩

/-- The file comes back with its size and its text. -/
def ReadsWhole (content : List UInt8) (short : Nat → Nat) : Prop :=
  ∃ fuel, readFile content short fuel = some ⟨content.length, decode content⟩

/-- How far `k` reads get from read number `i` on, where the file does not end before. -/
def reach (short : Nat → Nat) : Nat → Nat → Nat
  | _, 0 => 0
  | i, k + 1 => min (short i) 16384 + reach short (i + 1) k

/-! ### One read -/

/-- The offset the system sees. -/
theorem position_eq (size : Nat) :
    (int32Value size % 2 ^ 32).toNat = size % 2 ^ 32 := by
  have h : int32Value size % ((2 ^ 32 : Nat) : Int) = (size : Int) % ((2 ^ 32 : Nat) : Int) :=
    Int.bmod_emod
  have hcast : ((2 ^ 32 : Nat) : Int) = 2 ^ 32 := by norm_num
  rw [hcast] at h
  omega

/-- A read fills the front of the buffer. -/
theorem read_eq (content : List UInt8) {buf : List UInt8} (most size : Nat)
    (hbuf : buf.length = 16384) :
    ∃ buf', File.read content buf most 16384 size =
        some (buf', (slice content (size % 2 ^ 32) (min most 16384)).length) ∧
      buf'.length = 16384 ∧
      slice buf' 0 (slice content (size % 2 ^ 32) (min most 16384)).length =
        slice content (size % 2 ^ 32) (min most 16384) := by
  have hlen : (slice content (size % 2 ^ 32) (min most 16384)).length ≤ 16384 := by
    rw [slice, List.length_take]
    omega
  obtain ⟨buf', hwrite⟩ : ∃ buf', writeAt buf 0 (slice content (size % 2 ^ 32) (min most 16384)) =
      some buf' := ⟨_, writeAt_eq_some (by omega)⟩
  refine ⟨buf', ?_, (writeAt_length hwrite).trans hbuf, slice_writeAt_same hwrite⟩
  rw [File.read, position_eq, hwrite]
  rfl

/-- One turn of the loop. -/
theorem loop_succ (content : List UInt8) {buf : List UInt8} (short : Nat → Nat) (i size : Nat)
    (parts : List JsString) (hbuf : buf.length = 16384) :
    ∃ buf', buf'.length = 16384 ∧ ∀ fuel, readFile.loop content short (fuel + 1) i buf size parts =
      if slice content (size % 2 ^ 32) (min (short i) 16384) = [] then some (size, parts)
      else readFile.loop content short fuel (i + 1) buf'
        (size + (slice content (size % 2 ^ 32) (min (short i) 16384)).length)
        (parts ++ [decode (slice content (size % 2 ^ 32) (min (short i) 16384))]) := by
  obtain ⟨buf', hread, hlen', hslice⟩ := read_eq content (short i) size hbuf
  refine ⟨buf', hlen', fun fuel => ?_⟩
  generalize slice content (size % 2 ^ 32) (min (short i) 16384) = bytes at *
  rw [readFile.loop, hread]
  by_cases hnil : bytes = []
  · subst hnil
    rfl
  · have hpos : 0 < bytes.length := List.length_pos_of_ne_nil hnil
    have hfits : bytes.length ≤ 16384 := by
      have hsize := congrArg List.length hslice
      rw [slice, List.length_take, List.drop_zero, hlen'] at hsize
      omega
    have hmax : 16384 ≤ kMaxLength := by decide
    have hpart : Buffer.read buf' 0 bytes.length = some (decode bytes) := by
      have h : Buffer.read buf' (0 : Nat) bytes.length =
          some (decode (slice buf' 0 bytes.length)) :=
        Buffer.read_eq (by decide) (hfits.trans hmax) (by omega)
      rwa [hslice] at h
    simp only [Option.bind_eq_bind, Option.bind_some, if_pos hpos, if_neg hnil, hpart]

/-! ### The whole loop -/

/-- **The blocks are the file**, each cut where its read ended. -/
theorem loop_eq {content : List UInt8} {short : Nat → Nat} (hlen : content.length < 2 ^ 32)
    (hshort : ∀ i, 0 < short i) {fuel size : Nat} {buf : List UInt8} (i : Nat)
    (parts : List JsString) (hbuf : buf.length = 16384) (hsize : size ≤ content.length)
    (hfuel : content.length - size < fuel) :
    ∃ pieces : List (List UInt8),
      readFile.loop content short fuel i buf size parts =
        some (content.length, parts ++ pieces.map decode) ∧
      pieces.flatten = content.drop size ∧
      ∀ k, (pieces.take k).flatten.length = min (content.length - size) (reach short i k) := by
  induction fuel generalizing i size buf parts with
  | zero => omega
  | succ fuel ih =>
    obtain ⟨buf', hbuf', hloop⟩ := loop_succ content short i size parts hbuf
    have hmod : size % 2 ^ 32 = size := Nat.mod_eq_of_lt (by omega)
    have hpos := hshort i
    have hloop := hloop fuel
    rw [hmod] at hloop
    generalize hn : min (short i) 16384 = n at hloop
    have hread : (slice content size n).length = min n (content.length - size) := by
      rw [slice, List.length_take, List.length_drop]
    by_cases hend : slice content size n = []
    · have hall : size = content.length := by
        rw [hend, List.length_nil] at hread
        omega
      refine ⟨[], ?_, ?_, ?_⟩
      · rw [hloop, if_pos hend, hall, List.map_nil, List.append_nil]
      · rw [hall, List.drop_length]
        rfl
      · intro k
        rw [List.take_nil, hall, Nat.sub_self, Nat.zero_min]
        rfl
    · rw [if_neg hend] at hloop
      have hne := List.length_pos_of_ne_nil hend
      obtain ⟨pieces, hrest, hflat, hreach⟩ := ih (i + 1)
        (parts ++ [decode (slice content size n)]) hbuf'
        (show size + (slice content size n).length ≤ content.length by omega) (by omega)
      refine ⟨slice content size n :: pieces, ?_, ?_, ?_⟩
      · rw [hloop, hrest, List.map_cons, List.append_assoc]
        rfl
      · rw [List.flatten_cons, hflat, hread, ← List.drop_drop, slice]
        -- a short last block leaves nothing behind it
        by_cases hlast : n ≤ content.length - size
        · rw [min_eq_left hlast, List.take_append_drop]
        · have hdrop : (content.drop size).length ≤ n := by
            rw [List.length_drop]
            omega
          rw [min_eq_right (by omega), List.take_of_length_le hdrop, ← List.length_drop,
            List.drop_length, List.append_nil]
      · intro k
        cases k with
        | zero => simp [reach]
        | succ k =>
          rw [List.take_succ_cons, List.flatten_cons, List.length_append, hreach, reach, hn]
          omega

/-- **From `2 ^ 32` bytes on the loop has no end**: no read comes back empty. -/
theorem loop_endless {content : List UInt8} {short : Nat → Nat} (hlen : 2 ^ 32 ≤ content.length)
    (hshort : ∀ i, 0 < short i) (fuel i size : Nat) {buf : List UInt8} (parts : List JsString)
    (hbuf : buf.length = 16384) : readFile.loop content short fuel i buf size parts = none := by
  induction fuel generalizing i size buf parts with
  | zero => rfl
  | succ fuel ih =>
    obtain ⟨buf', hbuf', hloop⟩ := loop_succ content short i size parts hbuf
    have hpos := hshort i
    have hoff : size % 2 ^ 32 < 2 ^ 32 := Nat.mod_lt _ (by decide)
    have hread : slice content (size % 2 ^ 32) (min (short i) 16384) ≠ [] := by
      intro hnil
      have := congrArg List.length hnil
      rw [slice, List.length_take, List.length_drop, List.length_nil] at this
      omega
    rw [hloop, if_neg hread, ih _ _ _ hbuf']

/-- A loop that has ended does not depend on what was left of the fuel. -/
theorem loop_mono {content : List UInt8} {short : Nat → Nat} {fuel fuel' i size : Nat}
    {buf : List UInt8} {parts : List JsString} {r : Nat × List JsString} (hle : fuel ≤ fuel')
    (hbuf : buf.length = 16384)
    (h : readFile.loop content short fuel i buf size parts = some r) :
    readFile.loop content short fuel' i buf size parts = some r := by
  induction fuel generalizing fuel' i size buf parts with
  | zero => cases h
  | succ fuel ih =>
    obtain ⟨fuel', rfl⟩ : ∃ n, fuel' = n + 1 := ⟨fuel' - 1, by omega⟩
    obtain ⟨buf', hbuf', hloop⟩ := loop_succ content short i size parts hbuf
    rw [hloop] at h ⊢
    split_ifs at h ⊢ with hend
    · exact h
    · exact ih (by omega) hbuf' h

/-! ### The text -/

theorem length_alloc : (Buffer.alloc 16384).length = 16384 := by
  rw [Buffer.alloc, List.length_replicate]
  exact Nat.mod_eq_of_lt (by decide)

/-- Where no read comes back empty before the end, `readFile` returns, and always the same. -/
theorem readsWhole_iff_pieces {content : List UInt8} {short : Nat → Nat}
    (hlen : content.length < 2 ^ 32) (hshort : ∀ i, 0 < short i) :
    ∃ pieces : List (List UInt8), pieces.flatten = content ∧
      (∀ k, (pieces.take k).flatten.length = min content.length (reach short 0 k)) ∧
      (ReadsWhole content short ↔ join (pieces.map decode) = some (decode content)) := by
  have hbuf := length_alloc
  have hfuel : content.length - 0 < content.length + 1 := by omega
  obtain ⟨pieces, hloop, hflat, hreach⟩ := loop_eq hlen hshort 0 [] hbuf (Nat.zero_le _) hfuel
  refine ⟨pieces, hflat, hreach, ?_⟩
  rw [List.nil_append] at hloop
  constructor
  · rintro ⟨fuel, hfile⟩
    simp only [readFile, Option.bind_eq_bind, Option.bind_eq_some_iff] at hfile
    obtain ⟨⟨size, parts⟩, hrun, text, hjoin, hfile⟩ := hfile
    -- the two runs agree on the parts
    have h₁ := loop_mono (Nat.le_max_left fuel (content.length + 1)) hbuf hrun
    have h₂ := loop_mono (Nat.le_max_right fuel (content.length + 1)) hbuf hloop
    obtain ⟨-, rfl⟩ := Prod.mk.inj (Option.some.inj (h₁.symm.trans h₂))
    rw [hjoin, ← (File.mk.inj (Option.some.inj hfile)).2]
  · intro hjoin
    refine ⟨content.length + 1, ?_⟩
    simp only [readFile, hloop, Option.bind_eq_bind, Option.bind_some, hjoin]

/-- No read ended inside a character, as the pieces have it and as the sizes of the reads do. -/
theorem cuts_iff {cs : List Char} {short : Nat → Nat} {pieces : List (List UInt8)}
    (hflat : pieces.flatten = utf8 cs)
    (hreach : ∀ k, (pieces.take k).flatten.length = min (utf8 cs).length (reach short 0 k)) :
    (∀ pre p post, pieces = pre ++ p :: post → ¬ Inside cs (pre ++ [p]).flatten.length) ↔
      ∀ k, ¬ Inside cs (reach short 0 k) := by
  constructor
  · intro h k hk
    have hlt := hk.lt_length
    have hsize := hreach k
    rw [min_eq_right hlt.le] at hsize
    cases k with
    | zero => exact not_inside_zero cs hk
    | succ k =>
      by_cases hpieces : k < pieces.length
      · refine h (pieces.take k) pieces[k] (pieces.drop (k + 1)) ?_ ?_
        · rw [List.getElem_cons_drop, List.take_append_drop]
        · rw [List.take_append_getElem hpieces, hsize]
          exact hk
      · rw [List.take_of_length_le (by omega), hflat] at hsize
        omega
  · rintro h pre p post rfl hk
    have htake : (pre ++ p :: post).take (pre.length + 1) = pre ++ [p] := by
      rw [List.take_length_add_append]
      rfl
    have hsize := hreach (pre.length + 1)
    rw [htake] at hsize
    have hlt := hk.lt_length
    rw [hsize] at hk hlt
    exact h (pre.length + 1) (by rwa [min_eq_right (by omega)] at hk)

theorem readsWhole_iff_cuts {cs : List Char} {short : Nat → Nat}
    (hlen : (utf8 cs).length < 2 ^ 32) (hshort : ∀ i, 0 < short i) :
    ReadsWhole (utf8 cs) short ↔
      (utf16 cs).length ≤ kMaxLength ∧ ∀ k, ¬ Inside cs (reach short 0 k) := by
  obtain ⟨pieces, hflat, hreach, hreads⟩ := readsWhole_iff_pieces hlen hshort
  have hpieces := (pieces_eq_iff cs hflat).trans (cuts_iff hflat hreach)
  rw [hreads, ← hpieces, decode_utf8, join, ← List.flatMap_def, Option.ite_none_right_eq_some,
    Option.some.injEq]
  constructor
  · rintro ⟨hfits, htext⟩
    exact ⟨htext ▸ hfits, htext⟩
  · rintro ⟨hfits, htext⟩
    exact ⟨htext ▸ hfits, htext⟩

/-- **`readFile` returns the file** exactly when no read ends inside a character and its text is
    not too long for a string. -/
theorem readsWhole_iff (cs : List Char) {short : Nat → Nat} (hshort : ∀ i, 0 < short i) :
    ReadsWhole (utf8 cs) short ↔
      (utf16 cs).length ≤ kMaxLength ∧ ∀ k, ¬ Inside cs (reach short 0 k) := by
  by_cases hlen : (utf8 cs).length < 2 ^ 32
  · exact readsWhole_iff_cuts hlen hshort
  · constructor
    · rintro ⟨fuel, hfile⟩
      rw [readFile, loop_endless (Nat.not_lt.mp hlen) hshort fuel 0 0 [] length_alloc] at hfile
      cases hfile
    · rintro ⟨hfits, -⟩
      have hmax : 3 * kMaxLength < 2 ^ 32 := by decide
      have := length_utf8_le cs
      omega

/-- `hi`, read one byte at a time. -/
theorem readsWhole_hi : ReadsWhole (utf8 ['h', 'i']) fun _ => 1 :=
  (readsWhole_iff ['h', 'i'] fun _ => Nat.one_pos).mpr
    ⟨by decide, fun _ => not_inside_ascii (by simp) _⟩

/-- U+00E9, read one byte at a time. -/
theorem not_readsWhole_eacute : ¬ ReadsWhole (utf8 ['é']) fun _ => 1 := by
  rw [readsWhole_iff_cuts (by decide) fun _ => by decide]
  rintro ⟨-, h⟩
  exact h 1 ⟨[], 'é', [], rfl, by decide, by decide⟩

end Dv8.Fs
