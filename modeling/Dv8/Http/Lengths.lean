import Dv8.Builtins.Buffer
import Dv8.Http.Block

namespace Dv8.Http

open Dv8.Lib Dv8.Builtins

/-!
# The lengths in front of the header block

`headers_complete_cb` publishes the lengths of the url and of the headers as two bytes each,
from counters of 16 bits.  `http_parser` accepts heads of up to `HTTP_MAX_HEADER_SIZE` bytes,
which is more.  `published_iff` says when the lengths are right: exactly when both fit 16 bits.
-/

/-- `HTTP_MAX_HEADER_SIZE` -/
def HTTP_MAX_HEADER_SIZE : Nat := 80 * 1024

/-- The lengths in the work buffer are those of the url and of the header block, and lead to
    its end. -/
def Published (s : Context) (m : Message) : Prop :=
  let urllength := ofBigEndian (slice s.buf.bytes 5 2)
  let headerLength := ofBigEndian (slice s.buf.bytes 7 2)
  urllength = m.url.flatten.length ∧ headerLength = m.headerBlock.length ∧
    STRING_OFFSET + urllength + headerLength = s.soff.toNat

/-- The two bytes of a counter. -/
theorem ofBigEndian_counter (n : UInt16) :
    ofBigEndian [(n >>> 8).toUInt8, n.toUInt8] = n.toNat := by
  have hlt : n.toNat < 2 ^ 16 := n.toNat_lt
  have hhigh : (n >>> 8).toNat = n.toNat / 256 := by
    rw [UInt16.toNat_shiftRight, Nat.shiftRight_eq_div_pow]
    rfl
  simp only [ofBigEndian, List.foldl_cons, List.foldl_nil, UInt16.toNat_toUInt8, hhigh]
  omega

/-- What `headers_complete_cb` publishes are the counters. -/
theorem headersComplete_lengths {s t : Context} {parser : Info}
    (h : s.headersComplete parser = some t) :
    ofBigEndian (slice t.buf.bytes 5 2) = t.request.urllength.toNat ∧
      ofBigEndian (slice t.buf.bytes 7 2) = t.request.headerLength.toNat := by
  rw [Context.headersComplete, Option.map_eq_some_iff] at h
  obtain ⟨w, hcopy, rfl⟩ := h
  have hwrite := memcpy_eq_some_iff.mp hcopy
  have hslice : ∀ o, o + 2 ≤ 9 → slice w.bytes o 2 = slice (s.header parser) o 2 := by
    intro o ho
    rw [← slice_writeAt_within hwrite (by rw [length_header]; exact ho), Nat.zero_add]
  have hurl : slice (s.header parser) 5 2 =
      [(s.request.urllength >>> 8).toUInt8, s.request.urllength.toUInt8] := by
    unfold Context.header
    split <;> rfl
  have hheader : slice (s.header parser) 7 2 =
      [(s.request.headerLength >>> 8).toUInt8, s.request.headerLength.toUInt8] := by
    unfold Context.header
    split <;> rfl
  show ofBigEndian (slice w.bytes 5 2) = s.request.urllength.toNat ∧
    ofBigEndian (slice w.bytes 7 2) = s.request.headerLength.toNat
  rw [hslice 5 (by decide), hslice 7 (by decide), hurl, hheader]
  exact ⟨ofBigEndian_counter _, ofBigEndian_counter _⟩

/-- The lengths published for a message are the true ones, modulo `2 ^ 16`. -/
theorem head_lengths {s t : Context} {m : Message} (h : run step s m.head = some t) :
    t.soff.toNat = STRING_OFFSET + (m.url.flatten.length + m.headerBlock.length) ∧
      ofBigEndian (slice t.buf.bytes 5 2) = m.url.flatten.length % 2 ^ 16 ∧
      ofBigEndian (slice t.buf.bytes 7 2) = m.headerBlock.length % 2 ^ 16 := by
  obtain ⟨lastel, hshows⟩ := head_shows h
  have hlast : m.head = (.messageBegin :: (m.url.map .url ++ m.headers.flatMap Header.callbacks)) ++
      [.headersComplete m.parser] := rfl
  rw [hlast, run_snoc_eq_some] at h
  obtain ⟨s', -, hstep⟩ := h
  obtain ⟨hurl, hheader⟩ := headersComplete_lengths hstep
  refine ⟨?_, ?_, ?_⟩
  · rw [hshows.soff, Message.block, List.length_append]
  · rw [hurl, hshows.urllength, UInt16.toNat_ofNat']
  · rw [hheader, hshows.headerLength, UInt16.toNat_ofNat']

/-- **The published lengths are right exactly when they fit their fields.** -/
theorem published_iff {s₀ t : Context} {before : List Callback} {m : Message}
    (h : run step s₀ (before ++ m.head) = some t) :
    Published t m ↔ m.url.flatten.length < 2 ^ 16 ∧ m.headerBlock.length < 2 ^ 16 := by
  rw [run_append, Option.bind_eq_some_iff] at h
  obtain ⟨s, -, h⟩ := h
  obtain ⟨hsoff, hurl, hheader⟩ := head_lengths h
  rw [Published, hsoff, hurl, hheader]
  constructor
  · rintro ⟨hu, hh, -⟩
    exact ⟨hu ▸ Nat.mod_lt _ (by decide), hh ▸ Nat.mod_lt _ (by decide)⟩
  · rintro ⟨hu, hh⟩
    rw [Nat.mod_eq_of_lt hu, Nat.mod_eq_of_lt hh]
    exact ⟨rfl, rfl, Nat.add_assoc _ _ _⟩

theorem published_iff_getRoot :
    ∃ t, run step fresh getRoot.head = some t ∧ Published t getRoot := by
  have hfit : STRING_OFFSET + getRoot.block.length ≤ fresh.buf.bytes.length := by decide
  obtain ⟨t, hrun⟩ := exists_run_head hfit
  have hafter : run step fresh ([] ++ getRoot.head) = some t := hrun
  exact ⟨t, hrun, (published_iff hafter).mpr (by decide)⟩

/-- The text of a `GET` request for which `http_parser` makes the callbacks. -/
def Message.getText (m : Message) : List UInt8 :=
  [71, 69, 84, 32] ++ m.url.flatten ++ [32, 72, 84, 84, 80, 47, 49, 46, 49] ++ crlf ++
    m.headers.flatMap (fun h => h.text ++ crlf) ++ crlf

/-- The name of the header below is there. -/
theorem name_ne_nil : ([[97]] : List (List UInt8)) ≠ [] := List.cons_ne_nil _ _

/-- `GET /` with a header `a` whose value has `n` bytes. -/
def getValue (n : Nat) : Message where
  url := [[47]]
  headers := [⟨[[97]], [List.replicate n 118], name_ne_nil, List.cons_ne_nil _ _⟩]
  parser := ⟨1, 1, 1, false, 0, true⟩

theorem length_getValue (n : Nat) :
    (getValue n).headerBlock.length = n + 3 ∧ (getValue n).block.length = n + 4 ∧
      (getValue n).getText.length = n + 23 := by
  have htext :
      (Header.text ⟨[[97]], [List.replicate n 118], by decide, List.cons_ne_nil _ _⟩).length =
      n + 3 := by
    simp only [Header.text, colon, List.flatten_cons, List.flatten_nil, List.length_append,
      List.length_cons, List.length_nil, List.length_replicate]
    omega
  have hheaders : (getValue n).headerBlock.length = n + 3 := by
    simp only [Message.headerBlock, getValue, List.map_cons, List.map_nil,
      List.intercalate_singleton, htext]
  refine ⟨hheaders, ?_, ?_⟩
  · rw [Message.block, List.length_append, hheaders]
    exact Nat.add_comm 1 (n + 3)
  · simp only [Message.getText, getValue, List.flatMap_cons, List.flatMap_nil, List.length_append,
      htext, crlf, List.flatten_cons, List.flatten_nil, List.length_cons, List.length_nil]
    omega

/-- `http_parser` accepts headers that are longer than their length can say. -/
theorem not_published_getValue :
    ¬ ∀ (s t : Context) (m : Message), m.getText.length ≤ HTTP_MAX_HEADER_SIZE →
      run step s m.head = some t → Published t m := by
  intro h
  obtain ⟨hheaders, hblock, htext⟩ := length_getValue 65536
  have hsmall : (List.replicate 66000 (0 : UInt8)).length < 2 ^ 32 := by
    rw [List.length_replicate]
    decide
  have hfit : STRING_OFFSET + (getValue 65536).block.length ≤
      (List.replicate 66000 (0 : UInt8)).length := by
    rw [hblock, List.length_replicate]
    decide
  obtain ⟨t, hrun⟩ := exists_run_head (s := { buf := ⟨_, hsmall⟩ }) hfit
  obtain ⟨-, hpublished, -⟩ := h _ t (getValue 65536) (by rw [htext]; decide) hrun
  have hwrong := (head_lengths hrun).2.2
  rw [hpublished, hheaders] at hwrong
  exact absurd hwrong (by decide)

end Dv8.Http
