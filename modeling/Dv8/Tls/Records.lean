import Dv8.Lib.Prefix
import Dv8.Tls.SecureSocket

namespace Dv8.Tls

open Dv8.Lib

/-!
# libssl as a record layer

For the input side all that matters of libssl is how it splits the peer's bytes into records: it
consumes the input BIO, handshake records first, and yields at most one application record per
`SSL_read`.  `Layer` is that machine for a peer that sends given records.  Left open, as
parameters (`Peer`), are what it writes, and how many bytes beyond the records it has
processed it takes off the BIO into its own buffer.
-/

/-- The bytes of a record on the wire. -/
structure Wire where
  bytes : List UInt8
  nonempty : bytes ≠ []
  deriving DecidableEq

/-- The length of a record on the wire. -/
def Wire.length (w : Wire) : Nat := w.bytes.length

theorem Wire.length_pos (w : Wire) : 0 < w.length := List.length_pos_iff.mpr w.nonempty

/-- An application record and its plaintext. -/
structure Record where
  wire : Wire
  plain : List UInt8
  deriving DecidableEq

/-- The length of an application record on the wire. -/
def Record.length (r : Record) : Nat := r.wire.length

/-- The connection state: the records that are not processed, the bytes of them that have
    been taken off the BIO, and the rest of the plaintext of the last one. -/
structure Layer where
  handshakes : List Wire
  apps : List Record
  buffered : List UInt8 := []
  plain : List UInt8 := []
  deriving DecidableEq

/-- The peer's records, and what is left open of libssl. -/
structure Peer where
  handshakes : List Wire
  apps : List Record
  /-- the handshake bytes written, from the state and the input -/
  reply : Layer → List UInt8 → List UInt8
  /-- the records that carry a plaintext -/
  encrypt : List UInt8 → List UInt8
  /-- how many unprocessed bytes are taken off the BIO -/
  ahead : List UInt8 → Nat

/-- The handshake records that are complete are processed; the bytes behind them are left. -/
def Layer.handshake (s : Layer) (bytes : List UInt8) : Layer × List UInt8 :=
  let done := complete Wire.length s.handshakes bytes.length
  ({ s with handshakes := s.handshakes.drop done.length }, bytes.drop (total Wire.length done))

/-- The next complete record with a plaintext: the records and bytes behind it, and the
    plaintext. -/
def nextRecord : List Record → List UInt8 → List Record × List UInt8 × List UInt8
  | [], bytes => ([], bytes, [])
  | r :: rs, bytes =>
    if r.length ≤ bytes.length then
      if r.plain = [] then nextRecord rs (bytes.drop r.length)
      else (rs, bytes.drop r.length, r.plain)
    else (r :: rs, bytes, [])

/-- The unprocessed bytes are split between libssl's buffer and the BIO. -/
def Peer.hold (P : Peer) (s : Layer) (bytes : List UInt8) (output data : List UInt8) (ret : Int) :
    Io Layer where
  ssl := { s with buffered := bytes.take (P.ahead bytes) }
  input := bytes.drop (P.ahead bytes)
  output := output
  data := data
  ret := ret

/-- The record layer, under the names of libssl. -/
def Peer.recordSsl (P : Peer) : Ssl Layer where
  isInitFinished s := s.handshakes.isEmpty
  doHandshake s input :=
    let (t, bytes) := s.handshake (s.buffered ++ input)
    P.hold t bytes (P.reply s input) [] (if t.handshakes.isEmpty then 1 else -1)
  read s input len :=
    let (t, bytes) := s.handshake (s.buffered ++ input)
    if ¬ t.handshakes.isEmpty then P.hold t bytes (P.reply s input) [] (-1)
    else
      let (apps, bytes, plain) :=
        if t.plain = [] then nextRecord t.apps bytes else (t.apps, bytes, t.plain)
      let data := plain.take len
      P.hold { t with apps := apps, plain := plain.drop len } bytes [] data
        (if plain = [] then -1 else data.length)
  write s input plaintext :=
    let (t, bytes) := s.handshake (s.buffered ++ input)
    if ¬ t.handshakes.isEmpty then P.hold t bytes (P.reply s input) [] (-1)
    else P.hold t bytes (P.encrypt plaintext) [] plaintext.length
  getError _ n := if n ≤ 0 then SSL_ERROR_WANT_READ else 0

/-- A new connection. -/
def Peer.start (P : Peer) : Layer := { handshakes := P.handshakes, apps := P.apps }

/-! ### One record at a time -/

/-- The plaintexts of a sequence of records. -/
def plaintext (rs : List Record) : List UInt8 := rs.flatMap Record.plain

@[simp] theorem plaintext_nil : plaintext [] = [] := rfl

@[simp] theorem plaintext_cons (r : Record) (rs : List Record) :
    plaintext (r :: rs) = r.plain ++ plaintext rs := rfl

@[simp] theorem plaintext_append (rs ts : List Record) :
    plaintext (rs ++ ts) = plaintext rs ++ plaintext ts := List.flatMap_append

/-- The records with a plaintext. -/
def nonEmpty (rs : List Record) : List Record := rs.filter fun r => r.plain ≠ []

@[simp] theorem nonEmpty_append (rs ts : List Record) :
    nonEmpty (rs ++ ts) = nonEmpty rs ++ nonEmpty ts := List.filter_append ..

theorem nonEmpty_cons_of_nil {r : Record} (rs : List Record) (h : r.plain = []) :
    nonEmpty (r :: rs) = nonEmpty rs := List.filter_cons_of_neg (by simp [h])

theorem nonEmpty_cons_of_ne {r : Record} (rs : List Record) (h : r.plain ≠ []) :
    nonEmpty (r :: rs) = r :: nonEmpty rs := List.filter_cons_of_pos (by simp [h])

theorem nonEmpty_eq_nil_iff (rs : List Record) : nonEmpty rs = [] ↔ plaintext rs = [] := by
  induction rs with
  | nil => simp [nonEmpty]
  | cons r rs ih =>
    by_cases h : r.plain = []
    · rw [nonEmpty_cons_of_nil rs h, plaintext_cons, h, List.nil_append, ih]
    · rw [nonEmpty_cons_of_ne rs h, plaintext_cons]
      simp [h]

theorem Layer.handshake_nil {s : Layer} (h : s.handshakes = []) (bytes : List UInt8) :
    s.handshake bytes = (s, bytes) := by
  obtain ⟨handshakes, apps, buffered, plain⟩ := s
  cases h
  rfl

/-- The handshake stops before a record that is not complete. -/
theorem Layer.handshake_spec (s : Layer) (bytes : List UInt8) :
    ∃ done, s.handshakes = done ++ (s.handshake bytes).1.handshakes ∧
      total Wire.length done + (s.handshake bytes).2.length = bytes.length ∧
      complete Wire.length (s.handshake bytes).1.handshakes (s.handshake bytes).2.length = [] := by
  obtain ⟨ys, heq, hfit, hnext⟩ := exists_complete_append Wire.length s.handshakes bytes.length
  have hleft : (s.handshake bytes).1.handshakes = ys :=
    (congrArg (List.drop (complete Wire.length s.handshakes bytes.length).length) heq).trans
      List.drop_left
  have hlen : (s.handshake bytes).2.length =
      bytes.length - total Wire.length (complete Wire.length s.handshakes bytes.length) :=
    List.length_drop
  refine ⟨complete Wire.length s.handshakes bytes.length, ?_, ?_, ?_⟩
  · rw [hleft]
    exact heq
  · rw [hlen]
    omega
  · rw [hleft, hlen]
    exact hnext

/-- `nextRecord` drops complete records up to the first with a plaintext, and stops before an
    incomplete one. -/
theorem nextRecord_spec (rs : List Record) (bytes : List UInt8) :
    ∃ done, rs = done ++ (nextRecord rs bytes).1 ∧
      total Record.length done + (nextRecord rs bytes).2.1.length = bytes.length ∧
      plaintext done = (nextRecord rs bytes).2.2 ∧
      (((nextRecord rs bytes).2.2 = [] ∧ nonEmpty (complete Record.length rs bytes.length) = [] ∧
          nonEmpty (complete Record.length (nextRecord rs bytes).1
            (nextRecord rs bytes).2.1.length) = []) ∨
        ∃ r, r.plain = (nextRecord rs bytes).2.2 ∧ r.plain ≠ [] ∧
          nonEmpty (complete Record.length rs bytes.length) =
            r :: nonEmpty (complete Record.length (nextRecord rs bytes).1
              (nextRecord rs bytes).2.1.length)) := by
  induction rs generalizing bytes with
  | nil => exact ⟨[], rfl, by simp [nextRecord], rfl, Or.inl ⟨rfl, rfl, rfl⟩⟩
  | cons r rs ih =>
    rw [nextRecord]
    by_cases hfits : r.length ≤ bytes.length
    · have hlen : (bytes.drop r.length).length = bytes.length - r.length := List.length_drop
      rw [if_pos hfits, complete_cons_of_le _ _ hfits]
      by_cases hplain : r.plain = []
      · -- an empty record is skipped
        rw [if_pos hplain, nonEmpty_cons_of_nil _ hplain, ← hlen]
        obtain ⟨done, heq, hsize, htext, hcase⟩ := ih (bytes.drop r.length)
        refine ⟨r :: done, ?_, ?_, ?_, hcase⟩
        · rw [List.cons_append, ← heq]
        · rw [total_cons, Nat.add_assoc, hsize, hlen]
          omega
        · rw [plaintext_cons, hplain, List.nil_append, htext]
      · rw [if_neg hplain, nonEmpty_cons_of_ne _ hplain, ← hlen]
        refine ⟨[r], rfl, ?_, ?_, Or.inr ⟨r, rfl, hplain, rfl⟩⟩
        · rw [total_cons, total_nil, hlen]
          omega
        · rw [plaintext_cons, plaintext_nil, List.append_nil]
    · have hlt : bytes.length < r.length := by omega
      rw [if_neg hfits]
      refine ⟨[], rfl, ?_, rfl, Or.inl ⟨rfl, ?_, ?_⟩⟩
      · rw [total_nil, Nat.zero_add]
      · rw [complete_cons_of_lt _ _ hlt]
        rfl
      · rw [complete_cons_of_lt _ _ hlt]
        rfl

/-- The bytes libssl holds and those it leaves on the BIO are the unprocessed ones. -/
theorem Peer.hold_unprocessed (P : Peer) (s : Layer) (bytes output data : List UInt8) (ret : Int) :
    (P.hold s bytes output data ret).ssl.buffered ++ (P.hold s bytes output data ret).input =
      bytes := List.take_append_drop _ _

end Dv8.Tls
