import Dv8.Tls.Reads
import Dv8.Tls.Records

namespace Dv8.Tls

open Dv8.Lib Dv8.Uv

/-!
# What reaches the user of a `SecureSocket`

Over the record layer of `Records` the plaintext due after `n` bytes is `Peer.due n`, that of
the application records they complete.

`cycleIn` makes one `SSL_read` for each read of the socket, and the read that finishes the
handshake makes none.  So a read keeps up (`KeepsUp`) when it completes at most one application
record with a plaintext, and that fits the in buffer, or none if it finds the handshake
unfinished; `delivered_iff_keepsUp` shows that all plaintext is delivered after every read
exactly when every read keeps up.
-/

/-! ### What is due -/

/-- The application records completed by the first `n` bytes. -/
def Peer.completed (P : Peer) (n : Nat) : List Record :=
  complete Record.length P.apps (n - total Wire.length P.handshakes)

/-- The plaintext due after `n` bytes. -/
def Peer.due (P : Peer) (n : Nat) : List UInt8 := plaintext (P.completed n)

/-- All plaintext due has been given to `onRead` and to the next plugin, where they are there. -/
def Delivered (P : Peer) (s : Secure Layer) : Prop :=
  (s.onRead = true → s.toOnRead = P.due s.received.length) ∧
    (s.next = true → s.toNext = P.due s.received.length)

/-- The records with a plaintext that are completed by the bytes from `m` to `n`. -/
def Peer.fresh (P : Peer) (m n : Nat) : List Record :=
  nonEmpty ((P.completed n).drop (P.completed m).length)

/-- The read completes at most one record with a plaintext, which fits the in buffer; or none,
    if it finds the handshake unfinished. -/
def KeepsUp (P : Peer) (s : Secure Layer) (read : List UInt8 × Answer) : Prop :=
  let fresh := P.fresh s.received.length (s.received.length + read.1.length)
  if total Wire.length P.handshakes ≤ s.received.length then
    fresh.length ≤ 1 ∧ ∀ r ∈ fresh, r.plain.length ≤ s.input.length
  else fresh = []

instance (P : Peer) (s : Secure Layer) (read : List UInt8 × Answer) :
    Decidable (KeepsUp P s read) := by
  unfold KeepsUp
  infer_instance

/-- The bytes that no record has consumed. -/
def Secure.unprocessed (s : Secure Layer) : List UInt8 := s.ssl.buffered ++ s.inputBio

/-- Back in the event loop: the records `hs` and `rs` have been processed, and what they
    carried has been handed on, but for what libssl still holds of the last one. -/
structure Synced (P : Peer) (s : Secure Layer) (hs : List Wire) (rs : List Record) : Prop where
  handshakes : P.handshakes = hs ++ s.ssl.handshakes
  apps : P.apps = rs ++ s.ssl.apps
  received : total Wire.length hs + total Record.length rs + s.unprocessed.length =
    s.received.length
  /-- an unfinished handshake waits for the rest of a record -/
  waits : s.ssl.handshakes ≠ [] → rs = [] ∧
    complete Wire.length s.ssl.handshakes s.unprocessed.length = []
  toOnRead : s.onRead = true → s.toOnRead ++ s.ssl.plain = plaintext rs
  toNext : s.next = true → s.toNext ++ s.ssl.plain = plaintext rs
  stack : s.stack = []

/-- libssl has nothing to read. -/
def CaughtUp (s : Secure Layer) : Prop :=
  s.ssl.plain = [] ∧
    (s.ssl.handshakes = [] →
      nonEmpty (complete Record.length s.ssl.apps s.unprocessed.length) = [])

/-- With the handshake finished, the completed records are those processed and those waiting. -/
theorem Synced.completed {P : Peer} {s : Secure Layer} {hs : List Wire} {rs : List Record}
    (h : Synced P s hs rs) (hfin : s.ssl.handshakes = []) (k : Nat) :
    P.completed (s.received.length + k) =
      rs ++ complete Record.length s.ssl.apps (s.unprocessed.length + k) := by
  have hrec := h.received
  have hhs : P.handshakes = hs := by rw [h.handshakes, hfin, List.append_nil]
  rw [Peer.completed, h.apps, hhs, complete_append _ _ _ (by omega)]
  congr 2
  omega

/-- Before, nothing is. -/
theorem Synced.completed_unfinished {P : Peer} {s : Secure Layer} {hs : List Wire}
    {rs : List Record} (h : Synced P s hs rs) (hfin : s.ssl.handshakes ≠ []) :
    s.received.length < total Wire.length P.handshakes ∧ P.completed s.received.length = [] := by
  obtain ⟨rfl, hwait⟩ := h.waits hfin
  have hlt := lt_total_of_complete_nil _ hfin hwait
  have hrec := h.received
  have hall : s.received.length < total Wire.length P.handshakes := by
    rw [h.handshakes, total_append]
    rw [total_nil] at hrec
    omega
  refine ⟨hall, ?_⟩
  rw [Peer.completed, Nat.sub_eq_zero_of_le hall.le]
  exact complete_zero _ (fun r => r.wire.length_pos) _

/-- Everything is delivered exactly when libssl has nothing to read. -/
theorem Synced.delivered_iff {P : Peer} {s : Secure Layer} {hs : List Wire} {rs : List Record}
    (h : Synced P s hs rs) (huser : s.onRead = true ∨ s.next = true) :
    Delivered P s ↔ CaughtUp s := by
  have hdue : P.due s.received.length = plaintext rs ++
      if s.ssl.handshakes = [] then
        plaintext (complete Record.length s.ssl.apps s.unprocessed.length)
      else [] := by
    by_cases hfin : s.ssl.handshakes = []
    · rw [if_pos hfin, Peer.due, ← Nat.add_zero s.received.length, h.completed hfin,
        plaintext_append, Nat.add_zero]
    · rw [if_neg hfin, Peer.due, (h.completed_unfinished hfin).2, (h.waits hfin).1]
      rfl
  -- what is missing is the rest of the last record and the records waiting
  have hmissing : ∀ given : List UInt8, given ++ s.ssl.plain = plaintext rs →
      (given = P.due s.received.length ↔ CaughtUp s) := by
    intro given hgiven
    rw [hdue, ← hgiven, List.append_assoc]
    constructor
    · intro heq
      have hnil := List.append_cancel_left ((List.append_nil given).trans heq)
      rw [eq_comm, List.append_eq_nil_iff] at hnil
      refine ⟨hnil.1, fun hfin => ?_⟩
      rw [nonEmpty_eq_nil_iff]
      have hrest := hnil.2
      rw [if_pos hfin] at hrest
      exact hrest
    · intro hcaught
      rw [hcaught.1, List.nil_append]
      split
      · rename_i hfin
        rw [(nonEmpty_eq_nil_iff _).mp (hcaught.2 hfin), List.append_nil]
      · rw [List.append_nil]
  constructor
  · intro hd
    obtain hr | hn := huser
    · exact (hmissing _ (h.toOnRead hr)).mp (hd.1 hr)
    · exact (hmissing _ (h.toNext hn)).mp (hd.2 hn)
  · intro hc
    exact ⟨fun hr => (hmissing _ (h.toOnRead hr)).mpr hc,
      fun hn => (hmissing _ (h.toNext hn)).mpr hc⟩

/-- What a read completes, when libssl had nothing to read before it. -/
theorem Synced.fresh {P : Peer} {s : Secure Layer} {hs : List Wire} {rs : List Record}
    (h : Synced P s hs rs) (hfin : s.ssl.handshakes = []) (hcaught : CaughtUp s) (k : Nat) :
    P.fresh s.received.length (s.received.length + k) =
      nonEmpty (complete Record.length s.ssl.apps (s.unprocessed.length + k)) := by
  have hnow := h.completed hfin 0
  rw [Nat.add_zero, Nat.add_zero] at hnow
  obtain ⟨later, hlater⟩ := complete_prefix Record.length s.ssl.apps
    (Nat.le_add_right s.unprocessed.length k)
  rw [Peer.fresh, h.completed hfin k, hnow, List.length_append, ← List.drop_drop, List.drop_left,
    ← hlater, List.drop_left, nonEmpty_append, hcaught.2 hfin, List.nil_append]

/-! ### `SSL_read` of the record layer -/

/-- `SSL_read` after the handshake, with no plaintext left of the last record. -/
theorem Peer.recordSsl_read (P : Peer) {s : Layer} (hfin : s.handshakes = [])
    (hplain : s.plain = []) (input : List UInt8) (len : Nat) :
    P.recordSsl.read s input len =
      P.hold { s with apps := (nextRecord s.apps (s.buffered ++ input)).1
                      plain := (nextRecord s.apps (s.buffered ++ input)).2.2.drop len }
        (nextRecord s.apps (s.buffered ++ input)).2.1 []
        ((nextRecord s.apps (s.buffered ++ input)).2.2.take len)
        (if (nextRecord s.apps (s.buffered ++ input)).2.2 = [] then -1
          else ((nextRecord s.apps (s.buffered ++ input)).2.2.take len).length) := by
  simp only [Peer.recordSsl, Layer.handshake_nil hfin, hfin, hplain, List.isEmpty_nil, if_true,
    not_true, if_false]

/-- `SSL_read` of the record layer fails with nothing, or returns the length of what it read. -/
theorem Peer.recordSsl_read_cases (P : Peer) (s : Layer) (input : List UInt8) (len : Nat) :
    (P.recordSsl.read s input len).data.length ≤ len ∧
      (((P.recordSsl.read s input len).data = [] ∧ (P.recordSsl.read s input len).ret = -1) ∨
        (P.recordSsl.read s input len).ret = (P.recordSsl.read s input len).data.length) := by
  simp only [Peer.recordSsl]
  generalize s.handshake (s.buffered ++ input) = t
  split
  · exact ⟨Nat.zero_le len, Or.inl ⟨rfl, rfl⟩⟩
  · generalize (if t.1.plain = [] then nextRecord t.1.apps t.2
      else (t.1.apps, t.2, t.1.plain)) = next
    simp only [Peer.hold]
    refine ⟨List.length_take_le _ _, ?_⟩
    by_cases hplain : next.2.2 = []
    · rw [if_pos hplain, hplain]
      exact Or.inl ⟨List.take_nil, rfl⟩
    · rw [if_neg hplain]
      exact Or.inr rfl

theorem Peer.recordSsl_readLaw (P : Peer) : P.recordSsl.ReadLaw where
  positive := by
    intro s input len hpos
    obtain ⟨-, ⟨-, hret⟩ | hret⟩ := P.recordSsl_read_cases s input len
    · rw [hret] at hpos
      contradiction
    · exact hret
  empty := by
    intro s input len hle
    obtain ⟨-, ⟨hdata, -⟩ | hret⟩ := P.recordSsl_read_cases s input len
    · exact hdata
    · rw [← List.length_eq_zero_iff]
      omega

/-! ### One read over the record layer -/

/-- A read after the handshake: one `SSL_read` catches up exactly when it has only one record
    to read, which fits. -/
theorem Synced.read {P : Peer} {s s' : Secure Layer} {bytes : List UInt8} {hs : List Wire}
    {rs : List Record} (h : Synced P s hs rs) (hcaught : CaughtUp s)
    (hfin : s.ssl.handshakes = []) (htook : Took (s.fed bytes) s'
      (P.recordSsl.read s.ssl (s.inputBio ++ bytes) s.input.length)
      (P.recordSsl.read s.ssl (s.inputBio ++ bytes) s.input.length).data) :
    ∃ done, Synced P s' hs (rs ++ done) ∧
      (CaughtUp s' ↔
        (P.fresh s.received.length (s.received.length + bytes.length)).length ≤ 1 ∧
          ∀ r ∈ P.fresh s.received.length (s.received.length + bytes.length),
            r.plain.length ≤ s.input.length) := by
  have hplain := hcaught.1
  rw [P.recordSsl_read hfin hplain, ← List.append_assoc] at htook
  obtain ⟨done, happs, hsize, htext, hcase⟩ :=
    nextRecord_spec s.ssl.apps (s.ssl.buffered ++ s.inputBio ++ bytes)
  generalize nextRecord s.ssl.apps (s.ssl.buffered ++ s.inputBio ++ bytes) = next
    at htook happs hsize htext hcase
  have hssl := htook.ssl
  have hrest : s'.unprocessed = next.2.1 := by
    rw [Secure.unprocessed, htook.ssl, htook.inputBio]
    exact P.hold_unprocessed _ _ _ _ _
  have hlen : (s.ssl.buffered ++ s.inputBio ++ bytes).length =
      s.unprocessed.length + bytes.length := List.length_append
  -- what one `SSL_read` gives and what it keeps
  have hgiven : ∀ given : List UInt8, given ++ s.ssl.plain = plaintext rs →
      given ++ next.2.2.take s.input.length ++ s'.ssl.plain = plaintext (rs ++ done) := by
    intro given hgiven
    rw [hplain, List.append_nil] at hgiven
    rw [hgiven, hssl, plaintext_append, htext, List.append_assoc]
    congr 1
    exact List.take_append_drop _ _
  refine ⟨done, ⟨?_, ?_, ?_, ?_, ?_, ?_, htook.stack⟩, ?_⟩
  · rw [hssl]
    exact h.handshakes
  · rw [hssl, List.append_assoc]
    show P.apps = rs ++ (done ++ next.1)
    rw [← happs]
    exact h.apps
  · have hrec := h.received
    rw [hrest, htook.received, total_append, Secure.fed, List.length_append]
    omega
  · intro hne
    rw [hssl] at hne
    exact absurd hfin hne
  · intro hr
    have hr' : (s.fed bytes).onRead = true := htook.onRead.symm.trans hr
    rw [htook.toOnRead, if_pos hr']
    exact hgiven _ (h.toOnRead hr')
  · intro hn
    have hn' : (s.fed bytes).next = true := htook.next.symm.trans hn
    rw [htook.toNext, if_pos hn']
    exact hgiven _ (h.toNext hn')
  · rw [h.fresh hfin hcaught, ← hlen, CaughtUp, hrest, hssl]
    simp only [Peer.hold, hfin, true_implies]
    obtain ⟨hnone, hbefore, hafter⟩ | ⟨r, hr, -, hbefore⟩ := hcase
    · rw [hnone, hbefore, hafter]
      simp
    · rw [hbefore, ← hr, List.drop_eq_nil_iff]
      constructor
      · rintro ⟨hfit, hnil⟩
        rw [hnil]
        simpa using hfit
      · rintro ⟨hone, hall⟩
        refine ⟨hall r List.mem_cons_self, ?_⟩
        rw [← List.length_eq_zero_iff]
        rw [List.length_cons] at hone
        omega

/-- A read before the end of the handshake hands nothing on. -/
theorem Synced.doHandshake {P : Peer} {s s' : Secure Layer} {bytes : List UInt8} {hs : List Wire}
    {rs : List Record} (h : Synced P s hs rs) (hcaught : CaughtUp s)
    (hfin : s.ssl.handshakes ≠ [])
    (htook : Took (s.fed bytes) s' (P.recordSsl.doHandshake s.ssl (s.inputBio ++ bytes)) []) :
    ∃ done, Synced P s' (hs ++ done) rs ∧
      (CaughtUp s' ↔ P.fresh s.received.length (s.received.length + bytes.length) = []) := by
  obtain ⟨done, heq, hsize, hnext⟩ := s.ssl.handshake_spec (s.ssl.buffered ++ (s.inputBio ++ bytes))
  have hrs := (h.waits hfin).1
  have hssl := htook.ssl
  have hrest : s'.unprocessed = (s.ssl.handshake (s.ssl.buffered ++ (s.inputBio ++ bytes))).2 := by
    rw [Secure.unprocessed, hssl, htook.inputBio]
    exact P.hold_unprocessed _ _ _ _ _
  have hleft : s'.ssl.handshakes =
      (s.ssl.handshake (s.ssl.buffered ++ (s.inputBio ++ bytes))).1.handshakes := by rw [hssl]; rfl
  rw [← hleft] at heq
  rw [← hrest] at hsize
  rw [← hleft, ← hrest] at hnext
  have hlen : (s.ssl.buffered ++ (s.inputBio ++ bytes)).length =
      s.unprocessed.length + bytes.length := by
    rw [← List.append_assoc]
    exact List.length_append
  have happs : s'.ssl.apps = s.ssl.apps := by rw [hssl]; rfl
  have hplain : s'.ssl.plain = s.ssl.plain := by rw [hssl]; rfl
  have hreceived : s'.received.length = s.received.length + bytes.length := by
    rw [htook.received, Secure.fed, List.length_append]
  have hsync : Synced P s' (hs ++ done) rs := by
    refine ⟨?_, ?_, ?_, ?_, ?_, ?_, htook.stack⟩
    · rw [List.append_assoc, ← heq]
      exact h.handshakes
    · rw [happs]
      exact h.apps
    · have hrec := h.received
      rw [hreceived, total_append]
      omega
    · intro _
      exact ⟨hrs, hnext⟩
    · intro hr
      rw [htook.toOnRead, ite_self, List.append_nil, hplain]
      exact h.toOnRead (htook.onRead.symm.trans hr)
    · intro hn
      rw [htook.toNext, ite_self, List.append_nil, hplain]
      exact h.toNext (htook.next.symm.trans hn)
  refine ⟨done, hsync, ?_⟩
  rw [Peer.fresh, (h.completed_unfinished hfin).2, List.length_nil, List.drop_zero, CaughtUp,
    hplain, ← hreceived]
  by_cases hend : s'.ssl.handshakes = []
  · -- the handshake ends: what else the bytes complete stays unread
    have hcompleted := hsync.completed hend 0
    rw [Nat.add_zero, Nat.add_zero, hrs, List.nil_append] at hcompleted
    rw [hcompleted]
    exact ⟨fun hc => hc.2 hend, fun hnil => ⟨hcaught.1, fun _ => hnil⟩⟩
  · rw [(hsync.completed_unfinished hend).2]
    exact ⟨fun _ => rfl, fun _ => ⟨hcaught.1, fun hnil => absurd hnil hend⟩⟩

/-- One read, from a state in which everything is delivered. -/
theorem Synced.feed {P : Peer} {s s' : Secure Layer} {read : List UInt8 × Answer} {hs : List Wire}
    {rs : List Record} (h : Synced P s hs rs) (hcaught : CaughtUp s)
    (hfeed : Tls.feed P.recordSsl s read = some s') :
    (∃ hs' rs', Synced P s' hs' rs') ∧ s'.onRead = s.onRead ∧ s'.next = s.next ∧
      (CaughtUp s' ↔ KeepsUp P s read) := by
  have hfits := feed_fits hfeed
  obtain ⟨hinit, htook⟩ | ⟨hinit, htook⟩ := feed_took P.recordSsl_readLaw h.stack hfeed
  · have hfin : s.ssl.handshakes = [] := List.isEmpty_iff.mp hinit
    rw [hfits] at htook
    obtain ⟨done, hsync, hiff⟩ := h.read hcaught hfin htook
    refine ⟨⟨hs, rs ++ done, hsync⟩, htook.onRead, htook.next, ?_⟩
    have hpast : total Wire.length P.handshakes ≤ s.received.length := by
      rw [h.handshakes, hfin, List.append_nil]
      have := h.received
      omega
    rw [hiff, KeepsUp, if_pos hpast]
  · have hfin : s.ssl.handshakes ≠ [] := by
      intro hnil
      have hinit : s.ssl.handshakes.isEmpty = false := hinit
      rw [hnil] at hinit
      contradiction
    obtain ⟨done, hsync, hiff⟩ := h.doHandshake hcaught hfin htook
    refine ⟨⟨hs ++ done, rs, hsync⟩, htook.onRead, htook.next, ?_⟩
    rw [hiff, KeepsUp, if_neg (by have := (h.completed_unfinished hfin).1; omega)]

/-- Reads leave it open who listens. -/
theorem feed_run_flags {P : Peer} {s t : Secure Layer} {reads : List (List UInt8 × Answer)}
    (hstack : s.stack = []) (h : run (feed P.recordSsl) s reads = some t) :
    t.stack = [] ∧ t.onRead = s.onRead ∧ t.next = s.next := by
  refine run_invariant (I := fun t : Secure Layer =>
    t.stack = [] ∧ t.onRead = s.onRead ∧ t.next = s.next) ?_ ⟨hstack, rfl, rfl⟩ h
  rintro u read u' ⟨hnil, honRead, hnext⟩ hfeed
  obtain ⟨-, htook⟩ | ⟨-, htook⟩ := feed_took P.recordSsl_readLaw hnil hfeed <;>
  exact ⟨htook.stack, htook.onRead.trans honRead, htook.next.trans hnext⟩

/-! ### Whole connections -/

/-- A connection of which nothing has been read. -/
structure Connected (P : Peer) (s : Secure Layer) : Prop where
  ssl : s.ssl = P.start
  inputBio : s.inputBio = []
  received : s.received = []
  toOnRead : s.toOnRead = []
  toNext : s.toNext = []
  stack : s.stack = []

theorem Connected.synced {P : Peer} {s : Secure Layer} (h : Connected P s) :
    Synced P s [] [] ∧ CaughtUp s := by
  have hnone : s.unprocessed = [] := by
    rw [Secure.unprocessed, h.ssl, h.inputBio]
    rfl
  refine ⟨⟨?_, ?_, ?_, ?_, ?_, ?_, h.stack⟩, ?_, ?_⟩
  · rw [h.ssl]
    rfl
  · rw [h.ssl]
    rfl
  · rw [hnone, h.received]
    rfl
  · intro _
    rw [hnone]
    exact ⟨rfl, complete_zero _ (fun w => w.length_pos) _⟩
  · intro _
    rw [h.toOnRead, h.ssl]
    rfl
  · intro _
    rw [h.toNext, h.ssl]
    rfl
  · rw [h.ssl]
    rfl
  · intro _
    rw [hnone, List.length_nil, complete_zero _ (fun r => r.wire.length_pos)]
    rfl

/-- However the peer's bytes are cut, they can be read. -/
theorem Connected.exists_run {P : Peer} {s : Secure Layer} {pieces : List (List UInt8)}
    (h : Connected P s) (hopen : s.handle.closing = false)
    (hpieces : ∀ piece ∈ pieces, piece ≠ [] ∧ piece.length ≤ s.input.length) :
    ∃ t, run (feed P.recordSsl) s (pieces.map fun piece => (piece, .again)) = some t := by
  have hreading : Reading s.input.length s := by
    refine ⟨?_, rfl, hopen⟩
    rw [h.stack]
    simp
  refine run_feed_again ?_ hreading h.stack hpieces
  intro ssl bio
  exact (P.recordSsl_read_cases ssl bio s.input.length).1

/-- All plaintext due is delivered after every read exactly when every read keeps up, or there
    is nobody to deliver it to. -/
theorem delivered_iff_keepsUp {P : Peer} {s t : Secure Layer} {reads : List (List UInt8 × Answer)}
    (hs : Connected P s) (h : run (feed P.recordSsl) s reads = some t) :
    (∀ before after u, reads = before ++ after → run (feed P.recordSsl) s before = some u →
        Delivered P u) ↔
      (s.onRead = true ∨ s.next = true → Along (feed P.recordSsl) (KeepsUp P) s reads) := by
  obtain ⟨hsync, hcaught⟩ := hs.synced
  by_cases huser : s.onRead = true ∨ s.next = true
  · have hstep : ∀ s a s', ((∃ hs rs, Synced P s hs rs) ∧ (s.onRead = true ∨ s.next = true)) →
        Delivered P s → feed P.recordSsl s a = some s' →
        ((∃ hs rs, Synced P s' hs rs) ∧ (s'.onRead = true ∨ s'.next = true)) ∧
          (Delivered P s' ↔ KeepsUp P s a) := by
      rintro s a s' ⟨⟨hs, rs, hsync⟩, huser⟩ hdel hfeed
      have hcaught := (hsync.delivered_iff huser).mp hdel
      obtain ⟨⟨hs', rs', hsync'⟩, honRead, hnext, hiff⟩ := hsync.feed hcaught hfeed
      have huser' : s'.onRead = true ∨ s'.next = true := by
        rw [honRead, hnext]
        exact huser
      exact ⟨⟨⟨hs', rs', hsync'⟩, huser'⟩, (hsync'.delivered_iff huser').trans hiff⟩
    rw [forall_prefix_iff_along hstep ⟨⟨[], [], hsync⟩, huser⟩
      ((hsync.delivered_iff huser).mpr hcaught) h]
    exact ⟨fun hall _ => hall, fun hall => hall huser⟩
  · -- nobody listens, and nobody starts to
    rw [not_or] at huser
    refine ⟨fun _ hlisten => absurd hlisten (not_or.mpr huser), fun _ before after u _ hrun => ?_⟩
    obtain ⟨-, honRead, hnext⟩ := feed_run_flags hs.stack hrun
    exact ⟨fun hr => absurd (honRead.symm.trans hr) huser.1,
      fun hn => absurd (hnext.symm.trans hn) huser.2⟩

/-- One handshake record, and application records of one byte each. -/
def chatPeer : Peer where
  handshakes := [⟨[22], by decide⟩]
  apps := [⟨⟨[23, 1], by decide⟩, [104]⟩, ⟨⟨[23, 2], by decide⟩, [105]⟩]
  reply _ _ := []
  encrypt plain := plain
  ahead _ := 0

/-- A connection to it, with a read callback. -/
def chat : Secure Layer := Secure.setup chatPeer.start [0, 0, 0, 0] [0, 0] true

theorem chat_connected : Connected chatPeer chat := ⟨rfl, rfl, rfl, rfl, rfl, rfl⟩

/-- The connection after the handshake record and the first byte of a record. -/
def chatting : Secure Layer :=
  { chat with ssl := { chatPeer.start with handshakes := [] }
              inputBio := [23]
              input := [22, 23, 0, 0]
              received := [22, 23] }

/-- The records are cut, but no read completes two of them. -/
theorem delivered_iff_keepsUp_chat :
    (run (feed chatPeer.recordSsl) chat [([22, 23], .again), ([1, 23], .again)]).isSome ∧
      ∀ before after u, [([22, 23], Answer.again), ([1, 23], .again)] = before ++ after →
        run (feed chatPeer.recordSsl) chat before = some u → Delivered chatPeer u := by
  have hrun : run (feed chatPeer.recordSsl) chat [([22, 23], .again), ([1, 23], .again)] =
      some { chatting with ssl := { chatting.ssl with apps := chatPeer.apps.tail }
                           input := [104, 23, 0, 0]
                           received := [22, 23, 1, 23]
                           toOnRead := [104] } := by decide +kernel
  refine ⟨by rw [hrun]; rfl, ?_⟩
  exact (delivered_iff_keepsUp chat_connected hrun).mpr fun _ => by decide +kernel

/-- One read brings both application records: the second is not delivered. -/
theorem not_delivered_chat :
    ¬ ∀ (P : Peer) (s : Secure Layer) (reads : List (List UInt8 × Answer)) (u : Secure Layer),
      Connected P s → run (feed P.recordSsl) s reads = some u → Delivered P u := by
  intro h
  have hrun : run (feed chatPeer.recordSsl) chat [([22, 23], .again), ([1, 23, 2], .again)] =
      some { chatting with ssl := { chatting.ssl with apps := chatPeer.apps.tail }
                           inputBio := [23, 2]
                           input := [104, 23, 2, 0]
                           received := [22, 23, 1, 23, 2]
                           toOnRead := [104] } := by decide +kernel
  have hmissing : [104] = chatPeer.due 5 := (h chatPeer chat _ _ chat_connected hrun).1 rfl
  exact absurd hmissing (by decide)

end Dv8.Tls
