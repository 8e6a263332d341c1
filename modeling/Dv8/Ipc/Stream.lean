import Dv8.Ipc.Frames

namespace Dv8.Ipc

open Dv8.Lib Dv8.V8 Dv8.Builtins

/-!
# Streams of frames

A stream is a list of frames, possibly followed by an incomplete one, cut into chunks.
After any number of bytes the messages due are those of the frames whose last byte is
among them (`deliveredBy`).  Two kinds of cut matter:

* `SplitsChar` — the cut is strictly inside a character of a frame's payload: the pieces are
  decoded on their own, so the payload is wrong;
* `EndsEmpty` — the cut is right behind a frame without payload: the loop of `read` has
  ended before it looked at that frame, so its message is late.

`run_stream` says what the decoder has delivered after any events, and `delivered_iff` that
this is `deliveredBy` exactly when neither kind of cut occurred.
-/

/-- The bytes of a list of frames. -/
def streamBytes (fs : List Frame) : List UInt8 := fs.flatMap Frame.bytes

/-- The messages of the frames whose last byte is among the first `n` bytes. -/
def deliveredBy (offset : Option Nat) : List Frame → Nat → List Message
  | [], _ => []
  | f :: fs, n =>
    if f.bytes.length ≤ n then f.message offset :: deliveredBy offset fs (n - f.bytes.length)
    else []

/-- Position `k` is strictly inside a character of the payload of a frame. -/
def SplitsChar (fs : List Frame) (k : Nat) : Prop :=
  ∃ pre f post, fs = pre ++ f :: post ∧ (streamBytes pre).length ≤ k ∧
    f.SplitsAt (k - (streamBytes pre).length)

/-- Position `k` is the end of a frame without payload. -/
def EndsEmpty (fs : List Frame) (k : Nat) : Prop :=
  ∃ pre f post, fs = pre ++ f :: post ∧ f.text = [] ∧ k = (streamBytes (pre ++ [f])).length

/-- As `SplitsChar`, for a frame that ends within the first `n` bytes. -/
def SplitsDelivered (fs : List Frame) (n k : Nat) : Prop :=
  ∃ pre f post, fs = pre ++ f :: post ∧ (streamBytes (pre ++ [f])).length ≤ n ∧
    (streamBytes pre).length ≤ k ∧ f.SplitsAt (k - (streamBytes pre).length)

@[simp] theorem streamBytes_nil : streamBytes [] = [] := rfl

theorem streamBytes_cons (f : Frame) (fs : List Frame) :
    streamBytes (f :: fs) = f.bytes ++ streamBytes fs := List.flatMap_cons

theorem streamBytes_append (fs gs : List Frame) :
    streamBytes (fs ++ gs) = streamBytes fs ++ streamBytes gs := List.flatMap_append

theorem Frame.length_bytes_pos (f : Frame) : 0 < f.bytes.length := by
  rw [f.length_bytes]
  omega

/-! ### Peeling the first frame off -/

theorem splitsDelivered_cons (f : Frame) (fs : List Frame) (n k : Nat) :
    SplitsDelivered (f :: fs) n k ↔ f.bytes.length ≤ n ∧
      (f.SplitsAt k ∨ (f.bytes.length ≤ k ∧
        SplitsDelivered fs (n - f.bytes.length) (k - f.bytes.length))) := by
  constructor
  · rintro ⟨pre, g, post, heq, hn, hk, hsplit⟩
    cases pre with
    | nil =>
      cases heq
      rw [List.nil_append, streamBytes_cons, streamBytes_nil, List.append_nil] at hn
      exact ⟨hn, Or.inl hsplit⟩
    | cons p pre =>
      obtain ⟨rfl, rfl⟩ := List.cons.inj heq
      rw [List.cons_append, streamBytes_cons, List.length_append] at hn
      rw [streamBytes_cons, List.length_append] at hk hsplit
      refine ⟨by omega, Or.inr ⟨by omega, pre, g, post, rfl, by omega, by omega, ?_⟩⟩
      rwa [Nat.sub_sub]
  · -- a split of the first frame, or of a later one as seen from behind the first
    rintro ⟨hn, hsplit | ⟨hk, pre, g, post, rfl, hn', hk', hsplit⟩⟩
    · refine ⟨[], f, fs, rfl, ?_, Nat.zero_le _, hsplit⟩
      rwa [List.nil_append, streamBytes_cons, streamBytes_nil, List.append_nil]
    · refine ⟨f :: pre, g, post, rfl, ?_, ?_, ?_⟩
      · rw [List.cons_append, streamBytes_cons, List.length_append]
        omega
      · rw [streamBytes_cons, List.length_append]
        omega
      · rwa [streamBytes_cons, List.length_append, ← Nat.sub_sub]

theorem endsEmpty_cons (f : Frame) (fs : List Frame) (k : Nat) :
    EndsEmpty (f :: fs) k ↔ (f.text = [] ∧ k = f.bytes.length) ∨
      (f.bytes.length ≤ k ∧ EndsEmpty fs (k - f.bytes.length)) := by
  constructor
  · rintro ⟨pre, g, post, heq, htext, hk⟩
    cases pre with
    | nil =>
      cases heq
      rw [List.nil_append, streamBytes_cons, streamBytes_nil, List.append_nil] at hk
      exact Or.inl ⟨htext, hk⟩
    | cons p pre =>
      obtain ⟨rfl, rfl⟩ := List.cons.inj heq
      rw [List.cons_append, streamBytes_cons, List.length_append] at hk
      exact Or.inr ⟨by omega, pre, g, post, rfl, htext, by omega⟩
  · rintro (⟨htext, hk⟩ | ⟨hk, pre, g, post, rfl, htext, hk'⟩)
    · refine ⟨[], f, fs, rfl, htext, ?_⟩
      rwa [List.nil_append, streamBytes_cons, streamBytes_nil, List.append_nil]
    · refine ⟨f :: pre, g, post, rfl, htext, ?_⟩
      rw [List.cons_append, streamBytes_cons, List.length_append]
      omega

/-- An empty frame ends after its header, not at the start of the stream. -/
theorem not_endsEmpty_zero (fs : List Frame) : ¬ EndsEmpty fs 0 := by
  rintro ⟨pre, f, post, -, -, hk⟩
  have := f.length_bytes_pos
  rw [streamBytes_append, streamBytes_cons, streamBytes_nil, List.append_nil,
    List.length_append] at hk
  omega

/-- The cuts that matter in a frame and in what follows it. -/
theorem allCuts_splitsDelivered_cons (f : Frame) (fs : List Frame)
    {e₁ e₂ : List (Option UInt8)} (h₁ : e₁.reduceOption = f.bytes) :
    AllCuts (fun k => ¬ SplitsDelivered (f :: fs) (e₁ ++ e₂).reduceOption.length k) (e₁ ++ e₂) ↔
      AllCuts (fun k => ¬ f.SplitsAt k) e₁ ∧
        AllCuts (fun k => ¬ SplitsDelivered fs e₂.reduceOption.length k) e₂ := by
  have hn : (e₁ ++ e₂).reduceOption.length = f.bytes.length + e₂.reduceOption.length := by
    rw [List.reduceOption_append, List.length_append, h₁]
  rw [hn, allCuts_append, h₁]
  constructor
  · rintro ⟨h₁', h₂'⟩
    refine ⟨h₁'.mono fun k _ hk hsplit => hk ?_, h₂'.mono fun k _ hk hsplit => hk ?_⟩
    · exact (splitsDelivered_cons f fs _ k).mpr ⟨by omega, Or.inl hsplit⟩
    · rw [splitsDelivered_cons, Nat.add_sub_cancel_left, Nat.add_sub_cancel]
      exact ⟨by omega, Or.inr ⟨by omega, hsplit⟩⟩
  · rintro ⟨h₁', h₂'⟩
    refine ⟨h₁'.mono fun k hle hk hsplit => ?_, h₂'.mono fun k _ hk hsplit => ?_⟩
    · rcases ((splitsDelivered_cons f fs _ k).mp hsplit).2 with h | ⟨hge, pre, g, post, -, -, -, h⟩
      · exact hk h
      · -- the end of the frame is no position inside a later one
        rw [h₁] at hle
        have := h.1
        omega
    · rw [splitsDelivered_cons, Nat.add_sub_cancel_left, Nat.add_sub_cancel] at hsplit
      rcases hsplit.2 with h | ⟨-, h⟩
      · have := h.2.lt_length
        rw [f.length_bytes] at this
        omega
      · exact hk h

/-! ### The decoder on a stream -/

/-- What the decoder has delivered after some events, up to the messages still `pending`. -/
structure StreamOutcome (offset : Option Nat) (fs : List Frame) (owed : List Message)
    (e : List (Option UInt8)) (out actual pending : List Message) : Prop where
  messages : out ++ pending = owed ++ actual
  length_eq : actual.length = (deliveredBy offset fs e.reduceOption.length).length
  actual_iff : actual = deliveredBy offset fs e.reduceOption.length ↔
    AllCuts (fun k => ¬ SplitsDelivered fs e.reduceOption.length k) e
  pending_iff : pending = [] ↔
    ¬ (e.reduceOption = [] ∧ owed ≠ []) ∧ ¬ EndsEmpty fs e.reduceOption.length

/-- Before the first byte nothing happens. -/
private theorem streamOutcome_nil {offset : Option Nat} {c : Cursor} {owed : List Message}
    (h : Idle offset c owed) (fs : List Frame) {e : List (Option UInt8)}
    (he : e.reduceOption = []) :
    StreamOutcome offset fs owed e (c.run e).2 [] owed := by
  obtain ⟨c', hrun, -⟩ := h.run_nil he
  have hzero : e.reduceOption.length = 0 := by rw [he, List.length_nil]
  have hnone : deliveredBy offset fs 0 = [] := by
    cases fs with
    | nil => rfl
    | cons f fs => exact if_neg (by have := f.length_bytes_pos; omega)
  refine ⟨by rw [hrun, List.append_nil]; rfl, by rw [hzero, hnone], ?_, ?_⟩
  · rw [hzero, hnone]
    refine iff_of_true rfl (allCuts_of_forall ?_)
    rintro k - ⟨pre, f, post, -, hn, -⟩
    have := f.length_bytes_pos
    rw [streamBytes_append, streamBytes_cons, streamBytes_nil, List.append_nil,
      List.length_append] at hn
    omega
  · rw [hzero]
    simp [he, not_endsEmpty_zero]

/-- An incomplete frame delivers nothing of its own. -/
private theorem streamOutcome_incomplete {offset : Option Nat} {c : Cursor} {owed : List Message}
    (h : Idle offset c owed) (fs : List Frame) {e : List (Option UInt8)}
    (hinc : Incomplete e.reduceOption) (hne : e.reduceOption ≠ [])
    (hshort : ∀ f ∈ fs.head?, e.reduceOption.length < f.bytes.length) :
    StreamOutcome offset fs owed e (c.run e).2 [] [] := by
  have hnone : deliveredBy offset fs e.reduceOption.length = [] := by
    cases fs with
    | nil => rfl
    | cons f fs => exact if_neg (Nat.not_le.mpr (hshort f rfl))
  have hlong (pre : List Frame) (f : Frame) (post : List Frame) (heq : fs = pre ++ f :: post) :
      e.reduceOption.length < (streamBytes (pre ++ [f])).length := by
    cases pre with
    | nil =>
      rw [List.nil_append, streamBytes_cons, streamBytes_nil, List.append_nil]
      exact hshort f (by rw [heq]; rfl)
    | cons g pre =>
      have := hshort g (by rw [heq]; rfl)
      rw [List.cons_append, streamBytes_cons, List.length_append]
      omega
  refine ⟨by rw [h.run_incomplete hinc hne], by rw [hnone], ?_, ?_⟩
  · rw [hnone]
    refine iff_of_true rfl (allCuts_of_forall ?_)
    rintro k - ⟨pre, f, post, heq, hn, -⟩
    have := hlong pre f post heq
    omega
  · refine iff_of_true rfl ⟨fun h => hne h.1, ?_⟩
    rintro ⟨pre, f, post, heq, -, hk⟩
    have := hlong pre f post heq
    omega

/-- A frame, then the rest of the stream. -/
private theorem streamOutcome_frame {offset : Option Nat} {f : Frame} {fs : List Frame}
    {owed owed' out out' actual pending : List Message} {payload : JsString}
    {e₁ e₂ : List (Option UInt8)} (h₁ : e₁.reduceOption = f.bytes)
    (hf : FrameOutcome f offset e₁ out owed' payload)
    (hs : StreamOutcome offset fs owed' e₂ out' actual pending) :
    StreamOutcome offset (f :: fs) owed (e₁ ++ e₂) (owed ++ out ++ out')
      (f.messageWith offset payload :: actual) pending := by
  have hn : (e₁ ++ e₂).reduceOption.length = f.bytes.length + e₂.reduceOption.length := by
    rw [List.reduceOption_append, List.length_append, h₁]
  have hpos := f.length_bytes_pos
  have hdel : deliveredBy offset (f :: fs) (e₁ ++ e₂).reduceOption.length
      = f.message offset :: deliveredBy offset fs e₂.reduceOption.length := by
    rw [hn, deliveredBy, if_pos (by omega), Nat.add_sub_cancel_left]
  refine ⟨?_, ?_, ?_, ?_⟩
  · calc owed ++ out ++ out' ++ pending
        = owed ++ (out ++ (out' ++ pending)) := by simp only [List.append_assoc]
      _ = owed ++ ((out ++ owed') ++ actual) := by rw [hs.messages, List.append_assoc]
      _ = owed ++ (f.messageWith offset payload :: actual) := by rw [hf.messages]; rfl
  · rw [hdel, List.length_cons, List.length_cons, hs.length_eq]
  · have hmsg : f.messageWith offset payload = f.message offset ↔ payload = utf16 f.text := by
      simp [Frame.message, Frame.messageWith]
    rw [allCuts_splitsDelivered_cons f fs h₁, hdel, List.cons.injEq, hmsg, hf.payload_iff,
      hs.actual_iff]
  · -- an empty frame is owed until the next byte comes
    have hend : EndsEmpty (f :: fs) (e₁ ++ e₂).reduceOption.length ↔
        (e₂.reduceOption = [] ∧ owed' ≠ []) ∨ EndsEmpty fs e₂.reduceOption.length := by
      rw [endsEmpty_cons, hn, Nat.add_sub_cancel_left, Ne, hf.owed_iff, not_not, and_comm]
      refine or_congr (and_congr ⟨fun h => ?_, fun h => ?_⟩ Iff.rfl)
        (and_iff_right (Nat.le_add_right _ _))
      · exact List.eq_nil_of_length_eq_zero (by omega)
      · rw [h]
        rfl
    have hne : (e₁ ++ e₂).reduceOption ≠ [] := List.ne_nil_of_length_pos (by omega)
    rw [hs.pending_iff, hend, not_or]
    exact (and_iff_right fun h => hne h.1).symm

/-- **A stream, cut anywhere.** -/
theorem Idle.run_stream {offset : Option Nat} {c : Cursor} {owed : List Message}
    (h : Idle offset c owed) (fs : List Frame) {e : List (Option UInt8)} {rest tail : List UInt8}
    (he : e.reduceOption ++ rest = streamBytes fs ++ tail) (htail : Incomplete tail) :
    ∃ actual pending, StreamOutcome offset fs owed e (c.run e).2 actual pending := by
  induction fs generalizing c owed e with
  | nil =>
    by_cases hne : e.reduceOption = []
    · exact ⟨[], owed, streamOutcome_nil h [] hne⟩
    · rw [streamBytes_nil, List.nil_append] at he
      rw [← he] at htail
      exact ⟨[], [], streamOutcome_incomplete h [] htail.of_prefix hne (by simp)⟩
  | cons f fs ih =>
    by_cases hne : e.reduceOption = []
    · exact ⟨[], owed, streamOutcome_nil h _ hne⟩
    rw [streamBytes_cons, List.append_assoc] at he
    by_cases hlt : e.reduceOption.length < f.bytes.length
    · -- the frame is not complete yet
      obtain ⟨ys, hys⟩ := List.prefix_of_prefix_length_le (List.prefix_append _ rest)
        (he ▸ List.prefix_append f.bytes _) (Nat.le_of_lt hlt)
      have hne' : ys ≠ [] := by
        rintro rfl
        rw [List.append_nil] at hys
        rw [hys] at hlt
        exact Nat.lt_irrefl _ hlt
      exact ⟨[], [], streamOutcome_incomplete h _ (f.incomplete_of_prefix hys hne') hne
        (by simpa using hlt)⟩
    · obtain ⟨xs, hxs⟩ := List.prefix_of_prefix_length_le (he ▸ List.prefix_append f.bytes _)
        (List.prefix_append e.reduceOption rest) (Nat.not_lt.mp hlt)
      obtain ⟨e₁, e₂, rfl, h₁, h₂⟩ := events_split hxs.symm
      rw [List.reduceOption_append, h₁, List.append_assoc] at he
      have he := List.append_cancel_left he
      obtain ⟨c', out, owed', payload, hrun, hidle, hf⟩ := h.run_frame f h₁
      obtain ⟨actual, pending, hs⟩ := ih hidle he
      refine ⟨f.messageWith offset payload :: actual, pending, ?_⟩
      rw [Cursor.run_append, hrun]
      exact streamOutcome_frame h₁ hf hs

/-- **What has been delivered is what is due** exactly when no character was split and the
    last byte did not end an empty frame. -/
theorem Idle.delivered_iff {offset : Option Nat} {c : Cursor} (h : Idle offset c [])
    (fs : List Frame) {e : List (Option UInt8)} {rest tail : List UInt8}
    (he : e.reduceOption ++ rest = streamBytes fs ++ tail) (htail : Incomplete tail) :
    (c.run e).2 = deliveredBy offset fs e.reduceOption.length ↔
      AllCuts (fun k => ¬ SplitsDelivered fs e.reduceOption.length k) e ∧
        ¬ EndsEmpty fs e.reduceOption.length := by
  obtain ⟨actual, pending, hs⟩ := h.run_stream fs he htail
  have hpend : pending = [] ↔ ¬ EndsEmpty fs e.reduceOption.length := by
    rw [hs.pending_iff]
    simp
  have hmsg : (c.run e).2 ++ pending = actual := hs.messages
  rw [← hs.actual_iff, ← hpend]
  constructor
  · intro hdel
    -- as many messages are out as are due, so none is pending
    have hlen := congrArg List.length hmsg
    rw [List.length_append, hdel, hs.length_eq] at hlen
    have hp : pending = [] := List.eq_nil_of_length_eq_zero (by omega)
    rw [hp, List.append_nil, hdel] at hmsg
    exact ⟨hmsg.symm, hp⟩
  · rintro ⟨hact, hp⟩
    rw [hp, List.append_nil] at hmsg
    rw [hmsg, hact]

/-! ### Chunks -/

/-- After each call of `read` the messages delivered so far are those of the frames whose last
    byte has been fed. -/
def DeliversDue (rb : List UInt8) (p : Parser) (seen : List Message) (fs : List Frame)
    (chunks : List (List UInt8)) : Prop :=
  ∀ fed rest, chunks = fed ++ rest → ∃ p', Parser.readAll rb p seen fed
    = some (p', seen ++ deliveredBy p.message.offset fs fed.flatten.length)

/-- What `readAll` has delivered, as the cursor's messages. -/
private theorem readAll_delivers_iff {rb : List UInt8} {chunks : List (List UInt8)}
    (hchunks : ∀ c ∈ chunks, Chunk rb c) {p : Parser} (hp : p.position = 0)
    (seen ms : List Message) :
    (∃ p', Parser.readAll rb p seen chunks = some (p', seen ++ ms)) ↔
      (p.cursor.run (ofChunks chunks)).2 = ms := by
  obtain ⟨p₁, -, -, hread⟩ := readAll_eq_run hchunks (Parser.wf_of_lt (p := p) (by omega)) seen
  rw [hread]
  constructor
  · rintro ⟨p', heq⟩
    have h := (Prod.mk.inj (Option.some.inj heq)).2
    exact List.append_cancel_left h
  · rintro rfl
    exact ⟨p₁, rfl⟩

/-- A call by call account of a stream. -/
private theorem deliversDue_iff {rb : List UInt8} {chunks : List (List UInt8)}
    (hchunks : ∀ c ∈ chunks, Chunk rb c) {fs : List Frame} {tail : List UInt8}
    (htail : Incomplete tail) (hstream : chunks.flatten = streamBytes fs ++ tail) {p : Parser}
    (hp : p.position = 0) (seen : List Message) :
    DeliversDue rb p seen fs chunks ↔ ∀ fed rest, chunks = fed ++ rest →
      AllCuts (fun k => ¬ SplitsDelivered fs fed.flatten.length k) (ofChunks fed) ∧
        ¬ EndsEmpty fs fed.flatten.length := by
  refine forall_congr' fun fed => forall_congr' fun rest => imp_congr_right fun heq => ?_
  have hidle := idle_start hp
  have hflat : (ofChunks fed).reduceOption = fed.flatten := reduceOption_ofChunks fed
  have hbytes : (ofChunks fed).reduceOption ++ rest.flatten = streamBytes fs ++ tail := by
    rw [hflat, ← List.flatten_append, ← heq, hstream]
  have hdel := hidle.delivered_iff fs hbytes htail
  rw [hflat] at hdel
  rw [readAll_delivers_iff (fun c hc => hchunks c (heq ▸ List.mem_append_left _ hc)) hp, hdel]

/-- A character of a frame that is split is split for good. -/
private theorem SplitsChar.delivered {fs : List Frame} {n k : Nat} (h : SplitsChar fs k)
    (hn : (streamBytes fs).length ≤ n) : SplitsDelivered fs n k := by
  obtain ⟨pre, f, post, rfl, hk, hsplit⟩ := h
  refine ⟨pre, f, post, rfl, ?_, hk, hsplit⟩
  rw [List.append_cons, streamBytes_append, List.length_append] at hn
  omega

private theorem SplitsDelivered.splitsChar {fs : List Frame} {n k : Nat}
    (h : SplitsDelivered fs n k) : SplitsChar fs k := by
  obtain ⟨pre, f, post, heq, -, hk, hsplit⟩ := h
  exact ⟨pre, f, post, heq, hk, hsplit⟩

/-- No chunk of the list ends inside a character of a payload or behind an empty frame. -/
def CutsCleanly (fs : List Frame) (chunks : List (List UInt8)) : Prop :=
  ∀ pre c post, chunks = pre ++ c :: post →
    ¬ SplitsChar fs (pre ++ [c]).flatten.length ∧ ¬ EndsEmpty fs (pre ++ [c]).flatten.length

/-- Clean cuts lose nothing. -/
theorem deliversDue_of_cutsCleanly {rb : List UInt8} {chunks : List (List UInt8)}
    (hchunks : ∀ c ∈ chunks, Chunk rb c) {fs : List Frame} {tail : List UInt8}
    (htail : Incomplete tail) (hstream : chunks.flatten = streamBytes fs ++ tail) {p : Parser}
    (hp : p.position = 0) (seen : List Message) (hclean : CutsCleanly fs chunks) :
    DeliversDue rb p seen fs chunks := by
  rw [deliversDue_iff hchunks htail hstream hp]
  intro fed rest heq
  constructor
  · rw [allCuts_ofChunks]
    rintro pre c post rfl hsplit
    exact (hclean pre c (post ++ rest) (by rw [heq, List.append_assoc]; rfl)).1 hsplit.splitsChar
  · rcases List.eq_nil_or_concat fed with rfl | ⟨pre, c, rfl⟩
    · exact not_endsEmpty_zero fs
    · rw [List.concat_eq_append] at heq ⊢
      exact (hclean pre c rest (by rw [heq, List.append_assoc]; rfl)).2

/-- **The decoder meets its stream specification exactly on clean cuts**: after each call the
    messages delivered are those of the frames whose last byte has been fed, each with the
    decoding of its whole payload, if and only if no chunk ends strictly inside a character of
    a payload or right behind a frame of length 0. -/
theorem read_meets_stream_spec_iff {rb : List UInt8} {chunks : List (List UInt8)}
    (hchunks : ∀ c ∈ chunks, Chunk rb c) {fs : List Frame} {tail : List UInt8}
    (htail : Incomplete tail) (hstream : chunks.flatten = streamBytes fs ++ tail) {p : Parser}
    (hp : p.position = 0) (seen : List Message) :
    DeliversDue rb p seen fs chunks ↔ CutsCleanly fs chunks := by
  refine ⟨fun hdue pre c post heq => ?_, deliversDue_of_cutsCleanly hchunks htail hstream hp seen⟩
  rw [deliversDue_iff hchunks htail hstream hp] at hdue
  refine ⟨fun hsplit => ?_, (hdue (pre ++ [c]) post (by rw [heq, List.append_assoc]; rfl)).2⟩
  -- after the last chunk the frame has been delivered
  have hall := (hdue chunks [] (List.append_nil _).symm).1
  rw [allCuts_ofChunks] at hall
  refine hall pre c post heq (hsplit.delivered ?_)
  rw [hstream, List.length_append]
  omega

/-- A frame whose text is one two-byte character. -/
def acuteFrame : Frame := ⟨1, 2, ['é'], by decide, by decide⟩

/-- Cut inside its length and in front of its text, the frame is delivered as it is due. -/
theorem read_meets_stream_spec_iff_acute :
    DeliversDue (List.replicate 8 0) {} [] [acuteFrame] [[1, 2, 0], [2], [0xC3, 0xA9]] := by
  have hchunks : ∀ c ∈ [[1, 2, 0], [2], [0xC3, 0xA9]], Chunk (List.replicate 8 0) c := by
    intro c hc
    simp only [List.mem_cons, List.not_mem_nil, or_false] at hc
    obtain rfl | rfl | rfl := hc
    all_goals exact ⟨by decide, by decide, by decide⟩
  -- only the fifth byte is inside the character
  have hsplit : ∀ k, SplitsChar [acuteFrame] k → k = 5 := by
    rintro k ⟨fpre, f, fpost, heq, -, hfour, hin⟩
    cases fpre with
    | cons g fpre => exact absurd (List.cons.inj heq).2 (by simp)
    | nil =>
      cases heq
      obtain ⟨hlo, hhi⟩ | ⟨-, hin⟩ := (inside_cons 'é' [] _).mp hin
      · have htwo : (String.utf8EncodeChar 'é').length = 2 := by decide
        simp only [streamBytes_nil, List.length_nil] at hfour hlo hhi
        omega
      · exact absurd hin (not_inside_nil _)
  have hempty : ∀ k, ¬ EndsEmpty [acuteFrame] k := by
    rintro k ⟨fpre, f, fpost, heq, htext, -⟩
    have hf : f ∈ [acuteFrame] := heq ▸ List.mem_append_right _ List.mem_cons_self
    obtain rfl := List.mem_singleton.mp hf
    contradiction
  have hnone : Incomplete [] := Or.inl (by decide)
  refine (read_meets_stream_spec_iff hchunks hnone (by decide) rfl []).mpr ?_
  intro pre c post heq
  refine ⟨fun h => ?_, hempty _⟩
  have hfive := hsplit _ h
  -- the chunks end behind three, four and six bytes
  rcases pre with _ | ⟨x, _ | ⟨y, _ | ⟨z, pre⟩⟩⟩
  · cases heq
    contradiction
  · cases heq
    contradiction
  · cases heq
    contradiction
  · simp at heq

/-- **Cut between its two bytes, the character is lost**: both pieces decode to U+FFFD. -/
theorem not_deliversDue_split_char :
    (∀ c ∈ [[1, 2, 0, 2, 0xC3], [0xA9]], Chunk (List.replicate 8 0) c) ∧
      [[1, 2, 0, 2, 0xC3], [0xA9]].flatten = streamBytes [acuteFrame] ++ [] ∧
      ¬ DeliversDue (List.replicate 8 0) {} [] [acuteFrame] [[1, 2, 0, 2, 0xC3], [0xA9]] := by
  refine ⟨?_, by decide, fun h => ?_⟩
  · intro c hc
    rcases List.mem_cons.mp hc with rfl | hc
    · exact ⟨by decide, by decide, by decide⟩
    · obtain rfl := List.mem_singleton.mp hc
      exact ⟨by decide, by decide, by decide⟩
  · obtain ⟨p', hp'⟩ := h [[1, 2, 0, 2, 0xC3], [0xA9]] [] rfl
    have hread : (Parser.readAll (List.replicate 8 0) {} [] [[1, 2, 0, 2, 0xC3], [0xA9]]).map
        (fun r => r.2.map Message.payload) = some [some [0xFFFD, 0xFFFD]] := by decide
    rw [hp'] at hread
    have hpay : (deliveredBy none [acuteFrame] 6).map Message.payload = [some [0xFFFD, 0xFFFD]] :=
      Option.some.inj hread
    exact absurd hpay (by decide)

end Dv8.Ipc
