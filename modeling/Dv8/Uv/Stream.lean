import Dv8.Lib.Bytes

namespace Dv8.Uv

/-!
# The write side of a libuv stream

A stream keeps the write requests that are not finished (`writeQueue`), those that are but
have not been reported (`completed`), and the number of bytes both still hold
(`writeQueueSize`).  What a system call answers is an `Answer`; the bytes the kernel
took are collected in `sent`.

* `uvWrite` appends a request, and attempts the head of the queue when the size was zero;
* `tryWrite` refuses with `UV_EAGAIN` while the size is not zero; otherwise it queues a
  temporary request, attempts the head of the queue and takes the request out again;
* `write1` is `uv__write`: one attempt at the head, which may finish that request.

`write1_cases`, `uvWrite_cases` and `tryWrite_cases` say what each can do; what a client
uses is that none of them touches the flags (`SameFlags`), that `writeQueueSize` stays
the number of bytes the unreported requests hold (`Accounted`), and that without an
error the bytes taken and queued only grow at their end (`output`).
-/

/-- `UV_EAGAIN`. -/
def EAGAIN : Int := -11
/-- `UV_ENOSYS`. -/
def ENOSYS : Int := -38
/-- `UV_EBADF`. -/
def EBADF : Int := -9
/-- `UV_EPIPE`. -/
def EPIPE : Int := -32
/-- `UV_ECANCELED`. -/
def ECANCELED : Int := -125
/-- `UV_ENOTCONN`. -/
def ENOTCONN : Int := -107
/-- `UV_EINVAL`. -/
def EINVAL : Int := -22

/-- The most bytes one system call transfers. -/
def maxRwCount : Nat := 0x7FFFF000

/-- What `write(2)` answers: bytes taken, a transient error, or `errno`. -/
inductive Answer where
  | wrote (n : Nat)
  | again
  | failed (errno : Nat)
  deriving DecidableEq, Repr

/-- The answers the kernel can give to a write of `len` bytes. -/
def Answer.Valid (len : Nat) : Answer → Prop
  | .wrote n => n ≤ len ∧ n ≤ maxRwCount
  | .again => True
  | .failed errno => 0 < errno ∧ errno ≠ 11

instance (len : Nat) (a : Answer) : Decidable (a.Valid len) := by
  cases a <;> unfold Answer.Valid <;> infer_instance

/-- The answer is an error of the transport. -/
def Answer.isError : Answer → Bool
  | .failed _ => true
  | _ => false

/-- A `write_req_t`: the copy of the caller's bytes, how many of them have been written, and
    the status it will be reported with. -/
structure WriteReq where
  buf : List UInt8
  written : Nat := 0
  error : Int := 0
  deriving DecidableEq, Repr

/-- The bytes of a request that have not been written. -/
def WriteReq.left (r : WriteReq) : List UInt8 := r.buf.drop r.written

/-- The part of `uv_stream_t` that writing, reading and closing look at. -/
structure Stream where
  writeQueue : List WriteReq := []
  completed : List WriteReq := []
  writeQueueSize : Nat := 0
  /-- `UV_HANDLE_CLOSING` -/
  closing : Bool := false
  /-- `UV_HANDLE_CLOSED` -/
  closed : Bool := false
  /-- `UV_HANDLE_READABLE` -/
  readable : Bool := true
  /-- `UV_HANDLE_WRITABLE` -/
  writable : Bool := true
  /-- `UV_HANDLE_READING` -/
  reading : Bool := true
  /-- `UV_HANDLE_SHUTTING`, a pending `shutdown_req` -/
  shutting : Bool := false
  /-- `UV_HANDLE_SHUT` -/
  shut : Bool := false
  /-- what the kernel has taken -/
  sent : List UInt8 := []
  deriving DecidableEq, Repr

/-- `uv__write`: one attempt at the head of the queue.  The file descriptor must be open. -/
def Stream.write1 (h : Stream) (a : Answer) : Option Stream :=
  if h.closing then none
  else
    match h.writeQueue with
    | [] => some h
    | r :: rest =>
      if a.Valid r.left.length then
        match a with
        | .again => some h
        | .failed errno =>
          some { h with writeQueue := rest
                        completed := h.completed ++ [{ r with error := -(errno : Int) }] }
        | .wrote n =>
          let r' := { r with written := r.written + n }
          let h := { h with sent := h.sent ++ r.left.take n
                            writeQueueSize := h.writeQueueSize - n }
          if r'.left = [] then
            some { h with writeQueue := rest, completed := h.completed ++ [r'] }
          else some { h with writeQueue := r' :: rest }
      else none

/-- `uv_write`: the stream and the status. -/
def Stream.uvWrite (h : Stream) (bytes : List UInt8) (a : Answer) : Option (Stream × Int) :=
  if h.closing then some (h, EBADF)
  else if ¬ h.writable then some (h, EPIPE)
  else
    let h' := { h with writeQueue := h.writeQueue ++ [{ buf := bytes }]
                       writeQueueSize := h.writeQueueSize + bytes.length }
    if h.writeQueueSize = 0 then (h'.write1 a).map fun h' => (h', 0)
    else some (h', 0)

/-- `uv_try_write`.  The temporary request is the head of the queue only when the queue was
    empty; otherwise the attempt goes to a request without bytes.  The request is out of the
    queue again when the call returns. -/
def Stream.tryWrite (h : Stream) (bytes : List UInt8) (a : Answer) : Option (Stream × Int) :=
  if h.writeQueueSize ≠ 0 then some (h, EAGAIN)
  else if h.closing then some (h, EBADF)
  else if ¬ h.writable then some (h, EPIPE)
  else
    match h.writeQueue with
    | [] =>
      if a.Valid bytes.length then
        match a with
        | .wrote n =>
          some ({ h with sent := h.sent ++ bytes.take n },
            if n = 0 ∧ bytes ≠ [] then EAGAIN else n)
        | .again => some (h, if bytes ≠ [] then EAGAIN else 0)
        | .failed errno => some (h, if bytes ≠ [] then -(errno : Int) else 0)
      else none
    | _ :: _ => (h.write1 a).map fun h' => (h', if bytes ≠ [] then EAGAIN else 0)

/-- `uv_shutdown`. -/
def Stream.shutdown (h : Stream) : Stream × Int :=
  if ¬ h.writable ∨ h.shut ∨ h.shutting ∨ h.closing then (h, ENOTCONN)
  else ({ h with shutting := true }, 0)

/-- `uv_read_stop`. -/
def Stream.readStop (h : Stream) : Stream := { h with reading := false }

/-- `uv_read_start`. -/
def Stream.readStart (h : Stream) : Stream × Int :=
  if h.closing then (h, EINVAL)
  else if ¬ h.readable then (h, ENOTCONN)
  else ({ h with reading := true }, 0)

/-- `uv_close` on a handle that is not closing. -/
def Stream.close (h : Stream) : Stream :=
  { h with closing := true, reading := false, readable := false, writable := false }

/-- `uv__write_callbacks` releases the bytes of a request that failed; one that succeeded
    holds none. -/
def Stream.release (h : Stream) (r : WriteReq) : Stream :=
  if r.error ≠ 0 then { h with writeQueueSize := h.writeQueueSize - r.left.length } else h

/-- The start of `uv__stream_destroy`: requests still queued are cancelled. -/
def Stream.flush (h : Stream) : Stream :=
  { h with closed := true, writeQueue := []
           completed := h.completed ++ h.writeQueue.map ({ · with error := ECANCELED }) }

/-! ### What a step can do -/

/-- The stream with a request appended to its queue. -/
def Stream.enqueue (h : Stream) (bytes : List UInt8) : Stream :=
  { h with writeQueue := h.writeQueue ++ [{ buf := bytes }]
           writeQueueSize := h.writeQueueSize + bytes.length }

/-- Writing leaves the state of the descriptor alone. -/
structure SameFlags (h h' : Stream) : Prop where
  closing : h'.closing = h.closing
  closed : h'.closed = h.closed
  writable : h'.writable = h.writable
  reading : h'.reading = h.reading
  shutting : h'.shutting = h.shutting
  shut : h'.shut = h.shut

theorem SameFlags.refl (h : Stream) : SameFlags h h := ⟨rfl, rfl, rfl, rfl, rfl, rfl⟩

theorem SameFlags.trans {h h' h'' : Stream} (p : SameFlags h h') (q : SameFlags h' h'') :
    SameFlags h h'' where
  closing := q.closing.trans p.closing
  closed := q.closed.trans p.closed
  writable := q.writable.trans p.writable
  reading := q.reading.trans p.reading
  shutting := q.shutting.trans p.shutting
  shut := q.shut.trans p.shut

/-- One attempt at the head changes nothing, moves it to the completed requests with an
    error, or takes bytes off it, the last of which complete it. -/
theorem write1_cases {h h' : Stream} {a : Answer} (hw : h.write1 a = some h') :
    h.closing = false ∧
      (h' = h ∨
        (∃ r rest errno, h.writeQueue = r :: rest ∧ a = .failed errno ∧ 0 < errno ∧
          h' = { h with writeQueue := rest
                        completed := h.completed ++ [{ r with error := -(errno : Int) }] }) ∨
        (∃ r rest n, h.writeQueue = r :: rest ∧ a = .wrote n ∧ n ≤ r.left.length ∧
          r.left.drop n = [] ∧
          h' = { h with sent := h.sent ++ r.left.take n
                        writeQueueSize := h.writeQueueSize - n
                        writeQueue := rest
                        completed := h.completed ++ [{ r with written := r.written + n }] }) ∨
        (∃ r rest n, h.writeQueue = r :: rest ∧ a = .wrote n ∧ n ≤ r.left.length ∧
          h' = { h with sent := h.sent ++ r.left.take n
                        writeQueueSize := h.writeQueueSize - n
                        writeQueue := { r with written := r.written + n } :: rest })) := by
  unfold Stream.write1 at hw
  split at hw
  · contradiction
  · rename_i hopen
    refine ⟨by simpa using hopen, ?_⟩
    split at hw
    · cases hw
      exact Or.inl rfl
    · rename_i r rest hq
      split at hw
      · rename_i hvalid
        cases a with
        | again =>
          cases hw
          exact Or.inl rfl
        | failed errno =>
          cases hw
          exact Or.inr (Or.inl ⟨r, rest, errno, hq, rfl, hvalid.1, rfl⟩)
        | wrote n =>
          simp only at hw
          split at hw
          · rename_i hdone
            cases hw
            refine Or.inr (Or.inr (Or.inl ⟨r, rest, n, hq, rfl, hvalid.1, ?_, rfl⟩))
            rw [WriteReq.left, List.drop_drop]
            exact hdone
          · cases hw
            exact Or.inr (Or.inr (Or.inr ⟨r, rest, n, hq, rfl, hvalid.1, rfl⟩))
      · contradiction

/-- `uv_write` refuses, or queues the bytes and possibly attempts the head. -/
theorem uvWrite_cases {h h' : Stream} {bytes : List UInt8} {a : Answer} {status : Int}
    (hw : h.uvWrite bytes a = some (h', status)) :
    (h' = h ∧ (h.closing = true ∨ h.writable = false) ∧ status < 0) ∨
      (status = 0 ∧ h.closing = false ∧
        (h' = h.enqueue bytes ∨ (h.enqueue bytes).write1 a = some h')) := by
  unfold Stream.uvWrite at hw
  split at hw
  · rename_i hc
    cases hw
    exact Or.inl ⟨rfl, Or.inl hc, by decide⟩
  · rename_i hc
    split at hw
    · rename_i hnw
      cases hw
      exact Or.inl ⟨rfl, Or.inr (by simpa using hnw), by decide⟩
    · simp only at hw
      split at hw
      · rw [Option.map_eq_some_iff] at hw
        obtain ⟨h₁, hw, heq⟩ := hw
        cases heq
        exact Or.inr ⟨rfl, by simpa using hc, Or.inr hw⟩
      · cases hw
        exact Or.inr ⟨rfl, by simpa using hc, Or.inl rfl⟩

/-- `uv_try_write` waits, refuses, writes past an empty queue, or serves a queued request. -/
theorem tryWrite_cases {h h' : Stream} {bytes : List UInt8} {a : Answer} {r : Int}
    (hw : h.tryWrite bytes a = some (h', r)) :
    (h' = h ∧ h.writeQueueSize ≠ 0 ∧ r = EAGAIN) ∨
      (h' = h ∧ r < 0 ∧ r ≠ EAGAIN ∧ r ≠ ENOSYS) ∨
      (h.closing = false ∧ h.writable = true ∧
        ((∃ n, a = .wrote n ∧ h.writeQueue = [] ∧ n ≤ bytes.length ∧
            h' = { h with sent := h.sent ++ bytes.take n } ∧
            r = if n = 0 ∧ bytes ≠ [] then EAGAIN else (n : Int)) ∨
          (h' = h ∧ r = if bytes ≠ [] then EAGAIN else 0) ∨
          (∃ errno, a = .failed errno ∧ h' = h ∧ 0 < errno ∧
            r = if bytes ≠ [] then -(errno : Int) else 0) ∨
          (h.writeQueue ≠ [] ∧ h.write1 a = some h' ∧ r = if bytes ≠ [] then EAGAIN else 0))) := by
  unfold Stream.tryWrite at hw
  split at hw
  · rename_i hsize
    cases hw
    -- something is queued, so `uv_try_write` would overtake it
    exact Or.inl ⟨rfl, hsize, rfl⟩
  · split at hw
    · cases hw
      exact Or.inr (Or.inl ⟨rfl, by decide, by decide, by decide⟩)
    · rename_i hc
      split at hw
      · cases hw
        exact Or.inr (Or.inl ⟨rfl, by decide, by decide, by decide⟩)
      · rename_i hnw
        refine Or.inr (Or.inr ⟨by simpa using hc, by simpa using hnw, ?_⟩)
        split at hw
        · rename_i hq
          split at hw
          · rename_i hvalid
            cases a with
            | wrote n =>
              cases hw
              exact Or.inl ⟨n, rfl, hq, hvalid.1, rfl, rfl⟩
            | again =>
              cases hw
              exact Or.inr (Or.inl ⟨rfl, rfl⟩)
            | failed errno =>
              cases hw
              exact Or.inr (Or.inr (Or.inl ⟨errno, rfl, rfl, hvalid.1, rfl⟩))
          · contradiction
        · rename_i r₀ rest hq
          rw [Option.map_eq_some_iff] at hw
          obtain ⟨h₁, hw, heq⟩ := hw
          cases heq
          exact Or.inr (Or.inr (Or.inr ⟨by rw [hq]; exact List.cons_ne_nil _ _, hw, rfl⟩))

/-! ### Flags -/

theorem SameFlags.enqueue (h : Stream) (bytes : List UInt8) : SameFlags h (h.enqueue bytes) :=
  ⟨rfl, rfl, rfl, rfl, rfl, rfl⟩

theorem write1_sameFlags {h h' : Stream} {a : Answer} (hw : h.write1 a = some h') :
    SameFlags h h' := by
  obtain ⟨-, rfl | ⟨_, _, _, -, -, -, rfl⟩ | ⟨_, _, _, -, -, -, -, rfl⟩ | ⟨_, _, _, -, -, -, rfl⟩⟩ :=
    write1_cases hw <;>
  exact ⟨rfl, rfl, rfl, rfl, rfl, rfl⟩

/-- `uv_write` and `uv_try_write` leave a closing handle alone. -/
theorem uvWrite_of_closing {h h' : Stream} {bytes : List UInt8} {a : Answer} {status : Int}
    (hw : h.uvWrite bytes a = some (h', status)) (hc : h.closing = true) : h' = h := by
  obtain ⟨hsame, -⟩ | ⟨-, hopen, -⟩ := uvWrite_cases hw
  · exact hsame
  · rw [hc] at hopen
    contradiction

theorem tryWrite_of_closing {h h' : Stream} {bytes : List UInt8} {a : Answer} {r : Int}
    (hw : h.tryWrite bytes a = some (h', r)) (hc : h.closing = true) : h' = h := by
  obtain ⟨hsame, -⟩ | ⟨hsame, -⟩ | ⟨hopen, -⟩ := tryWrite_cases hw
  · exact hsame
  · exact hsame
  · rw [hc] at hopen
    contradiction

theorem uvWrite_sameFlags {h h' : Stream} {bytes : List UInt8} {a : Answer} {status : Int}
    (hw : h.uvWrite bytes a = some (h', status)) : SameFlags h h' := by
  obtain ⟨rfl, -, -⟩ | ⟨-, -, rfl | hw⟩ := uvWrite_cases hw
  · exact SameFlags.refl _
  · exact SameFlags.enqueue h bytes
  · exact (SameFlags.enqueue h bytes).trans (write1_sameFlags hw)

theorem tryWrite_sameFlags {h h' : Stream} {bytes : List UInt8} {a : Answer} {r : Int}
    (hw : h.tryWrite bytes a = some (h', r)) : SameFlags h h' := by
  obtain ⟨rfl, -, -⟩ | ⟨rfl, -⟩ | ⟨-, -, ⟨n, -, -, -, rfl, -⟩ | ⟨rfl, -⟩ | ⟨_, -, rfl, -, -⟩ |
    ⟨-, hw, -⟩⟩ := tryWrite_cases hw
  · exact SameFlags.refl _
  · exact SameFlags.refl _
  · exact ⟨rfl, rfl, rfl, rfl, rfl, rfl⟩
  · exact SameFlags.refl _
  · exact SameFlags.refl _
  · exact write1_sameFlags hw

/-- `uv_try_write` only writes on an open stream. -/
theorem tryWrite_open {h h' : Stream} {bytes : List UInt8} {a : Answer} {r : Int}
    (hw : h.tryWrite bytes a = some (h', r)) (hr : 0 ≤ r) :
    h'.closing = false ∧ h'.writable = true := by
  have hflags := tryWrite_sameFlags hw
  rw [hflags.closing, hflags.writable]
  obtain ⟨-, -, rfl⟩ | ⟨-, hneg, -⟩ | ⟨hc, hwr, -⟩ := tryWrite_cases hw
  · exact absurd hr (by decide)
  · omega
  · exact ⟨hc, hwr⟩

/-! ### Bytes taken and queued -/

/-- The bytes the kernel took and, behind them, those that are queued. -/
def Stream.output (h : Stream) : List UInt8 := h.sent ++ h.writeQueue.flatMap WriteReq.left

theorem output_enqueue (h : Stream) (bytes : List UInt8) :
    (h.enqueue bytes).output = h.output ++ bytes := by
  simp [Stream.output, Stream.enqueue, WriteReq.left]

/-- The bytes of a request, in front of those an attempt takes. -/
theorem WriteReq.left_written (r : WriteReq) (n : Nat) :
    WriteReq.left { r with written := r.written + n } = r.left.drop n := by
  rw [WriteReq.left, WriteReq.left, List.drop_drop]

/-- Without an error an attempt only moves bytes from the queue to the kernel. -/
theorem write1_output {h h' : Stream} {a : Answer} (hw : h.write1 a = some h')
    (ha : a.isError = false) : h'.output = h.output := by
  obtain ⟨-, rfl | ⟨_, _, _, -, rfl, -, rfl⟩ | ⟨r, rest, n, hq, -, -, hall, rfl⟩ |
    ⟨r, rest, n, hq, -, -, rfl⟩⟩ := write1_cases hw
  · rfl
  · contradiction
  · have htake : r.left.take n = r.left := by
      rw [← List.take_append_drop n r.left, hall, List.append_nil, List.take_take, Nat.min_self]
    simp only [Stream.output, hq, htake, List.flatMap_cons, List.append_assoc]
  · simp only [Stream.output, hq, List.flatMap_cons, WriteReq.left_written]
    rw [List.append_assoc, ← List.append_assoc (r.left.take n), List.take_append_drop]

theorem uvWrite_output {h h' : Stream} {bytes : List UInt8} {a : Answer} {status : Int}
    (hw : h.uvWrite bytes a = some (h', status)) (ha : a.isError = false) :
    h'.output = h.output ++ if status = 0 then bytes else [] := by
  obtain ⟨rfl, -, hneg⟩ | ⟨rfl, -, rfl | hw⟩ := uvWrite_cases hw
  · rw [if_neg (by omega), List.append_nil]
  · rw [if_pos rfl, output_enqueue]
  · rw [if_pos rfl, write1_output hw ha, output_enqueue]

/-- What `uv_try_write` reports as written is what it added. -/
theorem tryWrite_output {h h' : Stream} {bytes : List UInt8} {a : Answer} {r : Int}
    (hw : h.tryWrite bytes a = some (h', r)) (ha : a.isError = false) :
    h'.output = h.output ++ bytes.take r.toNat := by
  have hnone : ∀ k : Int, k = EAGAIN ∨ k = 0 → bytes.take k.toNat = [] := by
    rintro k (rfl | rfl) <;> rfl
  obtain ⟨rfl, -, rfl⟩ | ⟨rfl, hneg, -, -⟩ | ⟨-, -, ⟨n, -, hq, -, rfl, rfl⟩ | ⟨rfl, rfl⟩ |
    ⟨_, rfl, -, -, -⟩ | ⟨-, hhead, rfl⟩⟩ := tryWrite_cases hw
  · rw [hnone _ (Or.inl rfl), List.append_nil]
  · rw [Int.toNat_of_nonpos (by omega), List.take_zero, List.append_nil]
  · -- a direct write: nothing is queued, so nothing is overtaken
    simp only [Stream.output, hq, List.flatMap_nil, List.append_nil]
    split
    · rename_i hzero
      rw [hzero.1, hnone _ (Or.inl rfl), List.take_zero]
    · rfl
  · split
    · rw [hnone _ (Or.inl rfl), List.append_nil]
    · rw [hnone _ (Or.inr rfl), List.append_nil]
  · contradiction
  · rw [write1_output hhead ha]
    split
    · rw [hnone _ (Or.inl rfl), List.append_nil]
    · rw [hnone _ (Or.inr rfl), List.append_nil]

/-! ### Bytes that have been taken -/

/-- What the kernel has taken, it has for good. -/
theorem write1_sent {h h' : Stream} {a : Answer} (hw : h.write1 a = some h') :
    h.sent <+: h'.sent := by
  obtain ⟨-, rfl | ⟨_, _, _, -, -, -, rfl⟩ | ⟨_, _, _, -, -, -, -, rfl⟩ | ⟨_, _, _, -, -, -, rfl⟩⟩ :=
    write1_cases hw
  · exact List.prefix_refl _
  · exact List.prefix_refl _
  · exact List.prefix_append ..
  · exact List.prefix_append ..

theorem uvWrite_sent {h h' : Stream} {bytes : List UInt8} {a : Answer} {status : Int}
    (hw : h.uvWrite bytes a = some (h', status)) : h.sent <+: h'.sent := by
  obtain ⟨rfl, -, -⟩ | ⟨-, -, rfl | hw⟩ := uvWrite_cases hw
  · exact List.prefix_refl _
  · exact List.prefix_refl _
  · have hsent : (h.enqueue bytes).sent <+: h'.sent := write1_sent hw
    exact hsent

theorem tryWrite_sent {h h' : Stream} {bytes : List UInt8} {a : Answer} {r : Int}
    (hw : h.tryWrite bytes a = some (h', r)) : h.sent <+: h'.sent := by
  obtain ⟨rfl, -, -⟩ | ⟨rfl, -⟩ | ⟨-, -, ⟨n, -, -, -, rfl, -⟩ | ⟨rfl, -⟩ | ⟨_, -, rfl, -, -⟩ |
    ⟨-, hw, -⟩⟩ := tryWrite_cases hw
  · exact List.prefix_refl _
  · exact List.prefix_refl _
  · exact List.prefix_append ..
  · exact List.prefix_refl _
  · exact List.prefix_refl _
  · exact write1_sent hw

/-! ### The size of the queue -/

/-- The number of bytes the requests hold. -/
def unwritten (rs : List WriteReq) : Nat := (rs.map fun r => r.left.length).sum

@[simp] theorem unwritten_nil : unwritten [] = 0 := rfl

@[simp] theorem unwritten_cons (r : WriteReq) (rs : List WriteReq) :
    unwritten (r :: rs) = r.left.length + unwritten rs := rfl

@[simp] theorem unwritten_append (rs ts : List WriteReq) :
    unwritten (rs ++ ts) = unwritten rs + unwritten ts := by
  simp [unwritten]

/-- `writeQueueSize` is what the unreported requests hold: `pq`, those libuv is reporting,
    the completed and the queued ones.  One that completed without an error holds nothing. -/
structure Stream.Accounted (h : Stream) (pq : List WriteReq) : Prop where
  size : h.writeQueueSize = unwritten pq + unwritten h.completed + unwritten h.writeQueue
  reported : ∀ r ∈ pq ++ h.completed, r.error = 0 → r.left = []

theorem Stream.Accounted.enqueue {h : Stream} {pq : List WriteReq} (hacc : h.Accounted pq)
    (bytes : List UInt8) : (h.enqueue bytes).Accounted pq where
  size := by
    have := hacc.size
    simp only [Stream.enqueue, unwritten_append, unwritten_cons, unwritten_nil, WriteReq.left,
      List.drop_zero]
    omega
  reported := hacc.reported

/-- Reporting a request keeps the account. -/
theorem Stream.Accounted.release {h : Stream} {r : WriteReq} {pq : List WriteReq}
    (hacc : h.Accounted (r :: pq)) : (h.release r).Accounted pq := by
  have hsize := hacc.size
  have hrep : ∀ q ∈ pq ++ h.completed, q.error = 0 → q.left = [] := fun q hq =>
    hacc.reported q (List.mem_cons_of_mem _ hq)
  rw [unwritten_cons] at hsize
  unfold Stream.release
  split
  · refine ⟨?_, hrep⟩
    show h.writeQueueSize - r.left.length =
      unwritten pq + unwritten h.completed + unwritten h.writeQueue
    omega
  · rename_i hok
    have hnil := hacc.reported r (List.mem_append_left _ List.mem_cons_self) (not_not.mp hok)
    refine ⟨?_, hrep⟩
    rw [hsize, hnil, List.length_nil, Nat.zero_add]

/-- A stream that is destroyed keeps the account. -/
theorem Stream.Accounted.flush {h : Stream} {pq : List WriteReq} (hacc : h.Accounted pq) :
    h.flush.Accounted pq where
  size := by
    have hmap : ∀ rs : List WriteReq,
        unwritten (rs.map ({ · with error := ECANCELED })) = unwritten rs := by
      intro rs
      induction rs with
      | nil => rfl
      | cons r rs ih =>
        rw [List.map_cons, unwritten_cons, unwritten_cons, ih]
        rfl
    have := hacc.size
    simp only [Stream.flush, unwritten_append, hmap, unwritten_nil]
    omega
  reported := by
    intro r hr herr
    rw [Stream.flush, ← List.append_assoc, List.mem_append, List.mem_map] at hr
    obtain hr | ⟨q, -, rfl⟩ := hr
    · exact hacc.reported r hr herr
    · have hcanceled : ECANCELED ≠ 0 := by decide
      exact absurd herr hcanceled

/-- What has completed can be handed over to be reported. -/
theorem Stream.Accounted.handOver {h : Stream} (hacc : h.Accounted []) :
    Stream.Accounted { h with completed := [] } h.completed where
  size := by
    have := hacc.size
    simp only [unwritten_nil] at this ⊢
    omega
  reported := by
    intro r hr
    rw [List.append_nil] at hr
    exact hacc.reported r hr

/-- A request that is completed has been written, unless it failed. -/
private theorem reported_completed {h : Stream} {pq : List WriteReq} (hacc : h.Accounted pq)
    {r : WriteReq} (hr : r.error = 0 → r.left = []) :
    ∀ q ∈ pq ++ (h.completed ++ [r]), q.error = 0 → q.left = [] := by
  intro q hmem herr
  rw [← List.append_assoc, List.mem_append, List.mem_singleton] at hmem
  obtain hmem | rfl := hmem
  · exact hacc.reported q hmem herr
  · exact hr herr

theorem write1_accounted {h h' : Stream} {a : Answer} {pq : List WriteReq}
    (hw : h.write1 a = some h') (hacc : h.Accounted pq) : h'.Accounted pq := by
  have hsize := hacc.size
  obtain ⟨-, rfl | ⟨r, rest, errno, hq, -, hpos, rfl⟩ | ⟨r, rest, n, hq, -, hn, hall, rfl⟩ |
    ⟨r, rest, n, hq, -, hn, rfl⟩⟩ := write1_cases hw
  · exact hacc
  · refine ⟨?_, reported_completed hacc fun herr => ?_⟩
    · simp only [hq, unwritten_cons, unwritten_append, unwritten_nil, WriteReq.left] at hsize ⊢
      omega
    · simp only at herr
      omega
  · have hlen : (r.left.drop n).length = 0 := by rw [hall]; rfl
    rw [List.length_drop] at hlen
    refine ⟨?_, reported_completed hacc fun _ => ?_⟩
    · simp only [hq, unwritten_cons, unwritten_append, unwritten_nil, WriteReq.left_written,
        hall, List.length_nil] at hsize ⊢
      omega
    · rw [WriteReq.left_written, hall]
  · refine ⟨?_, hacc.reported⟩
    simp only [hq, unwritten_cons, WriteReq.left_written, List.length_drop] at hsize ⊢
    omega

theorem uvWrite_accounted {h h' : Stream} {bytes : List UInt8} {a : Answer} {status : Int}
    {pq : List WriteReq} (hw : h.uvWrite bytes a = some (h', status)) (hacc : h.Accounted pq) :
    h'.Accounted pq := by
  obtain ⟨rfl, -, -⟩ | ⟨-, -, rfl | hw⟩ := uvWrite_cases hw
  · exact hacc
  · exact hacc.enqueue bytes
  · exact write1_accounted hw (hacc.enqueue bytes)

theorem tryWrite_accounted {h h' : Stream} {bytes : List UInt8} {a : Answer} {r : Int}
    {pq : List WriteReq} (hw : h.tryWrite bytes a = some (h', r)) (hacc : h.Accounted pq) :
    h'.Accounted pq := by
  obtain ⟨rfl, -, -⟩ | ⟨rfl, -⟩ | ⟨-, -, ⟨n, -, -, -, rfl, -⟩ | ⟨rfl, -⟩ | ⟨_, -, rfl, -, -⟩ |
    ⟨-, hw, -⟩⟩ := tryWrite_cases hw
  · exact hacc
  · exact hacc
  · exact ⟨hacc.size, hacc.reported⟩
  · exact hacc
  · exact hacc
  · exact write1_accounted hw hacc

/-! ### Whether anything is outstanding -/

theorem enqueue_ne_nil (h : Stream) (bytes : List UInt8) :
    (h.enqueue bytes).completed ++ (h.enqueue bytes).writeQueue ≠ [] := by
  simp [Stream.enqueue]

/-- An attempt neither adds nor reports a request. -/
theorem write1_eq_nil_iff {h h' : Stream} {a : Answer} (hw : h.write1 a = some h') :
    h'.completed ++ h'.writeQueue = [] ↔ h.completed ++ h.writeQueue = [] := by
  obtain ⟨-, rfl | ⟨r, rest, _, hq, -, -, rfl⟩ | ⟨r, rest, n, hq, -, -, -, rfl⟩ |
    ⟨r, rest, n, hq, -, -, rfl⟩⟩ := write1_cases hw
  · exact Iff.rfl
  all_goals simp [hq]

theorem uvWrite_ne_nil {h h' : Stream} {bytes : List UInt8} {a : Answer} {status : Int}
    (hw : h.uvWrite bytes a = some (h', status)) (hclosing : h.closing = false)
    (hwritable : h.writable = true) : h'.completed ++ h'.writeQueue ≠ [] := by
  obtain ⟨-, hc | hc, -⟩ | ⟨-, -, rfl | hw⟩ := uvWrite_cases hw
  · rw [hclosing] at hc
    contradiction
  · rw [hwritable] at hc
    contradiction
  · exact enqueue_ne_nil h bytes
  · intro hnil
    exact enqueue_ne_nil h bytes ((write1_eq_nil_iff hw).mp hnil)

theorem tryWrite_eq_nil_iff {h h' : Stream} {bytes : List UInt8} {a : Answer} {r : Int}
    (hw : h.tryWrite bytes a = some (h', r)) :
    h'.completed ++ h'.writeQueue = [] ↔ h.completed ++ h.writeQueue = [] := by
  obtain ⟨rfl, -, -⟩ | ⟨rfl, -⟩ | ⟨-, -, ⟨n, -, -, -, rfl, -⟩ | ⟨rfl, -⟩ | ⟨_, -, rfl, -, -⟩ |
    ⟨-, hw, -⟩⟩ := tryWrite_cases hw
  · exact Iff.rfl
  · exact Iff.rfl
  · exact Iff.rfl
  · exact Iff.rfl
  · exact Iff.rfl
  · exact write1_eq_nil_iff hw

end Dv8.Uv
