import Dv8.Lib.Machine

namespace Dv8.Udp

open Dv8.Lib

/-!
# `UDP::Send` and the send queue of libuv

`UDP::Send` gives libuv the address of the out buffer.  libuv copies the pair of address and
length, not the bytes: a datagram that is not sent at once is read from the buffer when its turn
comes.  `Socket::Write` copies what it queues.

* `UDP.step` — JavaScript, `uv__udp_send`, and `uv__udp_io` with its callbacks;
* `wire_sendmsg` — what one call of `uv__udp_sendmsg` puts on the wire;
* `ownBytes_iff_along` — when every datagram carries the bytes of its own call;
* `along_stillThere_of_untouched` — it does when JavaScript leaves the bytes of queued datagrams
  alone.
-/

/-- An address and a port. -/
structure Addr where
  ip : Nat
  port : Nat
  deriving DecidableEq, Repr

/-- `uv_udp_send_t`: the buffer it points to and the number of bytes.  `id` says which call of
    `send` it belongs to. -/
structure SendReq where
  id : Nat
  base : Nat
  len : Nat
  addr : Addr
  deriving DecidableEq, Repr

/-- What has been put on the wire for a call of `send`. -/
structure Datagram where
  id : Nat
  addr : Addr
  bytes : List UInt8
  deriving DecidableEq, Repr

/-- What `sendmsg(2)` answers.  `EAGAIN`, `EWOULDBLOCK` and `ENOBUFS` end a list of answers. -/
inductive Answer where
  | sent
  | failed (errno : Nat)
  deriving DecidableEq, Repr

/-- A `UDP` object and its handle, the memory of all buffers, and what has happened: the bytes of
    each call of `send` that was accepted, the datagrams on the wire, and the statuses given to
    `onSend`. -/
structure UDP where
  mem : List (List UInt8)
  out : Nat
  writeQueue : List SendReq
  /-- `write_completed_queue`, each request with its status -/
  completed : List (SendReq × Int)
  /-- `send_queue_count` -/
  count : Nat
  /-- `UV_HANDLE_UDP_PROCESSING` -/
  processing : Bool
  inCallback : Bool
  calls : List (List UInt8)
  wire : List Datagram
  reported : List Int
  deriving DecidableEq, Repr

/-- A `UDP` object behind `setup`. -/
def UDP.init (mem : List (List UInt8)) (out : Nat) : UDP :=
  { mem := mem, out := out, writeQueue := [], completed := [], count := 0, processing := false,
    inCallback := false, calls := [], wire := [], reported := [] }

/-- The buffer at an address. -/
def UDP.buffer (u : UDP) (base : Nat) : List UInt8 := u.mem.getD base []

/-- The bytes a request points to. -/
def UDP.bytesOf (u : UDP) (req : SendReq) : List UInt8 := (u.buffer req.base).take req.len

/-- The datagram of a request. -/
def UDP.datagram (u : UDP) (req : SendReq) : Datagram := ⟨req.id, req.addr, u.bytesOf req⟩

/-- `uv__udp_sendmsg` -/
def UDP.sendmsg (u : UDP) : List Answer → UDP
  | [] => u
  | a :: as =>
    match u.writeQueue with
    | [] => u
    | req :: rest =>
      match a with
      | .sent =>
        UDP.sendmsg { u with writeQueue := rest
                             completed := u.completed ++ [(req, (req.len : Int))]
                             wire := u.wire ++ [u.datagram req] } as
      | .failed errno =>
        UDP.sendmsg { u with writeQueue := rest
                             completed := u.completed ++ [(req, -(errno : Int))] } as

/-- `UDP::Send`, with a length inside the out buffer: `uv__udp_send` queues the request, and sends
    it at once when no other is uncompleted. -/
def UDP.send (u : UDP) (len : Nat) (addr : Addr) (as : List Answer) : Option UDP :=
  if len ≤ (u.buffer u.out).length then
    let queued := { u with count := u.count + 1
                           writeQueue := u.writeQueue ++ [⟨u.calls.length, u.out, len, addr⟩]
                           calls := u.calls ++ [(u.buffer u.out).take len] }
    some (if u.count = 0 ∧ u.processing = false then queued.sendmsg as else queued)
  else none

/-- JavaScript can run: not inside libuv, unless in a callback. -/
def UDP.inJs (u : UDP) : Bool := !u.processing || u.inCallback

/-- What can happen. -/
inductive Act where
  /-- `UDP::Setup`, with another buffer -/
  | setup (out : Nat)
  /-- JavaScript writes into a buffer -/
  | fill (base : Nat) (bytes : List UInt8)
  | send (len : Nat) (addr : Addr) (as : List Answer)
  /-- `uv_udp_send` fails before it queues anything -/
  | sendFails
  /-- `uv__udp_io`, up to `uv__udp_run_completed` -/
  | io (as : List Answer)
  /-- `after_send` of the next completed request, up to `onSend` -/
  | afterSend
  /-- `onSend` returns -/
  | ret
  /-- `uv__udp_run_completed` is through -/
  | done
  deriving DecidableEq, Repr

/-- The transitions. -/
def UDP.step (u : UDP) : Act → Option UDP
  | .setup out => if u.inJs ∧ out < u.mem.length then some { u with out := out } else none
  | .fill base bytes =>
    if u.inJs ∧ base < u.mem.length ∧ bytes.length = (u.buffer base).length then
      some { u with mem := u.mem.set base bytes }
    else none
  | .send len addr as => if u.inJs then u.send len addr as else none
  | .sendFails => if u.inJs then some u else none
  | .io as => if u.processing then none else some { u.sendmsg as with processing := true }
  | .afterSend =>
    match u.completed with
    | [] => none
    | (_, status) :: rest =>
      if u.processing ∧ u.inCallback = false then
        some { u with completed := rest, count := u.count - 1, inCallback := true,
                      reported := u.reported ++ [if 0 ≤ status then 0 else status] }
      else none
  | .ret => if u.inCallback then some { u with inCallback := false } else none
  | .done =>
    if u.processing ∧ u.inCallback = false ∧ u.completed = [] then
      some { u with processing := false }
    else none

/-! ### What `uv__udp_sendmsg` does -/

/-- The requests the kernel takes. -/
def taken : List SendReq → List Answer → List SendReq
  | req :: rest, .sent :: as => req :: taken rest as
  | _ :: rest, .failed _ :: as => taken rest as
  | _, _ => []

@[simp] theorem taken_nil_left (as : List Answer) : taken [] as = [] := by
  cases as <;> rfl

/-- What is left as it was. -/
structure SameBuffers (u u' : UDP) : Prop where
  mem : u'.mem = u.mem
  calls : u'.calls = u.calls
  count : u'.count = u.count
  pending : u'.writeQueue.length + u'.completed.length = u.writeQueue.length + u.completed.length
  queue : ∀ req ∈ u'.writeQueue, req ∈ u.writeQueue

theorem SameBuffers.trans {u u' u'' : UDP} (p : SameBuffers u u') (q : SameBuffers u' u'') :
    SameBuffers u u'' where
  mem := q.mem.trans p.mem
  calls := q.calls.trans p.calls
  count := q.count.trans p.count
  pending := q.pending.trans p.pending
  queue req hreq := p.queue req (q.queue req hreq)

/-- A request leaves the queue. -/
theorem sameBuffers_pop {u : UDP} {req : SendReq} {rest : List SendReq} (status : Int)
    (wire : List Datagram) (h : u.writeQueue = req :: rest) :
    SameBuffers u { u with writeQueue := rest, completed := u.completed ++ [(req, status)],
                           wire := wire } where
  mem := rfl
  calls := rfl
  count := rfl
  pending := by
    simp only [h, List.length_cons, List.length_append, List.length_nil]
    omega
  queue r hr := by
    rw [h]
    exact List.mem_cons_of_mem req hr

theorem sameBuffers_sendmsg (u : UDP) (as : List Answer) : SameBuffers u (u.sendmsg as) := by
  induction as generalizing u with
  | nil => exact ⟨rfl, rfl, rfl, rfl, fun _ h => h⟩
  | cons a as ih =>
    unfold UDP.sendmsg
    split
    · exact ⟨rfl, rfl, rfl, rfl, fun _ h => h⟩
    · rename_i req rest hqueue
      cases a with
      | sent => exact (sameBuffers_pop _ _ hqueue).trans (ih _)
      | failed errno => exact (sameBuffers_pop _ _ hqueue).trans (ih _)

/-- **What is put on the wire**: the requests the kernel takes, with the bytes their buffers hold
    now. -/
theorem wire_sendmsg (u : UDP) (as : List Answer) :
    (u.sendmsg as).wire = u.wire ++ (taken u.writeQueue as).map u.datagram := by
  induction as generalizing u with
  | nil =>
    cases u.writeQueue <;> simp [UDP.sendmsg, taken]
  | cons a as ih =>
    unfold UDP.sendmsg
    split
    · rename_i hqueue
      simp [hqueue]
    · rename_i req rest hqueue
      rw [hqueue]
      cases a with
      | sent =>
        simp only [ih, taken, List.map_cons, List.append_assoc, List.singleton_append]
        rfl
      | failed errno =>
        simp only [ih, taken]
        rfl

/-! ### The law, and when it holds -/

/-- Every datagram carries the bytes the out buffer held at its own call of `send`. -/
def UDP.OwnBytes (u : UDP) : Prop := ∀ d ∈ u.wire, u.calls[d.id]? = some d.bytes

/-- The bytes of a request are what they were at its call. -/
def UDP.StillThere (u : UDP) (req : SendReq) : Prop := u.calls[req.id]? = some (u.bytesOf req)

/-- When the event loop sends datagrams that have waited, their bytes are still there. -/
def UDP.SendsStillThere (u : UDP) : Act → Prop
  | .io as => ∀ req ∈ taken u.writeQueue as, u.StillThere req
  | _ => True

/-- What every step keeps. -/
structure UDP.Sane (u : UDP) : Prop where
  count : u.count = u.writeQueue.length + u.completed.length
  ids : ∀ req ∈ u.writeQueue, req.id < u.calls.length

variable {u u' : UDP}

theorem UDP.OwnBytes.sendmsg_iff (h : u.OwnBytes) (as : List Answer) :
    (u.sendmsg as).OwnBytes ↔ ∀ req ∈ taken u.writeQueue as, u.StillThere req := by
  rw [UDP.OwnBytes, (sameBuffers_sendmsg u as).calls, wire_sendmsg]
  constructor
  · intro hall req hreq
    exact hall (u.datagram req) (List.mem_append_right _ (List.mem_map_of_mem hreq))
  · intro hall d hd
    rcases List.mem_append.mp hd with hd | hd
    · exact h d hd
    · obtain ⟨req, hreq, rfl⟩ := List.mem_map.mp hd
      exact hall req hreq

theorem UDP.Sane.sendmsg (h : u.Sane) (as : List Answer) : (u.sendmsg as).Sane := by
  have hsame := sameBuffers_sendmsg u as
  refine ⟨?_, fun req hreq => ?_⟩
  · rw [hsame.count, h.count, hsame.pending]
  · rw [hsame.calls]
    exact h.ids req (hsame.queue req hreq)

/-- The request of a call of `send`, in the queue. -/
def UDP.queued (u : UDP) (len : Nat) (addr : Addr) : UDP :=
  { u with count := u.count + 1
           writeQueue := u.writeQueue ++ [⟨u.calls.length, u.out, len, addr⟩]
           calls := u.calls ++ [(u.buffer u.out).take len] }

/-- What `UDP::Send` can do. -/
theorem UDP.send_cases {len : Nat} {addr : Addr} {as : List Answer}
    (h : u.send len addr as = some u') :
    (u.count = 0 ∧ u' = (u.queued len addr).sendmsg as) ∨ u' = u.queued len addr := by
  obtain ⟨-, h⟩ := Option.ite_none_right_eq_some.mp h
  rw [Option.some.injEq] at h
  subst h
  split
  · rename_i hc
    exact .inl ⟨hc.1, rfl⟩
  · exact .inr rfl

theorem UDP.Sane.queued (h : u.Sane) (len : Nat) (addr : Addr) : (u.queued len addr).Sane := by
  refine ⟨?_, fun req hreq => ?_⟩
  · simp only [UDP.queued, h.count, List.length_append, List.length_singleton]
    omega
  · simp only [UDP.queued, List.length_append, List.length_singleton]
    rcases List.mem_append.mp hreq with hreq | hreq
    · exact Nat.lt_succ_of_lt (h.ids req hreq)
    · rw [List.mem_singleton.mp hreq]
      exact Nat.lt_succ_self _

/-- A new call does not change what older ones are to carry. -/
theorem UDP.OwnBytes.queued (h : u.OwnBytes) (len : Nat) (addr : Addr) :
    (u.queued len addr).OwnBytes := by
  intro d hd
  have hold := h d hd
  obtain ⟨hlt, -⟩ := List.getElem?_eq_some_iff.mp hold
  show (u.calls ++ _)[d.id]? = _
  rw [List.getElem?_append_left hlt, hold]

/-- A datagram that is sent at once is sent from the bytes of its call. -/
theorem UDP.OwnBytes.send (hs : u.Sane) (h : u.OwnBytes) {len : Nat} {addr : Addr}
    {as : List Answer} (hsend : u.send len addr as = some u') : u'.OwnBytes := by
  obtain ⟨hcount, rfl⟩ | rfl := UDP.send_cases hsend
  · apply ((h.queued len addr).sendmsg_iff as).mpr
    intro req hreq
    have hempty : u.writeQueue = [] := by
      apply List.eq_nil_of_length_eq_zero
      have := hs.count
      omega
    -- the request of this call is the only one in the queue
    have hown : req = ⟨u.calls.length, u.out, len, addr⟩ := by
      simp only [UDP.queued, hempty, List.nil_append] at hreq
      cases as with
      | nil => simp [taken] at hreq
      | cons a as =>
        cases a with
        | sent => simpa [taken] using hreq
        | failed errno => simp [taken] at hreq
    subst hown
    show (u.calls ++ [(u.buffer u.out).take len])[u.calls.length]? = _
    rw [List.getElem?_append_right (Nat.le_refl _), Nat.sub_self]
    rfl
  · exact h.queued len addr

theorem UDP.Sane.step {a : Act} (h : u.Sane) (hs : u.step a = some u') : u'.Sane := by
  cases a with
  | send len addr as =>
    obtain ⟨-, hs⟩ := Option.ite_none_right_eq_some.mp hs
    obtain ⟨-, rfl⟩ | rfl := UDP.send_cases hs
    · exact (h.queued len addr).sendmsg as
    · exact h.queued len addr
  | io as =>
    obtain ⟨-, hs⟩ := Option.ite_none_left_eq_some.mp hs
    cases hs
    have hsent := h.sendmsg as
    exact ⟨hsent.count, hsent.ids⟩
  | afterSend =>
    simp only [UDP.step] at hs
    split at hs
    · contradiction
    · rename_i req status rest hcompleted
      obtain ⟨-, hs⟩ := Option.ite_none_right_eq_some.mp hs
      cases hs
      have hcount := h.count
      rw [hcompleted, List.length_cons] at hcount
      refine ⟨?_, h.ids⟩
      -- one request is reported, and one is counted off
      show u.count - 1 = u.writeQueue.length + rest.length
      omega
  | setup | fill | sendFails | ret | done =>
    obtain ⟨-, hs⟩ := Option.ite_none_right_eq_some.mp hs
    cases hs
    exact ⟨h.count, h.ids⟩

/-- **A step keeps the law exactly when it sends bytes that are still there.** -/
theorem UDP.step_ownBytes_iff {a : Act} (hsane : u.Sane) (h : u.OwnBytes)
    (hs : u.step a = some u') : u'.OwnBytes ↔ u.SendsStillThere a := by
  cases a with
  | send len addr as =>
    obtain ⟨-, hs⟩ := Option.ite_none_right_eq_some.mp hs
    exact ⟨fun _ => trivial, fun _ => h.send hsane hs⟩
  | io as =>
    obtain ⟨-, hs⟩ := Option.ite_none_left_eq_some.mp hs
    cases hs
    exact h.sendmsg_iff as
  | afterSend =>
    simp only [UDP.step] at hs
    split at hs
    · contradiction
    · obtain ⟨-, hs⟩ := Option.ite_none_right_eq_some.mp hs
      cases hs
      exact ⟨fun _ => trivial, fun _ => h⟩
  | setup | fill | sendFails | ret | done =>
    obtain ⟨-, hs⟩ := Option.ite_none_right_eq_some.mp hs
    cases hs
    exact ⟨fun _ => trivial, fun _ => h⟩

theorem UDP.sane_init (mem : List (List UInt8)) (out : Nat) : (UDP.init mem out).Sane :=
  ⟨rfl, fun req hreq => by simp [UDP.init] at hreq⟩

theorem UDP.ownBytes_init (mem : List (List UInt8)) (out : Nat) : (UDP.init mem out).OwnBytes :=
  fun d hd => by simp [UDP.init] at hd

/-- **Datagrams carry the bytes of their own call** all along a run exactly when those that waited
    in the queue are sent with their bytes still there. -/
theorem ownBytes_iff_along (mem : List (List UInt8)) (out : Nat) (as : List Act)
    (h : run UDP.step (UDP.init mem out) as = some u) :
    (∀ bs cs v, as = bs ++ cs → run UDP.step (UDP.init mem out) bs = some v → v.OwnBytes) ↔
      Along UDP.step UDP.SendsStillThere (UDP.init mem out) as :=
  forall_prefix_iff_along (I := UDP.Sane)
    (fun _ _ _ hsane hown hs => ⟨hsane.step hs, UDP.step_ownBytes_iff hsane hown hs⟩)
    (UDP.sane_init mem out) (UDP.ownBytes_init mem out) h

/-! ### JavaScript that leaves queued bytes alone -/

/-- JavaScript does not change the bytes of a request that waits. -/
def UDP.Untouched (u : UDP) : Act → Prop
  | .fill base bytes => ∀ req ∈ u.writeQueue, req.base = base →
      bytes.take req.len = u.bytesOf req
  | _ => True

/-- All requests that wait have their bytes. -/
def UDP.Held (u : UDP) : Prop := ∀ req ∈ u.writeQueue, u.StillThere req

theorem mem_of_mem_taken {reqs : List SendReq} {as : List Answer} {req : SendReq}
    (h : req ∈ taken reqs as) : req ∈ reqs := by
  induction reqs generalizing as with
  | nil => simp at h
  | cons r reqs ih =>
    cases as with
    | nil => simp [taken] at h
    | cons a as =>
      cases a with
      | sent =>
        rcases List.mem_cons.mp h with rfl | h
        · exact List.mem_cons_self
        · exact List.mem_cons_of_mem r (ih h)
      | failed errno => exact List.mem_cons_of_mem r (ih h)

theorem UDP.Held.sendmsg (h : u.Held) (as : List Answer) : (u.sendmsg as).Held := by
  have hsame := sameBuffers_sendmsg u as
  intro req hreq
  have hold := h req (hsame.queue req hreq)
  rw [UDP.StillThere, UDP.bytesOf, UDP.buffer, hsame.calls, hsame.mem]
  exact hold

theorem UDP.Held.queued (hs : u.Sane) (h : u.Held) (len : Nat) (addr : Addr) :
    (u.queued len addr).Held := by
  intro req hreq
  show (u.calls ++ [(u.buffer u.out).take len])[req.id]? = some (u.bytesOf req)
  rcases List.mem_append.mp hreq with hreq | hreq
  · rw [List.getElem?_append_left (hs.ids req hreq)]
    exact h req hreq
  · rw [List.mem_singleton.mp hreq, List.getElem?_append_right (Nat.le_refl _), Nat.sub_self]
    rfl

theorem UDP.Held.step {a : Act} (hsane : u.Sane) (h : u.Held) (ha : u.Untouched a)
    (hs : u.step a = some u') : u'.Held := by
  cases a with
  | send len addr as =>
    obtain ⟨-, hs⟩ := Option.ite_none_right_eq_some.mp hs
    obtain ⟨-, rfl⟩ | rfl := UDP.send_cases hs
    · exact (h.queued hsane len addr).sendmsg as
    · exact h.queued hsane len addr
  | io as =>
    obtain ⟨-, hs⟩ := Option.ite_none_left_eq_some.mp hs
    cases hs
    exact h.sendmsg as
  | fill base bytes =>
    obtain ⟨⟨-, hbase, -⟩, hs⟩ := Option.ite_none_right_eq_some.mp hs
    cases hs
    intro req hreq
    have hold := h req hreq
    by_cases heq : req.base = base
    · -- a buffer that was written keeps the bytes of its requests
      have hbytes : ((u.mem.set base bytes).getD req.base []).take req.len = u.bytesOf req := by
        rw [heq, List.getD_eq_getElem?_getD, List.getElem?_set_self hbase]
        exact ha req hreq heq
      rw [UDP.StillThere, UDP.bytesOf, UDP.buffer, hbytes]
      exact hold
    · have hsame : (u.mem.set base bytes).getD req.base [] = u.buffer req.base := by
        rw [List.getD_eq_getElem?_getD, List.getElem?_set_ne (Ne.symm heq),
          ← List.getD_eq_getElem?_getD]
        rfl
      rw [UDP.StillThere, UDP.bytesOf, UDP.buffer, hsame]
      exact hold
  | afterSend =>
    simp only [UDP.step] at hs
    split at hs
    · contradiction
    · obtain ⟨-, hs⟩ := Option.ite_none_right_eq_some.mp hs
      cases hs
      exact h
  | setup | sendFails | ret | done =>
    obtain ⟨-, hs⟩ := Option.ite_none_right_eq_some.mp hs
    cases hs
    exact h

/-- **Bytes that are left alone are still there.** -/
theorem along_stillThere_of_untouched {mem : List (List UInt8)} {out : Nat} {as : List Act}
    (h : run UDP.step (UDP.init mem out) as = some u)
    (has : Along UDP.step UDP.Untouched (UDP.init mem out) as) :
    Along UDP.step UDP.SendsStillThere (UDP.init mem out) as := by
  refine Along.imp (I := fun u => u.Sane ∧ u.Held)
    (fun _ _ _ hi ha hs => ⟨hi.1.step hs, hi.2.step hi.1 ha hs⟩) ?_
    ⟨UDP.sane_init mem out, fun req hreq => by simp [UDP.init] at hreq⟩ h has
  intro u a u' hi _ _
  cases a with
  | io as => exact fun req hreq => hi.2 req (mem_of_mem_taken hreq)
  | _ => trivial

instance (u : UDP) (req : SendReq) : Decidable (u.StillThere req) :=
  inferInstanceAs (Decidable (_ = _))

instance (u : UDP) (a : Act) : Decidable (u.SendsStillThere a) := by
  unfold UDP.SendsStillThere
  split
  · exact List.decidableBAll _ _
  · infer_instance

/-- Two sends in one tick, with the out buffer written in between: the second waits. -/
def twoSends (rewritten : List UInt8) : List Act :=
  [.send 1 ⟨0x7F000001, 53⟩ [.sent], .fill 0 [2], .send 1 ⟨0x7F000001, 53⟩ [],
    .fill 0 rewritten, .io [.sent]]

theorem ownBytes_iff_along_twoSends :
    ∃ u, run UDP.step (UDP.init [[1]] 0) (twoSends [2]) = some u ∧ u.OwnBytes := by
  refine ⟨_, rfl, ?_⟩
  exact (ownBytes_iff_along [[1]] 0 (twoSends [2]) rfl).mpr (by decide) (twoSends [2]) [] _
    (List.append_nil _).symm rfl

/-- The out buffer is written again before the second datagram is sent. -/
theorem not_ownBytes_twoSends :
    ∃ u, run UDP.step (UDP.init [[1]] 0) (twoSends [3]) = some u ∧ ¬ u.OwnBytes := by
  refine ⟨_, rfl, fun h => ?_⟩
  have hwire := h ⟨1, ⟨0x7F000001, 53⟩, [3]⟩ (by decide)
  revert hwire
  decide

end Dv8.Udp
