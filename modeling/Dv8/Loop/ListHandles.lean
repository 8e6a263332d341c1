import Dv8.Builtins.Buffer

namespace Dv8.Loop

open Dv8.Lib Dv8.V8 Dv8.Builtins

/-!
# `process.activeHandles`

`EventLoop::ListHandles` walks the handles of the loop and writes for each one an active flag,
the length of its type name and the name, and a zero behind it, which the next handle overwrites.
The script reads the entries back until it finds an entry with a length of zero: the flag of that
entry and its length are two bytes behind the last name, of which the walk has written one.

* `walk_eq` — what the walk leaves in the buffer, or that it leaves the buffer;
* `loop_entries` — the script reads the entries that are there;
* `loop_endless` — where the second byte is behind the buffer, its loop has no end;
* `listed_iff` — so the list comes back exactly when both bytes are in the buffer.
-/

/-- A handle as `uv_walk` passes it: `uv_is_active` and `uv_handle_type_name`. -/
structure Handle where
  active : Bool
  type : List UInt8
  type_pos : 0 < type.length
  type_le : type.length ≤ 255
  type_cString : 0 ∉ type

/-- `loophandle_t`. -/
structure LoopHandle where
  buf : List UInt8
  off : Nat
  size : Nat
  deriving DecidableEq, Repr

/-- The flag as a byte. -/
def Handle.flag (h : Handle) : UInt8 := if h.active then 1 else 0

/-- The callback of `uv_walk`; `none` when it stores outside of the buffer. -/
def LoopHandle.visit (w : LoopHandle) (h : Handle) : Option LoopHandle := do
  let buf ← writeAt w.buf w.off [h.flag]
  let buf ← writeAt buf (w.off + 1) [UInt8.ofNat h.type.length]
  let buf ← writeAt buf (w.off + 2) h.type
  let buf ← writeAt buf (w.off + 2 + h.type.length) [0]
  some ⟨buf, w.off + 2 + h.type.length, w.size + 1⟩

/-- `EventLoop::ListHandles`: the buffer after it and what it returns. -/
def listHandles (block : List UInt8) (hs : List Handle) : Option (List UInt8 × Nat) :=
  (hs.foldlM LoopHandle.visit ⟨block, 0, 0⟩).map fun w => (w.buf, w.size)

/-- What the script pushes for a handle; the flag of an entry may be `undefined`. -/
structure Entry where
  active : Option UInt8
  type : JsString
  deriving DecidableEq, Repr

/-- An element of the `Uint8Array`: `undefined` from behind its end, and at `NaN`. -/
def byteAt (block : List UInt8) : Option Nat → Option UInt8
  | some i => block[i]?
  | none => none

/-- The loop of `activeHandles`.  An offset that `undefined` was added to is `NaN`, here `none`;
    `Int32Value` makes `0` of both. -/
def activeHandles.loop (block : List UInt8) : Nat → Option Nat → List Entry → Option (List Entry)
  | 0, _, _ => none
  | fuel + 1, off, handles => do
    let active := byteAt block off
    let len := byteAt block (off.map (· + 1))
    if len = some 0 then some handles
    else
      let type ← Buffer.read block ((off.map (· + 2)).getD 0 : Nat)
        ((len.map UInt8.toNat).getD 0 : Nat)
      loop block fuel (off.bind fun o => len.map fun l => o + (2 + l.toNat))
        (handles ++ [⟨active, type⟩])

/-- `activeHandles`, on the handles of the loop. -/
def activeHandles (hs : List Handle) (fuel : Nat) : Option (List Entry) := do
  let (block, _) ← listHandles (Buffer.alloc 16384) hs
  activeHandles.loop block fuel (some 0) []

/-- The handle as the script has it. -/
def Handle.entry (h : Handle) : Entry := ⟨some h.flag, decode h.type⟩

/-- The walk stays inside the buffer, the script ends, and its list is the list of the handles. -/
def Listed (hs : List Handle) : Prop :=
  ∃ fuel, activeHandles hs fuel = some (hs.map Handle.entry)

/-- The bytes of an entry. -/
def Handle.bytes (h : Handle) : List UInt8 := h.flag :: UInt8.ofNat h.type.length :: h.type

/-- The bytes of all entries. -/
def entryBytes (hs : List Handle) : List UInt8 := hs.flatMap Handle.bytes

@[simp] theorem Handle.length_bytes (h : Handle) : h.bytes.length = 2 + h.type.length := by
  rw [Handle.bytes, List.length_cons, List.length_cons]
  omega

theorem entryBytes_cons (h : Handle) (hs : List Handle) :
    entryBytes (h :: hs) = h.bytes ++ entryBytes hs := List.flatMap_cons

/-! ### The walk -/

/-- Writing on, where only zeros are left. -/
theorem writeAt_zeros (done xs : List UInt8) {n off : Nat} (hoff : off = done.length)
    (h : xs.length ≤ n) :
    writeAt (done ++ List.replicate n 0) off xs =
      some ((done ++ xs) ++ List.replicate (n - xs.length) 0) := by
  rw [writeAt_append hoff (by rwa [List.length_replicate]), List.drop_replicate]

/-- A visit that stays inside the buffer. -/
theorem visit_eq (h : Handle) (done : List UInt8) (size : Nat) {n : Nat}
    (hroom : h.bytes.length < n) :
    LoopHandle.visit ⟨done ++ List.replicate n 0, done.length, size⟩ h =
      some ⟨(done ++ h.bytes) ++ List.replicate (n - h.bytes.length) 0, (done ++ h.bytes).length,
        size + 1⟩ := by
  have hlen := h.length_bytes
  have hoff₂ : done.length + 1 = (done ++ [h.flag]).length := by
    rw [List.length_append]
    rfl
  have hoff₃ : done.length + 2 =
      (done ++ [h.flag] ++ [UInt8.ofNat h.type.length]).length := by
    rw [List.length_append, ← hoff₂]
    rfl
  have h₁ := writeAt_zeros done [h.flag] rfl (show 1 ≤ n by omega)
  have h₂ := writeAt_zeros (done ++ [h.flag]) [UInt8.ofNat h.type.length] hoff₂
    (show 1 ≤ n - 1 by omega)
  have h₃ := writeAt_zeros (done ++ [h.flag] ++ [UInt8.ofNat h.type.length]) h.type hoff₃
    (show h.type.length ≤ n - 1 - 1 by omega)
  have hbytes : done ++ [h.flag] ++ [UInt8.ofNat h.type.length] ++ h.type = done ++ h.bytes := by
    rw [List.append_assoc, List.append_assoc]
    rfl
  have hrest : n - 1 - 1 - h.type.length = n - h.bytes.length := by omega
  have hoff : done.length + 2 + h.type.length = (done ++ h.bytes).length := by
    rw [List.length_append]
    omega
  rw [hbytes, hrest] at h₃
  -- the terminator is written over a zero
  have h₄ := writeAt_zeros (done ++ h.bytes) [0] hoff (show 1 ≤ n - h.bytes.length by omega)
  have hzero : done ++ h.bytes ++ [0] ++ List.replicate (n - h.bytes.length - 1) 0 =
      done ++ h.bytes ++ List.replicate (n - h.bytes.length) 0 := by
    obtain ⟨m, hm⟩ : ∃ m, n - h.bytes.length = m + 1 := ⟨n - h.bytes.length - 1, by omega⟩
    rw [hm, Nat.add_sub_cancel, List.replicate_succ, List.append_assoc, List.singleton_append]
  rw [LoopHandle.visit]
  show ((writeAt _ _ _).bind fun buf => (writeAt buf _ _).bind fun buf =>
    (writeAt buf _ _).bind fun buf => (writeAt buf _ _).bind fun buf => _) = _
  rw [h₁, Option.bind_some, List.length_singleton, h₂, Option.bind_some, List.length_singleton, h₃,
    Option.bind_some, h₄, Option.bind_some, List.length_singleton, hzero, hoff]

/-- A visit that is done has stored its zero. -/
theorem visit_spec {w w' : LoopHandle} {h : Handle} (hw : w.visit h = some w') :
    w'.off = w.off + h.bytes.length ∧ w'.buf.length = w.buf.length ∧ w'.off < w'.buf.length := by
  simp only [LoopHandle.visit, Option.bind_eq_bind, Option.bind_eq_some_iff,
    Option.some.injEq] at hw
  obtain ⟨b₁, h₁, b₂, h₂, b₃, h₃, b₄, h₄, rfl⟩ := hw
  have hlen : b₄.length = w.buf.length := by
    rw [writeAt_length h₄, writeAt_length h₃, writeAt_length h₂, writeAt_length h₁]
  have hstored := (writeAt_eq_some_iff.mp h₄).1
  rw [List.length_singleton] at hstored
  refine ⟨?_, hlen, ?_⟩
  · rw [h.length_bytes, Nat.add_assoc]
  · show w.off + 2 + h.type.length < b₄.length
    rw [writeAt_length h₄]
    omega

/-- **What the walk leaves**: the entries and zeros, as long as a zero fits behind them. -/
theorem walk_eq (hs : List Handle) (done : List UInt8) (size : Nat) {n : Nat}
    (hroom : (entryBytes hs).length < n) :
    hs.foldlM LoopHandle.visit ⟨done ++ List.replicate n 0, done.length, size⟩ =
      some ⟨(done ++ entryBytes hs) ++ List.replicate (n - (entryBytes hs).length) 0,
        (done ++ entryBytes hs).length, size + hs.length⟩ := by
  induction hs generalizing done size n with
  | nil =>
    show some _ = some _
    simp only [entryBytes, List.flatMap_nil, List.append_nil, List.length_nil, Nat.sub_zero,
      Nat.add_zero]
  | cons h hs ih =>
    rw [entryBytes_cons, List.length_append] at hroom
    rw [List.foldlM_cons, visit_eq h done size (by omega)]
    show hs.foldlM LoopHandle.visit _ = _
    have hdone : done ++ h.bytes ++ entryBytes hs = done ++ entryBytes (h :: hs) := by
      rw [entryBytes_cons, List.append_assoc]
    have hrest : n - h.bytes.length - (entryBytes hs).length =
        n - (entryBytes (h :: hs)).length := by
      rw [entryBytes_cons, List.length_append, Nat.sub_sub]
    rw [ih _ _ (by omega), hdone, hrest, List.length_cons, Nat.add_assoc size, Nat.add_comm 1]

/-- The same in the buffer of `activeHandles`. -/
theorem listHandles_eq (hs : List Handle) (hroom : (entryBytes hs).length < 16384) :
    listHandles (Buffer.alloc 16384) hs =
      some (entryBytes hs ++ List.replicate (16384 - (entryBytes hs).length) 0, hs.length) := by
  have hwalk := walk_eq hs [] 0 hroom
  rw [List.nil_append, List.nil_append, List.length_nil, Nat.zero_add] at hwalk
  have halloc : Buffer.alloc 16384 = List.replicate 16384 0 :=
    congrArg (List.replicate · 0) (Nat.mod_eq_of_lt (by decide))
  rw [listHandles, halloc, hwalk, Option.map_some]

/-- A walk that has ended has left room for its last zero. -/
theorem walk_spec {hs : List Handle} {w w' : LoopHandle} (hne : hs ≠ [])
    (hw : hs.foldlM LoopHandle.visit w = some w') :
    w.off + (entryBytes hs).length < w.buf.length := by
  induction hs generalizing w with
  | nil => exact absurd rfl hne
  | cons h hs ih =>
    rw [List.foldlM_cons] at hw
    obtain ⟨w₁, hvisit, hw⟩ := Option.bind_eq_some_iff.mp hw
    obtain ⟨hoff, hlen, hlt⟩ := visit_spec hvisit
    rw [entryBytes_cons, List.length_append]
    cases hs with
    | nil =>
      show w.off + (h.bytes.length + 0) < _
      omega
    | cons h' hs =>
      have := ih (List.cons_ne_nil _ _) hw
      omega

/-! ### The script -/

/-- An entry that is there is read. -/
theorem loop_entry (h : Handle) (pre post : List UInt8) (fuel : Nat) (handles : List Entry)
    (hlen : (pre ++ (h.bytes ++ post)).length < 2 ^ 31) :
    activeHandles.loop (pre ++ (h.bytes ++ post)) (fuel + 1) (some pre.length) handles =
      activeHandles.loop (pre ++ (h.bytes ++ post)) fuel (some (pre ++ h.bytes).length)
        (handles ++ [h.entry]) := by
  have hbytes := h.length_bytes
  have hpos := h.type_pos
  have hle := h.type_le
  have hflag : byteAt (pre ++ (h.bytes ++ post)) (some pre.length) = some h.flag := by
    rw [byteAt, List.getElem?_append_right (Nat.le_refl _), Nat.sub_self]
    rfl
  have hlength : byteAt (pre ++ (h.bytes ++ post)) (some (pre.length + 1)) =
      some (UInt8.ofNat h.type.length) := by
    have hindex : pre.length + 1 - pre.length = 1 := by omega
    rw [byteAt, List.getElem?_append_right (by omega), hindex]
    rfl
  have hnat : (UInt8.ofNat h.type.length).toNat = h.type.length := by
    rw [UInt8.toNat_ofNat']
    omega
  have hne : some (UInt8.ofNat h.type.length) ≠ some 0 := by
    rintro heq
    have hzero := congrArg UInt8.toNat (Option.some.inj heq)
    rw [hnat, UInt8.toNat_zero] at hzero
    omega
  have hsplit : pre ++ (h.bytes ++ post) =
      (pre ++ [h.flag, UInt8.ofNat h.type.length]) ++ (h.type ++ post) := by
    rw [List.append_assoc]
    rfl
  have hstart : (pre ++ [h.flag, UInt8.ofNat h.type.length]).length = pre.length + 2 := by
    rw [List.length_append]
    rfl
  have hread : Buffer.read (pre ++ (h.bytes ++ post)) (pre.length + 2 : Nat) (h.type.length : Nat) =
      some (decode h.type) := by
    simp only [List.length_append] at hlen
    have hmax : 255 ≤ kMaxLength := by decide
    rw [Buffer.read_eq (by omega) (hle.trans hmax) (by simp only [List.length_append]; omega),
      hsplit, ← hstart, slice_append_length, List.take_left]
  simp only [activeHandles.loop, Option.map_some, hflag, hlength, hne, if_false, hnat,
    Option.getD_some, hread, Option.bind_eq_bind, Option.bind_some, List.length_append, hbytes]
  rfl

/-- **The entries that are there are read**, one turn each. -/
theorem loop_entries (hs : List Handle) (pre post : List UInt8) (fuel : Nat)
    (handles : List Entry) (hlen : (pre ++ (entryBytes hs ++ post)).length < 2 ^ 31) :
    activeHandles.loop (pre ++ (entryBytes hs ++ post)) (hs.length + fuel) (some pre.length)
        handles =
      activeHandles.loop (pre ++ (entryBytes hs ++ post)) fuel
        (some (pre ++ entryBytes hs).length) (handles ++ hs.map Handle.entry) := by
  induction hs generalizing pre handles with
  | nil =>
    simp only [entryBytes, List.flatMap_nil, List.append_nil, List.length_nil, Nat.zero_add,
      List.map_nil]
  | cons h hs ih =>
    have hassoc : pre ++ (entryBytes (h :: hs) ++ post) =
        (pre ++ h.bytes) ++ (entryBytes hs ++ post) := by
      rw [entryBytes_cons, List.append_assoc, List.append_assoc]
    have hfuel : (h :: hs).length + fuel = hs.length + fuel + 1 := by
      rw [List.length_cons]
      omega
    have hfirst := loop_entry h pre (entryBytes hs ++ post) (hs.length + fuel) handles
      (by rwa [← List.append_assoc h.bytes, ← entryBytes_cons])
    rw [← List.append_assoc pre] at hfirst
    rw [hassoc] at hlen ⊢
    rw [hfuel, hfirst, ih _ _ hlen, entryBytes_cons, List.map_cons, List.append_assoc handles,
      ← List.append_assoc pre]
    rfl

/-- From an offset that is no number the loop does not come back. -/
theorem loop_nan (block : List UInt8) (fuel : Nat) (handles : List Entry) :
    activeHandles.loop block fuel none handles = none := by
  induction fuel generalizing handles with
  | zero => rfl
  | succ fuel ih =>
    have hread : Buffer.read block (0 : Nat) (0 : Nat) = some [] := rfl
    simp only [activeHandles.loop, byteAt, Option.map_none, Option.getD_none, reduceCtorEq,
      if_false, hread, Option.bind_eq_bind, Option.bind_some, Option.bind_none, ih]

/-- Where the byte behind the terminator is not there, neither is the end of the loop. -/
theorem loop_endless (hs : List Handle) {pre : List UInt8} (fuel : Nat) (handles : List Entry)
    (hlen : (pre ++ (entryBytes hs ++ [0])).length < 2 ^ 31) :
    activeHandles.loop (pre ++ (entryBytes hs ++ [0])) fuel (some pre.length) handles = none := by
  induction hs generalizing pre fuel handles with
  | nil =>
    cases fuel with
    | zero => rfl
    | succ fuel =>
      have hlength : byteAt (pre ++ (entryBytes [] ++ [0])) (some (pre.length + 1)) = none := by
        rw [byteAt, List.getElem?_eq_none]
        rw [List.length_append]
        exact Nat.le_refl _
      have hread : Buffer.read (pre ++ (entryBytes [] ++ [0])) (pre.length + 2 : Nat) (0 : Nat) =
          some [] := rfl
      simp only [activeHandles.loop, Option.map_some, hlength, Option.map_none, Option.getD_none,
        Option.getD_some, reduceCtorEq, if_false, hread, Option.bind_eq_bind, Option.bind_some,
        loop_nan]
  | cons h hs ih =>
    cases fuel with
    | zero => rfl
    | succ fuel =>
      rw [entryBytes_cons, List.append_assoc] at hlen ⊢
      rw [loop_entry h pre _ fuel handles hlen, ← List.append_assoc]
      rw [← List.append_assoc] at hlen
      exact ih _ _ hlen

/-! ### The list -/

/-- A list that leaves room for two bytes is read back. -/
theorem listed_of_fits {hs : List Handle} (h : (entryBytes hs).length + 2 ≤ 16384) :
    Listed hs := by
  have hlist := listHandles_eq hs (by omega)
  obtain ⟨n, hn⟩ : ∃ n, 16384 - (entryBytes hs).length = n + 2 :=
    ⟨16384 - (entryBytes hs).length - 2, by omega⟩
  have hlen : ([] ++ (entryBytes hs ++ List.replicate (n + 2) (0 : UInt8))).length < 2 ^ 31 := by
    rw [List.nil_append, List.length_append, List.length_replicate]
    omega
  have hloop := loop_entries hs [] (List.replicate (n + 2) 0) 1 [] hlen
  have hzero : byteAt (entryBytes hs ++ List.replicate (n + 2) 0)
      (some ((entryBytes hs).length + 1)) = some 0 := by
    have hindex : (entryBytes hs).length + 1 - (entryBytes hs).length = 1 := by omega
    rw [byteAt, List.getElem?_append_right (by omega), hindex]
    rfl
  refine ⟨hs.length + 1, ?_⟩
  rw [List.nil_append, List.nil_append, List.nil_append] at hloop
  show (listHandles _ hs).bind _ = _
  rw [hlist, hn, Option.bind_some]
  show activeHandles.loop _ _ (some 0) [] = _
  refine hloop.trans ?_
  simp only [activeHandles.loop, Option.map_some, hzero, if_true]

/-- A list that leaves less room is not: the walk stores outside of the buffer, or the script
    does not end. -/
theorem not_listed_of_lt {hs : List Handle} (h : 16384 < (entryBytes hs).length + 2) :
    ¬ Listed hs := by
  rintro ⟨fuel, hlisted⟩
  have hne : hs ≠ [] := by
    rintro rfl
    exact absurd h (by decide)
  obtain ⟨⟨block, size⟩, hlist, hloop⟩ := Option.bind_eq_some_iff.mp hlisted
  obtain ⟨w, hwalk, -⟩ := Option.map_eq_some_iff.mp hlist
  have hlength : (Buffer.alloc 16384).length = 16384 := by
    rw [Buffer.alloc, List.length_replicate]
    exact Nat.mod_eq_of_lt (by decide)
  have hroom : 0 + (entryBytes hs).length < (Buffer.alloc 16384).length := walk_spec hne hwalk
  rw [hlength] at hroom
  -- one byte is left: the terminator is the last of the buffer
  have hone : 16384 - (entryBytes hs).length = 1 := by omega
  have hlist' := listHandles_eq hs (by omega)
  rw [hone] at hlist'
  obtain ⟨rfl, -⟩ := Prod.mk.inj (Option.some.inj (hlist.symm.trans hlist'))
  have hlen : ([] ++ (entryBytes hs ++ [0])).length < 2 ^ 31 := by
    rw [List.nil_append, List.length_append, List.length_singleton]
    omega
  have hend := loop_endless hs fuel [] hlen
  exact absurd (hend.symm.trans hloop) (by simp)

/-- **`process.activeHandles` lists the handles** exactly when their entries leave two bytes of
    the buffer. -/
theorem listed_iff (hs : List Handle) : Listed hs ↔ (entryBytes hs).length + 2 ≤ 16384 := by
  constructor
  · intro h
    by_contra hlong
    exact not_listed_of_lt (Nat.lt_of_not_le hlong) h
  · exact listed_of_fits

/-- An active TCP handle. -/
def tcpHandle : Handle :=
  ⟨true, [0x74, 0x63, 0x70], by decide, by decide, by decide⟩

/-- A server with 4000 sockets. -/
theorem not_listed_sockets : ¬ Listed (List.replicate 4000 tcpHandle) := by
  have hsize (n : Nat) : (entryBytes (List.replicate n tcpHandle)).length = 5 * n := by
    induction n with
    | zero => rfl
    | succ n ih =>
      rw [List.replicate_succ, entryBytes_cons, List.length_append, ih]
      show 5 + 5 * n = _
      omega
  refine not_listed_of_lt ?_
  rw [hsize]
  decide

end Dv8.Loop
