import Dv8.Ipc.Bytewise
import Dv8.Lib.Machine
import Mathlib.Logic.Relation

namespace Dv8.Ipc

open Dv8.Lib Dv8.V8 Dv8.Builtins

/-!
# What `Parser.read` looks at

`toread` is a difference: the length of the frame, which comes out of the data, less the payload
that has been read, which `position` says.  The two belong to one frame as long as the loop runs to
its end.  A handler that throws leaves the call with the `position` the call started at and
with the `length` of the frame it threw on; the difference can then be negative.

* `turn_inside` — as long as `position` is not behind the end of the frame, a turn stays inside the
  data, makes progress and keeps that;
* `readInside_iff` — a call terminates inside the data exactly when it starts so;
* `readInside_iff_along` — the same for every call of a run.
-/

/-- What `read` looks at: `recv.getUint8(i)` and `rb.read(off, n)`. -/
inductive Access where
  | byte (i : Int)
  | range (off : Nat) (n : Int)
  deriving DecidableEq, Repr

/-- The access stays inside the data. -/
def Access.Inside (len : Nat) : Access → Prop
  | .byte i => 0 ≤ i ∧ i < len
  | .range off n => 0 ≤ n ∧ off + n ≤ len

/-- Behind a message, `off += toread` may lead in front of the data, where the next turn asks for a
    byte. -/
def Vars.behind (throws : List Message → Bool) (v : Vars) (m : Message) (toread : Int) :
    List Access :=
  if throws (v.seen ++ [m]) = false ∧ v.off + toread < 0 then [.byte (v.off + toread)] else []

/-- What one turn of the loop looks at, for `off < len`. -/
def Vars.accesses (throws : List Message → Bool) (rb : List UInt8) (len : Nat) (v : Vars) :
    List Access :=
  if v.position < 4 then [.byte v.off]
  else
    let toread : Int := v.message.length - (v.position - 4 : Int)
    if toread + v.off > len then
      if v.message.opCode ≠ 3 then [.range v.off (len - v.off)] else []
    else if v.message.opCode ≠ 3 then
      .range v.off toread :: match Buffer.read rb v.off toread with
        | some text => v.behind throws (v.message.append text) toread
        | none => []
    else v.behind throws { v.message with payload := none, offset := some v.off } toread

/-- The loop goes on from `v` with `v'`. -/
def Next (throws : List Message → Bool) (rb : List UInt8) (len : Nat) (v v' : Vars) : Prop :=
  v.off < len ∧ turn throws rb len v = some (v', false)

/-- The variables a call starts with. -/
def Parser.vars (p : Parser) (seen : List Message) : Vars := ⟨0, p.position, p.message, seen⟩

/-- The variables the loop of a call gets to. -/
def Parser.Reaches (throws : List Message → Bool) (rb : List UInt8) (len : Nat) (p : Parser)
    (seen : List Message) (v : Vars) : Prop :=
  Relation.ReflTransGen (Next throws rb len) (p.vars seen) v

/-- A call of `read` terminates and stays inside the data. -/
structure ReadInside (throws : List Message → Bool) (rb : List UInt8) (len : Nat) (p : Parser)
    (seen : List Message) : Prop where
  accesses : ∀ v, p.Reaches throws rb len seen v → v.off < len →
    ∀ a ∈ v.accesses throws rb len, a.Inside len
  off_le : ∀ v, p.Reaches throws rb len seen v → v.off ≤ len
  terminates : Acc (fun v' v => Next throws rb len v v') (p.vars seen)
  returns : len ≤ kMaxLength → (p.read throws rb seen len).isSome
  position : ∀ r, p.read throws rb seen len = some r → r.threw = false →
    r.parser.position ≤ 3 ∨
      4 ≤ r.parser.position ∧ r.parser.position ≤ 4 + r.parser.message.length

/-! ### One turn -/

/-- No more payload has been read than the frame has. -/
def Vars.Consistent (v : Vars) : Prop := v.position ≤ v.message.length + 4

/-- What a turn does that stays inside the data. -/
structure TurnInside (throws : List Message → Bool) (rb : List UInt8) (len : Nat) (v : Vars) :
    Prop where
  accesses : ∀ a ∈ v.accesses throws rb len, a.Inside len
  next : ∀ v', turn throws rb len v = some (v', false) →
    v'.Consistent ∧ v'.off ≤ len ∧ v'.left len < v.left len
  returns : len ≤ kMaxLength → (turn throws rb len v).isSome

/-- A delivery that is not in front of the data goes on behind the frame. -/
theorem Vars.delivered_next {throws : List Message → Bool} {v v' : Vars} {n : Nat}
    (h : v.delivered throws n = (v', false)) :
    v'.off = v.off + n ∧ v'.position = 0 ∧ v'.message = v.message := by
  unfold Vars.delivered Vars.onMessage at h
  cases hthrow : throws (v.seen ++ [v.message]) with
  | true =>
    simp only [hthrow, Prod.mk.injEq, Bool.true_eq_false, and_false] at h
  | false =>
    simp only [hthrow, if_neg (show ¬ (v.off : Int) + n < 0 by omega), Prod.mk.injEq, and_true] at h
    subst h
    exact ⟨Int.toNat_natCast _, rfl, rfl⟩

/-- There is nothing to ask for in front of the data. -/
theorem Vars.behind_natCast (throws : List Message → Bool) (v : Vars) (m : Message) (n : Nat) :
    v.behind throws m n = [] :=
  if_neg fun h => absurd h.2 (by omega)

/-- A header byte. -/
theorem turnInside_header {throws : List Message → Bool} {rb : List UInt8} {len : Nat} {v : Vars}
    (hlen : len ≤ rb.length) (hlt : v.off < len) (hpos : v.position < 4) :
    TurnInside throws rb len v := by
  have hget : rb[v.off]? = some rb[v.off] := List.getElem?_eq_getElem (by omega)
  have hturn : turn throws rb len v = _ := turn_header hpos hget
  constructor
  case accesses =>
    intro a ha
    rw [Vars.accesses, if_pos hpos, List.mem_singleton] at ha
    subst ha
    exact ⟨by omega, by omega⟩
  case next =>
    intro v' hv'
    rw [hturn] at hv'
    cases hv'
    obtain ⟨hoff, -, hposition⟩ := Cursor.byte_header (c := v.cursor) hpos rfl rb[v.off]
    change ((v.cursor.byte rb[v.off]).vars v.seen).off = v.off + 1 at hoff
    change ((v.cursor.byte rb[v.off]).vars v.seen).position = v.position + 1 at hposition
    refine ⟨?_, by omega, ?_⟩
    · unfold Vars.Consistent
      omega
    · unfold Vars.left
      split_ifs <;> omega
  case returns =>
    intro _
    rw [hturn]
    rfl

/-- A read inside the data comes back. -/
theorem Buffer.read_isSome {rb : List UInt8} {len off n : Nat} (hlen : len ≤ rb.length)
    (hmax : len ≤ kMaxLength) (hfit : off + n ≤ len) : (Buffer.read rb off n).isSome := by
  have hoff : off < 2 ^ 31 := by
    unfold kMaxLength at hmax
    omega
  rw [Buffer.read_eq hoff (by omega) (by omega)]
  rfl

/-- A turn that reads `n` bytes of payload, or leaves them in the buffer. -/
theorem turnInside_payload {throws : List Message → Bool} {rb : List UInt8} {len : Nat} {v : Vars}
    (n : Nat) (f : Message → Vars × Bool) (m₀ : Message) (hlen : len ≤ rb.length)
    (hfit : v.off + n ≤ len)
    (hturn : turn throws rb len v =
      if v.message.opCode ≠ 3 then
        (Buffer.read rb v.off n).map fun text => f (v.message.append text)
      else some (f m₀))
    (hm₀ : m₀.length = v.message.length)
    (haccesses : ∀ a ∈ v.accesses throws rb len, a = .range v.off n)
    (hdone : ∀ m v', m.length = v.message.length → f m = (v', false) →
      v'.Consistent ∧ v'.off ≤ len ∧ v'.left len < v.left len) :
    TurnInside throws rb len v := by
  constructor
  case accesses =>
    intro a ha
    rw [haccesses a ha]
    exact ⟨by omega, by omega⟩
  case next =>
    intro v' hv'
    rw [hturn] at hv'
    split_ifs at hv'
    · obtain ⟨text, -, heq⟩ := Option.map_eq_some_iff.mp hv'
      exact hdone (v.message.append text) v' rfl heq
    · exact hdone m₀ v' hm₀ (Option.some.inj hv')
  case returns =>
    intro hmax
    rw [hturn]
    split_ifs
    · rw [Option.isSome_map]
      exact Buffer.read_isSome hlen hmax hfit
    · rfl

/-- Payload that does not complete the frame. -/
theorem turnInside_partial {throws : List Message → Bool} {rb : List UInt8} {len n : Nat} {v : Vars}
    (hlen : len ≤ rb.length) (hlt : v.off < len) (hpos : 4 ≤ v.position)
    (hn : v.position + n = v.message.length + 4) (hrest : len < v.off + n) :
    TurnInside throws rb len v := by
  have htoread : (v.message.length : Int) - ((v.position : Int) - 4) = n := by omega
  have hbeyond : (n : Int) + v.off > len := by omega
  have hrange : (len : Int) - v.off = (len - v.off : Nat) := by omega
  refine turnInside_payload (len - v.off)
    (fun m => (⟨len, v.position + (len - v.off), m, v.seen⟩, false)) v.message hlen (by omega) ?_
    rfl (fun a ha => ?_) ?_
  · unfold turn
    rw [if_neg (by omega), if_neg (by omega), if_neg (by omega), if_neg (by omega)]
    simp only [htoread, if_pos hbeyond]
  · simp only [Vars.accesses, if_neg (show ¬ v.position < 4 by omega), htoread,
      if_pos hbeyond] at ha
    split_ifs at ha
    · rw [List.mem_singleton.mp ha, hrange]
    · exact absurd ha List.not_mem_nil
  · -- the turn ends at the end of the data
    intro m v' hm heq
    obtain rfl := (Prod.ext_iff.mp heq).1
    refine ⟨?_, Nat.le_refl _, ?_⟩
    · show v.position + (len - v.off) ≤ m.length + 4
      omega
    · rw [Vars.left, Vars.left, if_pos hpos]
      show 2 * (len - len) + (if 4 ≤ v.position + (len - v.off) then 1 else 0) < _
      rw [if_pos (by omega)]
      omega

/-- Payload that completes the frame, and the message. -/
theorem turnInside_complete {throws : List Message → Bool} {rb : List UInt8} {len n : Nat}
    {v : Vars} (hlen : len ≤ rb.length) (hpos : 4 ≤ v.position)
    (hn : v.position + n = v.message.length + 4) (hfit : v.off + n ≤ len) :
    TurnInside throws rb len v := by
  have htoread : (v.message.length : Int) - ((v.position : Int) - 4) = n := by omega
  have hwithin : ¬ (n : Int) + v.off > len := by omega
  refine turnInside_payload n (fun m => ({ v with message := m } : Vars).delivered throws n)
    { v.message with payload := none, offset := some v.off } hlen hfit ?_ rfl (fun a ha => ?_) ?_
  · unfold turn
    rw [if_neg (by omega), if_neg (by omega), if_neg (by omega), if_neg (by omega)]
    simp only [htoread, if_neg hwithin]
  · simp only [Vars.accesses, if_neg (show ¬ v.position < 4 by omega), htoread, if_neg hwithin,
      Vars.behind_natCast] at ha
    split_ifs at ha
    · rcases List.mem_cons.mp ha with rfl | ha
      · rfl
      · split at ha <;> exact absurd ha List.not_mem_nil
    · exact absurd ha List.not_mem_nil
  · -- no byte may be consumed, but the next turn reads a header
    intro m v' _ heq
    obtain ⟨hoff, hposition, -⟩ := Vars.delivered_next heq
    change v'.off = v.off + n at hoff
    refine ⟨?_, by omega, ?_⟩
    · unfold Vars.Consistent
      omega
    · rw [Vars.left, Vars.left, if_pos hpos, if_neg (by omega)]
      omega

/-- **One turn** of the loop in consistent variables. -/
theorem turn_inside {throws : List Message → Bool} {rb : List UInt8} {len : Nat} {v : Vars}
    (hlen : len ≤ rb.length) (hv : v.Consistent) (hlt : v.off < len) :
    TurnInside throws rb len v := by
  by_cases hpos : v.position < 4
  · exact turnInside_header hlen hlt hpos
  obtain ⟨n, hn⟩ : ∃ n, v.position + n = v.message.length + 4 := Nat.le.dest hv
  by_cases hrest : len < v.off + n
  · exact turnInside_partial hlen hlt (by omega) hn hrest
  · exact turnInside_complete hlen (by omega) hn (by omega)

/-- A read inside the data does not see what is behind it. -/
theorem Buffer.read_take {rb : List UInt8} {len off : Nat} {n : Int} (hlen : len ≤ rb.length)
    (hmax : len ≤ kMaxLength) (hn : 0 ≤ n) (hfit : off + n ≤ len) :
    Buffer.read (rb.take len) off n = Buffer.read rb off n := by
  obtain ⟨n, rfl⟩ := Int.eq_ofNat_of_zero_le hn
  have hoff : off < 2 ^ 31 := by
    unfold kMaxLength at hmax
    omega
  have hsize : (rb.take len).length = len := List.length_take_of_le hlen
  rw [Buffer.read_eq hoff (by omega) (by omega), Buffer.read_eq hoff (by omega) (by omega)]
  conv_rhs => rw [← List.take_append_drop len rb, slice_append_left (by omega)]

/-- **The accesses are all there is**: a turn whose accesses are inside the data does the same
    whatever is behind it in the buffer. -/
theorem turn_take {throws : List Message → Bool} {rb : List UInt8} {len : Nat} {v : Vars}
    (hlen : len ≤ rb.length) (hmax : len ≤ kMaxLength) (hlt : v.off < len)
    (hinside : ∀ a ∈ v.accesses throws rb len, a.Inside len) :
    turn throws (rb.take len) len v = turn throws rb len v := by
  by_cases hpos : v.position < 4
  · have hget : DataView.getUint8 (rb.take len) v.off = DataView.getUint8 rb v.off :=
      List.getElem?_take_of_lt hlt
    unfold turn
    rw [hget]
    split_ifs <;> first | omega | rfl
  have hread : ∀ n, .range v.off n ∈ v.accesses throws rb len →
      Buffer.read (rb.take len) v.off n = Buffer.read rb v.off n := fun n hn =>
    Buffer.read_take hlen hmax (hinside _ hn).1 (hinside _ hn).2
  simp only [Vars.accesses, if_neg hpos] at hread
  have hcast : ((len - v.off : Nat) : Int) = len - v.off := by omega
  unfold turn
  simp only [if_neg (show ¬ v.position = 0 by omega), if_neg (show ¬ v.position = 1 by omega),
    if_neg (show ¬ v.position = 2 by omega), if_neg (show ¬ v.position = 3 by omega), hcast]
  generalize (v.message.length : Int) - ((v.position : Int) - 4) = toread at hread ⊢
  by_cases hop : v.message.opCode ≠ 3
  · by_cases hrest : toread + v.off > len
    · simp only [if_pos hrest, if_pos hop] at hread ⊢
      rw [hread _ (List.mem_singleton_self _)]
    · simp only [if_neg hrest, if_pos hop] at hread ⊢
      rw [hread _ List.mem_cons_self]
  · simp only [if_neg hop]

/-! ### One call -/

section Call

variable {throws : List Message → Bool} {rb : List UInt8} {len : Nat} (hlen : len ≤ rb.length)
include hlen

/-- **The loop** stays inside the data. -/
theorem reaches_consistent {v w : Vars} (hv : v.Consistent) (hoff : v.off ≤ len)
    (h : Relation.ReflTransGen (Next throws rb len) v w) : w.Consistent ∧ w.off ≤ len := by
  induction h with
  | refl => exact ⟨hv, hoff⟩
  | tail _ hnext ih =>
    obtain ⟨hlt, hturn⟩ := hnext
    obtain ⟨hc, hle, -⟩ := (turn_inside hlen ih.1 hlt).next _ hturn
    exact ⟨hc, hle⟩

/-- **The loop ends**: a turn consumes a byte, or it is the last of its frame. -/
theorem acc_of_consistent {v : Vars} (hv : v.Consistent) :
    Acc (fun v' v => Next throws rb len v v') v := by
  generalize hk : v.left len = k
  induction k using Nat.strong_induction_on generalizing v with
  | _ k ih =>
    refine ⟨v, fun v' hnext => ?_⟩
    obtain ⟨hlt, hturn⟩ := hnext
    obtain ⟨hc, -, hleft⟩ := (turn_inside hlen hv hlt).next v' hturn
    exact ih (v'.left len) (by omega) hc rfl

/-- Two turns a byte are enough, and what is left behind the loop is consistent. -/
theorem readLoop_inside {v : Vars} (hv : v.Consistent) (fuel : Nat) (hfuel : v.left len ≤ fuel) :
    (len ≤ kMaxLength → (readLoop throws rb len fuel v).isSome) ∧
      ∀ v', readLoop throws rb len fuel v = some (v', false) → v'.Consistent := by
  induction fuel generalizing v with
  | zero =>
    have hend : ¬ v.off < len := by
      unfold Vars.left at hfuel
      omega
    rw [readLoop_done _ _ _ hend]
    refine ⟨fun _ => rfl, fun v' h => ?_⟩
    cases h
    exact hv
  | succ fuel ih =>
    by_cases hlt : v.off < len
    · have hturn : TurnInside throws rb len v := turn_inside hlen hv hlt
      rw [readLoop, if_pos hlt]
      cases hr : turn throws rb len v with
      | none =>
        refine ⟨fun hmax => ?_, fun v' h => absurd h (by simp)⟩
        have := hturn.returns hmax
        rw [hr] at this
        cases this
      | some r =>
        obtain ⟨v', threw⟩ := r
        cases threw with
        | true => exact ⟨fun _ => rfl, fun w h => absurd h (by simp)⟩
        | false =>
          obtain ⟨hc, -, hleft⟩ := hturn.next v' hr
          exact ih hc (by omega)
    · rw [readLoop_done _ _ _ hlt]
      refine ⟨fun _ => rfl, fun v' h => ?_⟩
      cases h
      exact hv

/-- A call that starts consistent stays inside the data. -/
theorem readInside_of_consistent {p : Parser} {seen : List Message}
    (hp : (p.vars seen).Consistent) : ReadInside throws rb len p seen := by
  have hloop := @readLoop_inside throws rb len hlen (p.vars seen) hp (2 * len + 1) (by
    unfold Vars.left
    split_ifs <;> omega)
  constructor
  case accesses =>
    intro v hv hlt
    exact (turn_inside hlen (reaches_consistent hlen hp (Nat.zero_le _) hv).1 hlt).accesses
  case off_le =>
    intro v hv
    exact (reaches_consistent hlen hp (Nat.zero_le _) hv).2
  case terminates => exact acc_of_consistent hlen hp
  case returns =>
    intro hmax
    unfold Parser.read
    rw [Option.isSome_map]
    exact hloop.1 hmax
  case position =>
    intro r hr hthrew
    obtain ⟨⟨v, threw⟩, hv, rfl⟩ := Option.map_eq_some_iff.mp hr
    cases threw with
    | true => cases hthrew
    | false =>
      have hc : v.position ≤ v.message.length + 4 := hloop.2 v hv
      show v.position ≤ 3 ∨ 4 ≤ v.position ∧ v.position ≤ 4 + v.message.length
      omega

end Call

/-- The message a call starts by delivering when `toread` is negative and the payload is left in
    the buffer. -/
def Message.atStart (m : Message) : Message := { m with payload := none, offset := some 0 }

/-- `position` is not behind the end of the frame; or the frame is behind it with a payload that
    stays in the buffer, and the handler throws on it. -/
def Parser.Consistent (throws : List Message → Bool) (len : Nat) (p : Parser)
    (seen : List Message) : Prop :=
  p.position ≤ p.message.length + 4 ∨
    0 < len ∧ p.message.opCode = 3 ∧ throws (seen ++ [p.message.atStart]) = true

instance (throws : List Message → Bool) (len : Nat) (p : Parser) (seen : List Message) :
    Decidable (p.Consistent throws len seen) :=
  inferInstanceAs (Decidable (_ ∨ (_ ∧ _ ∧ _)))

/-- The first turn of a call whose `position` is behind the end of the frame. -/
theorem accesses_of_inconsistent {throws : List Message → Bool} {rb : List UInt8} {len : Nat}
    {p : Parser} {seen : List Message} (hpos : p.message.length + 4 < p.position) :
    (p.vars seen).accesses throws rb len =
      let toread : Int := p.message.length - (p.position - 4 : Int)
      if p.message.opCode ≠ 3 then
        .range 0 toread :: match Buffer.read rb 0 toread with
          | some text => (p.vars seen).behind throws (p.message.append text) toread
          | none => []
      else (p.vars seen).behind throws p.message.atStart toread := by
  have hheader : ¬ (p.vars seen).position < 4 := by
    show ¬ p.position < 4
    omega
  have hwithin :
      ¬ (p.message.length : Int) - ((p.position : Int) - 4) + (p.vars seen).off > len := by
    show ¬ (p.message.length : Int) - ((p.position : Int) - 4) + ((0 : Nat) : Int) > len
    omega
  rw [Vars.accesses, if_neg hheader]
  exact if_neg hwithin

/-- Nothing is asked for, and the handler throws. -/
theorem turn_of_throws {throws : List Message → Bool} {rb : List UInt8} {len : Nat}
    {p : Parser} {seen : List Message} (hpos : p.message.length + 4 < p.position)
    (hop : p.message.opCode = 3) (hthrow : throws (seen ++ [p.message.atStart]) = true) :
    turn throws rb len (p.vars seen)
      = some (⟨0, p.position, p.message.atStart, seen ++ [p.message.atStart]⟩, true) := by
  have hwithin :
      ¬ (p.message.length : Int) - ((p.position : Int) - 4) + ((0 : Nat) : Int) > len := by
    omega
  unfold turn Parser.vars
  simp only [if_neg (show ¬ p.position = 0 by omega), if_neg (show ¬ p.position = 1 by omega),
    if_neg (show ¬ p.position = 2 by omega), if_neg (show ¬ p.position = 3 by omega),
    if_neg hwithin, if_neg (not_not.mpr hop)]
  unfold Vars.delivered Vars.onMessage
  simp only [Message.atStart] at hthrow
  simp only [hthrow, Message.atStart]

/-- A call whose first message makes the handler throw is over. -/
theorem readInside_of_throws {throws : List Message → Bool} {rb : List UInt8} {len : Nat}
    {p : Parser} {seen : List Message} (hpos : p.message.length + 4 < p.position) (hlen : 0 < len)
    (hop : p.message.opCode = 3) (hthrow : throws (seen ++ [p.message.atStart]) = true) :
    ReadInside throws rb len p seen := by
  have hturn : turn throws rb len (p.vars seen) = _ := turn_of_throws hpos hop hthrow
  have hnext : ∀ v, ¬ Next throws rb len (p.vars seen) v := by
    rintro v ⟨-, h⟩
    rw [hturn] at h
    cases h
  have hreach : ∀ v, p.Reaches throws rb len seen v → v = p.vars seen := by
    intro v hv
    rcases Relation.ReflTransGen.cases_head hv with heq | ⟨w, hw, -⟩
    · exact heq.symm
    · exact absurd hw (hnext w)
  have hread : p.read throws rb seen len
      = some ⟨{ p with message := p.message.atStart }, seen ++ [p.message.atStart], true⟩ := by
    have hlt : (p.vars seen).off < len := hlen
    unfold Parser.read
    rw [show (⟨0, p.position, p.message, seen⟩ : Vars) = p.vars seen from rfl, readLoop,
      if_pos hlt, hturn]
    rfl
  constructor
  case accesses =>
    intro v hv _ a ha
    rw [hreach v hv, accesses_of_inconsistent hpos] at ha
    simp only [if_neg (not_not.mpr hop), Vars.behind] at ha
    rw [if_neg fun h => absurd (hthrow.symm.trans h.1) (by decide)] at ha
    exact absurd ha List.not_mem_nil
  case off_le =>
    intro v hv
    rw [hreach v hv]
    exact Nat.zero_le _
  case terminates => exact ⟨_, fun v hv => absurd hv (hnext v)⟩
  case returns =>
    intro _
    rw [hread]
    rfl
  case position =>
    intro r hr hthrew
    rw [hread] at hr
    cases hr
    cases hthrew

/-- **One call** terminates inside the data exactly when it starts consistent. -/
theorem readInside_iff {throws : List Message → Bool} {rb : List UInt8} {len : Nat}
    (hlen : len ≤ rb.length) (p : Parser) (seen : List Message) :
    ReadInside throws rb len p seen ↔ p.Consistent throws len seen := by
  constructor
  · intro h
    by_contra hnot
    obtain ⟨hpos, hnothrow⟩ := not_or.mp hnot
    rw [Nat.not_le] at hpos
    rcases Nat.eq_zero_or_pos len with rfl | hlt
    · -- the call returns at once and stores the position it started at
      have hdone := h.position ⟨p, seen, false⟩ rfl rfl
      change p.position ≤ 3 ∨ 4 ≤ p.position ∧ p.position ≤ 4 + p.message.length at hdone
      omega
    have haccess := h.accesses _ .refl hlt
    rw [accesses_of_inconsistent hpos] at haccess
    by_cases hop : p.message.opCode = 3
    · -- the handler returns, and the loop goes on in front of the data
      have hreturns : throws (seen ++ [p.message.atStart]) = false :=
        Bool.eq_false_iff.mpr fun hthrow => hnothrow ⟨hlt, hop, hthrow⟩
      have hnegative : ((p.vars seen).off : Int)
          + ((p.message.length : Int) - ((p.position : Int) - 4)) < 0 := by
        show ((0 : Nat) : Int) + _ < 0
        omega
      simp only [if_neg (not_not.mpr hop)] at haccess
      rw [Vars.behind, if_pos ⟨hreturns, hnegative⟩] at haccess
      obtain ⟨hinside, -⟩ := haccess _ (List.mem_singleton_self _)
      omega
    · -- `rb.read` is asked for a negative number of bytes
      simp only [if_pos hop] at haccess
      obtain ⟨hinside, -⟩ := haccess _ List.mem_cons_self
      omega
  · rintro (hpos | ⟨hlt, hop, hthrow⟩)
    · exact readInside_of_consistent hlen hpos
    · by_cases hpos : p.position ≤ p.message.length + 4
      · exact readInside_of_consistent hlen hpos
      · exact readInside_of_throws (by omega) hlt hop hthrow

/-! ### Runs -/

/-- What a call is given: the receive buffer, and how many bytes the socket has put at its start. -/
structure Given where
  rb : List UInt8
  len : Nat
  fits : len ≤ rb.length
  deriving DecidableEq, Repr

/-- The parser between calls, and the messages the handler has been given. -/
structure Session where
  parser : Parser := {}
  seen : List Message := []
  deriving DecidableEq, Repr

/-- One call of `read`, also one that an exception leaves. -/
def Session.read (throws : List Message → Bool) (s : Session) (g : Given) : Option Session :=
  (s.parser.read throws g.rb s.seen g.len).map fun r => ⟨r.parser, r.seen⟩

/-- The two conditions on a call of a run. -/
theorem readInside_eq_consistent (throws : List Message → Bool) :
    (fun (s : Session) (g : Given) => ReadInside throws g.rb g.len s.parser s.seen)
      = fun s g => s.parser.Consistent throws g.len s.seen :=
  funext fun s => funext fun g => propext (readInside_iff g.fits s.parser s.seen)

/-- **Every call of a run** terminates and stays inside the data, exactly when every call starts
    consistent. -/
theorem readInside_iff_along (throws : List Message → Bool) (s : Session) (gs : List Given) :
    Along (Session.read throws) (fun s g => ReadInside throws g.rb g.len s.parser s.seen) s gs ↔
      Along (Session.read throws) (fun s g => s.parser.Consistent throws g.len s.seen) s gs := by
  rw [readInside_eq_consistent]

/-- **Without a throw there is nothing to fear**: a run in which the handler always returns starts
    every call consistent. -/
theorem along_consistent_of_returns {throws : List Message → Bool} {t : Session} {gs : List Given}
    (h : run (Session.read throws) {} gs = some t)
    (hreturns : Along (Session.read throws)
      (fun s g => ∀ r, s.parser.read throws g.rb s.seen g.len = some r → r.threw = false) {} gs) :
    Along (Session.read throws) (fun s g => s.parser.Consistent throws g.len s.seen) {} gs := by
  refine Along.imp (I := fun s => s.parser.position ≤ s.parser.message.length + 4)
    (fun s g s' hs hthrew hstep => ?_) (fun s g s' hs _ _ => .inl hs) (Nat.zero_le _) h hreturns
  obtain ⟨r, hr, rfl⟩ := Option.map_eq_some_iff.mp hstep
  have hinside : ReadInside throws g.rb g.len s.parser s.seen :=
    readInside_of_consistent g.fits hs
  have hposition := hinside.position r hr (hthrew r hr)
  show r.parser.position ≤ r.parser.message.length + 4
  omega

/-- Three chunks: a frame of five bytes up to its third, its end and a frame of one byte, and one
    byte more. -/
def threeChunks : List Given :=
  [⟨[1, 2, 0, 5, 0x68, 0x65, 0x6C], 7, by decide⟩,
    ⟨[0x6C, 0x6F, 1, 2, 0, 1, 0x61], 7, by decide⟩, ⟨[0x62], 1, by decide⟩]

/-- **A throw on the second message** of these chunks: the third call asks for `-2` bytes. -/
theorem not_along_readInside :
    ¬ ∀ (throws : List Message → Bool) (gs : List Given), Along (Session.read throws)
      (fun s g => ReadInside throws g.rb g.len s.parser s.seen) {} gs := by
  intro hall
  have hthird := hall (fun seen => seen.length = 2) threeChunks
  rw [readInside_eq_consistent] at hthird
  exact absurd hthird (by decide)

end Dv8.Ipc
