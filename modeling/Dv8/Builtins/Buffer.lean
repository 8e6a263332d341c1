import Dv8.Lib.Bytes
import Dv8.V8.WriteUtf8

namespace Dv8.Builtins

open Dv8.Lib Dv8.V8

/-!
# `Buffer` and `DataView` — a block of memory seen from JavaScript

A block is the list of its bytes.  JavaScript reaches it through the `Buffer` object
(`read` and `write` move strings) and through a `DataView` on its `ArrayBuffer`
(big-endian integers).  Both are partial here: `none` is a `RangeError` of the view, an
access of the builtin outside its block, or a string V8 refuses to make.  The offsets
of `read` and `write` go through `Int32Value`.
-/

/-- `Int32Value` of an integral JavaScript number. -/
def int32Value (x : Int) : Int := Int.bmod x (2 ^ 32)

theorem int32Value_natCast {n : Nat} (h : n < 2 ^ 31) : int32Value n = n := by
  unfold int32Value
  rw [Int.bmod_eq_of_le] <;> omega

theorem int32Value_neg {n : Nat} (h : 2 ^ 31 ≤ n) (h' : n < 2 ^ 32) : int32Value n < 0 := by
  unfold int32Value
  rw [Int.bmod_def]
  split <;> omega

/-- `String::kMaxLength`. -/
def kMaxLength : Nat := 2 ^ 30 - 25

/-- The bytes of a C string, without its terminating zero; `none` when the block ends first. -/
def cString : List UInt8 → Option (List UInt8)
  | [] => none
  | b :: bs => if b = 0 then some [] else (cString bs).map (b :: ·)

/-- `String::NewFromUtf8` on the memory at `off`, for the `len` of its caller: nothing for
    `0`, a C string for a negative one. -/
def newFromUtf8 (block : List UInt8) (off len : Int) : Option JsString :=
  if len = 0 then some []
  else if (kMaxLength : Int) < len ∨ off < 0 then none
  else if len < 0 then ((cString (block.drop off.toNat)).map decode)
  else (readAt block off.toNat len.toNat).map decode

/-- `Buffer::Alloc`: `calloc` of the `Uint32Value` of its argument. -/
def Buffer.alloc (length : Nat) : List UInt8 := List.replicate (length % 2 ^ 32) 0

/-- `Buffer::Read`. -/
def Buffer.read (block : List UInt8) (off len : Int) : Option JsString :=
  newFromUtf8 block (int32Value off) (int32Value len)

/-- `Buffer::Write`: the block after it and the number of code units it returns.  The
    capacity given to `WriteUtf8` is the length of the string. -/
def Buffer.write (block : List UInt8) (str : JsString) (off : Int) :
    Option (List UInt8 × Nat) :=
  let off := int32Value off
  let (bytes, written) := writeUtf8 str str.length
  if off < 0 then none
  else (writeAt block off.toNat bytes).map fun block' => (block', written)

/-! ### `DataView` -/

/-- The big-endian bytes of `v`, `n` of them. -/
def bigEndian : Nat → Nat → List UInt8
  | 0, _ => []
  | n + 1, v => UInt8.ofNat (v / 256 ^ n) :: bigEndian n v

/-- The number big-endian bytes stand for. -/
def ofBigEndian (bs : List UInt8) : Nat := bs.foldl (fun acc b => acc * 256 + b.toNat) 0

/-- `DataView.prototype.getUint8`. -/
def DataView.getUint8 (block : List UInt8) (off : Nat) : Option UInt8 := block[off]?

/-- `DataView.prototype.getUint32`. -/
def DataView.getUint32 (block : List UInt8) (off : Nat) : Option Nat :=
  (readAt block off 4).map ofBigEndian

/-- `DataView.prototype.setUint8`. -/
def DataView.setUint8 (block : List UInt8) (off v : Nat) : Option (List UInt8) :=
  writeAt block off (bigEndian 1 v)

/-- `DataView.prototype.setUint16`. -/
def DataView.setUint16 (block : List UInt8) (off v : Nat) : Option (List UInt8) :=
  writeAt block off (bigEndian 2 v)

/-- `DataView.prototype.setUint32`. -/
def DataView.setUint32 (block : List UInt8) (off v : Nat) : Option (List UInt8) :=
  writeAt block off (bigEndian 4 v)

@[simp] theorem length_bigEndian (n v : Nat) : (bigEndian n v).length = n := by
  induction n with
  | zero => rfl
  | succ n ih => rw [bigEndian, List.length_cons, ih]

theorem bigEndian_one (v : Nat) : bigEndian 1 v = [UInt8.ofNat v] := by
  rw [bigEndian, bigEndian, Nat.pow_zero, Nat.div_one]

private theorem foldl_bigEndian (n acc v : Nat) :
    (bigEndian n v).foldl (fun acc b => acc * 256 + b.toNat) acc
      = acc * 256 ^ n + v % 256 ^ n := by
  induction n generalizing acc with
  | zero =>
    rw [bigEndian, List.foldl_nil, Nat.pow_zero, Nat.mod_one]
    omega
  | succ n ih =>
    have hdigit : v % 256 ^ (n + 1) = v / 256 ^ n % 256 * 256 ^ n + v % 256 ^ n := by
      rw [Nat.pow_succ, Nat.mod_mul, Nat.mul_comm (256 ^ n), Nat.add_comm]
    have hbyte : (UInt8.ofNat (v / 256 ^ n)).toNat = v / 256 ^ n % 256 := UInt8.toNat_ofNat'
    rw [bigEndian, List.foldl_cons, ih, hbyte, hdigit]
    ring

/-- **Big-endian round trip**, modulo the size of the field. -/
theorem ofBigEndian_bigEndian (n v : Nat) : ofBigEndian (bigEndian n v) = v % 256 ^ n := by
  rw [ofBigEndian, foldl_bigEndian, Nat.zero_mul, Nat.zero_add]

/-! ### Reading and writing a block -/

/-- A read inside the block decodes the range it names. -/
theorem Buffer.read_eq {block : List UInt8} {off len : Nat} (hoff : off < 2 ^ 31)
    (hlen : len ≤ kMaxLength) (h : off + len ≤ block.length) :
    Buffer.read block off len = some (decode (slice block off len)) := by
  have hlen' : len < 2 ^ 31 := lt_of_le_of_lt hlen (by decide)
  rw [Buffer.read, int32Value_natCast hoff, int32Value_natCast hlen', newFromUtf8]
  by_cases h0 : len = 0
  · subst h0
    rw [slice_zero]
    rfl
  · rw [if_neg (by omega), if_neg (by omega), if_neg (by omega), Int.toNat_natCast,
      Int.toNat_natCast, readAt_eq_some h]
    rfl

/-- In a block of at most `2^32 - 1` bytes the builtin stores at the offset it is given, or in
    front of the block. -/
theorem Buffer.write_eq_some_iff {wb wb' : List UInt8} {text : JsString} {off k : Nat}
    (hroom : off ≤ wb.length) (hwb : wb.length < 2 ^ 32) :
    Buffer.write wb text off = some (wb', k) ↔
      off < 2 ^ 31 ∧ writeAt wb off (writeUtf8 text text.length).1 = some wb' ∧
        (writeUtf8 text text.length).2 = k := by
  unfold Buffer.write
  by_cases hoff : off < 2 ^ 31
  · rw [int32Value_natCast hoff]
    simp only [hoff, true_and]
    rw [if_neg (by omega), Int.toNat_natCast, Option.map_eq_some_iff]
    simp
  · have hneg : int32Value off < 0 := int32Value_neg (by omega) (by omega)
    simp only [hoff, false_and, if_pos hneg, reduceCtorEq]

end Dv8.Builtins
