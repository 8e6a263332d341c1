import Dv8.Builtins.RoundTrip

namespace Dv8.Thread

open Dv8.Lib Dv8.V8 Dv8.Builtins

/-!
# C strings between threads

`Thread::Start` copies the source of a function for the new thread, and `ReportException` copies
what it says about an exception for the thread that started the worker.  Both allocate `strlen`
bytes.  `strncpy` then stores the terminating zero behind them; `memcpy` stores none.  The other
side reads up to a zero.

* `strncpy_calloc` — the source is stored with a zero, but not inside its allocation;
* `readBack_copyString` — every other string is stored inside its allocation, but without a zero,
  and the other side runs past its end;
* `not_handed` — so no string comes across inside its allocation, whatever it is.
-/

/-- `*String::Utf8Value(isolate, s)`. -/
def utf8Value (s : JsString) : List UInt8 := encoding s ++ [0]

def strlen (s : List UInt8) : Nat := (s.takeWhile (· ≠ 0)).length

/-- `calloc(n, 1)`. -/
def calloc (n : Nat) : List UInt8 := List.replicate n 0

/-- `strncpy(dst, src, n)`: the bytes of the string, then zeros up to `n`. -/
def strncpy (dst src : List UInt8) (n : Nat) : Option (List UInt8) :=
  let bytes := (src.takeWhile (· ≠ 0)).take n
  writeAt dst 0 (bytes ++ List.replicate (n - bytes.length) 0)

/-- `calloc(strlen(s), 1)`, and `memcpy` of `strlen(s)` bytes. -/
def copyString (s : List UInt8) : Option (List UInt8) :=
  writeAt (calloc (strlen s)) 0 (s.take (strlen s))

/-- `js_error`; `none` is a field that has not been written. -/
structure JsError where
  hasError : Nat
  linenum : Option Int
  filename : Option (List UInt8)
  exception : Option (List UInt8)
  sourceline : Option (List UInt8)
  stack : Option (List UInt8)
  deriving DecidableEq, Repr

/-- `thread_handle`: the strings.  `source` is `none` when something is stored outside of it. -/
structure ThreadHandle where
  size : Nat
  source : Option (List UInt8)
  error : JsError
  deriving DecidableEq, Repr

/-- `Thread::Start`: the handle is allocated with `malloc`. -/
def start (source : JsString) : ThreadHandle :=
  let len := int32Value (strlen (utf8Value source))
  { size := (len % 2 ^ 64).toNat,
    -- there is no room for the size a negative `len` stands for
    source := if len < 0 then none
      else strncpy (calloc len.toNat) (utf8Value source) (len.toNat + 1),
    error := ⟨0, none, none, none, none, none⟩ }

/-- An exception: the strings `ReportException` takes from V8.  There may be no stack trace. -/
structure Report where
  filename : JsString
  exception : JsString
  sourceline : JsString
  linenum : Int
  stackTrace : Option JsString
  deriving DecidableEq, Repr

/-- `ReportException`. -/
def reportException (e : JsError) (r : Report) : JsError where
  hasError := 1
  linenum := some r.linenum
  filename := copyString (utf8Value r.filename)
  exception := copyString (utf8Value r.exception)
  sourceline := copyString (utf8Value r.sourceline)
  stack :=
    match r.stackTrace with
    | some trace => if 0 < trace.length then copyString (utf8Value trace) else e.stack
    | none => e.stack

/-- `String::NewFromUtf8(isolate, field)` of `start_context` and `on_context_complete`. -/
def readBack (field : Option (List UInt8)) : Option JsString :=
  field.bind fun block => newFromUtf8 block 0 (-1)

/-- The string is inside its allocation with its terminating zero, and is read back. -/
def Survives (s : JsString) (field : Option (List UInt8)) : Prop :=
  (∃ block, field = some block ∧ 0 ∈ block) ∧ readBack field = some s

/-- `on_context_complete` looks at `stack` in any case. -/
def Report.StackSurvives (r : Report) (e : JsError) : Prop :=
  e.stack.isSome ∧ ∀ trace ∈ r.stackTrace, Survives trace e.stack

/-- Every string stored for the other side survives. -/
structure Handed (text : JsString) (r : Report) : Prop where
  source : Survives text (start text).source
  filename : Survives r.filename (reportException (start text).error r).filename
  exception : Survives r.exception (reportException (start text).error r).exception
  sourceline : Survives r.sourceline (reportException (start text).error r).sourceline
  stack : r.StackSurvives (reportException (start text).error r)

/-! ### Both copies -/

/-- The bytes in front of the first zero. -/
theorem take_strlen (s : List UInt8) : s.take (strlen s) = s.takeWhile (· ≠ 0) :=
  (List.prefix_iff_eq_take.mp (List.takeWhile_prefix _)).symm

theorem zero_notMem_takeWhile (s : List UInt8) : 0 ∉ s.takeWhile (· ≠ 0) := by
  intro h
  have hne := List.all_eq_true.mp List.all_takeWhile 0 h
  exact absurd hne (by decide)

/-- **`memcpy`** fills its allocation with what is in front of the zero. -/
theorem copyString_eq (s : List UInt8) : copyString s = some (s.takeWhile (· ≠ 0)) := by
  have hlength : (s.takeWhile (· ≠ 0)).length = (calloc (strlen s)).length := by
    rw [calloc, List.length_replicate]
    rfl
  rw [copyString, take_strlen, writeAt_zero (Nat.le_of_eq hlength), hlength, List.drop_length,
    List.append_nil]

/-- **`strncpy`** of one byte more than there is room for stores outside of it. -/
theorem strncpy_calloc (s : List UInt8) (n : Nat) : strncpy (calloc n) s (n + 1) = none := by
  refine if_neg ?_
  rw [calloc, List.length_append, List.length_replicate, List.length_replicate]
  omega

/-- Without a zero there is no C string in a block. -/
theorem cString_eq_none {bs : List UInt8} (h : 0 ∉ bs) : cString bs = none := by
  induction bs with
  | nil => rfl
  | cons b bs ih =>
    obtain ⟨hb, hbs⟩ := not_or.mp (mt List.mem_cons.mpr h)
    rw [cString, if_neg (Ne.symm hb), ih hbs]
    rfl

/-- **The other side runs past the end** of what `memcpy` has stored. -/
theorem readBack_copyString (s : List UInt8) : readBack (copyString s) = none := by
  have hnone := cString_eq_none (zero_notMem_takeWhile s)
  rw [copyString_eq, readBack, Option.bind_some, newFromUtf8, if_neg (by decide),
    if_neg (by decide), if_pos (by decide), Int.toNat_zero, List.drop_zero, hnone]
  rfl

theorem not_survives_copyString (s : JsString) (text : List UInt8) :
    ¬ Survives s (copyString text) := by
  rintro ⟨-, hread⟩
  rw [readBack_copyString] at hread
  cases hread

theorem not_survives_none (s : JsString) : ¬ Survives s none := by
  rintro ⟨⟨block, hblock, -⟩, -⟩
  cases hblock

theorem start_source (text : JsString) : (start text).source = none := by
  unfold start
  dsimp only
  split_ifs
  · rfl
  · exact strncpy_calloc _ _

/-! ### The strings -/

/-- The trace is stored like the other strings, or the field is as `malloc` left it. -/
theorem not_stackSurvives {e : JsError} (he : e.stack = none) (r : Report) :
    ¬ r.StackSurvives (reportException e r) := by
  rintro ⟨hwritten, hsurvives⟩
  cases htrace : r.stackTrace with
  | none =>
    rw [reportException, htrace, he] at hwritten
    cases hwritten
  | some trace =>
    have htrace' := hsurvives trace htrace
    simp only [reportException, htrace] at htrace'
    split_ifs at htrace'
    · exact not_survives_copyString _ _ htrace'
    · exact not_survives_none _ (he ▸ htrace')

/-- **No string survives**: not the source of a function, and of an exception neither the file
    name, the message, the source line nor the stack trace. -/
theorem not_handed (text : JsString) (r : Report) :
    ¬ Survives text (start text).source ∧
      ¬ Survives r.filename (reportException (start text).error r).filename ∧
      ¬ Survives r.exception (reportException (start text).error r).exception ∧
      ¬ Survives r.sourceline (reportException (start text).error r).sourceline ∧
      ¬ r.StackSurvives (reportException (start text).error r) := by
  refine ⟨?_, not_survives_copyString _ _, not_survives_copyString _ _,
    not_survives_copyString _ _, not_stackSurvives rfl r⟩
  rw [start_source]
  exact not_survives_none text

/-- One byte more, and a string comes across. -/
example : Survives [0x66, 0x3D] (strncpy (calloc 3) (utf8Value [0x66, 0x3D]) 3) :=
  ⟨⟨[0x66, 0x3D, 0], by decide, by decide⟩, by decide⟩

/-- The source `f` and the exception `e` in line 1 of `a`, without a stack trace. -/
theorem exists_not_handed :
    ¬ ∀ (text : JsString) (r : Report), Handed text r := by
  intro hall
  have hfilename := (hall [0x66] ⟨[0x61], [0x65], [0x65], 1, none⟩).filename
  exact not_survives_copyString [0x61] (utf8Value [0x61]) hfilename

end Dv8.Thread
