import Dv8.Builtins.Buffer
import Dv8.V8.Utf8Ascii
import Mathlib.Data.List.Induction

namespace Dv8.Builtins

open Dv8.Lib Dv8.V8

/-!
# `ENV`

`EnvVars` makes a string of each entry of `environ`.  `main.js`, and `base.js` outside of a worker,
split each of them at `=` and assign the second part to the first in an empty object.  The parts
behind the second one are dropped, and an object has one key that cannot be assigned a string.

* `ENV_blocks` — the value of a key is the first part of what the last entry of that name has behind
  its first `=`;
* `envParsed_iff` — the object is the environment exactly when the last entry of every name
  has no `=` in its value, and no name is `__proto__`.
-/

/-- `EnvVars`; `ToLocalChecked` ends the process when there is no string for an entry. -/
def envVars : List (List UInt8) → Option (List JsString)
  | [] => some []
  | var :: environ => do
    let bytes ← cString var
    let entry ← newFromUtf8 var 0 bytes.length
    let entries ← envVars environ
    some (entry :: entries)

/-- An object made by `{}`: its own properties.  A property may be `undefined`. -/
abbrev JsObject := JsString → Option (Option JsString)

/-- `__proto__`, whose setter on `Object.prototype` ignores what is not an object. -/
def protoName : JsString := [0x5F, 0x5F, 0x70, 0x72, 0x6F, 0x74, 0x6F, 0x5F, 0x5F]

/-- `e[key] = value` for a string or `undefined`. -/
def JsObject.assign (e : JsObject) (key : JsString) (value : Option JsString) : JsObject :=
  if key = protoName then e else Function.update e key (some value)

/-- `=`. -/
def equalsSign : UInt8 := 0x3D

/-- `(e, pair) => { e[pair[0]] = pair[1]; return e }`; `split` gives at least one part. -/
def reducer (e : JsObject) : List JsString → JsObject
  | [] => e
  | name :: rest => e.assign name rest.head?

/-- `global.env().map(entry => entry.split('=')).reduce(…, {})`. -/
def ENV (environ : List (List UInt8)) : Option JsObject :=
  (envVars environ).map fun entries =>
    (entries.map (·.splitOn (unit equalsSign))).foldl reducer fun _ => none

/-! ### Entries -/

/-- An entry of the form `NAME=VALUE`. -/
structure Entry where
  name : List UInt8
  value : List UInt8
  name_equals : equalsSign ∉ name
  name_zero : 0 ∉ name
  value_zero : 0 ∉ value
  deriving DecidableEq, Repr

def Entry.bytes (x : Entry) : List UInt8 := x.name ++ equalsSign :: x.value

/-- The entry in memory. -/
def Entry.block (x : Entry) : List UInt8 := x.bytes ++ [0]

/-- The last entry of a name. -/
def lastEntry (entries : List Entry) (key : JsString) : Option Entry :=
  entries.reverse.find? fun x => decode x.name = key

/-- The object has each name with the value of its last entry, and no other key. -/
def EnvParsed (entries : List Entry) : Prop :=
  ∃ env, ENV (entries.map Entry.block) = some env ∧
    ∀ key, env key = (lastEntry entries key).map fun x => some (decode x.value)

/-- There is a string for every entry, no name is `__proto__`, and the last entry of every name
    has no `=` in its value. -/
structure EnvSafe (entries : List Entry) : Prop where
  length : ∀ x ∈ entries, x.bytes.length ≤ kMaxLength
  name : ∀ x ∈ entries, decode x.name ≠ protoName
  value : ∀ key x, lastEntry entries key = some x → equalsSign ∉ x.value

theorem Entry.bytes_zero (x : Entry) : 0 ∉ x.bytes := by
  simp only [bytes, List.mem_append, List.mem_cons, not_or]
  exact ⟨x.name_zero, by decide, x.value_zero⟩

/-- A C string ends at its zero. -/
theorem cString_concat {bs : List UInt8} (h : 0 ∉ bs) : cString (bs ++ [0]) = some bs := by
  induction bs with
  | nil => rfl
  | cons b bs ih =>
    obtain ⟨hb, hbs⟩ := not_or.mp (mt List.mem_cons.mpr h)
    rw [List.cons_append, cString, if_neg (Ne.symm hb), ih hbs]
    rfl

/-- The string of an entry, if it is not too long for one. -/
theorem Entry.newFromUtf8_block (x : Entry) :
    newFromUtf8 x.block 0 x.bytes.length =
      if x.bytes.length ≤ kMaxLength then some (decode x.bytes) else none := by
  have hpos : x.bytes.length ≠ 0 := by
    rw [bytes, List.length_append, List.length_cons]
    omega
  unfold newFromUtf8
  rw [if_neg (by omega)]
  by_cases hmax : x.bytes.length ≤ kMaxLength
  · rw [if_neg (by omega), if_neg (by omega), if_pos hmax, Int.toNat_natCast,
      readAt_eq_some (by rw [block, List.length_append]; show 0 + _ ≤ _; omega)]
    simp [slice, block]
  · rw [if_pos (by omega), if_neg hmax]

/-- **`EnvVars`** of entries. -/
theorem envVars_blocks (entries : List Entry) :
    envVars (entries.map Entry.block) =
      if ∀ x ∈ entries, x.bytes.length ≤ kMaxLength then
        some (entries.map fun x => decode x.bytes) else none := by
  induction entries with
  | nil => rfl
  | cons x entries ih =>
    have hstring : cString x.block = some x.bytes := cString_concat x.bytes_zero
    rw [List.map_cons, envVars, hstring, ih]
    simp only [Option.bind_eq_bind, Option.bind_some, x.newFromUtf8_block, List.forall_mem_cons]
    by_cases hx : x.bytes.length ≤ kMaxLength
    · by_cases hall : ∀ x ∈ entries, x.bytes.length ≤ kMaxLength
      · rw [if_pos hx, if_pos hall, if_pos ⟨hx, hall⟩]
        rfl
      · rw [if_pos hx, if_neg hall, if_neg (not_and_of_not_right _ hall)]
        rfl
    · rw [if_neg hx, if_neg (not_and_of_not_left _ hx)]
      rfl

/-- The pair of an entry: `=` in the text is the byte. -/
theorem Entry.split (x : Entry) :
    (decode x.bytes).splitOn (unit equalsSign) =
      decode x.name :: (decode x.value).splitOn (unit equalsSign) := by
  have hname : unit equalsSign ∉ decode x.name := fun h =>
    x.name_equals ((mem_decode_iff (by decide)).mp h)
  rw [bytes, decode_cut _ _ (by decide), List.splitOn_append_cons_self_of_not_mem hname]

/-! ### The object -/

theorem lastEntry_concat (entries : List Entry) (x : Entry) (key : JsString) :
    lastEntry (entries ++ [x]) key =
      if decode x.name = key then some x else lastEntry entries key := by
  unfold lastEntry
  rw [List.reverse_concat, List.find?_cons]
  by_cases hx : decode x.name = key
  · simp only [hx, decide_true, if_true]
  · simp only [hx, decide_false, if_false]

/-- **The object by its keys**, after any number of entries: the first part of the last value. -/
theorem foldl_reducer (entries : List Entry) (key : JsString) :
    (entries.map fun x => (decode x.bytes).splitOn (unit equalsSign)).foldl reducer
        (fun _ => none) key =
      if key = protoName then none
      else (lastEntry entries key).map fun x =>
        ((decode x.value).splitOn (unit equalsSign)).head? := by
  induction entries using List.reverseRecOn with
  | nil => exact (ite_self none).symm
  | append_singleton entries x ih =>
    rw [List.map_append, List.foldl_append, List.map_singleton, List.foldl_cons, List.foldl_nil,
      x.split, lastEntry_concat, reducer, JsObject.assign]
    by_cases hproto : decode x.name = protoName
    · rw [if_pos hproto, ih]
      by_cases hkey : key = protoName
      · rw [if_pos hkey, if_pos hkey]
      · rw [if_neg hkey, if_neg hkey, if_neg fun h => hkey (h.symm.trans hproto)]
    · rw [if_neg hproto]
      by_cases hkey : decode x.name = key
      · subst hkey
        rw [Function.update_self, if_neg hproto, if_pos rfl, Option.map_some]
      · rw [Function.update_of_ne (Ne.symm hkey), if_neg hkey, ih]

/-- A string is its own first part exactly when there is no other. -/
theorem head_splitOn_iff (s : JsString) (c : UInt16) : (s.splitOn c).head? = some s ↔ c ∉ s := by
  constructor
  · intro h hmem
    obtain ⟨xs, ys, rfl, hxs⟩ := List.eq_append_cons_of_mem hmem
    rw [List.splitOn_append_cons_self_of_not_mem hxs, List.head?_cons, Option.some.injEq] at h
    have hlength := congrArg List.length h
    rw [List.length_append, List.length_cons] at hlength
    omega
  · intro h
    rw [List.splitOn_eq_singleton h, List.head?_cons]

theorem lastEntry_mem {entries : List Entry} {key : JsString} {x : Entry}
    (h : lastEntry entries key = some x) : x ∈ entries ∧ decode x.name = key := by
  unfold lastEntry at h
  have hfound := List.find?_some h
  exact ⟨List.mem_reverse.mp (List.mem_of_find?_eq_some h), of_decide_eq_true hfound⟩

/-- Every name has a last entry. -/
theorem lastEntry_isSome {entries : List Entry} {x : Entry} (hx : x ∈ entries) :
    (lastEntry entries (decode x.name)).isSome := by
  unfold lastEntry
  rw [List.find?_isSome]
  exact ⟨x, List.mem_reverse.mpr hx, decide_eq_true rfl⟩

/-- **`ENV` of entries.** -/
theorem ENV_blocks (entries : List Entry) (hlength : ∀ x ∈ entries, x.bytes.length ≤ kMaxLength) :
    ∃ env, ENV (entries.map Entry.block) = some env ∧ ∀ key, env key =
      if key = protoName then none
      else (lastEntry entries key).map fun x =>
        ((decode x.value).splitOn (unit equalsSign)).head? := by
  refine ⟨_, by rw [ENV, envVars_blocks, if_pos hlength, Option.map_some], fun key => ?_⟩
  rw [List.map_map]
  exact foldl_reducer entries key

/-- **Environment parsing** is right exactly when no value is cut, no name is ignored and every
    entry is read. -/
theorem envParsed_iff (entries : List Entry) : EnvParsed entries ↔ EnvSafe entries := by
  constructor
  · rintro ⟨env, henv, hkeys⟩
    have hlength : ∀ x ∈ entries, x.bytes.length ≤ kMaxLength := by
      by_contra hlong
      rw [ENV, envVars_blocks, if_neg hlong] at henv
      cases henv
    obtain ⟨env', henv', hkeys'⟩ := ENV_blocks entries hlength
    rw [henv] at henv'
    obtain rfl := Option.some.inj henv'
    have hname : ∀ x ∈ entries, decode x.name ≠ protoName := by
      intro x hx hproto
      obtain ⟨y, hy⟩ := Option.isSome_iff_exists.mp (lastEntry_isSome hx)
      have := (hkeys (decode x.name)).symm.trans (hkeys' (decode x.name))
      rw [hy, if_pos hproto] at this
      cases this
    refine ⟨hlength, hname, fun key x hx hequals => ?_⟩
    obtain ⟨hmem, rfl⟩ := lastEntry_mem hx
    have hvalue := (hkeys' (decode x.name)).symm.trans (hkeys (decode x.name))
    rw [hx, if_neg (hname x hmem), Option.map_some, Option.map_some, Option.some.injEq,
      head_splitOn_iff] at hvalue
    exact hvalue ((mem_decode_iff (by decide)).mpr hequals)
  · rintro ⟨hlength, hname, hvalue⟩
    obtain ⟨env, henv, hkeys⟩ := ENV_blocks entries hlength
    refine ⟨env, henv, fun key => ?_⟩
    rw [hkeys]
    cases hlast : lastEntry entries key with
    | none => exact ite_self none
    | some x =>
      obtain ⟨hmem, rfl⟩ := lastEntry_mem hlast
      rw [if_neg (hname x hmem), Option.map_some, Option.map_some,
        (head_splitOn_iff _ _).mpr fun h => hvalue _ x hlast ((mem_decode_iff (by decide)).mp h)]

/-- `A=b=c`: the object has `b`. -/
theorem not_envParsed : ¬ ∀ entries, EnvParsed entries := by
  intro hall
  obtain ⟨env, henv, hkeys⟩ := hall [⟨[0x41], [0x62, 0x3D, 0x63], by decide, by decide, by decide⟩]
  have hvalue : (ENV [[0x41, 0x3D, 0x62, 0x3D, 0x63, 0]]).map (· [0x41])
      = some (some (some [0x62])) := by decide
  have henv' : ENV [[0x41, 0x3D, 0x62, 0x3D, 0x63, 0]] = some env := henv
  rw [henv', Option.map_some, hkeys, Option.some.injEq] at hvalue
  exact absurd hvalue (by decide)

end Dv8.Builtins
