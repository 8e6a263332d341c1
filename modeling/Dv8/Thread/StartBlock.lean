import Dv8.Builtins.Buffer
import Dv8.V8.JsonRoundTrip
import Dv8.V8.WriteText

namespace Dv8.Thread

open Dv8.Lib Dv8.V8 Dv8.Builtins

/-!
# The start-up block of a thread

`process.spawn` writes the thread's id, a file descriptor, the environment and the arguments
into one block, which the worker branch of `main.js` reads when the thread starts.  The sizes of
the two texts are numbers of code units, while `Buffer.write` stores UTF-8 in as many bytes.

* `spawn_eq` — the block, byte for byte: every write is inside it;
* `decode_field_ascii` / `garbled_field` — a text comes back when it is ASCII, and otherwise
  as something `JSON.parse` makes no array or object of (`parseJson_garbled`);
* `startsUp_iff_plain` — the worker starts with its parent's environment and arguments exactly
  when no string of them holds a code unit beyond ASCII that is not a lone surrogate.
-/

/-- `process.env`, an object of strings: its properties in order, no key twice. -/
structure Env where
  entries : List (JsString × JsString)
  nodup : (entries.map Prod.fst).Nodup

/-- The object `JSON.stringify` gets. -/
def Env.toJson (env : Env) : Json := .object (env.entries.map fun (k, v) => (k, .string v))

/-- `process.args`, an array of strings. -/
def argsJson (args : List JsString) : Json := .array (args.map Json.string)

/-- `JSON.stringify`; `none` is its `RangeError` for a text that is too long for a string. -/
def jsonStringify (v : Json) : Option JsString :=
  if (stringify v).length ≤ kMaxLength then some (stringify v) else none

/-- What `process.spawn` leaves in `thread.buffer`. -/
def spawn (env : Env) (args : List JsString) (id fd : Nat) : Option (List UInt8) := do
  let envJSON ← jsonStringify env.toJson
  let argsJSON ← jsonStringify (argsJson args)
  let bufferSize := envJSON.length + argsJSON.length + 13
  let block := Buffer.alloc bufferSize
  let block ← DataView.setUint32 block 1 fd
  let block ← DataView.setUint8 block 0 id
  let block ← DataView.setUint32 block 5 envJSON.length
  let (block, _) ← Buffer.write block envJSON (9 : Nat)
  let block ← DataView.setUint32 block (envJSON.length + 9) argsJSON.length
  let (block, _) ← Buffer.write block argsJSON (envJSON.length + 13 : Nat)
  return block

/-- The `process` of a worker. -/
structure Worker where
  TID : Nat
  fd : Nat
  env : Json
  args : Json

/-- The worker branch of `main.js`, up to `process.args`. -/
def startUp (block : List UInt8) : Option Worker := do
  let TID ← DataView.getUint8 block 0
  let fd ← DataView.getUint32 block 1
  let envLength ← DataView.getUint32 block 5
  let envJSON ← Buffer.read block (9 : Nat) envLength
  let env ← parseJson envJSON
  let argsLength ← DataView.getUint32 block (9 + envLength)
  let argsJSON ← Buffer.read block (13 + envLength : Nat) argsLength
  let args ← parseJson argsJSON
  return { TID := TID.toNat, fd := fd, env := env, args := args }

/-- A value is deep-equal to the environment: an object with the same property under each key. -/
def EqualsEnv (v : Json) (env : Env) : Prop :=
  ∃ members, v = .object members ∧
    ∀ k, members.lookup k = (env.entries.lookup k).map Json.string

/-- A value is deep-equal to the arguments. -/
def EqualsArgs (v : Json) (args : List JsString) : Prop := v = .array (args.map Json.string)

/-- Every write and read is inside the block, and the worker has what its parent gave it. -/
def StartsUp (env : Env) (args : List JsString) (id fd : Nat) : Prop :=
  ∃ block worker, spawn env args id fd = some block ∧ startUp block = some worker ∧
    worker.TID = id ∧ worker.fd = fd ∧ EqualsEnv worker.env env ∧ EqualsArgs worker.args args

/-! ### The texts -/

theorem valid_env (env : Env) : env.toJson.Valid := by
  refine .object ?_ ?_
  · rw [List.map_map]
    exact env.nodup
  · intro m hm
    obtain ⟨e, -, rfl⟩ := List.mem_map.mp hm
    exact .string e.2

theorem valid_args (args : List JsString) : (argsJson args).Valid := by
  refine .array fun e he => ?_
  obtain ⟨a, -, rfl⟩ := List.mem_map.mp he
  exact .string a

theorem isAscii_stringify_env (env : Env) : IsAscii (stringify env.toJson) ↔
    ∀ e ∈ env.entries, isPlain e.1 = true ∧ isPlain e.2 = true := by
  have hmember (e : JsString × JsString) :
      IsAscii (memberText (e.1, .string e.2)) ↔ isPlain e.1 = true ∧ isPlain e.2 = true := by
    rw [memberText, stringify, isAscii_append, isAscii_cons, isAscii_serializeString,
      isAscii_serializeString]
    exact and_congr_right' (and_iff_right (by decide))
  rw [Env.toJson, isAscii_stringify_object, List.map_map]
  simp only [List.forall_mem_map, Function.comp_apply, hmember]

theorem isAscii_stringify_args (args : List JsString) : IsAscii (stringify (argsJson args)) ↔
    ∀ a ∈ args, isPlain a = true := by
  rw [argsJson, isAscii_stringify_array, List.map_map]
  simp only [List.forall_mem_map, Function.comp_apply, stringify, isAscii_serializeString]

/-! ### The block -/

/-- The bytes `Buffer.write` stores of a text. -/
def stored (text : JsString) : List UInt8 := (writeUtf8 text text.length).1

/-- The bytes between a text's start and the next field. -/
def field (text : JsString) : List UInt8 :=
  stored text ++ List.replicate (text.length - (stored text).length) 0

theorem length_stored_le {text : JsString} (h : WellFormed text) :
    (stored text).length ≤ text.length := by
  obtain ⟨cs, rfl⟩ := h
  exact (stored_writeUtf8 cs _).length_le

theorem length_field {text : JsString} (h : WellFormed text) :
    (field text).length = text.length := by
  have hle := length_stored_le h
  rw [field, List.length_append, List.length_replicate]
  omega

/-- The block for two texts. -/
def blockOf (id fd : Nat) (envJSON argsJSON : JsString) : List UInt8 :=
  bigEndian 1 id ++ (bigEndian 4 fd ++ (bigEndian 4 envJSON.length ++ (field envJSON ++
    (bigEndian 4 argsJSON.length ++ field argsJSON))))

/-- A write behind what has been written, into zeros. -/
theorem writeAt_zeros {xs ys : List UInt8} {off k n : Nat} (hoff : off = xs.length)
    (hfit : ys.length ≤ k) : writeAt (xs ++ List.replicate (k + n) 0) off ys =
      some ((xs ++ (ys ++ List.replicate (k - ys.length) 0)) ++ List.replicate n 0) := by
  have hdrop : (List.replicate (k + n) (0 : UInt8)).drop ys.length =
      List.replicate (k - ys.length) 0 ++ List.replicate n 0 := by
    rw [List.drop_replicate, List.replicate_append_replicate]
    congr 1
    omega
  rw [writeAt_append hoff (by rw [List.length_replicate]; omega), hdrop]
  simp only [List.append_assoc]

theorem setUint32_zeros {xs : List UInt8} {off n : Nat} (hoff : off = xs.length) (v : Nat) :
    DataView.setUint32 (xs ++ List.replicate (4 + n) 0) off v =
      some ((xs ++ bigEndian 4 v) ++ List.replicate n 0) := by
  have hlen := length_bigEndian 4 v
  rw [DataView.setUint32, writeAt_zeros hoff (Nat.le_of_eq hlen), hlen, Nat.sub_self,
    List.replicate_zero, List.append_nil]

theorem write_zeros {xs : List UInt8} {text : JsString} (h : WellFormed text) {off n : Nat}
    (hoff : off = xs.length) (hlt : off < 2 ^ 31) : ∃ written,
    Buffer.write (xs ++ List.replicate (text.length + n) 0) text off =
      some ((xs ++ field text) ++ List.replicate n 0, written) := by
  refine ⟨(writeUtf8 text text.length).2, ?_⟩
  have hwrite : writeAt (xs ++ List.replicate (text.length + n) 0) off (stored text) = _ :=
    writeAt_zeros hoff (length_stored_le h)
  have hneg : ¬ (off : Int) < 0 := by omega
  rw [Buffer.write, int32Value_natCast hlt]
  simp only [if_neg hneg, Int.toNat_natCast]
  show (writeAt _ off (stored text)).map _ = _
  rw [hwrite]
  rfl

/-- The first byte replaced. -/
theorem setUint8_first (b : UInt8) (bs : List UInt8) (v : Nat) :
    DataView.setUint8 (b :: bs) 0 v = some (bigEndian 1 v ++ bs) := by
  have hfit : (bigEndian 1 v).length ≤ (b :: bs).length := by simp
  have h : writeAt ([] ++ b :: bs) 0 (bigEndian 1 v) = _ := writeAt_append rfl hfit
  rw [List.nil_append] at h
  rw [DataView.setUint8, h, length_bigEndian]
  simp

/-- **What `spawn` writes**: every write is inside the block. -/
theorem spawn_eq {env : Env} {args : List JsString}
    (henv : (stringify env.toJson).length ≤ kMaxLength)
    (hargs : (stringify (argsJson args)).length ≤ kMaxLength) (id fd : Nat) :
    spawn env args id fd =
      some (blockOf id fd (stringify env.toJson) (stringify (argsJson args))) := by
  have henv' := wellFormed_stringify (valid_env env)
  have hargs' := wellFormed_stringify (valid_args args)
  rw [spawn, jsonStringify, jsonStringify, if_pos henv, if_pos hargs]
  generalize stringify env.toJson = envJSON at *
  generalize stringify (argsJson args) = argsJSON at *
  have hmax : kMaxLength = 2 ^ 30 - 25 := rfl
  have hlen := length_field henv'
  have halloc : Buffer.alloc (envJSON.length + argsJSON.length + 13) =
      [0] ++ List.replicate (4 + (4 + (envJSON.length + (4 + argsJSON.length)))) 0 := by
    rw [Buffer.alloc, Nat.mod_eq_of_lt (by omega), List.singleton_append, ← List.replicate_succ]
    congr 1
    omega
  -- one equation for each write, in the order of the source
  have h₁ : DataView.setUint32
      ([0] ++ List.replicate (4 + (4 + (envJSON.length + (4 + argsJSON.length)))) 0) 1 fd =
        some (([0] ++ bigEndian 4 fd) ++
          List.replicate (4 + (envJSON.length + (4 + argsJSON.length))) 0) :=
    setUint32_zeros rfl fd
  have h₂ : DataView.setUint8 (([0] ++ bigEndian 4 fd) ++
      List.replicate (4 + (envJSON.length + (4 + argsJSON.length))) 0) 0 id =
        some ((bigEndian 1 id ++ bigEndian 4 fd) ++
          List.replicate (4 + (envJSON.length + (4 + argsJSON.length))) 0) :=
    setUint8_first _ _ _
  have h₃ : DataView.setUint32 ((bigEndian 1 id ++ bigEndian 4 fd) ++
      List.replicate (4 + (envJSON.length + (4 + argsJSON.length))) 0) 5 envJSON.length =
        some (((bigEndian 1 id ++ bigEndian 4 fd) ++ bigEndian 4 envJSON.length) ++
          List.replicate (envJSON.length + (4 + argsJSON.length)) 0) :=
    setUint32_zeros (by simp) _
  obtain ⟨w₄, h₄⟩ : ∃ written, Buffer.write
      (((bigEndian 1 id ++ bigEndian 4 fd) ++ bigEndian 4 envJSON.length) ++
        List.replicate (envJSON.length + (4 + argsJSON.length)) 0) envJSON (9 : Nat) =
          some ((((bigEndian 1 id ++ bigEndian 4 fd) ++ bigEndian 4 envJSON.length) ++
            field envJSON) ++ List.replicate (4 + argsJSON.length) 0, written) :=
    write_zeros henv' (by simp) (by omega)
  have h₅ : DataView.setUint32 ((((bigEndian 1 id ++ bigEndian 4 fd) ++
      bigEndian 4 envJSON.length) ++ field envJSON) ++ List.replicate (4 + argsJSON.length) 0)
        (envJSON.length + 9) argsJSON.length =
          some (((((bigEndian 1 id ++ bigEndian 4 fd) ++ bigEndian 4 envJSON.length) ++
            field envJSON) ++ bigEndian 4 argsJSON.length) ++
              List.replicate argsJSON.length 0) := by
    refine setUint32_zeros ?_ _
    simp only [List.length_append, length_bigEndian, hlen]
    omega
  obtain ⟨w₆, h₆⟩ : ∃ written, Buffer.write (((((bigEndian 1 id ++ bigEndian 4 fd) ++
      bigEndian 4 envJSON.length) ++ field envJSON) ++ bigEndian 4 argsJSON.length) ++
        List.replicate (argsJSON.length + 0) 0) argsJSON (envJSON.length + 13 : Nat) =
          some ((((((bigEndian 1 id ++ bigEndian 4 fd) ++ bigEndian 4 envJSON.length) ++
            field envJSON) ++ bigEndian 4 argsJSON.length) ++ field argsJSON) ++
              List.replicate 0 0, written) := by
    refine write_zeros hargs' ?_ (by omega)
    simp only [List.length_append, length_bigEndian, hlen]
    omega
  rw [Nat.add_zero] at h₆
  simp only [Option.bind_eq_bind, Option.bind_some, Option.pure_def]
  rw [halloc, h₁, Option.bind_some, h₂, Option.bind_some, h₃, Option.bind_some, h₄,
    Option.bind_some]
  rw [h₅, Option.bind_some, h₆, Option.bind_some]
  simp only [List.replicate_zero, List.append_nil, blockOf, List.append_assoc]

/-! ### Reading it -/

/-- What `Buffer.read` makes of a text's field. -/
theorem read_field {block xs zs : List UInt8} {text : JsString} {off : Nat} (h : WellFormed text)
    (hblock : block = xs ++ (field text ++ zs)) (hoff : off = xs.length)
    (hlt : off < 2 ^ 31) (hmax : text.length ≤ kMaxLength) :
    Buffer.read block off text.length = some (decode (field text)) := by
  have hlen := length_field h
  have hread : readAt (xs ++ (field text ++ zs)) off text.length = some (field text) :=
    readAt_middle hoff hlen.symm
  rw [← hblock] at hread
  obtain ⟨hfit, hslice⟩ := readAt_eq_some_iff.mp hread
  rw [Buffer.read_eq hlt hmax hfit, ← hslice]

theorem getUint32_field {block xs zs : List UInt8} {off v : Nat}
    (hblock : block = xs ++ (bigEndian 4 v ++ zs)) (hoff : off = xs.length) (hv : v < 2 ^ 32) :
    DataView.getUint32 block off = some v := by
  rw [DataView.getUint32, hblock, readAt_middle hoff (length_bigEndian 4 v).symm, Option.map_some,
    ofBigEndian_bigEndian, Nat.mod_eq_of_lt (by omega)]

/-- **What the worker reads of the block.** -/
theorem startUp_blockOf {id fd : Nat} (hid : id ≤ 255) (hfd : fd < 2 ^ 32)
    {envJSON argsJSON : JsString} (henv : WellFormed envJSON) (hargs : WellFormed argsJSON)
    (henvMax : envJSON.length ≤ kMaxLength) (hargsMax : argsJSON.length ≤ kMaxLength) :
    startUp (blockOf id fd envJSON argsJSON) =
      (parseJson (decode (field envJSON))).bind fun env =>
        (parseJson (decode (field argsJSON))).map fun args => ⟨id, fd, env, args⟩ := by
  have hmax : kMaxLength = 2 ^ 30 - 25 := rfl
  have hlen := length_field henv
  obtain ⟨block, hblock⟩ : ∃ block, block = blockOf id fd envJSON argsJSON := ⟨_, rfl⟩
  -- each read finds its field behind the ones before it
  have h₁ : DataView.getUint8 block 0 = some (UInt8.ofNat id) := by
    rw [hblock, blockOf, bigEndian_one]
    rfl
  have h₂ : DataView.getUint32 block 1 = some fd :=
    getUint32_field hblock (by simp) hfd
  have h₃ : DataView.getUint32 block 5 = some envJSON.length := by
    refine getUint32_field (hblock.trans (List.append_assoc _ _ _).symm) (by simp) (by omega)
  have h₄ : Buffer.read block (9 : Nat) envJSON.length = some (decode (field envJSON)) := by
    have hsplit : block = (bigEndian 1 id ++ (bigEndian 4 fd ++ bigEndian 4 envJSON.length)) ++
        (field envJSON ++ (bigEndian 4 argsJSON.length ++ field argsJSON)) := by
      rw [hblock, blockOf, List.append_assoc, List.append_assoc]
    exact read_field henv hsplit (by simp) (by omega) henvMax
  have h₅ : DataView.getUint32 block (9 + envJSON.length) = some argsJSON.length := by
    have hsplit : block = (bigEndian 1 id ++ (bigEndian 4 fd ++ (bigEndian 4 envJSON.length ++
        field envJSON))) ++ (bigEndian 4 argsJSON.length ++ field argsJSON) := by
      rw [hblock, blockOf, List.append_assoc, List.append_assoc, List.append_assoc]
    refine getUint32_field hsplit ?_ (by omega)
    simp only [List.length_append, length_bigEndian, hlen]
    omega
  have h₆ : Buffer.read block (13 + envJSON.length : Nat) argsJSON.length =
      some (decode (field argsJSON)) := by
    have hsplit : block = (bigEndian 1 id ++ (bigEndian 4 fd ++ (bigEndian 4 envJSON.length ++
        (field envJSON ++ bigEndian 4 argsJSON.length)))) ++ (field argsJSON ++ []) := by
      rw [hblock, blockOf, List.append_nil, List.append_assoc, List.append_assoc,
        List.append_assoc, List.append_assoc]
    refine read_field hargs hsplit ?_ (by omega) hargsMax
    simp only [List.length_append, length_bigEndian, hlen]
    omega
  have hTID : (UInt8.ofNat id).toNat = id := by
    rw [UInt8.toNat_ofNat']
    omega
  rw [← hblock, startUp]
  simp only [Option.bind_eq_bind, Option.pure_def]
  rw [h₁, Option.bind_some, h₂, Option.bind_some, h₃, Option.bind_some, h₄, Option.bind_some]
  cases parseJson (decode (field envJSON)) with
  | none => rw [Option.bind_none, Option.bind_none]
  | some env =>
    rw [Option.bind_some, Option.bind_some, h₅, Option.bind_some, h₆, Option.bind_some, hTID,
      Option.map_eq_bind]
    rfl

/-- **An ASCII text comes back.** -/
theorem decode_field_ascii {text : JsString} (h : IsAscii text) : decode (field text) = text := by
  obtain ⟨cs, -, htext, hbytes⟩ := exists_text_of_ascii h
  have hlen : (asciiBytes text).length = text.length := List.length_map _
  rw [field, stored, writeUtf8_ascii h (Nat.le_refl _), hlen, Nat.sub_self, List.replicate_zero,
    List.append_nil, ← hbytes, decode_utf8, htext]

/-- **Any other text is garbled.** -/
theorem garbled_field {text : JsString} (h : WellFormed text) (hascii : ¬ IsAscii text) :
    Garbled text (decode (field text)) := by
  obtain ⟨cs, rfl⟩ := h
  have hbeyond : ∃ c ∈ cs, 0x7F < c.toNat := by
    by_contra hno
    refine hascii (isAscii_utf16 fun c hc => Nat.not_lt.mp fun hlt => hno ⟨c, hc, hlt⟩)
  exact decode_stored (stored_writeUtf8 cs _) (length_utf16_lt hbeyond)

/-- **A garbled text is not an array or object.** -/
theorem parseJson_garbled {v w : Json} (hv : v.Valid) {s : JsString} (hs : Garbled (stringify v) s)
    (h : parseJson s = some w) : w.isContainer = false := by
  by_contra hw
  have hw := eq_true_of_ne_false hw
  cases hs with
  | padded u => exact absurd (parseJson_last h hw) (by decide)
  | broken u => exact absurd (parseJson_last h hw) (by decide)
  | short hpq hq => exact absurd (parseJson_short hv hpq hq h) (by rw [hw]; exact Bool.noConfusion)

/-! ### The worker and its parent -/

theorem lookup_map_string (entries : List (JsString × JsString)) (k : JsString) :
    (entries.map fun (k, v) => (k, Json.string v)).lookup k =
      (entries.lookup k).map Json.string := by
  induction entries with
  | nil => rfl
  | cons e entries ih =>
    obtain ⟨k', v⟩ := e
    rw [List.map_cons, List.lookup_cons, List.lookup_cons, ih]
    cases k == k' <;> rfl

/-- **The worker starts with what its parent gave it** exactly when every code unit of every key,
    value and argument is ASCII or a surrogate that is not part of a pair. -/
theorem startsUp_iff_plain {env : Env} {args : List JsString} {id fd : Nat} (hid : id ≤ 255)
    (hfd : fd < 2 ^ 32) (henv : (stringify env.toJson).length ≤ kMaxLength)
    (hargs : (stringify (argsJson args)).length ≤ kMaxLength) :
    StartsUp env args id fd ↔
      (∀ e ∈ env.entries, isPlain e.1 = true ∧ isPlain e.2 = true) ∧
        ∀ a ∈ args, isPlain a = true := by
  have hspawn := spawn_eq henv hargs id fd
  have hstart := startUp_blockOf hid hfd (wellFormed_stringify (valid_env env))
    (wellFormed_stringify (valid_args args)) henv hargs
  rw [← isAscii_stringify_env, ← isAscii_stringify_args]
  constructor
  · rintro ⟨block, worker, hblock, hworker, -, -, ⟨members, henvEq, -⟩, hargsEq⟩
    rw [hspawn, Option.some.injEq] at hblock
    rw [← hblock, hstart, Option.bind_eq_some_iff] at hworker
    obtain ⟨envValue, henvParse, hworker⟩ := hworker
    rw [Option.map_eq_some_iff] at hworker
    obtain ⟨argsValue, hargsParse, rfl⟩ := hworker
    subst henvEq hargsEq
    constructor
    · -- a field that is not ASCII comes back garbled, and garbled text never parses to the object
      by_contra hascii
      have hgarbled := garbled_field (wellFormed_stringify (valid_env env)) hascii
      exact absurd (parseJson_garbled (valid_env env) hgarbled henvParse) Bool.noConfusion
    · by_contra hascii
      have hgarbled := garbled_field (wellFormed_stringify (valid_args args)) hascii
      exact absurd (parseJson_garbled (valid_args args) hgarbled hargsParse) Bool.noConfusion
  · rintro ⟨henvAscii, hargsAscii⟩
    -- an ASCII field is read back whole, and `parse` undoes `stringify`
    rw [decode_field_ascii henvAscii, decode_field_ascii hargsAscii,
      parseJson_stringify (valid_env env), parseJson_stringify (valid_args args)] at hstart
    exact ⟨_, _, hspawn, hstart, rfl, rfl, ⟨_, rfl, lookup_map_string env.entries⟩, rfl⟩

/-- Thread 1 with `A=b` and the argument `dv8`. -/
theorem startsUp_iff_plain_dv8 :
    StartsUp ⟨[([0x41], [0x62])], by decide⟩ [[0x64, 0x76, 0x38]] 1 0 :=
  (startsUp_iff_plain (by decide) (by decide) (by decide) (by decide)).mpr (by decide)

/-- With `A=é` the text of the environment has 9 units and 10 bytes: its last bracket is not
    stored, and `JSON.parse` fails in the worker. -/
theorem not_startsUp_eacute :
    ¬ StartsUp ⟨[([0x41], [0xE9])], by decide⟩ [[0x64, 0x76, 0x38]] 1 0 := by
  have hnone : ((spawn ⟨[([0x41], [0xE9])], by decide⟩ [[0x64, 0x76, 0x38]] 1 0).bind
      startUp).isNone = true := by decide +kernel
  rintro ⟨block, worker, hspawn, hstart, -⟩
  rw [hspawn, Option.bind_some, hstart] at hnone
  contradiction

end Dv8.Thread
