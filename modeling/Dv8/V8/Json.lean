import Dv8.V8.WriteUtf8

namespace Dv8.V8

/-!
# `JSON.stringify` and `JSON.parse`

Texts are JavaScript strings, so both work on code units.  `JsonStringifier` writes no
whitespace and escapes surrogates that are not part of a pair.  `JsonParser` reads any JSON
text; numbers are not looked into, a number is its text.
-/

/-- The values of JSON texts.  The keys of an object are in the order they were added in. -/
inductive Json where
  | null
  | bool (b : Bool)
  | number (text : JsString)
  | string (s : JsString)
  | array (elements : List Json)
  | object (members : List (JsString × Json))

/-! ### `JsonStringifier` -/

/-- `DoNotEscape` -/
def doNotEscape (c : UInt16) : Bool :=
  0x23 ≤ c && c != 0x5C && c != 0x7F && (c < 0xD800 || 0xDFFF < c)

/-- A hexadecimal digit, in lower case. -/
def hexDigit (n : Nat) : UInt16 := UInt16.ofNat (if n < 10 then 0x30 + n else 0x57 + n)

/-- `\uXXXX` -/
def unicodeEscape (c : UInt16) : JsString :=
  [0x5C, 0x75, hexDigit (c.toNat / 4096), hexDigit (c.toNat / 256 % 16),
    hexDigit (c.toNat / 16 % 16), hexDigit (c.toNat % 16)]

/-- `JsonEscapeTable` -/
def jsonEscapeTable (c : UInt16) : JsString :=
  if c = 0x08 then [0x5C, 0x62]
  else if c = 0x09 then [0x5C, 0x74]
  else if c = 0x0A then [0x5C, 0x6E]
  else if c = 0x0C then [0x5C, 0x66]
  else if c = 0x0D then [0x5C, 0x72]
  else if c = 0x22 then [0x5C, 0x22]
  else if c = 0x5C then [0x5C, 0x5C]
  else if c < 0x20 then unicodeEscape c
  else [c]

/-- The loop of `SerializeString_`. -/
def serializeUnits : JsString → JsString
  | [] => []
  | c :: s =>
    if doNotEscape c then c :: serializeUnits s
    else if 0xD800 ≤ c ∧ c ≤ 0xDFFF then
      if c ≤ 0xDBFF then
        match s with
        | [] => unicodeEscape c
        | next :: s' =>
          if 0xDC00 ≤ next ∧ next ≤ 0xDFFF then c :: next :: serializeUnits s'
          else unicodeEscape c ++ serializeUnits (next :: s')
      else unicodeEscape c ++ serializeUnits s
    else jsonEscapeTable c ++ serializeUnits s

/-- `SerializeString` -/
def serializeString (s : JsString) : JsString := 0x22 :: (serializeUnits s ++ [0x22])

mutual

/-- `JsonStringify`, without a gap. -/
def stringify : Json → JsString
  | .null => [0x6E, 0x75, 0x6C, 0x6C]
  | .bool true => [0x74, 0x72, 0x75, 0x65]
  | .bool false => [0x66, 0x61, 0x6C, 0x73, 0x65]
  | .number text => text
  | .string s => serializeString s
  | .array elements => 0x5B :: (serializeElements elements ++ [0x5D])
  | .object members => 0x7B :: (serializeMembers members ++ [0x7D])

/-- The elements of an array, with commas between them. -/
def serializeElements : List Json → JsString
  | [] => []
  | [e] => stringify e
  | e :: es => stringify e ++ 0x2C :: serializeElements es

/-- The members of an object, with commas between them. -/
def serializeMembers : List (JsString × Json) → JsString
  | [] => []
  | [(k, v)] => serializeString k ++ 0x3A :: stringify v
  | (k, v) :: ms => serializeString k ++ 0x3A :: (stringify v ++ 0x2C :: serializeMembers ms)

end

/-! ### `JsonParser` -/

/-- A parser of part of a text: what it reads, and the rest. -/
abbrev Scan (α : Type) := JsString → Option (α × JsString)

/-- `JsonToken::WHITESPACE` -/
def isWhitespace (c : UInt16) : Bool := c = 0x20 || c = 0x09 || c = 0x0D || c = 0x0A

/-- `SkipWhitespace` -/
def skipWhitespace (s : JsString) : JsString := s.dropWhile isWhitespace

/-- `HexValue` -/
def hexValue (c : UInt16) : Option Nat :=
  if 0x30 ≤ c ∧ c ≤ 0x39 then some (c.toNat - 0x30)
  else if 0x61 ≤ c ∧ c ≤ 0x66 then some (c.toNat - 0x57)
  else if 0x41 ≤ c ∧ c ≤ 0x46 then some (c.toNat - 0x37)
  else none

/-- `ScanUnicodeCharacter` -/
def scanUnicodeCharacter (a b c d : UInt16) : Option UInt16 := do
  let a ← hexValue a
  let b ← hexValue b
  let c ← hexValue c
  let d ← hexValue d
  return UInt16.ofNat (((a * 16 + b) * 16 + c) * 16 + d)

/-- `GetEscapeKind`, but for `\u`. -/
def escapeKind (c : UInt16) : Option UInt16 :=
  if c = 0x62 then some 0x08
  else if c = 0x74 then some 0x09
  else if c = 0x6E then some 0x0A
  else if c = 0x66 then some 0x0C
  else if c = 0x72 then some 0x0D
  else if c = 0x22 ∨ c = 0x5C ∨ c = 0x2F then some c
  else none

/-- `ScanJsonString` and `DecodeString`, behind the opening quote. -/
def scanJsonString : Scan JsString
  | [] => none
  | c :: s =>
    if c = 0x22 then some ([], s)
    else if c = 0x5C then
      match s with
      | [] => none
      | e :: s =>
        if e = 0x75 then
          match s with
          | a :: b :: c :: d :: s =>
            (scanUnicodeCharacter a b c d).bind fun u =>
              (scanJsonString s).map fun (str, rest) => (u :: str, rest)
          | _ => none
        else
          (escapeKind e).bind fun u => (scanJsonString s).map fun (str, rest) => (u :: str, rest)
    else if c < 0x20 then none
    else (scanJsonString s).map fun (str, rest) => (c :: str, rest)
termination_by structural s => s

/-- `IsDecimalDigit` -/
def isDecimalDigit (c : UInt16) : Bool := 0x30 ≤ c && c ≤ 0x39

/-- At least one digit. -/
def scanDigits : JsString → Option JsString
  | c :: s => if isDecimalDigit c then some (s.dropWhile isDecimalDigit) else none
  | [] => none

/-- The digits before the point; a zero stands alone. -/
def scanInteger : JsString → Option JsString
  | c :: s =>
    if c = 0x30 then if s.head?.any isDecimalDigit then none else some s
    else scanDigits (c :: s)
  | [] => none

/-- A point and digits, if there is a point. -/
def scanFraction : JsString → Option JsString
  | c :: s => if c = 0x2E then scanDigits s else some (c :: s)
  | [] => some []

/-- An exponent, if there is one. -/
def scanExponent : JsString → Option JsString
  | c :: s =>
    if c = 0x65 ∨ c = 0x45 then
      match s with
      | d :: s => if d = 0x2D ∨ d = 0x2B then scanDigits s else scanDigits (d :: s)
      | [] => none
    else some (c :: s)
  | [] => some []

/-- A minus sign, if there is one, and the digits before the point. -/
def scanSigned : JsString → Option JsString
  | c :: s => if c = 0x2D then scanInteger s else scanInteger (c :: s)
  | [] => none

/-- `ParseJsonNumber` -/
def parseJsonNumber (s : JsString) : Option (Json × JsString) :=
  ((scanSigned s).bind fun rest => (scanFraction rest).bind scanExponent).map fun rest =>
    (.number (s.take (s.length - rest.length)), rest)

/-- `ScanLiteral` -/
def scanLiteral (literal : JsString) (value : Json) (s : JsString) : Option (Json × JsString) :=
  if literal.isPrefixOf s then some (value, s.drop literal.length) else none

/-- Items with commas between them, up to `close`; `fuel` bounds their number. -/
def scanItems {α : Type} (item : Scan α) (close : UInt16) : Nat → Scan (List α)
  | 0, _ => none
  | fuel + 1, s =>
    (item s).bind fun (x, s) =>
      match skipWhitespace s with
      | c :: s =>
        if c = 0x2C then (scanItems item close fuel s).map fun (xs, s) => (x :: xs, s)
        else if c = close then some ([x], s)
        else none
      | [] => none

/-- What stands between two brackets, behind the opening one. -/
def scanBracketed {α : Type} (item : Scan α) (close : UInt16) (fuel : Nat) : Scan (List α) :=
  fun s =>
    match skipWhitespace s with
    | c :: s' => if c = close then some ([], s') else scanItems item close fuel s
    | [] => none

/-- A key, a colon and a value. -/
def scanMember {α : Type} (item : Scan α) : Scan (JsString × α) := fun s =>
  match skipWhitespace s with
  | c :: s =>
    if c = 0x22 then
      (scanJsonString s).bind fun (k, s) =>
        match skipWhitespace s with
        | c :: s => if c = 0x3A then (item s).map fun (v, s) => ((k, v), s) else none
        | [] => none
    else none
  | [] => none

/-- A property is added at the end, or replaces the value of one with its key. -/
def defineProperty (members : List (JsString × Json)) (member : JsString × Json) :
    List (JsString × Json) :=
  if member.1 ∈ members.map Prod.fst then
    members.map fun m => if m.1 = member.1 then member else m
  else members ++ [member]

/-- `BuildJsonObject` -/
def buildJsonObject (members : List (JsString × Json)) : Json :=
  .object (members.foldl defineProperty [])

/-- A value that starts with `c`; `item` reads what stands in an array or object. -/
def parseToken (item : Scan Json) (fuel : Nat) (c : UInt16) (s : JsString) :
    Option (Json × JsString) :=
  if c = 0x22 then (scanJsonString s).map fun (str, s) => (.string str, s)
  else if c = 0x7B then
    (scanBracketed (scanMember item) 0x7D fuel s).map fun (members, s) =>
      (buildJsonObject members, s)
  else if c = 0x5B then (scanBracketed item 0x5D fuel s).map fun (es, s) => (.array es, s)
  else if c = 0x74 then scanLiteral [0x74, 0x72, 0x75, 0x65] (.bool true) (c :: s)
  else if c = 0x66 then scanLiteral [0x66, 0x61, 0x6C, 0x73, 0x65] (.bool false) (c :: s)
  else if c = 0x6E then scanLiteral [0x6E, 0x75, 0x6C, 0x6C] .null (c :: s)
  else if c = 0x2D ∨ isDecimalDigit c then parseJsonNumber (c :: s)
  else none

/-- `ParseJsonValue`; `fuel` bounds the depth and the lengths of arrays and objects. -/
def parseJsonValue : Nat → Scan Json
  | 0, _ => none
  | fuel + 1, s =>
    match skipWhitespace s with
    | [] => none
    | c :: s => parseToken (parseJsonValue fuel) fuel c s

/-- `ParseJson`: a value, and nothing but whitespace behind it. -/
def parseJson (s : JsString) : Option Json :=
  (parseJsonValue (s.length + 1) s).bind fun (v, rest) =>
    if skipWhitespace rest = [] then some v else none

end Dv8.V8
