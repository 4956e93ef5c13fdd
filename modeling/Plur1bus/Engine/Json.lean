import Plur1bus.Program.Outcome
import Plur1bus.Program.Utf8

/-!
The tolerant JSON reader and writer. A text is the list of its characters, and
the reader walks its bytes; a string value is a sequence of UTF-16 units, lone
surrogates included.

The reader's position is the rest of the input. Its loops are bounded by the
length of that rest: every round takes at least one byte, and a round too many
would be reported as `stuck`, which no input is. The depth counts down from the
limit, so a reader without room has none for a container.
-/

namespace Plur1bus.Engine

open Program
open Utf8 (nextIs)

/-- UTF-16 code units. -/
abbrev JsString := List UInt16

inductive JsonValue
  | null
  | bool (b : Bool)
  | number (lexeme : List Char)
  | string (s : JsString)
  | array (items : List JsonValue)
  | object (entries : List (JsString × JsonValue))

def MAX_JSON_DEPTH : ℕ := 128

inductive JsonErrorKind
  | syntaxError | depthLimit
  /-- A loop of the reader ran out of its bound; the code has no such error. -/
  | stuck
  deriving DecidableEq, Repr

/-- `left` counts the bytes from the place of the error to the end. -/
structure Failure where
  kind : JsonErrorKind
  left : ℕ
  message : String
  deriving DecidableEq, Repr

structure TolerantJsonError where
  kind : JsonErrorKind
  offset : ℕ
  message : String
  deriving DecidableEq, Repr

/-! ### Hexadecimal digits -/

def hexDigit (n : ℕ) : Char := if n < 10 then Char.ofNat (48 + n) else Char.ofNat (87 + n)

/-- `{:02x}`. -/
def hex2 (n : ℕ) : List Char := [hexDigit (n / 16 % 16), hexDigit (n % 16)]

/-- `{:04x}`. -/
def hex4 (n : ℕ) : List Char := hex2 (n / 256) ++ hex2 n

def hexValue (b : UInt8) : Option ℕ :=
  if 0x30 ≤ b ∧ b ≤ 0x39 then some (b.toNat - 0x30)
  else if 0x61 ≤ b ∧ b ≤ 0x66 then some (b.toNat - 0x61 + 10)
  else if 0x41 ≤ b ∧ b ≤ 0x46 then some (b.toNat - 0x41 + 10)
  else none

/-! ### The reader -/

abbrev Reader (α : Type) := List UInt8 → Except Failure (α × List UInt8)

namespace Reader

def err {α : Type} (rest : List UInt8) (message : String) : Except Failure α :=
  .error ⟨.syntaxError, rest.length, message⟩

def stuck {α : Type} (rest : List UInt8) : Except Failure α := .error ⟨.stuck, rest.length, ""⟩

def isWs (b : UInt8) : Bool := b = 0x20 || b = 0x09 || b = 0x0A || b = 0x0D

def skipWs (rest : List UInt8) : List UInt8 := rest.dropWhile isWs

def isDigit (b : UInt8) : Bool := 0x30 ≤ b && b ≤ 0x39

/-- `parse_null`, `parse_true` and `parse_false`. -/
def parseWord (word : List UInt8) (value : JsonValue) (message : String) : Reader JsonValue := fun rest =>
    if rest.take word.length = word then .ok (value, rest.drop word.length) else err rest message

/-- A byte index between two characters. -/
def isBoundary (rest : List UInt8) : Bool := !nextIs (fun b => 0x80 ≤ b && b < 0xC0) rest

/-- The integer part. -/
def parseInt (rest : List UInt8) : Except Failure (List UInt8) :=
  if nextIs (· = 0x30) rest then .ok rest.tail
  else if nextIs (fun b => 0x31 ≤ b && b ≤ 0x39) rest then .ok (rest.tail.dropWhile isDigit)
  else err rest "invalid number literal"

/-- One digit or more. -/
def parseDigits (rest : List UInt8) (message : String) : Except Failure (List UInt8) :=
  if nextIs isDigit rest then .ok (rest.dropWhile isDigit) else err rest message

def parseFrac (rest : List UInt8) : Except Failure (List UInt8) :=
  if nextIs (· = 0x2E) rest then parseDigits rest.tail "expected digit after decimal point"
  else .ok rest

/-- The sign of an exponent is skipped. -/
def skipSign (rest : List UInt8) : List UInt8 :=
  if nextIs (fun b => b = 0x2B || b = 0x2D) rest then rest.tail else rest

def parseExp (rest : List UInt8) : Except Failure (List UInt8) :=
  if nextIs (fun b => b = 0x65 || b = 0x45) rest then
    parseDigits (skipSign rest.tail) "expected digit in exponent"
  else .ok rest

def parseNumber : Reader JsonValue := fun rest => do
  let r ← parseInt (if nextIs (· = 0x2D) rest then rest.tail else rest)
  let r ← parseFrac r
  let r ← parseExp r
  if isBoundary rest && isBoundary r then
    pure (.number ((rest.take (rest.length - r.length)).map fun b => Char.ofNat b.toNat), r)
  else err rest "invalid UTF-8 boundary in number"

def hexValues : List UInt8 → Option (List ℕ)
  | [] => some []
  | b :: bs => do
    let d ← hexValue b
    let ds ← hexValues bs
    pure (d :: ds)

def parseHex4 : Reader UInt16 := fun rest =>
  if rest.length < 4 then err rest "incomplete \\uXXXX escape"
  else
    match hexValues (rest.take 4) with
    | some ds => .ok (UInt16.ofNat (ds.foldl (fun v d => v * 16 + d) 0), rest.drop 4)
    | none => err rest "invalid hex digit in \\uXXXX escape"

/-- The escapes of one character. -/
def escapeUnit (esc : UInt8) : Option UInt16 :=
  if esc = 0x22 then some 0x22
  else if esc = 0x5C then some 0x5C
  else if esc = 0x2F then some 0x2F
  else if esc = 0x62 then some 0x08
  else if esc = 0x66 then some 0x0C
  else if esc = 0x6E then some 0x0A
  else if esc = 0x72 then some 0x0D
  else if esc = 0x74 then some 0x09
  else none

/-- The unit of an escape sequence, after its backslash. -/
def parseEscape : Reader UInt16
  | [] => err [] "unterminated escape sequence in string"
  | esc :: t =>
    match escapeUnit esc with
    | some u => .ok (u, t)
    | none =>
      if esc = 0x75 then parseHex4 t
      else err t (String.ofList ("invalid JSON escape: \\".toList ++ [Char.ofNat esc.toNat]))

end Reader

/-- `char::encode_utf16`. -/
def encodeUtf16 (c : Char) : List UInt16 :=
  if c.toNat < 0x10000 then [UInt16.ofNat c.toNat]
  else
    [UInt16.ofNat (0xD800 + (c.toNat - 0x10000) / 0x400),
      UInt16.ofNat (0xDC00 + (c.toNat - 0x10000) % 0x400)]

namespace Reader

/-- The units up to the closing quote. -/
def parseUnits : ℕ → Reader JsString
  | 0, rest => stuck rest
  | n + 1, rest =>
    if rest = [] then err rest "unterminated JSON string"
    else if nextIs (· = 0x22) rest then .ok ([], rest.tail)
    else if nextIs (· = 0x5C) rest then do
      let (u, r) ← parseEscape rest.tail
      let (us, r) ← parseUnits n r
      pure (u :: us, r)
    else if nextIs (· ≤ 0x1F) rest then err rest "unescaped control character in JSON string"
    else
      match Utf8.nextChar? rest with
      | none => err rest "invalid UTF-8 boundary in string"
      | some (c, r) => do
        let (us, r) ← parseUnits n r
        pure (encodeUtf16 c ++ us, r)

def parseString : Reader JsString := fun rest =>
  if nextIs (· = 0x22) rest then parseUnits (rest.tail.length + 1) rest.tail
  else err rest "expected '\"' at start of string"

section Containers

variable (item : Reader JsonValue)

/-- The loop of `parse_array`. -/
def parseItems : ℕ → Reader (List JsonValue)
  | 0, rest => stuck rest
  | n + 1, rest => do
    let (v, r) ← item rest
    let r := skipWs r
    if nextIs (· = 0x2C) r then do
      let (vs, r) ← parseItems n r.tail
      pure (v :: vs, r)
    else if nextIs (· = 0x5D) r then pure ([v], r.tail)
    else err r "expected ',' or ']' in array"

def parseArray : Reader JsonValue := fun rest =>
  let r := skipWs rest.tail
  if nextIs (· = 0x5D) r then .ok (.array [], r.tail)
  else do
    let (vs, r) ← parseItems item (r.length + 1) r
    pure (.array vs, r)

/-- The loop of `parse_object`. -/
def parseEntries : ℕ → Reader (List (JsString × JsonValue))
  | 0, rest => stuck rest
  | n + 1, rest => do
    let (k, r) ← parseString (skipWs rest)
    let r := skipWs r
    if nextIs (· = 0x3A) r then do
      let (v, r) ← item r.tail
      let r := skipWs r
      if nextIs (· = 0x2C) r then do
        let (es, r) ← parseEntries n r.tail
        pure ((k, v) :: es, r)
      else if nextIs (· = 0x7D) r then pure ([(k, v)], r.tail)
      else err r "expected ',' or '\x7d' in object"
    else err r "expected ':' after object key"

def parseObject : Reader JsonValue := fun rest =>
  let r := skipWs rest.tail
  if nextIs (· = 0x7D) r then .ok (.object [], r.tail)
  else do
    let (es, r) ← parseEntries item (r.length + 1) r
    pure (.object es, r)

end Containers

/-- A value, where `item` reads the values inside a container; there is none when
the depth limit is reached. -/
def parseValueWith (item : Option (Reader JsonValue)) : Reader JsonValue := fun rest =>
  let rest := skipWs rest
  if rest = [] then err rest "unexpected end of JSON input"
  else if nextIs (fun b => b = 0x5B || b = 0x7B) rest then
    match item with
    | none => .error ⟨.depthLimit, rest.length, "JSON nesting limit exceeded"⟩
    | some item => if nextIs (· = 0x5B) rest then parseArray item rest else parseObject item rest
  else if nextIs (· = 0x6E) rest then
    parseWord [0x6E, 0x75, 0x6C, 0x6C] .null "expected 'null'" rest
  else if nextIs (· = 0x74) rest then
    parseWord [0x74, 0x72, 0x75, 0x65] (.bool true) "expected 'true'" rest
  else if nextIs (· = 0x66) rest then
    parseWord [0x66, 0x61, 0x6C, 0x73, 0x65] (.bool false) "expected 'false'" rest
  else if nextIs (· = 0x22) rest then do
    let (s, r) ← parseString rest
    pure (.string s, r)
  else if nextIs (fun b => b = 0x2D || isDigit b) rest then parseNumber rest
  else err rest (String.ofList ("unexpected byte 0x".toList ++ hex2 (rest.headD 0).toNat))

/-- `parse_value` at a depth that leaves room for `room` containers. -/
def parseValue : ℕ → Reader JsonValue
  | 0 => parseValueWith none
  | room + 1 => parseValueWith (some (parseValue room))

end Reader

def parseJson (input : List Char) : Except TolerantJsonError JsonValue :=
  let bytes := Utf8.bytes input
  let report (e : Failure) : TolerantJsonError := ⟨e.kind, bytes.length - e.left, e.message⟩
  match Reader.parseValue MAX_JSON_DEPTH bytes with
  | .error e => .error (report e)
  | .ok (v, r) =>
    let r := Reader.skipWs r
    if r = [] then .ok v
    else .error (report ⟨.syntaxError, r.length, "trailing characters after JSON value"⟩)

/-! ### The writer -/

def isHigh (u : UInt16) : Bool := 0xD800 ≤ u && u ≤ 0xDBFF

def isLow (u : UInt16) : Bool := 0xDC00 ≤ u && u ≤ 0xDFFF

def unicodeEscape (u : UInt16) : List Char := '\\' :: 'u' :: hex4 u.toNat

/-- A unit that is no high surrogate of a pair. -/
def unitJson (u : UInt16) : List Char :=
  if u = 0x0008 then ['\\', 'b']
  else if u = 0x0009 then ['\\', 't']
  else if u = 0x000A then ['\\', 'n']
  else if u = 0x000C then ['\\', 'f']
  else if u = 0x000D then ['\\', 'r']
  else if u = 0x0022 then ['\\', '"']
  else if u = 0x005C then ['\\', '\\']
  else if u ≤ 0x001F then unicodeEscape u
  else if isHigh u || isLow u then unicodeEscape u
  else [Char.ofNat u.toNat]

/-- The loop of `JsString::to_json`. -/
def unitsJson : JsString → List Char
  | [] => []
  | [u] => unitJson u
  | u :: lo :: us =>
    if isHigh u && isLow lo then
      Char.ofNat (0x10000 + ((u.toNat - 0xD800) * 0x400 + (lo.toNat - 0xDC00))) :: unitsJson us
    else unitJson u ++ unitsJson (lo :: us)

def toJson (s : JsString) : List Char := '"' :: unitsJson s ++ ['"']

mutual

/-- `write_value_into`. -/
def writeJson : JsonValue → List Char
  | .null => ['n', 'u', 'l', 'l']
  | .bool true => ['t', 'r', 'u', 'e']
  | .bool false => ['f', 'a', 'l', 's', 'e']
  | .number lexeme => lexeme
  | .string s => toJson s
  | .array items => '[' :: writeItems items ++ [']']
  | .object entries => '\x7b' :: writeEntries entries ++ ['\x7d']

def writeItems : List JsonValue → List Char
  | [] => []
  | [v] => writeJson v
  | v :: w :: vs => writeJson v ++ ',' :: writeItems (w :: vs)

def writeEntries : List (JsString × JsonValue) → List Char
  | [] => []
  | [(k, v)] => toJson k ++ ':' :: writeJson v
  | (k, v) :: e :: es => toJson k ++ ':' :: writeJson v ++ ',' :: writeEntries (e :: es)

end

end Plur1bus.Engine
