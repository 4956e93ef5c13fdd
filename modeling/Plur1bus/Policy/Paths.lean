import Plur1bus.Policy.Decide
import Plur1bus.Program.Utf16

/-!
The syntax of paths, before any file system is asked: `checkSyntax` refuses
what two readers could understand differently and takes the rest apart into
segments, `assemble` puts the parts of an absolute path together again.

A string is a list of 16-bit units; the rules are about its characters, so it
is read as text first, and a string that is no text is refused. Lower-casing,
which one rule uses, is a parameter: nothing is used of it.
-/

namespace Plur1bus.Policy.Paths

open Program

/-- The reasons of the syntactic rules. -/
inductive RefusalReason
  | notAString | empty | tooLong | invalidUnicode | controlChar | bidiControl | backslash | dotDot
  | driveRelative | devicePath | uncNotAllowed | shortName | alternateStream | forbiddenChar
  | trailingDotSpace | reservedDeviceName
  deriving DecidableEq, Repr

structure PathRefusal where
  reason : RefusalReason
  detail : String
  deriving DecidableEq, Repr

structure SyntaxOk where
  windows : Bool
  unc : Bool
  drive : Option Char
  segments : List (List Char)
  absolute : Bool
  deriving DecidableEq, Repr

/-- An absent `allowUnc` is read like `false`. -/
structure SyntaxOptions where
  platform : Option String := none
  windowsRules : Option Bool := none
  allowUnc : Bool := false

def refuse {α : Type} (reason : RefusalReason) (detail : String) : Except PathRefusal α :=
  .error ⟨reason, detail⟩

/-! ### Rules on single characters -/

def MAX_PATH_UTF8 : ℕ := 4096

def MAX_SEGMENT_UTF8 : ℕ := 255

def byteLength (s : List Char) : ℕ := (Utf8.bytes s).length

/-- `CONTROL`: the category `Cc`. -/
def isControl (c : Char) : Bool := c.toNat < 0x20 || (0x7f ≤ c.toNat && c.toNat ≤ 0x9f)

/-- `BIDI`. -/
def isBidi (c : Char) : Bool :=
  (0x200e ≤ c.toNat && c.toNat ≤ 0x200f) || (0x202a ≤ c.toNat && c.toNat ≤ 0x202e) ||
    (0x2066 ≤ c.toNat && c.toNat ≤ 0x2069)

/-- `WIN_FORBIDDEN`. -/
def isForbidden (c : Char) : Bool := ['<', '>', '"', '|', '?', '*'].contains c

/-- The string as text, if it is one of a bearable length without control characters. -/
def checkText (input : Option (List UInt16)) : Except PathRefusal (List Char) :=
  match input with
  | none => refuse .notAString "path must be a string"
  | some us =>
    if us.isEmpty then refuse .empty "empty path"
    else match Utf16.chars? us with
      | none => refuse .invalidUnicode "path contains a lone surrogate"
      | some text =>
        if byteLength text > MAX_PATH_UTF8 then refuse .tooLong "longer than 4096 bytes"
        else if text.any isControl then refuse .controlChar "NUL or control character"
        else if text.any isBidi then refuse .bidiControl "Unicode bidirectional control"
        else .ok text

/-! ### The start of a path -/

/-- `input.replaceAll("/", "\\")`. -/
def normaliseSeparators (input : List Char) : List Char := input.map (fun c => if c = '/' then '\\' else c)

/-- `/^\\\\[?.]\\/` or `/^\\\\[?.]$/`. -/
def isDevicePath : List Char → Bool
  | '\\' :: '\\' :: c :: rest => (c = '?' || c = '.') && (rest.isEmpty || rest.head? = some '\\')
  | _ => false

/-- `/^\\\?\?\\/`. -/
def isNtObjectPath (n : List Char) : Bool := ['\\', '?', '?', '\\'].isPrefixOf n

/-- `/^[A-Za-z]:/`. -/
def isDriveSpec : List Char → Bool
  | d :: ':' :: _ => isAsciiLetter d
  | _ => false

/-- What is known of a path before its segments are looked at. -/
structure Start where
  rest : List Char
  drive : Option Char
  unc : Bool
  absolute : Bool
  deriving DecidableEq, Repr

def readStart (windows allowUnc : Bool) (input : List Char) : Except PathRefusal Start := if windows then
    let n := normaliseSeparators input
    if isDevicePath n then refuse .devicePath "\\\\?\\ and \\\\.\\ paths are refused"
    else if isNtObjectPath n then refuse .devicePath "NT object path"
    else if ['\\', '\\'].isPrefixOf n then
      if allowUnc then .ok ⟨n.drop 2, none, true, true⟩
      else refuse .uncNotAllowed "UNC paths are refused unless a root is UNC"
    else if isDriveSpec n then
      if n[2]? = some '\\' then .ok ⟨n.drop 3, n.head?.map Char.toUpper, false, true⟩
      else refuse .driveRelative "drive-relative path (C:foo)"
    else if n.head? = some '\\' then refuse .driveRelative "rooted path without a drive"
    else .ok ⟨n, none, false, false⟩
  else if input.contains '\\' then
    refuse .backslash "backslash in a POSIX path (RULING: ambiguous with a separator, refused)"
  else .ok ⟨input, none, false, input.head? = some '/'⟩

/-! ### The segments -/

section Segments

variable (toLowerCase : List Char → List Char)

/-- `isReservedDeviceName`: the stem up to the first dot, without trailing spaces. -/
def isReservedDeviceName (segment : List Char) : Bool :=
  let stem := toLowerCase (((segment.takeWhile (· ≠ '.')).reverse.dropWhile (· = ' ')).reverse)
  let port := if "com".toList.isPrefixOf stem || "lpt".toList.isPrefixOf stem then some (stem.drop 3)
    else none
  ["con", "prn", "aux", "nul", "conin$", "conout$", "clock$"].any (fun n => n.toList = stem) ||
    match port with
    | some [d] => ('1' ≤ d && d ≤ '9') || d = '\u00b9' || d = '\u00b2' || d = '\u00b3'
    | _ => false

/-- `SHORT_NAME`: one to six characters, a tilde and digits, and at most three
characters after the first dot if there is one. Digits are no tildes, so the
tilde is at one of six places. -/
def isShortName (segment : List Char) : Bool :=
  let stem := segment.takeWhile (· ≠ '.')
  let ext := (segment.dropWhile (· ≠ '.')).drop 1
  (List.range 6).any (fun k =>
    stem[k + 1]? = some '~' && !(stem.drop (k + 2)).isEmpty && (stem.drop (k + 2)).all Char.isDigit) &&
    ext.length ≤ 3 && !ext.contains '.'

/-- `JSON.stringify` of a segment that has no control character and no
backslash, which is every one a message quotes. -/
def quoted (seg : List Char) : String :=
  String.ofList ('"' :: seg.flatMap (fun c => if c = '"' then ['\\', '"'] else [c]) ++ ['"'])

/-- The rules on a segment that is neither empty nor made of one dot. -/
def checkSegment (windows : Bool) (seg : List Char) : Except PathRefusal Unit :=
  if seg = ['.', '.'] then refuse .dotDot "'..' segment"
  else if byteLength seg > MAX_SEGMENT_UTF8 then refuse .tooLong "segment longer than 255 bytes"
  else if windows then
    if seg.contains ':' then
      refuse .alternateStream ("':' in segment " ++ quoted seg ++ " (drive spec or NTFS stream)")
    else if seg.any isForbidden then refuse .forbiddenChar ("one of < > \" | ? * in " ++ quoted seg)
    else if seg.getLast? = some '.' || seg.getLast? = some ' ' then
      refuse .trailingDotSpace ("segment " ++ quoted seg ++ " ends in a dot or space")
    else if isReservedDeviceName toLowerCase seg then
      refuse .reservedDeviceName (quoted seg ++ " is a Windows device name")
    else if isShortName seg then refuse .shortName (quoted seg ++ " looks like an 8.3 short name")
    else .ok ()
  else .ok ()

/-- The loop over the pieces between separators. -/
def collect (windows : Bool) : List (List Char) → Except PathRefusal (List (List Char))
  | [] => .ok []
  | seg :: raw =>
    if seg = [] ∨ seg = ['.'] then collect windows raw
    else do
      checkSegment toLowerCase windows seg
      let segments ← collect windows raw
      pure (seg :: segments)

def separator (windows : Bool) : Char := if windows then '\\' else '/'

/-- `host` is `process.platform`. -/
def SyntaxOptions.windows (o : SyntaxOptions) (host : String) : Bool :=
  o.windowsRules.getD (o.platform.getD host == "win32")

def checkSyntax (host : String) (input : Option (List UInt16)) (o : SyntaxOptions) :
    Except PathRefusal SyntaxOk := do
  let text ← checkText input
  let windows := o.windows host
  let start ← readStart windows o.allowUnc text
  let segments ← collect toLowerCase windows (start.rest.splitOn (separator windows))
  if segments.isEmpty && !start.absolute then refuse .empty "path has no segments"
  else pure ⟨windows, start.unc, start.drive, segments, start.absolute⟩

end Segments

/-- Absolute lexical form of a syntactically valid path, as text. -/
def assembleText (s : SyntaxOk) : List Char := if s.windows then
    if s.unc then '\\' :: '\\' :: ['\\'].intercalate s.segments
    else (match s.drive with
      | some d => [d]
      | none => "null".toList) ++ ':' :: '\\' :: ['\\'].intercalate s.segments
  else '/' :: ['/'].intercalate s.segments

def assemble (s : SyntaxOk) : List UInt16 := Utf16.units (assembleText s)

end Plur1bus.Policy.Paths
