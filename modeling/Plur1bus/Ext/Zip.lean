import Plur1bus.Language
import Plur1bus.Program.Outcome
import Plur1bus.Program.Utf8

/-!
The audit of an archive before anything is read from it. The end record stands at
the very end and says where the central directory is; the records of the directory
name the entries; each entry has a local header, its data, and perhaps a descriptor
behind the data. Nothing may stand between these parts.

Words are numbers of two or four bytes, the lowest first. An index past the end of a
slice and a difference below zero would stop the process: they are outcomes of their
own. The Unicode tables are not modelled: `fold` is lower case in composed form,
and `isNormalized` is that a name is composed.
-/

namespace Plur1bus.Ext

open Program

abbrev Bytes := List UInt8

inductive Reason
  | unsupported
  | unsafeEntry
  | tooLarge
  deriving DecidableEq, Repr

/-- Why an archive is refused: the reason, the name that the detail begins with, and
the detail behind it. -/
structure Refusal where
  reason : Reason
  name : Option Bytes
  detail : String
  deriving DecidableEq, Repr

inductive Stop
  | refused (r : Refusal)
  /-- Refused: a record points past the end of the file. -/
  | truncated
  /-- The process stops. -/
  | panicked
  deriving DecidableEq, Repr

def unsupported (detail : String) : Stop := .refused ⟨.unsupported, none, detail⟩

def unsupportedAt (name : Bytes) (detail : String) : Stop := .refused ⟨.unsupported, some name, detail⟩

def unsafeEntry (name : Bytes) (why : String) : Stop := .refused ⟨.unsafeEntry, some name, why⟩

def tooLarge (detail : String) : Stop := .refused ⟨.tooLarge, none, detail⟩

def tooLargeAt (name : Bytes) (detail : String) : Stop := .refused ⟨.tooLarge, some name, detail⟩

/-! ### Reading -/

/-- A read of nothing succeeds at any position. -/
def readAt (file : Bytes) (pos len : ℕ) : Except Stop Bytes :=
  if len = 0 ∨ pos + len ≤ file.length then .ok ((file.drop pos).take len) else .error .truncated

def slice (b : Bytes) (i j : ℕ) : Except Stop Bytes :=
  if i ≤ j ∧ j ≤ b.length then .ok ((b.drop i).take (j - i)) else .error .panicked

def sub (a b : ℕ) : Except Stop ℕ := if b ≤ a then .ok (a - b) else .error .panicked

def word16 (b : Bytes) (i : ℕ) : ℕ := (b.getD i 0).toNat + (b.getD (i + 1) 0).toNat * 256

def word32 (b : Bytes) (i : ℕ) : ℕ := word16 b i + word16 b (i + 2) * 65536

def u16At (b : Bytes) (i : ℕ) : Except Stop ℕ := if i + 2 ≤ b.length then .ok (word16 b i) else .error .panicked

def u32At (b : Bytes) (i : ℕ) : Except Stop ℕ := if i + 4 ≤ b.length then .ok (word32 b i) else .error .panicked

def SIG_LOCAL : ℕ := 0x04034b50
def SIG_CENTRAL : ℕ := 0x02014b50
def SIG_EOCD : ℕ := 0x06054b50
def SIG_DESCRIPTOR : ℕ := 0x08074b50
def LOCAL_LEN : ℕ := 30
def CENTRAL_LEN : ℕ := 46
def EOCD_LEN : ℕ := 22
def FLAGS_ENCRYPTED : ℕ := 0x0001 ||| 0x0040 ||| 0x2000
def FLAG_DESCRIPTOR : ℕ := 0x0008
def EXTRA_ZIP64 : ℕ := 0x0001
def EXTRA_UNICODE_PATH : ℕ := 0x7075
def EXTRA_UNICODE_COMMENT : ℕ := 0x6375
def U32_MAX : ℕ := 0xffffffff

/-- The first extra field that is refused. -/
def forbiddenExtra (extra : Bytes) : Except Stop (Option String) := if h : 4 ≤ extra.length then do
    let id ← u16At extra 0
    let len ← u16At extra 2
    if id = EXTRA_ZIP64 then return some "ZIP64"
    else if id = EXTRA_UNICODE_PATH then return some "an Info-ZIP Unicode Path extra field"
    else if id = EXTRA_UNICODE_COMMENT then return some "an Info-ZIP Unicode Comment extra field"
    else forbiddenExtra (extra.drop (min (4 + len) extra.length))
  else return none
termination_by extra.length
decreasing_by
  rw [List.length_drop]
  omega

/-! ### Names -/

structure Limits where
  packageBytes : ℕ := 2 ^ 28
  entryBytes : ℕ := 2 ^ 27
  maxEntries : ℕ := 20000
  maxRatio : ℕ := 100
  maxSegments : ℕ := 16
  maxNameBytes : ℕ := 240

def fromUtf8 (raw : Bytes) : Option (List Char) := raw.toByteArray.utf8Decode?.map Array.toList

def WINDOWS_FORBIDDEN : List Char := [':', '<', '>', '"', '|', '?', '*']

def BIDI_CONTROLS : List ℕ :=
  [0x200e, 0x200f, 0x202a, 0x202b, 0x202c, 0x202d, 0x202e, 0x2066, 0x2067, 0x2068, 0x2069]

/-- `char::is_control`. -/
def isControl (c : Char) : Bool := c.toNat < 0x20 || (0x7f ≤ c.toNat && c.toNat < 0xa0)

def isDriveLetter : Bytes → Bool
  | b :: c :: _ => ((65 ≤ b && b ≤ 90) || (97 ≤ b && b ≤ 122)) && c == 58
  | _ => false

def toAsciiLowercase (c : Char) : Char := if 'A' ≤ c ∧ c ≤ 'Z' then Char.ofNat (c.toNat + 32) else c

def isReservedDevice (segment : List Char) : Bool :=
  let stem := ((segment.takeWhile (· ≠ '.')).reverse.dropWhile (· = ' ')).reverse
  let stem := stem.map toAsciiLowercase
  stem ∈ ["con".toList, "prn".toList, "aux".toList, "nul".toList] ||
    (stem.take 3 ∈ ["com".toList, "lpt".toList] &&
      stem.drop 3 ∈ ["1", "2", "3", "4", "5", "6", "7", "8", "9", "\u00b9", "\u00b2", "\u00b3"].map String.toList)

section

variable (isNormalized : List Char → Bool) (limits : Limits)

def checkSegment (raw : Bytes) (segment : List Char) : Except Stop Unit := do
  ensure (segment ≠ []) (unsafeEntry raw "an empty segment")
  ensure (segment ≠ ['.'] ∧ segment ≠ ['.', '.']) (unsafeEntry raw "a . or .. segment")
  ensure (segment.getLast? ≠ some '.' ∧ segment.getLast? ≠ some ' ')
    (unsafeEntry raw "a segment ending in a dot or space")
  ensure (isReservedDevice segment = false) (unsafeEntry raw "a Windows reserved device name")

def checkSegments (raw : Bytes) : List (List Char) → Except Stop Unit
  | [] => return ()
  | segment :: segments => do
    checkSegment raw segment
    checkSegments raw segments

def checkName (raw : Bytes) : Except Stop (List Char) :=
  match fromUtf8 raw with
  | none => .error (unsafeEntry raw "the name is not valid UTF-8")
  | some name => do
    ensure (name ≠ []) (unsafeEntry raw "an empty name")
    ensure (raw.length ≤ limits.maxNameBytes)
      (unsafeEntry raw ("longer than " ++ toString limits.maxNameBytes ++ " bytes"))
    ensure (name.getLast? ≠ some '/') (unsafeEntry raw "an explicit directory entry (only implied directories)")
    ensure (name.head? ≠ some '/') (unsafeEntry raw "an absolute path")
    ensure ('\\' ∉ name) (unsafeEntry raw "a backslash")
    ensure (name.any isControl = false) (unsafeEntry raw "a NUL or control character")
    ensure (name.any (fun c => BIDI_CONTROLS.contains c.toNat) = false)
      (unsafeEntry raw "a Unicode bidirectional control")
    ensure (isDriveLetter raw = false) (unsafeEntry raw "a drive letter")
    ensure (name.any WINDOWS_FORBIDDEN.contains = false)
      (unsafeEntry raw "one of : < > \" | ? * (not allowed on Windows)")
    ensure (isNormalized name = true) (unsafeEntry raw "not in Unicode NFC")
    ensure ((name.splitOn '/').length ≤ limits.maxSegments)
      (unsafeEntry raw ("more than " ++ toString limits.maxSegments ++ " segments"))
    checkSegments raw (name.splitOn '/')
    return name

end

/-- What stands before each slash of a name. -/
def dirPrefixes : List Char → List (List Char)
  | [] => []
  | c :: name =>
    let deeper := (dirPrefixes name).map (c :: ·)
    if c = '/' then [] :: deeper else deeper

/-- Names so far, and for each folded directory its first spelling. -/
structure Folded where
  files : List (List Char) := []
  dirs : List (List Char × List Char) := []

section

variable (fold : List Char → List Char)

def collides (raw : Bytes) : Stop := unsafeEntry raw "collides with another entry by case or Unicode normalisation"

def Folded.insertDirs (raw : Bytes) : List (List Char) → Folded → Except Stop Folded
  | [], f => .ok f
  | dir :: dirs, f =>
    let folded := fold dir
    if folded ∈ f.files then .error (collides raw)
    else
      match f.dirs.lookup folded with
      | some first =>
        if first ≠ dir then
          .error (unsafeEntry raw ("the directory " ++ String.ofList first ++ " spelled differently"))
        else insertDirs raw dirs f
      | none => insertDirs raw dirs { f with dirs := (folded, dir) :: f.dirs }

def Folded.insert (f : Folded) (raw : Bytes) (name : List Char) : Except Stop Folded :=
  let key := fold name
  if (f.dirs.lookup key).isSome ∨ key ∈ f.files then .error (collides raw)
  else insertDirs fold raw (dirPrefixes name) { f with files := key :: f.files }

end

def S_IFMT : ℕ := 0o170000
def S_IFREG : ℕ := 0o100000
def S_IFLNK : ℕ := 0o120000
def S_IFDIR : ℕ := 0o040000
def DOS_DIRECTORY : ℕ := 0x10

/-- Only regular files; whether the file may be executed. -/
def checkType (raw : Bytes) (external : ℕ) : Except Stop Bool :=
  let mode := external >>> 16
  if external &&& DOS_DIRECTORY ≠ 0 then
    .error (unsafeEntry raw "an explicit directory entry (only implied directories)")
  else if mode &&& S_IFMT = 0 ∨ mode &&& S_IFMT = S_IFREG then .ok (mode &&& 0o111 ≠ 0)
  else if mode &&& S_IFMT = S_IFLNK then .error (unsafeEntry raw "a symlink")
  else if mode &&& S_IFMT = S_IFDIR then
    .error (unsafeEntry raw "an explicit directory entry (only implied directories)")
  else .error (unsafeEntry raw "a hard link, device, FIFO, socket or other special entry")

/-! ### The central directory -/

structure Central where
  name : List Char
  flags : ℕ
  method : ℕ
  crc32 : ℕ
  compressed : ℕ
  uncompressed : ℕ
  exec : Bool
  offset : ℕ
  deriving DecidableEq, Repr

structure Reading where
  centrals : List Central := []
  folded : Folded := {}
  declared : ℕ := 0
  p : ℕ := 0

def malformed : Stop := unsupported "a malformed central directory"

/-- What a record may not say, before its name is looked at. -/
def checkFields (h raw extra : Bytes) : Except Stop Unit := do
  let flags ← u16At h 8
  let method ← u16At h 10
  let compressed ← u32At h 20
  let uncompressed ← u32At h 24
  let diskStart ← u16At h 34
  let offset ← u32At h 42
  ensure (flags &&& FLAGS_ENCRYPTED = 0) (unsupportedAt raw "an encrypted entry")
  ensure (method = 0 ∨ method = 8)
    (unsupportedAt raw ("compression method " ++ toString method ++ " (only stored and deflate)"))
  ensure (compressed ≠ U32_MAX ∧ uncompressed ≠ U32_MAX ∧ offset ≠ U32_MAX ∧ diskStart ≠ 0xffff)
    (unsupportedAt raw "ZIP64")
  let what ← forbiddenExtra extra
  ensure (what = none) (unsupportedAt raw (what.getD ""))
  ensure (diskStart = 0) (unsupported "a multi-disk archive")

section

variable (fold : List Char → List Char) (isNormalized : List Char → Bool) (limits : Limits)

/-- The size of one entry, against its cap and what it is compressed to. -/
def checkSizes (raw : Bytes) (c u : ℕ) : Except Stop Unit := do
  ensure (u ≤ limits.entryBytes)
    (tooLargeAt raw (toString u ++ " bytes uncompressed (at most " ++ toString limits.entryBytes ++ ")"))
  ensure (u ≤ min (c * limits.maxRatio) (2 ^ 64 - 1))
    (tooLargeAt raw ("compression ratio above " ++ toString limits.maxRatio ++ ":1 (" ++ toString u ++ " from " ++
      toString c ++ " bytes)"))

/-- The next record of the directory. -/
def readCentral (cd : Bytes) (s : Reading) : Except Stop Reading := do
  let rest ← sub cd.length s.p
  ensure (CENTRAL_LEN ≤ rest) malformed
  let signature ← u32At cd s.p
  ensure (signature = SIG_CENTRAL) malformed
  let h ← slice cd s.p (s.p + CENTRAL_LEN)
  let n ← u16At h 28
  let m ← u16At h 30
  let k ← u16At h 32
  let room ← sub rest CENTRAL_LEN
  ensure (n + m + k ≤ room) malformed
  let raw ← slice cd (s.p + CENTRAL_LEN) (s.p + CENTRAL_LEN + n)
  let extra ← slice cd (s.p + CENTRAL_LEN + n) (s.p + CENTRAL_LEN + n + m)
  checkFields h raw extra
  let name ← checkName isNormalized limits raw
  let folded ← s.folded.insert fold raw name
  let exec ← checkType raw (word32 h 38)
  checkSizes limits raw (word32 h 20) (word32 h 24)
  let declared := s.declared + word32 h 24
  ensure (declared ≤ limits.packageBytes)
    (tooLarge ("more than " ++ toString limits.packageBytes ++ " bytes uncompressed in total"))
  return {
    centrals := s.centrals ++ [⟨name, word16 h 8, word16 h 10, word32 h 16, word32 h 20, word32 h 24, exec, word32 h 42⟩]
    folded := folded
    declared := declared
    p := s.p + CENTRAL_LEN + n + m + k }

def readCentrals (cd : Bytes) : ℕ → Reading → Except Stop Reading
  | 0, s => .ok s
  | total + 1, s => do
    let s ← readCentral fold isNormalized limits cd s
    readCentrals cd total s

end

/-! ### Local headers -/

def Central.sums (c : Central) : ℕ × ℕ × ℕ := (c.crc32, c.compressed, c.uncompressed)

def fieldsAt (b : Bytes) (i : ℕ) : Except Stop (ℕ × ℕ × ℕ) := do
  let crc32 ← u32At b i
  let compressed ← u32At b (i + 4)
  let uncompressed ← u32At b (i + 8)
  return (crc32, compressed, uncompressed)

/-- `fields(..) == central`. -/
def sumsAt (c : Central) (d : Bytes) (i : ℕ) : Except Stop Bool := do
  let fields ← fieldsAt d i
  return decide (fields = c.sums)

/-- A descriptor with its signature. -/
def isSigned (c : Central) (d : Bytes) : Except Stop Bool := if 16 ≤ d.length then do
    let signature ← u32At d 0
    if signature = SIG_DESCRIPTOR then sumsAt c d 4 else return false
  else return false

def isPlain (c : Central) (d : Bytes) : Except Stop Bool := if 12 ≤ d.length then sumsAt c d 0 else return false

/-- The length of the descriptor behind the data. -/
def checkDescriptor (c : Central) (d : Bytes) : Except Stop ℕ := do
  let signed ← isSigned c d
  if signed then return 16
  else do
    let plain ← isPlain c d
    ensure (plain = true)
      (unsupportedAt (Utf8.bytes c.name) "the data descriptor disagrees with the central directory")
    return 12

def disagree (c : Central) (what : String) : Stop :=
  unsupportedAt (Utf8.bytes c.name) ("the local header's " ++ what ++ " disagrees with the central directory")

/-- Where the data of an entry begins, and where the entry ends. -/
def checkLocal (file : Bytes) (c : Central) (limit : ℕ) : Except Stop (ℕ × ℕ) := do
  let start := c.offset
  ensure (start + LOCAL_LEN ≤ limit) (unsupportedAt (Utf8.bytes c.name) "local header inside the central directory")
  let h ← readAt file start LOCAL_LEN
  let signature ← u32At h 0
  ensure (signature = SIG_LOCAL) (unsupportedAt (Utf8.bytes c.name) "no local header")
  let flags ← u16At h 6
  let method ← u16At h 8
  let sums ← fieldsAt h 14
  let n ← u16At h 26
  let m ← u16At h 28
  let data := start + LOCAL_LEN + n + m
  ensure (data ≤ limit) (unsupportedAt (Utf8.bytes c.name) "local header runs into the central directory")
  let tail ← readAt file (start + LOCAL_LEN) (n + m)
  let name ← slice tail 0 n
  ensure (name = Utf8.bytes c.name) (disagree c "name")
  let extra ← slice tail n tail.length
  let what ← forbiddenExtra extra
  ensure (what = none) (unsupportedAt (Utf8.bytes c.name) (what.getD "" ++ " in the local header"))
  ensure (flags = c.flags) (disagree c "flags")
  ensure (method = c.method) (disagree c "method")
  let dataEnd := data + c.compressed
  ensure (dataEnd ≤ limit) (unsupportedAt (Utf8.bytes c.name) "data runs into the central directory")
  if c.flags &&& FLAG_DESCRIPTOR = 0 then do
    ensure (sums = c.sums) (disagree c "CRC or sizes")
    return (data, dataEnd)
  else do
    -- The local fields are zero or already right; the descriptor must be right.
    ensure (sums = (0, 0, 0) ∨ sums = c.sums) (disagree c "CRC or sizes")
    let room ← sub limit dataEnd
    let d ← readAt file dataEnd (min room 16)
    let len ← checkDescriptor c d
    return (data, dataEnd + len)

/-- The local headers one after the other; where the data of each entry begins. -/
def checkLocals (file : Bytes) (limit : ℕ) : List (Central × ℕ) → List ℕ × ℕ → Except Stop (List ℕ × ℕ)
  | [], s => .ok s
  | (c, i) :: order, (dataOffsets, expected) => do
    ensure (c.offset = expected) (unsupportedAt (Utf8.bytes c.name)
      (if expected = 0 then "data before the first local header" else "entries overlap or leave a gap"))
    let (data, stop) ← checkLocal file c limit
    checkLocals file limit order (dataOffsets.set i data, stop)

/-! ### The audit -/

inductive Method | stored | deflate
  deriving DecidableEq, Repr

structure Entry where
  name : List Char
  method : Method
  compressed : ℕ
  uncompressed : ℕ
  crc32 : ℕ
  exec : Bool
  dataOffset : ℕ
  deriving DecidableEq, Repr

def Central.entry (c : Central) (dataOffset : ℕ) : Entry :=
  ⟨c.name, if c.method = 0 then .stored else .deflate, c.compressed, c.uncompressed, c.crc32, c.exec, dataOffset⟩

structure Audited where
  size : ℕ
  sha256 : String
  entries : List Entry
  deriving DecidableEq, Repr

/-- How many entries there are and where their directory is. -/
def readEnd (limits : Limits) (file : Bytes) : Except Stop (ℕ × ℕ × ℕ) := do
  ensure (EOCD_LEN ≤ file.length)
    (unsupported "not a ZIP archive: shorter than an end-of-central-directory record")
  let eocdPos ← sub file.length EOCD_LEN
  let eocd ← readAt file eocdPos EOCD_LEN
  let signature ← u32At eocd 0
  ensure (signature = SIG_EOCD) (unsupported
    "no end-of-central-directory record at the end of the file (bytes after it, or an archive comment)")
  let disk ← u16At eocd 4
  let cdDisk ← u16At eocd 6
  let onDisk ← u16At eocd 8
  let total ← u16At eocd 10
  let cdSize ← u32At eocd 12
  let cdOffset ← u32At eocd 16
  let comment ← u16At eocd 20
  ensure (comment = 0) (unsupported "an archive comment")
  ensure (onDisk ≠ 0xffff ∧ total ≠ 0xffff ∧ cdSize ≠ U32_MAX ∧ cdOffset ≠ U32_MAX) (unsupported "ZIP64")
  ensure (disk = 0 ∧ cdDisk = 0 ∧ onDisk = total) (unsupported "a multi-disk archive")
  ensure (total ≤ limits.maxEntries)
    (tooLarge (toString total ++ " entries (at most " ++ toString limits.maxEntries ++ ")"))
  ensure (cdOffset + cdSize = eocdPos) (unsupported
    ("the central directory does not end at the end-of-central-directory record " ++
      "(data before the first local header, or between the parts)"))
  return (total, cdSize, cdOffset)

section

variable (sha256 : Bytes → String) (fold : List Char → List Char) (isNormalized : List Char → Bool)

def auditZip (limits : Limits) (file : Bytes) : Except Stop Audited := do
  ensure (file.length ≤ limits.packageBytes)
    (tooLarge ("the package is larger than " ++ toString limits.packageBytes ++ " bytes"))
  let (total, cdSize, cdOffset) ← readEnd limits file
  let cd ← readAt file cdOffset cdSize
  let read ← readCentrals fold isNormalized limits cd total {}
  ensure (read.p = cd.length) (unsupported "bytes in the central directory after its last entry")
  let order := read.centrals.zipIdx.mergeSort fun a b => a.1.offset ≤ b.1.offset
  let (dataOffsets, expected) ← checkLocals file cdOffset order (List.replicate read.centrals.length 0, 0)
  ensure (expected = cdOffset) (unsupported "data between the last entry and the central directory")
  return ⟨file.length, sha256 file, List.zipWith Central.entry read.centrals dataOffsets⟩

end

end Plur1bus.Ext
