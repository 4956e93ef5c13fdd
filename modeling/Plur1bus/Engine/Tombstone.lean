import Plur1bus.Engine.Codec
import Plur1bus.Program.Lines
import Plur1bus.Program.Lossy

/-!
The tombstone registry of one agent: an append-only file of JSON lines, read as
text whatever its bytes are. A final line that is no JSON and has no newline is a
torn append; it is moved to a quarantine file before the next append, or by a read
that may repair. Every other line that is not a valid tombstone is corrupt, and a
lookup fails closed on it.
-/

namespace Plur1bus.Engine

open Program
open Utf8 (bytes lossy)

/-! ### Fields of a tombstone -/

/-- `String::from_utf16_lossy`. -/
def toUtf8Lossy : JsString → List Char
  | [] => []
  | [u] => if isHigh u || isLow u then [Utf8.replacement] else [Char.ofNat u.toNat]
  | u :: lo :: us =>
    if isHigh u && isLow lo then
      Char.ofNat (0x10000 + ((u.toNat - 0xD800) * 0x400 + (lo.toNat - 0xDC00))) :: toUtf8Lossy us
    else
      (if isHigh u || isLow u then Utf8.replacement else Char.ofNat u.toNat) ::
        toUtf8Lossy (lo :: us)

/-- The last field of the name. -/
def property (value : JsonValue) (key : String) : Option JsonValue :=
  match value with
  | .object fields =>
    (fields.reverse.find? fun e => decide (toUtf8Lossy e.1 = key.toList)).map Prod.snd
  | _ => none

def string (value : JsonValue) (key : String) : Option (List Char) :=
  match property value key with
  | some (.string s) => some (toUtf8Lossy s)
  | _ => none

def valueOr (value : JsonValue) (key : String) (fallback : List Char) : List Char :=
  ((string value key).filter (· ≠ [])).getD fallback

def isAlphanumeric (b : UInt8) : Bool :=
  (0x30 ≤ b && b ≤ 0x39) || (0x41 ≤ b && b ≤ 0x5A) || (0x61 ≤ b && b ≤ 0x7A)

def safeAgent (agent : List Char) : Bool :=
  let len := (bytes agent).length
  1 ≤ len && len ≤ 64 && (bytes agent).all fun b => isAlphanumeric b || b = 0x5F || b = 0x2D

def uuid (id : List Char) : Bool := (bytes id).length = 36 && (bytes id).zipIdx.all fun (b, index) =>
    if index = 8 ∨ index = 13 ∨ index = 18 ∨ index = 23 then b = 0x2D else (hexValue b).isSome

def isJsWhitespace (ch : Char) : Bool :=
  let n := ch.toNat
  (0x0009 ≤ n && n ≤ 0x000D) || n = 0x0020 || n = 0x00A0 || n = 0x1680 ||
    (0x2000 ≤ n && n ≤ 0x200A) || n = 0x2028 || n = 0x2029 || n = 0x202F || n = 0x205F ||
    n = 0x3000 || n = 0xFEFF

def jsTrim (s : List Char) : List Char :=
  ((s.dropWhile isJsWhitespace).reverse.dropWhile isJsWhitespace).reverse

/-- What the registry takes from outside its own code. -/
structure Platform where
  /-- The lexeme is parsed as the 64-bit float 1. -/
  isOne : List Char → Bool
  /-- The SHA-256 of the normalised text, in hexadecimal. -/
  contentFingerprint : List Char → List Char

/-- The version is `TOMBSTONE_SCHEMA_VERSION`. -/
def versionOk (p : Platform) (value : JsonValue) : Bool :=
  match property value "schemaVersion" with
  | some (.number lexeme) => p.isOne lexeme
  | _ => false

def isValidTombstone (p : Platform) (value : JsonValue) (expectedAgent : Option (List Char)) : Bool :=
  let memoryOk := (string value "memoryId").any uuid
  let agentOk := (string value "agentId").any fun agent =>
    safeAgent agent && expectedAgent.all fun expected => expected = agent
  let present (key : String) := (string value key).any fun v => jsTrim v ≠ []
  let scopeOk := (string value "scope").any fun scope =>
    if scope = "agent-private".toList then true
    else if scope = "workspace".toList then present "workspaceId" || present "workspaceKey"
    else if scope = "user".toList then present "ownerUserId"
    else false
  let statusOk := (string value "status").any fun status =>
    status = "attempted".toList || status = "committed".toList || status = "failed".toList
  let fingerprintOk := (string value "contentFingerprint").any fun hash =>
    (bytes hash).length = 64 && (bytes hash).all fun b => (hexValue b).isSome
  versionOk p value && memoryOk && agentOk && scopeOk && statusOk && fingerprintOk

structure TombstoneContext where
  agentId : List Char
  scope : List Char
  workspaceIdentity : List Char
  ownerUserId : List Char
  deriving DecidableEq, Repr

def tombstoneBlocksCapture (value : JsonValue) (context : TombstoneContext) : Bool :=
  if string value "status" = some "failed".toList ∨ valueOr value "agentId" [] ≠ context.agentId then
    false
  else
    let scope := valueOr value "scope" "agent-private".toList
    let contextScope := if context.scope = [] then "agent-private".toList else context.scope
    if scope = "agent-private".toList then contextScope = "agent-private".toList
    else if scope = "workspace".toList then
      let workspace := valueOr value "workspaceId" (valueOr value "workspaceKey" [])
      contextScope = "workspace".toList && workspace ≠ [] && workspace = context.workspaceIdentity
    else if scope = "user".toList then
      let owner := valueOr value "ownerUserId" []
      contextScope = "user".toList && owner ≠ [] && owner = context.ownerUserId
    else true

/-! ### Classifying a file -/

structure RegistryRead where
  tombstones : List JsonValue
  corruptLines : ℕ
  unparseable : ℕ
  invalid : ℕ
  tornTail : Bool

structure Classified where
  rows : RegistryRead
  tail : Option (List Char × ℕ)

def Classified.empty : Classified := ⟨⟨[], 0, 0, 0, false⟩, none⟩

/-- One line; `last` says that it is the last one and has no newline. -/
def classifyLine (p : Platform) (agent : List Char) (last : Bool) (size : ℕ) (acc : Classified)
    (line : List Char) : Classified :=
  if jsTrim line = [] then acc
  else
    match parseJson line with
    | .ok row =>
      if isValidTombstone p row (some agent) then
        { acc with rows := { acc.rows with tombstones := acc.rows.tombstones ++ [row] } }
      else
        { acc with rows := { acc.rows with
            corruptLines := acc.rows.corruptLines + 1, invalid := acc.rows.invalid + 1 } }
    | .error e =>
      if e.kind = .syntaxError ∧ last ∧ acc.rows.corruptLines = 0 then
        { acc with tail := some (line, size - (bytes line).length) }
      else
        { acc with rows := { acc.rows with
            corruptLines := acc.rows.corruptLines + 1, unparseable := acc.rows.unparseable + 1 } }

/-- The loop of `classify`. -/
def classifyLines (p : Platform) (agent : List Char) (terminated : Bool) (size : ℕ) :
    Classified → List (List Char) → Classified
  | acc, [] => acc
  | acc, line :: lines =>
    classifyLines p agent terminated size
      (classifyLine p agent (lines = [] && !terminated) size acc line) lines

def classify (p : Platform) (text agent : List Char) : Classified :=
  let endsWithNewline := text.getLast? = some '\n'
  let lines := text.splitOn '\n'
  let lines := if endsWithNewline then lines.dropLast else lines
  classifyLines p agent endsWithNewline (bytes text).length .empty lines

/-! ### The registry -/

/-- A file that does not exist is empty. -/
structure TombstoneRegistry where
  agent : List Char
  file : List UInt8
  quarantine : List UInt8
  deriving DecidableEq, Repr

inductive StoreError
  | corrupt
  deriving DecidableEq, Repr

namespace TombstoneRegistry

variable (p : Platform) (r : TombstoneRegistry)

def classifyFile : Classified := classify p (lossy r.file) r.agent

def repairLocked : TombstoneRegistry :=
  match (r.classifyFile p).tail with
  | none => r
  | some (fragment, validLength) =>
    { r with quarantine := r.quarantine ++ bytes (fragment ++ ['\n']), file := r.file.take validLength }

def read (repairTornTail : Bool) : Except StoreError RegistryRead × TombstoneRegistry :=
  let classified := r.classifyFile p
  if classified.tail = none then (.ok classified.rows, r)
  else if !repairTornTail then
    (.ok { classified.rows with
      corruptLines := classified.rows.corruptLines + 1, tornTail := true }, r)
  else
    let r := r.repairLocked p
    let repaired := r.classifyFile p
    if repaired.tail ≠ none then (.error .corrupt, r) else (.ok repaired.rows, r)

/-- Node's compact JSON plus newline. -/
def line (tombstone : JsonValue) : List UInt8 := bytes (writeJson tombstone ++ ['\n'])

def append (tombstone : JsonValue) : TombstoneRegistry :=
  let r := r.repairLocked p
  { r with file := r.file ++ line tombstone }

/-- A crash after `k` bytes of the line. -/
def appendCut (tombstone : JsonValue) (k : ℕ) : TombstoneRegistry :=
  let r := r.repairLocked p
  { r with file := r.file ++ (line tombstone).take k }

/-- A crash in a repair, after `k` bytes of what it puts in quarantine. -/
def repairCut (k : ℕ) : TombstoneRegistry :=
  match (r.classifyFile p).tail with
  | none => r
  | some (fragment, _) =>
    { r with quarantine := r.quarantine ++ (bytes (fragment ++ ['\n'])).take k }

def validRows (repair : Bool) : Except StoreError (List JsonValue) × TombstoneRegistry :=
  match r.read p repair with
  | (.error e, r) => (.error e, r)
  | (.ok result, r) =>
    if result.corruptLines > 0 then (.error .corrupt, r) else (.ok result.tombstones, r)

/-- A committed tombstone of the fingerprint in the context. -/
def blocks (fingerprint : List Char) (context : TombstoneContext) (row : JsonValue) : Bool :=
  string row "status" = some "committed".toList &&
    string row "contentFingerprint" = some fingerprint && tombstoneBlocksCapture row context

def findBlocking (text : List Char) (context : TombstoneContext) :
    Except StoreError (Option JsonValue) × TombstoneRegistry :=
  if text = [] then (.ok none, r)
  else
    match r.validRows p true with
    | (.error e, r) => (.error e, r)
    | (.ok rows, r) => (.ok (rows.find? (blocks (p.contentFingerprint text) context)), r)

end TombstoneRegistry

end Plur1bus.Engine
