import Plur1bus.Approvals.Json
import Plur1bus.Program.Crash
import Plur1bus.Program.Lines
import Mathlib.Data.List.Sort
import Mathlib.Algebra.GroupWithZero.Nat

/-!
The audit chain that the core and the offline command line share: a directory
of line files, the active one and the rotated ones before it, and the anchor
that remembers the last line. Files are byte lists. SHA-256 and the JSON reader
and printer are parameters; the lock is not modelled, a writer runs alone until
it is done or the machine stops.

Reading order: the files, the newest line (`tail`), the anchor, what a writer
makes of the two (`judge`, `verdict`), and the appends.
-/

namespace Plur1bus.Audit

open Program Lines

def GENESIS : String := String.ofList (List.replicate 64 '0')

def MAX_BYTES : ℕ := 8 * 1024 * 1024

def MAX_SEQ : ℕ := 9007199254740991

abbrev Bytes := List UInt8

def bytesOf (s : String) : Bytes := s.toUTF8.data.toList

/-- `str::from_utf8`. -/
def fromUtf8 (b : Bytes) : Option String := String.fromUTF8? ⟨b.toArray⟩

def newline : UInt8 := 10

def carriageReturn : UInt8 := 13

/-! ### Files -/

inductive ChainFile
  /-- `audit-chain.{first:010}.jsonl`. -/
  | rotated (first : ℕ)
  | active
  deriving DecidableEq, Repr

/-- The files a repair sets aside. -/
inductive OldFile
  | chain (file : ChainFile)
  | anchor
  deriving DecidableEq, Repr

/-- The files of the log directory. -/
structure Dir where
  /-- The rotated files with the number in their names, in no particular order. -/
  archive : List (ℕ × Bytes) := []
  active : Option Bytes := none
  anchor : Option Bytes := none
  anchorTmp : Option Bytes := none
  /-- The torn ends set aside, with the file each was found in. -/
  evidence : List (ChainFile × Bytes) := []
  /-- The files `<name>.pre-reanchor-<ms>`: which file each was, and its `ms`. -/
  aside : List ((OldFile × ℕ) × Bytes) := []
  deriving DecidableEq, Repr

def Dir.read (d : Dir) : ChainFile → Option Bytes
  | .rotated first => d.archive.lookup first
  | .active => d.active

def Dir.write (d : Dir) (b : Bytes) : ChainFile → Dir
  | .rotated first =>
    { d with archive := d.archive.map (fun f => if f.1 = first then (first, b) else f) }
  | .active => { d with active := some b }

inductive Effect
  | setAside (file : ChainFile)
  | truncate (file : ChainFile)
  | rotate (first : ℕ)
  | create
  | line (text : String)
  | createTmp
  | anchorTmp
  | anchor
  | setOldAside (file : OldFile)
  | putBack (file : OldFile)
  | remove (file : OldFile)
  | syncDirectory
  deriving DecidableEq, Repr

structure Refusal where
  reason : String
  text : String
  deriving DecidableEq, Repr

inductive Failure
  | refusal (r : Refusal)
  /-- Any other failure: here only a file that is not text. -/
  | io
  deriving DecidableEq, Repr

def invalid (reason message : String) : Failure :=
  .refusal ⟨reason, "audit-chain: " ++ message ++ "; refusing to append"⟩

abbrev Op (α : Type) : Type := Prog (Stop Failure) (World Dir Effect) α

/-- Records of type `R`, printed by `render`. -/
structure Env (R : Type) where
  sha256 : Bytes → BitVec 256
  /-- `serde_json::from_str`. -/
  fromStr : String → Option Json
  /-- A record as `serde_json` prints it. -/
  render : R → String
  /-- The event that records a moved anchor, with its caller and time. -/
  anchorAdvancedEvent : (fromSeq toSeq : ℕ) → R

/-! ### Lines -/

/-- `format!("{:x}", digest)`. -/
def hexOf (d : BitVec 256) : String :=
  String.ofList ((List.range 64).map fun i => Nat.digitChar (d.toNat / 16 ^ (63 - i) % 16))

def isLowerHex (c : Char) : Bool := ('0' ≤ c && c ≤ '9') || ('a' ≤ c && c ≤ 'f')

def hex64 (s : String) : Bool := s.toList.length = 64 && s.toList.all isLowerHex

structure Parsed where
  seq : ℕ
  prev : String
  deriving DecidableEq, Repr

/-- `as_u64` within the sequence's range. -/
def chainSeq (v : Json) : Option ℕ :=
  match v with
  | .num n => if 0 < n ∧ n ≤ MAX_SEQ then some n.toNat else none
  | _ => none

def notAChainLine : Failure := invalid "tail-malformed" "last line is not a chain line"

section

variable {R : Type} (env : Env R)

def hashBytes (b : Bytes) : String := hexOf (env.sha256 b)

def hashLine (line : String) : String := hashBytes env (bytesOf line)

def parseLine (line : String) : Except Failure Parsed :=
  match env.fromStr line with
  | none => .error notAChainLine
  | some v =>
    match v.get "prev", v.get "rec", (v.get "seq").bind chainSeq with
    | some (.str prev), some (.obj _), some seq =>
      if hex64 prev then .ok ⟨seq, prev⟩ else .error notAChainLine
    | _, _, _ => .error notAChainLine

/-- The rotated files in the order of their names: the names that take ten
digits, which sort like the numbers. -/
def rotated (d : Dir) : List (ℕ × Bytes) :=
  (d.archive.filter (fun f => decide (f.1 < 10 ^ 10))).insertionSort (fun a b => a.1 ≤ b.1)

/-- The newest line of the chain as the writers see it. -/
structure Tail where
  seq : ℕ
  hash : String
  prev : String
  deriving DecidableEq, Repr

def stripCr (b : Bytes) : Bytes := if b.getLast? = some carriageReturn then b.dropLast else b

/-- The last line of a file's complete part `body`, its newline already off. -/
def lastLine (body : Bytes) : Except Failure Tail :=
  match fromUtf8 (stripCr (body.drop (afterLast newline body))) with
  | none => .error (invalid "tail-malformed" "last line is not UTF-8")
  | some line =>
    match parseLine env line with
    | .error e => .error e
    | .ok parsed => .ok ⟨parsed.seq, hashLine env line, parsed.prev⟩

/-- An unterminated end is set aside durably before it is cut off. -/
def setTornAside (p : ChainFile) (bytes : Bytes) : Op Unit :=
  let end' := afterLast newline bytes
  if end' < bytes.length then do
    effect (.setAside p)
      (fun d => { d with evidence := d.evidence ++ [(p, bytes.drop end')] })
      (fun n d => { d with evidence := d.evidence ++ [(p, (bytes.drop end').take n)] })
    effect (.truncate p) (fun d => d.write (bytes.take end') p) (fun _ d => d)
  else pure ()

/-- The newest complete line of the files, given newest first. -/
def tailFrom : List ChainFile → Op Tail
  | [] => pure ⟨0, GENESIS, GENESIS⟩
  | p :: rest => do
    match (← Prog.gets (fun w => w.disk.read p)) with
    | none => tailFrom rest
    | some bytes => do
      setTornAside p bytes
      let end' := afterLast newline bytes
      if end' = 0 then tailFrom rest
      else raiseError (lastLine env (bytes.take (end' - 1)))

def chainFiles (d : Dir) : List ChainFile := (rotated d).map (fun f => .rotated f.1) ++ [.active]

def tail : Op Tail := do
  let files ← Prog.gets (fun w => chainFiles w.disk)
  tailFrom env files.reverse

/-! ### The anchor -/

inductive Anchor
  | absent
  | invalid
  | at (seq : ℕ) (hash : String)
  deriving DecidableEq, Repr

def readAnchor (d : Dir) : Anchor :=
  match d.anchor with
  | none => .absent
  | some bytes =>
    match (fromUtf8 bytes).bind env.fromStr with
    | none => .invalid
    | some a =>
      match (a.get "seq").bind chainSeq, a.get "hash" with
      | some seq, some (.str hash) =>
        if a.get "v" = some (.num 1) ∧ hex64 hash then .at seq hash else .invalid
      | _, _ => .invalid

inductive Disagreement
  | tailMalformed | anchorMissing | anchorInvalid | chainShorterThanAnchor | tailMismatch
  deriving DecidableEq, Repr

def Disagreement.message : Disagreement → String
  | .tailMalformed => "last line is not a chain line"
  | .anchorMissing => "anchor is missing"
  | .anchorInvalid => "anchor is invalid"
  | .chainShorterThanAnchor => "chain is shorter than its anchor"
  | .tailMismatch => "tail does not match the anchor"

def Disagreement.code : Disagreement → String
  | .tailMalformed => "tail-malformed"
  | .anchorMissing => "anchor-missing"
  | .anchorInvalid => "anchor-invalid"
  | .chainShorterThanAnchor => "chain-shorter-than-anchor"
  | .tailMismatch => "tail-mismatch"

def Disagreement.refusalCode : Disagreement → String
  | .tailMismatch => "tail-anchor-mismatch"
  | other => other.code

inductive Verdict
  | agree
  | advance
  | refuse (why : Disagreement)
  deriving DecidableEq, Repr

/-- What a writer does about the anchor. One disagreement is healed: the newest
line is exactly one past the anchor and chains to the anchored hash. -/
def judge (tail : Tail) : Anchor → Verdict
  | .invalid => .refuse .anchorInvalid
  | .absent => if tail.seq = 0 then .agree else .refuse .anchorMissing
  | .at seq hash =>
    if seq > tail.seq then .refuse .chainShorterThanAnchor
    else if seq = tail.seq ∧ hash = tail.hash then .agree
    else if seq + 1 = tail.seq ∧ hash = tail.prev then .advance
    else .refuse .tailMismatch

/-- The complete lines of a file. -/
def completeLines (bytes : Bytes) : List Bytes :=
  (((bytes.take (afterLast newline bytes)).splitOn newline).map stripCr).dropLast

/-- The complete lines of the chain, oldest first. -/
def chainLines (d : Dir) : List Bytes :=
  (chainFiles d).flatMap fun p => ((d.read p).map completeLines).getD []

/-- Whether the complete line before the newest one hashes to `expected`. -/
def lineBeforeTailHashes (d : Dir) (expected : String) : Bool :=
  match (chainLines d).reverse with
  | _ :: line :: _ => decide (hashBytes env line = expected)
  | _ => false

/-- `judge`, and for an advance the line the anchor pinned must still be there. -/
def verdict (d : Dir) (tail : Tail) (anchor : Anchor) : Verdict :=
  match judge tail anchor with
  | .advance => if lineBeforeTailHashes env d tail.prev then .advance else .refuse .tailMismatch
  | v => v

/-! ### Appends -/

def anchorText (seq : ℕ) (hash : String) : String :=
  "\x7b\"hash\":\"" ++ hash ++ "\",\"seq\":" ++ toString seq ++ ",\"v\":1\x7d"

def writeAnchor (seq : ℕ) (hash : String) : Op Unit := do
  let bytes := bytesOf (anchorText seq hash ++ "\n")
  effect .createTmp (fun d => { d with anchorTmp := some [] }) (fun _ d => d)
  effect .anchorTmp (fun d => { d with anchorTmp := some bytes })
    (fun n d => { d with anchorTmp := some (bytes.take n) })
  effect .anchor (fun d => { d with anchor := d.anchorTmp, anchorTmp := none }) (fun _ d => d)

/-- The first line of a file that is text. -/
def firstLine (bytes : Bytes) : Option String :=
  fromUtf8 (stripCr (bytes.takeWhile (fun b => !decide (b = newline))))

/-- A full active file is renamed after its first line. -/
def rotate : Op Unit := do
  match (← Prog.gets (fun w => w.disk.active)) with
  | none => pure ()
  | some bytes =>
    if bytes.length < MAX_BYTES then pure ()
    else
      match fromUtf8 bytes, firstLine bytes with
      | some _, some first => do
        let parsed ← raiseError (parseLine env first)
        if (← Prog.gets (fun w => (w.disk.archive.lookup parsed.seq).isSome)) then
          raise (invalid "rotation-target-exists" "rotation target exists")
        else
          effect (.rotate parsed.seq)
            (fun d => { d with archive := d.archive ++ [(parsed.seq, bytes)], active := none })
            (fun _ d => d)
      | _, _ => raise .io

def lineText (seq : ℕ) (prev : String) (rec' : R) : String :=
  "\x7b\"seq\":" ++ toString seq ++ ",\"prev\":\"" ++ prev ++ "\",\"rec\":" ++ env.render rec' ++ "\x7d"

/-- Rotates when the active file is full, then writes one line chained to
`start` and fsyncs it. A crash inside the write leaves an unterminated
fragment of it. -/
def writeLineUnanchored (start : Tail) (rec' : R) : Op Tail :=
  if start.seq ≥ MAX_SEQ then raise (invalid "sequence-exhausted" "sequence exhausted")
  else do
    rotate env
    let seq := start.seq + 1
    let line := lineText env seq start.hash rec'
    effect .create (fun d => { d with active := some (d.active.getD []) }) (fun _ d => d)
    effect (.line line)
      (fun d => { d with active := some (d.active.getD [] ++ bytesOf line ++ [newline]) })
      (fun n d => { d with active := some (d.active.getD [] ++ (bytesOf line).take n) })
    pure ⟨seq, hashLine env line, start.hash⟩

def writeLine (start : Tail) (rec' : R) : Op Tail := do
  let next ← writeLineUnanchored env start rec'
  writeAnchor next.seq next.hash
  pure next

/-- What the loop over a batch leaves: the tail, whether a line was written, and
how it ended. -/
structure Written where
  tail : Tail
  wrote : Bool
  outcome : Except Failure Unit

/-- The lines of a batch up to the first that fails. -/
def writeBatch (t : Tail) (wrote : Bool) : List R → Op Written
  | [] => pure ⟨t, wrote, .ok ()⟩
  | rec' :: recs => do
    match (← attempt (writeLineUnanchored env t rec')) with
    | .ok next => writeBatch next true recs
    | .error e => pure ⟨t, wrote, .error e⟩

/-- A batch after the tail, with the anchor moved once at the end, or to the
last line that was written. -/
def writeRecs (t : Tail) (recs : List R) : Op Unit := do
  let out ← writeBatch env t false recs
  (if out.wrote then writeAnchor out.tail.seq out.tail.hash else pure ())
  raiseError out.outcome

/-- The one recoverable crash state: the anchor is pulled up to the line it
missed, and the chain records that ahead of the batch. -/
def settle (t : Tail) : Verdict → Op Tail
  | .agree => pure t
  | .refuse why => raise (invalid why.refusalCode why.message)
  | .advance => do
    writeAnchor t.seq t.hash
    writeLine env t (env.anchorAdvancedEvent (t.seq - 1) t.seq)

/-- One batch under the chain lock: the tail and the anchor are checked once,
and every line is written and fsynced on its own. -/
def appendLocked (recs : List R) : Op Unit := do
  let t ← tail env
  let v ← Prog.gets (fun w => verdict env w.disk t (readAnchor env w.disk))
  let t ← settle env t v
  writeRecs env t recs

def appendBatch (recs : List R) : Op Unit := if recs.isEmpty then pure () else appendLocked env recs

end

end Plur1bus.Audit
