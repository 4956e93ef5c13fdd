import Plur1bus.Audit.Chain

/-!
The repair of a chain that writers refuse: `inspect`, which looks at the files
and changes none, and `reanchor`, which sets every old file aside under a new
name and starts a new chain with an event that says so. A step of `reanchor`
can fail; then the files that were moved go back.

Which step fails is the countdown of the world. A flush that fails leaves its
file as a failure of the next step would, so flushes are not steps of their
own, except the last.
-/

namespace Plur1bus.Audit

open Program Lines

abbrev Fields := List (String × Json)

/-! ### Names -/

def ACTIVE : String := "audit-chain.jsonl"

def ANCHOR : String := "audit-chain.anchor"

def REANCHORED_ACTION : String := "audit.chain.reanchored"

def ChainFile.name : ChainFile → String
  | .rotated first =>
    "audit-chain." ++ String.ofList ((toString first).toList.leftpad 10 '0') ++ ".jsonl"
  | .active => ACTIVE

def OldFile.name : OldFile → String
  | .chain file => file.name
  | .anchor => ANCHOR

def suffixAt (ms : ℕ) : String := "pre-reanchor-" ++ toString ms

def asideName (ms : ℕ) (file : OldFile) : String := file.name ++ "." ++ suffixAt ms

/-! ### Inspection -/

/-- Where the intact part of a chain ends. -/
structure Break where
  code : String
  file : String
  line : ℕ
  deriving DecidableEq, Repr

structure Inspection where
  files : List String
  lines : ℕ
  validLines : ℕ
  firstBreak : Option Break
  lastValid : Option (ℕ × String)
  newestEnd : Option (ℕ × String)
  endMalformed : Bool
  tornTail : Bool
  anchor : Anchor
  verdict : Verdict
  deriving DecidableEq, Repr

namespace Inspection

def disagreement (i : Inspection) : Option Disagreement :=
  match i.verdict with
  | .refuse why => some why
  | _ => none

def healsItself (i : Inspection) : Bool := decide (i.verdict = .advance)

end Inspection

/-- What the scan has seen so far. The newest line is `some none` when it is not
a chain line. -/
structure Scan where
  lines : ℕ := 0
  validLines : ℕ := 0
  firstBreak : Option Break := none
  lastValid : Option (ℕ × String) := none
  newest : Option (Option Tail) := none
  tornTail : Bool := false
  deriving DecidableEq, Repr

def deviation (lastValid : Option (ℕ × String)) (parsed : Parsed) : Option String :=
  match lastValid with
  | none => if parsed.prev ≠ GENESIS ∨ parsed.seq ≠ 1 then some "prefix-missing" else none
  | some (seq, prevHash) =>
    if parsed.prev ≠ prevHash then some "hash-mismatch"
    else if parsed.seq ≠ seq + 1 then some "seq-gap"
    else none

section

variable {R : Type} (env : Env R)

def parseRaw (raw : Bytes) : Option Parsed := (fromUtf8 raw).bind fun line => (parseLine env line).toOption

/-- The line `raw`, the `i`th of its file; with the first number seen in the
file. -/
def scanLine (name : String) (s : Scan × Option ℕ) (line : Bytes × ℕ) : Scan × Option ℕ :=
  let (raw, i) := line
  let (scan, firstSeq) := s
  let hash := hashBytes env raw
  let parsed := parseRaw env raw
  let scan := { scan with
    lines := scan.lines + 1
    newest := some (parsed.map fun p => ⟨p.seq, hash, p.prev⟩) }
  let broke (code : String) : Option Break := some ⟨code, name, i + 1⟩
  if scan.firstBreak.isSome then (scan, firstSeq)
  else
    match parsed with
    | none => ({ scan with firstBreak := broke "line-malformed" }, firstSeq)
    | some parsed =>
      let firstSeq := some (firstSeq.getD parsed.seq)
      match deviation scan.lastValid parsed with
      | some code => ({ scan with firstBreak := broke code }, firstSeq)
      | none =>
        ({ scan with validLines := scan.validLines + 1, lastValid := some (parsed.seq, hash) }, firstSeq)

/-- The number in a file's name. -/
def ChainFile.named : ChainFile → Option ℕ
  | .rotated first => some first
  | .active => none

def checkName (file : ChainFile) (firstSeq : Option ℕ) (scan : Scan) : Scan :=
  if scan.firstBreak.isSome then scan
  else
    match file.named, firstSeq with
    | some named, some first =>
      if named ≠ first then { scan with firstBreak := some ⟨"file-name-mismatch", file.name, 1⟩ }
      else scan
    | _, _ => scan

def checkEnd (file : ChainFile) (bytes : Bytes) (scan : Scan) : Scan :=
  if afterLast newline bytes < bytes.length then
    { scan with
      tornTail := true
      firstBreak := scan.firstBreak.or
        (some ⟨"torn-tail", file.name, (completeLines bytes).length + 1⟩) }
  else scan

def scanFile (scan : Scan) (file : ChainFile × Bytes) : Scan :=
  let (scan, firstSeq) := (completeLines file.2).zipIdx.foldl (scanLine env file.1.name) (scan, none)
  checkEnd file.1 file.2 (checkName file.1 firstSeq scan)

/-- The chain files in order: rotated ones, then the active one, as far as they
exist. -/
def presentFiles (d : Dir) : List (ChainFile × Bytes) :=
  (rotated d).map (fun f => (.rotated f.1, f.2)) ++ d.active.toList.map (fun b => (.active, b))

def emptyTail : Tail := ⟨0, GENESIS, GENESIS⟩

def inspect (d : Dir) : Inspection :=
  let scan := (presentFiles d).foldl (scanFile env) {}
  let anchor := readAnchor env d
  let newestTail := scan.newest.getD (some emptyTail)
  { files := (presentFiles d).map fun f => f.1.name
    lines := scan.lines
    validLines := scan.validLines
    firstBreak := scan.firstBreak
    lastValid := scan.lastValid
    newestEnd := scan.newest.join.map fun t => (t.seq, t.hash)
    endMalformed := decide (scan.newest = some none)
    tornTail := scan.tornTail
    anchor := anchor
    -- a writer meets a malformed newest line before it looks at the anchor
    verdict :=
      match newestTail with
      | none => .refuse .tailMalformed
      | some t => verdict env d t anchor }

end

/-! ### The event -/

def pairJson : Option (ℕ × String) → Json
  | some (seq, hash) => .obj [("seq", .num seq), ("hash", .str hash)]
  | none => .null

def Anchor.json : Anchor → Json
  | .absent => .obj [("status", .str "missing")]
  | .invalid => .obj [("status", .str "invalid")]
  | .at seq hash => .obj [("status", .str "ok"), ("seq", .num seq), ("hash", .str hash)]

def Break.json (b : Break) : Json :=
  .obj [("code", .str b.code), ("file", .str b.file), ("line", .num b.line)]

/-- Who runs the repair, when and why. -/
structure Request where
  user : String
  host : String
  ms : ℕ
  reason : String
  /-- The directory, as the event shows it. -/
  dirText : String

def reanchoredEvent (r : Request) (i : Inspection) (why : Disagreement) (aside : List String) : Fields :=
  [("at", .num r.ms), ("actor", .obj [("user", .str r.user), ("host", .str r.host)]),
    ("action", .str REANCHORED_ACTION),
    ("target", .str "audit-chain"),
    ("detail", .obj
      [("reason", .str r.reason), ("disagreement", .str why.code), ("previousAnchor", i.anchor.json),
        ("previousEnd", pairJson i.newestEnd),
        ("lines", .num i.lines),
        ("validLines", .num i.validLines),
        ("lastValid", pairJson i.lastValid),
        ("firstBreak", Json.orNull Break.json i.firstBreak),
        ("asideSuffix", .str (suffixAt r.ms)),
        ("aside", .arr (aside.map .str)),
        ("asideDir", .str r.dirText)])]

/-! ### Setting aside and putting back -/

namespace Dir

def readOld (d : Dir) : OldFile → Option Bytes
  | .chain file => d.read file
  | .anchor => d.anchor

def dropOld (d : Dir) : OldFile → Dir
  | .chain (.rotated first) => { d with archive := d.archive.filter (fun f => f.1 ≠ first) }
  | .chain .active => { d with active := none }
  | .anchor => { d with anchor := none }

def putOld (d : Dir) (b : Bytes) : OldFile → Dir
  | .chain (.rotated first) =>
    { d with archive := d.archive.filter (fun f => f.1 ≠ first) ++ [(first, b)] }
  | .chain .active => { d with active := some b }
  | .anchor => { d with anchor := some b }

def readAside (d : Dir) (ms : ℕ) (file : OldFile) : Option Bytes := d.aside.lookup (file, ms)

/-- `fs::rename` of a file to its name for `ms`. -/
def moveAside (d : Dir) (ms : ℕ) (file : OldFile) : Dir :=
  match d.readOld file with
  | none => d
  | some b =>
    { d.dropOld file with
      aside := d.aside.filter (fun a => a.1 ≠ (file, ms)) ++ [((file, ms), b)] }

/-- `fs::rename` back. -/
def moveBack (d : Dir) (ms : ℕ) (file : OldFile) : Dir :=
  match d.readAside ms file with
  | none => d
  | some b => { d.putOld b file with aside := d.aside.filter (fun a => a.1 ≠ (file, ms)) }

end Dir

/-- The files a repair sets aside: every chain file, then the anchor. -/
def asideCandidates (d : Dir) : List OldFile :=
  (presentFiles d).map (fun f => .chain f.1) ++ d.anchor.toList.map (fun _ => .anchor)

def setOldAside (ms : ℕ) (file : OldFile) : Op Unit :=
  effect (.setOldAside file) (fun d => d.moveAside ms file) (fun _ d => d)

/-- The renames up to the first that fails: those done, and the failure. -/
def setAllAside (ms : ℕ) (done : List OldFile) : List OldFile → Op (List OldFile × Option Failure)
  | [] => pure (done, none)
  | file :: rest => do
    match (← recover .io (setOldAside ms file)) with
    | .ok _ => setAllAside ms (done ++ [file]) rest
    | .error e => pure (done, some e)

def removeFile (file : OldFile) : Op Unit := effect (.remove file) (fun d => d.dropOld file) (fun _ d => d)

/-- Puts the files back, the last one first. -/
def putBackAll (ms : ℕ) : List OldFile → Op Unit
  | [] => pure ()
  | file :: rest => do
    effect (.putBack file) (fun d => d.moveBack ms file) (fun _ d => d)
    putBackAll ms rest

/-! ### Reanchor -/

inductive ReanchorError
  | nothingToRepair (healsItself : Bool)
  | io (failure : Failure)
  deriving DecidableEq, Repr

structure Reanchored where
  inspection : Inspection
  dryRun : Bool
  suffix : String
  aside : List String
  event : Option Fields

section

variable (env : Env Fields)

/-- The new chain: its first line is the event, and its anchor follows. With
one record nothing comes after a step that fails, so the failure reaches the
caller with the directory as that step left it. The last step is the flush of
the directory that ends the anchor's move. -/
def startChain (event : Fields) : Op Unit := do
  appendLocked env [event]
  effect .syncDirectory id (fun _ d => d)

/-- Takes back what a failed repair did: the new chain's files, if it got as far
as starting it, and then the renames. -/
def rollBack (ms : ℕ) (all : Bool) (done : List OldFile) : Op Unit := do
  (if all then do
    removeFile (.chain .active)
    removeFile .anchor
  else pure ())
  putBackAll ms done.reverse

/-- The renames and the new chain. -/
def replaceChain (ms : ℕ) (sources : List OldFile) (event : Fields) : Op (Except Failure Unit) := do
  let (done, failure) ← setAllAside ms [] sources
  let started ← match failure with
    | none => recover .io (startChain env event)
    | some e => pure (.error e)
  match started with
  | .ok _ => pure (.ok ())
  | .error e => do
    rollBack ms (done.length = sources.length) done
    pure (.error e)

def reanchor (r : Request) (dryRun : Bool) : Op (Except ReanchorError Reanchored) := do
  let d ← Prog.gets (fun w => w.disk)
  let inspection := inspect env d
  match inspection.disagreement with
  | none => pure (.error (.nothingToRepair inspection.healsItself))
  | some why =>
    let sources := asideCandidates d
    if dryRun then
      pure (.ok ⟨inspection, true, "", sources.map OldFile.name, none⟩)
    else
      match sources.find? (fun file => (d.readAside r.ms file).isSome) with
      | some file =>
        pure (.error (.io (invalid "aside-exists" (asideName r.ms file ++ " already exists"))))
      | none => do
        let aside := sources.map (asideName r.ms)
        let event := reanchoredEvent r inspection why aside
        match (← replaceChain env r.ms sources event) with
        | .error e => pure (.error (.io e))
        | .ok _ => pure (.ok ⟨inspection, false, suffixAt r.ms, aside, some event⟩)

end

end Plur1bus.Audit
