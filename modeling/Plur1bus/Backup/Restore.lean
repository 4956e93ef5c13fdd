import Mathlib.Algebra.GroupWithZero.Nat
import Plur1bus.Program.FileTree
import Plur1bus.Program.Triple

/-!
Restoring a backup. The archive is extracted into a staging directory of the home; then each
unit is swapped in: what is live moves to the pre-restore tree, with the sidecars of a
database, and the staged tree takes its place. What the swap has done is kept in a log, and
what fails is undone from it, newest first. A marker for the next start is written before the
first swap. A path of the home is the list of its segments.
-/

namespace Plur1bus.Backup

open Program FileTree

abbrev Path := List String

inductive Kind
  | dir | file
  deriving DecidableEq, Repr

structure ArchiveUnit where
  archive : Path
  target : Path
  kind : Kind
  deriving DecidableEq, Repr

/-- The part of a manifest that a swap goes by. -/
structure Manifest where
  storeTarget : Path
  units : List ArchiveUnit
  absent : List Path

/-! ### The allow-list -/

def FIXED_DIRS : List Path :=
  [["agents"], ["skills"], ["modules"], ["extensions"], ["catalog"], ["state", "journal"],
    ["state", "system-jobs"], ["state", "memory", "_archive"]]

def FIXED_FILES : List Path :=
  [["config.json"], ["state", "memory", "run-state.json"], ["state", "memory", "merge-proposals.jsonl"]]

def EXCLUDED_ROOTS : List String := ["run", "logs", "runtime", "models", "backups"]

def SQLITE_SIDECARS : List String := ["-wal", "-shm", "-journal"]

def startsWith (s pre : String) : Bool := pre.toList.isPrefixOf s.toList

def endsWith (s post : String) : Bool := post.toList.isSuffixOf s.toList

/-- The path is the same on every system and cannot climb out. -/
def safeRel (p : Path) : Bool := p ≠ [] && (p.map String.utf8ByteSize).sum + p.length ≤ 1025 &&
    p.all fun s => s ≠ "" && s ≠ "." && s ≠ ".." && s.toList.all fun c => !(['/', '\\', ':', '\x00'].contains c)

def excluded (p : Path) : Bool :=
  p.head?.any (fun s => EXCLUDED_ROOTS.contains s || startsWith s ".restore-") ||
    p.contains "_tombstones" || p = ["state", "core.lock"] ||
    ["state", "backup-staging"].isPrefixOf p ||
    (["state", "memory"].isPrefixOf p && p[2]?.any fun s => startsWith s ".snapshots")

/-- The path equals the other or lies in it. -/
def within (p q : Path) : Bool := q.isPrefixOf p

def isSqliteName (p : Path) : Bool := p.getLast?.any fun s => [".sqlite", ".sqlite3", ".db"].any fun e =>
    endsWith (String.ofList (s.toList.map Char.toLower)) e

def storeTargetAllowed (p : Path) : Bool := safeRel p && p ≠ ["state"] && !excluded p &&
    !(FIXED_DIRS ++ FIXED_FILES).any fun t => within p t || within t p

/-- Where a unit is in the archive. -/
def archivePrefix (target storeTarget : Path) : Path :=
  if target = storeTarget then ["store"]
  else
    match target with
    | "state" :: "memory" :: n :: rest => "memory" :: n :: rest
    | ["state", "journal"] => ["journal"]
    | ["state", "system-jobs"] => ["system-jobs"]
    | "state" :: n :: rest =>
      if isSqliteName (n :: rest) then "sqlite" :: n :: rest else target
    | _ => target

/-- The kind a target must have; `none` if the allow-list does not have it. -/
def targetKind (target storeTarget : Path) : Option Kind :=
  if !safeRel target || excluded target then none
  else if target = storeTarget then some .dir
  else if FIXED_DIRS.contains target then some .dir
  else if FIXED_FILES.contains target then some .file
  else
    match target with
    | "state" :: n :: rest =>
      if isSqliteName (n :: rest) && !((FIXED_DIRS ++ FIXED_FILES).any (within target) ||
        within target storeTarget) then some .file
      else none
    | _ => none

/-- The targets are allowed, the archive paths are theirs, and no target is listed twice. -/
def Manifest.validate (m : Manifest) : Bool := storeTargetAllowed m.storeTarget &&
    (m.units.all fun u => targetKind u.target m.storeTarget = some u.kind &&
      u.archive = archivePrefix u.target m.storeTarget) &&
    decide ((m.units.map ArchiveUnit.target).Nodup) &&
    m.absent.all fun a => (FIXED_DIRS.contains a || FIXED_FILES.contains a || a = m.storeTarget) &&
      !(m.units.map ArchiveUnit.target).contains a

/-! ### The swap -/

/-- One completed step of the swap, kept to undo it. -/
structure Done where
  live : Path
  movedTo : Option Path
  placed : Bool

abbrev Node (β : Type) := Option (FileTree String β)

structure Disk (β : Type) where
  home : Node β
  done : List Done
  ticks : ℕ

/-- Which operations of the swap fail, which of its undoing do, what a directory creation
that fails has created, and where the swap is made to fail in tests. -/
structure Env (β : Type) where
  fault : ℕ → Bool
  undoFault : ℕ → Bool
  torn : ℕ → ℕ
  /-- What is left of a tree whose removal does not come to its end. -/
  remains : ℕ → FileTree String β → Option (FileTree String β)
  marker : β
  swapFails : ℕ → Bool
  swapAfterFails : ℕ → Bool

inductive Failure
  | io
  /-- The previous state was put back untouched. -/
  | putBack
  /-- Rolling back failed. -/
  | leftOver
  deriving DecidableEq, Repr

abbrev Op (β α : Type) : Type := Prog (Stop Failure) (World (Disk β) Unit) α

variable {β : Type}

def read {α : Type} (f : Disk β → α) : Op β α := Prog.gets fun w => f w.disk

def setDone (f : List Done → List Done) : Op β Unit :=
  Prog.modify fun w => { w with disk := { w.disk with done := f w.disk.done } }

/-- One operation on the home, which can fail for reasons of its own or as `fails` says; then,
and when it is interrupted, it is done in part. -/
def operate (env : Env β) (fails : ℕ → Bool) (run : Node β → Option (Node β))
    (part : ℕ → Node β → Node β) : Op β Unit := do
  let d ← read id
  match fails d.ticks, run d.home with
  | false, some home =>
    effect () (fun d => { d with home := home, ticks := d.ticks + 1 })
      (fun n d => { d with home := part n d.home })
  | true, _ => do
    effect () (fun d => { d with home := part (env.torn d.ticks) d.home, ticks := d.ticks + 1 })
      (fun n d => { d with home := part n d.home })
    raise .io
  | false, none => raise .io

section Operations

variable (env : Env β) (fails : ℕ → Bool)

def renames (src dst : Path) : Op β Unit := operate env fails (rename src dst) fun _ h => h

def createDirs (p : Path) : Op β Unit := operate env fails (mkdirs p) fun n h => grow (p.take n) h

end Operations

variable (env : Env β) (staging pre : Path)

/-- What is live moves under the pre-restore tree; answers where it is then. -/
def moveAside (target : Path) : Op β (Option Path) := do
  match ← read fun d => find target d.home with
  | none => pure none
  | some _ => do
    createDirs env env.fault (pre ++ target).dropLast
    renames env env.fault target (pre ++ target)
    pure (some (pre ++ target))

/-- What was moved is logged; what was not there is not. -/
def logMoved (target : Path) : Option Path → Op β Unit
  | none => pure ()
  | some dst => setDone (· ++ [⟨target, some dst, false⟩])

def moveLog (target : Path) : Op β Unit := do
  let movedTo ← moveAside env pre target
  logMoved target movedTo

/-- The sidecars of a database, or the targets that were absent from the backup. -/
def moveAll : List Path → Op β Unit
  | [] => pure ()
  | target :: rest => do
    moveLog env pre target
    moveAll rest

/-- The path with `post` after its last segment. -/
def withSuffix (p : Path) (post : String) : Path := p.dropLast ++ [p.getLastD "" ++ post]

/-- Where sidecars of the unit can be, if it is a database. -/
def ArchiveUnit.sidecars (u : ArchiveUnit) : List Path :=
  if u.kind = .file ∧ isSqliteName u.target then SQLITE_SIDECARS.map (withSuffix u.target) else []

def failPoint (fails : Bool) : Op β Unit := if fails then raise .io else pure ()

/-- The `i`-th unit is swapped in. -/
def swapUnit (i : ℕ) (u : ArchiveUnit) : Op β Unit := do
  let movedTo ← moveAside env pre u.target
  let unitIdx ← read fun d => d.done.length
  setDone (· ++ [⟨u.target, movedTo, false⟩])
  moveAll env pre u.sidecars
  failPoint (env.swapFails i)
  createDirs env env.fault u.target.dropLast
  renames env env.fault (staging ++ u.archive) u.target
  setDone (·.modify unitIdx fun d => { d with placed := true })
  failPoint (env.swapAfterFails i)

def swapUnits (i : ℕ) : List ArchiveUnit → Op β Unit
  | [] => pure ()
  | u :: rest => do
    swapUnit env staging pre i u
    swapUnits (i + 1) rest

def swap (m : Manifest) : Op β Unit := do
  swapUnits env staging pre 0 m.units
  moveAll env pre m.absent

/-! ### The way back -/

/-- What was placed is put away. -/
def rejectPlaced (n : ℕ) (d : Done) : Op β Unit := do
  createDirs env env.undoFault (staging ++ [".rejected"])
  renames env env.undoFault d.live (staging ++ [".rejected", toString n])

/-- Answers whether the step could be undone. -/
def undoMove (d : Done) : Op β Bool := do
  match d.movedTo with
  | none => pure true
  | some src => do
    match ← attempt (renames env env.undoFault src d.live) with
    | .ok _ => pure true
    | .error _ => pure false

def undo (n : ℕ) (d : Done) : Op β Bool := do
  if d.placed then do
    match ← attempt (rejectPlaced env staging n d) with
    | .ok _ => undoMove env d
    | .error _ => pure false
  else undoMove env d

/-- Puts every swapped unit back, newest first, and goes on after a failure. -/
def rollBack : List (ℕ × Done) → Op β Bool
  | [] => pure true
  | (n, d) :: rest => do
    let here ← undo env staging n d
    let others ← rollBack rest
    pure (here && others)

def REAPPLY_MARKER : Path := ["state", ".restore-reapply-tombstones"]

/-- Removes what is there, if it can. -/
def removes (part : ℕ → FileTree String β → Option (FileTree String β)) (p : Path) : Op β Unit := do
  let _ ← attempt (operate env env.undoFault
    (fun h => if (find p h).isSome then some (remove p h) else none)
    fun n h => alter p (fun o => o.bind (part n)) h)
  pure ()

/-- A file is there or not; of a tree, a part may be left. -/
def removeFile (p : Path) : Op β Unit := removes env (fun _ t => some t) p

def removeTree (p : Path) : Op β Unit := removes env env.remains p

def putMarker (h : Node β) : Option (Node β) := if reaches REAPPLY_MARKER h then
    some (alter REAPPLY_MARKER (fun _ => some (.file env.marker)) h)
  else none

/-- The marker is created with its directory. -/
def createMarker : Op β Unit := do
  createDirs env env.fault REAPPLY_MARKER.dropLast
  operate env env.fault (putMarker env) fun _ h => (putMarker env h).getD h

/-- Answers whether this call created the marker; one that is there is kept. -/
def writeReapplyMarker : Op β Bool := do
  match ← read fun d => find REAPPLY_MARKER d.home with
  | some _ => pure false
  | none => do
    match ← attempt (createMarker env) with
    | .ok _ => pure true
    | .error e => do
      removeFile env REAPPLY_MARKER
      raise e

def removeMarker (created : Bool) : Op β Unit := if created then removeFile env REAPPLY_MARKER else pure ()

/-- What was done is undone; then the marker goes if it is ours, and so do the trees. -/
def undoAll (created : Bool) : Op β Unit := do
  let done ← read Disk.done
  let ok ← rollBack env staging (done.zipIdx.map fun x => (x.2, x.1)).reverse
  if ok then do
    removeMarker env created
    removeTree env pre
    removeTree env staging
    raise .putBack
  else raise .leftOver

def swapOrUndo (m : Manifest) (created : Bool) : Op β Unit := do
  match ← attempt (swap env staging pre m) with
  | .ok _ => removeTree env staging
  | .error _ => undoAll env staging pre created

/-- From the staged archive on. -/
def restore (m : Manifest) : Op β Unit := do
  match ← attempt (writeReapplyMarker env) with
  | .error e => do
    removeTree env staging
    raise e
  | .ok created => swapOrUndo env staging pre m created

end Plur1bus.Backup
