import Mathlib.Data.Nat.Bitwise
import Plur1bus.Program.Triple

/-!
The update of an installation. The home holds what is installed (the binary, its
companion, the core tree, the configuration and the install manifest), a snapshot of
it, the staged new files, and the state of the update. `apply` stops the daemon, takes
the snapshot, swaps the new files in, starts the daemon and waits for the health gate;
what fails after the swap began is rolled back from the snapshot. The phase is saved
before the step it names, and `recover` settles what a process that stopped left behind.

Every change of the home is one effect: a file that is put in place and the state that
is saved are renamed over what was there, so an interrupted one leaves the old file. The
copies into the snapshot and the removal of a tree can be interrupted half-way. An effect
can fail, before or after it has changed the home.
-/

namespace Plur1bus.Update

open Program

inductive Phase
  | stopping | snapshotted | swapping | swapped | started | gated | rollingBack
  | committed | rolledBack | failed
  deriving DecidableEq, Repr

def Phase.isTerminal (p : Phase) : Bool := p = .committed || p = .rolledBack || p = .failed

structure ReleaseUnit where
  version : String
  sha256 : Option String
  deriving DecidableEq, Repr

structure CoreUnit where
  version : String
  contract : String
  rpc : String
  sha256 : Option String
  source : String
  deriving DecidableEq, Repr

/-- The install manifest. -/
structure Manifest where
  binary : ReleaseUnit
  tools : Option ReleaseUnit
  core : CoreUnit
  updatedAt : ℕ
  deriving DecidableEq, Repr

structure CoreTarget where
  version : String
  contract : String
  rpc : String
  sha256 : String
  deriving DecidableEq, Repr

/-- What the commit needs to write the new manifest. -/
structure Target where
  binarySha256 : String
  toolsSha256 : Option String
  core : Option CoreTarget
  deriving DecidableEq, Repr

structure State where
  phase : Phase
  fromVersion : String
  toVersion : String
  /-- The process that drives the update. -/
  owner : ℕ
  wasRunning : Bool
  coreSwapped : Bool
  release : Target
  reason : Option String
  addonsDisabled : List String
  addonsReenable : List String
  deriving DecidableEq, Repr

/-- What is installed: files `B` and a tree `T`. -/
structure Install (B T : Type) where
  binary : B
  tools : Option B
  core : Option T
  config : Option B
  manifest : Option Manifest
  deriving DecidableEq

/-- `snapshot.json`. -/
structure Meta (H : Type) where
  binarySha256 : H
  toolsManaged : Bool
  toolsSha256 : Option H
  configSha256 : Option H
  manifestSha256 : Option H
  /-- The previous core tree was moved into the snapshot. -/
  coreMoved : Bool
  deriving DecidableEq

structure Snapshot (B T H : Type) where
  binary : Option B := none
  tools : Option B := none
  config : Option B := none
  manifest : Option Manifest := none
  core : Option T := none
  info : Option (Meta H) := none

structure Staging (B T : Type) where
  binary : Option B := none
  tools : Option B := none
  core : Option T := none

/-- What a verified feed asks for, with the files as they are downloaded. -/
structure Plan (B T : Type) where
  fromVersion : String
  toVersion : String
  binary : B
  tools : B
  /-- The core payload, when the core changes. -/
  core : Option T
  release : Target
  disable : List String
  reenable : List String

structure Home (B T H : Type) where
  install : Install B T
  snapshot : Snapshot B T H
  staging : Staging B T
  /-- `state.json`. -/
  state : Option State
  daemon : Bool
  /-- The state as the process that runs has it in memory. -/
  st : State
  /-- How many effects and calls of the host there were. -/
  ticks : ℕ
  /-- The phase `gated` has been saved. -/
  gatedOnce : Bool

/-- What is outside: the digest of a file, what interrupted copies and removals leave,
and which effects fail, before (`false`) or after (`true`) they have changed the home. -/
structure Env (B T H : Type) where
  sha : B → H
  shaManifest : Manifest → H
  cut : ℕ → B → Option B
  cutManifest : ℕ → Manifest → Option Manifest
  remains : ℕ → T → Option T
  fault : ℕ → Option Bool
  /-- The update is refused before it has a state. -/
  refusal : Option String
  now : ℕ → ℕ

/-- The host, by the number of the call. A stop that fails says whether the daemon is left
running; a new version that starts may rewrite the configuration. -/
structure Host (B : Type) where
  stop : ℕ → Option Bool
  start : ℕ → Bool
  gate : ℕ → Bool
  alive : ℕ → Bool
  migrate : ℕ → Option B → Option B
  disableAddons : ℕ → Bool
  /-- The add-ons that refused to be enabled again. -/
  reenableAddons : ℕ → List String → List String

variable {B T H : Type} [DecidableEq H]

/-- A program over the home; what it throws is the reason. -/
abbrev Op (B T H α : Type) : Type := Prog (Stop String) (World (Home B T H) Unit) α

namespace Home

variable (h : Home B T H)

def tick : Home B T H := { h with ticks := h.ticks + 1 }

def onInstall (f : Install B T → Install B T) : Home B T H := { h with install := f h.install }

def onSnapshot (f : Snapshot B T H → Snapshot B T H) : Home B T H := { h with snapshot := f h.snapshot }

end Home

def read {α : Type} (f : Home B T H → α) : Op B T H α := Prog.gets fun w => f w.disk

/-- Changes the state in memory. -/
def setSt (f : State → State) : Op B T H Unit :=
  Prog.modify fun w => { w with disk := { w.disk with st := f w.disk.st } }

variable (env : Env B T H)

/-- One effect on the file system, which can fail. -/
def fs (whole : Home B T H → Home B T H) (part : ℕ → Home B T H → Home B T H) : Op B T H Unit := do
  match env.fault (← read Home.ticks) with
  | none => effect () (fun h => (whole h).tick) part
  | some false => do
    effect () Home.tick fun _ h => h
    raise "io"
  | some true => do
    effect () (fun h => (whole h).tick) part
    raise "io"

/-- `state::save`. -/
def save : Op B T H Unit := fs env (fun h => { h with
    state := some h.st, gatedOnce := h.gatedOnce || decide (h.st.phase = .gated) }) fun _ h => h

def enter (phase : Phase) : Op B T H Unit := do
  setSt fun st => { st with phase := phase }
  save env

/-- What is thrown is dropped. -/
def ignore (m : Op B T H Unit) : Op B T H Unit := do
  let _ ← attempt m
  pure ()

def removeStaging : Op B T H Unit := ignore (fs env (fun h => { h with staging := {} }) fun n h => { h with
    staging := ⟨if n.testBit 0 then h.staging.binary else none,
      if n.testBit 1 then h.staging.tools else none, h.staging.core.bind (env.remains n)⟩ })

/-! ### The host -/

/-- Answers whether the daemon was running. -/
def Host.stops (host : Host B) : Op B T H Bool := do
  match host.stop (← read Home.ticks) with
  | none => do
    let was ← read Home.daemon
    effect () (fun h => { h with daemon := false }.tick) fun _ h => h
    pure was
  | some left => do
    effect () (fun h => { h with daemon := h.daemon && left }.tick) fun _ h => h
    raise "stop-failed"

/-- The daemon starts, and may change the configuration as `rewrite` says. -/
def Host.starts (host : Host B) (rewrite : ℕ → Option B → Option B) : Op B T H Unit := do
  let n ← read Home.ticks
  effect () (fun h => { h with
    daemon := h.daemon || host.start n
    install.config := rewrite n h.install.config }.tick) fun _ h => h
  if host.start n then pure () else raise "start-failed"

/-- The configuration is left alone. -/
def keepsConfig : ℕ → Option B → Option B := fun _ c => c

/-! ### The snapshot -/

/-- What an interrupted removal leaves of the snapshot. -/
def Snapshot.part (s : Snapshot B T H) (n : ℕ) : Snapshot B T H where
  binary := if n.testBit 0 then s.binary else none
  tools := if n.testBit 1 then s.tools else none
  config := if n.testBit 2 then s.config else none
  manifest := if n.testBit 3 then s.manifest else none
  core := s.core.bind (env.remains n)
  info := if n.testBit 4 then s.info else none

def writeInfo (info : Meta H) : Op B T H Unit :=
  fs env (fun h => h.onSnapshot fun s => { s with info := some info }) fun _ h => h

/-- Copies a file into the snapshot, if it is there. -/
def copyInto {F : Type} (cut : ℕ → F → Option F)
    (put : Option F → Snapshot B T H → Snapshot B T H) : Option F → Op B T H Unit
  | none => pure ()
  | some f => fs env (fun h => h.onSnapshot (put (some f))) fun n h => h.onSnapshot (put (cut n f))

/-- Replaces any previous snapshot with a fresh one. -/
def create : Op B T H Unit := do
  ignore (fs env (fun h => h.onSnapshot fun _ => {}) fun n h => h.onSnapshot (·.part env n))
  let i ← read Home.install
  copyInto env env.cut (fun f s => { s with binary := f }) (some i.binary)
  copyInto env env.cut (fun f s => { s with tools := f }) i.tools
  copyInto env env.cut (fun f s => { s with config := f }) i.config
  copyInto env env.cutManifest (fun f s => { s with manifest := f }) i.manifest
  writeInfo env ⟨env.sha i.binary, true, i.tools.map env.sha, i.config.map env.sha,
    i.manifest.map env.shaManifest, false⟩

/-- Every file the record names has its digest. -/
def matchesInfo (s : Snapshot B T H) (info : Meta H) : Bool :=
  s.binary.map env.sha = some info.binarySha256 &&
    (info.toolsSha256 = none || s.tools.map env.sha = info.toolsSha256) &&
    (info.configSha256 = none || s.config.map env.sha = info.configSha256) &&
    (info.manifestSha256 = none || s.manifest.map env.shaManifest = info.manifestSha256)

def readInfo : Op B T H (Meta H) := do
  match ← read fun h => h.snapshot.info with
  | none => raise "snapshot-invalid"
  | some info => pure info

def verify : Op B T H (Meta H) := do
  let info ← readInfo
  let s ← read Home.snapshot
  if matchesInfo env s info then pure info else raise "snapshot-invalid"

/-- The tree is renamed into the snapshot; if that fails, the record is taken back. -/
def moveCore (info : Meta H) (core : T) : Op B T H Unit := do
  match ← attempt (fs env (fun h =>
      (h.onInstall ({ · with core := none })).onSnapshot ({ · with core := some core })) fun _ h => h) with
  | .ok _ => pure ()
  | .error e => do
    ignore (writeInfo env { info with coreMoved := false })
    raise e

/-- Moves the core tree into the snapshot. The record comes first. -/
def coreIn : Op B T H Unit := do
  let info ← readInfo
  ignore (fs env (fun h => h.onSnapshot ({ · with core := none })) fun n h =>
    h.onSnapshot fun s => { s with core := s.core.bind (env.remains n) })
  match ← read fun h => h.install.core with
  | none => writeInfo env { info with coreMoved := false }
  | some core => do
    writeInfo env { info with coreMoved := true }
    moveCore env info core

/-- Puts a file back, or removes one that was not there. -/
def putBack {F : Type} (held : Snapshot B T H → Option F)
    (put : Option F → Install B T → Install B T) (wanted : Bool) : Op B T H Unit := do
  match wanted, ← read fun h => held h.snapshot with
  | true, none => raise "io"
  | true, some f => fs env (fun h => h.onInstall (put (some f))) fun _ h => h
  | false, _ => fs env (fun h => h.onInstall (put none)) fun _ h => h

/-- Puts the core tree back, if it was moved. -/
def restoreCore (info : Meta H) : Op B T H Unit := do
  match ← read fun h => h.snapshot.core with
  | some core => do
    ignore (fs env (fun h => h.onInstall ({ · with core := none })) fun n h =>
      h.onInstall fun i => { i with core := i.core.bind (env.remains n) })
    fs env (fun h => (h.onInstall ({ · with core := some core })).onSnapshot ({ · with core := none }))
      fun _ h => h
  | none => do
    if info.coreMoved && (← read fun h => h.install.core.isNone) then raise "core-missing"
    else pure ()

/-- Puts the snapshot back. -/
def restore (info : Meta H) : Op B T H Unit := do
  putBack env Snapshot.binary (fun f i => { i with binary := f.getD i.binary }) true
  if info.toolsManaged then
    putBack env Snapshot.tools (fun f i => { i with tools := f }) info.toolsSha256.isSome
  else pure ()
  putBack env Snapshot.config (fun f i => { i with config := f }) info.configSha256.isSome
  putBack env Snapshot.manifest (fun f i => { i with manifest := f }) info.manifestSha256.isSome
  restoreCore env info

/-! ### The update -/

variable (host : Host B)

/-- A copy of a staged file is renamed over its destination. -/
def putFile (staged : Staging B T → Option B) (put : B → Install B T → Install B T) : Op B T H Unit := do
  match ← read fun h => staged h.staging with
  | none => raise "io"
  | some b => fs env (fun h => h.onInstall (put b)) fun _ h => h

/-- The staged core tree takes the place of the one that was moved. -/
def placeCore : Op B T H Unit := do
  match ← read fun h => h.staging.core with
  | none => raise "io"
  | some core =>
    fs env (fun h => { h.onInstall ({ · with core := some core }) with
      staging := { h.staging with core := none } }) fun _ h => h

/-- The new binary and its companion over the old, the old core tree into the snapshot
and the new one in its place. -/
def swap (plan : Plan B T) : Op B T H Unit := do
  putFile env Staging.binary fun b i => { i with binary := b }
  putFile env Staging.tools fun b i => { i with tools := some b }
  if plan.core.isSome then do
    coreIn env
    placeCore env
    setSt fun st => { st with coreSwapped := true }
  else pure ()

/-- The manifest of the new version. -/
def released (st : State) (now : ℕ) (m : Manifest) : Manifest where
  binary := ⟨st.toVersion, some st.release.binarySha256⟩
  tools := match st.release.toolsSha256 with
    | some sha256 => some ⟨st.toVersion, some sha256⟩
    | none => m.tools
  core := match st.release.core with
    | some c => ⟨c.version, c.contract, c.rpc, some c.sha256, "release"⟩
    | none => m.core
  updatedAt := now

/-- Writes the manifest of the new version, closes the state and removes the staging area. -/
def commit : Op B T H Unit := do
  match ← read fun h => h.install.manifest with
  | none => raise "no install manifest to update"
  | some m => do
    let st ← read Home.st
    let n ← read Home.ticks
    fs env (fun h => h.onInstall ({ · with manifest := some (released st (env.now n) m) })) fun _ h => h
    setSt fun st =>
      { st with addonsReenable := st.addonsReenable.filter fun name =>
          !(host.reenableAddons n st.addonsReenable).contains name }
    enter env .committed
    removeStaging env
    if st.wasRunning then pure () else do
      let _ ← attempt host.stops
      pure ()

/-- The daemon goes back up if it was running. -/
def startAgain : Op B T H Unit := do
  let st ← read Home.st
  if st.wasRunning then ignore (host.starts keepsConfig) else pure ()

/-- Puts the snapshot back after verifying it, and starts the daemon if it was running. -/
def rollback (reason : String) : Op B T H Unit := do
  setSt fun st => { st with reason := some reason }
  ignore (enter env .rollingBack)
  let _ ← attempt host.stops
  match ← attempt (do restore env (← verify env)) with
  | .ok _ => do
    startAgain host
    ignore (enter env .rolledBack)
    removeStaging env
  | .error _ => ignore (enter env .failed)

/-- Nothing was swapped: the attempt is closed and the daemon goes back up. -/
def closeUntouched : Op B T H Unit := do
  setSt fun st => { st with reason := some "interrupted" }
  let closed ← attempt (enter env .rolledBack)
  removeStaging env
  startAgain host
  raiseError closed

/-- By the phase that was saved: before the swap nothing changed, from `swapping` on it is
rolled back, and once the gate passed it is rolled forward. -/
def settle : Phase → Op B T H Unit
  | .stopping | .snapshotted => closeUntouched env host
  | .gated => commit env host
  | _ => rollback env host "interrupted"

/-- Settles an update whose owner is gone; `none` when there is nothing to do. -/
def recover (pid : ℕ) : Op B T H (Option State) := do
  match ← read Home.state with
  | none => pure none
  | some st =>
    if st.phase.isTerminal || host.alive st.owner then pure none
    else do
      setSt fun _ => { st with owner := pid }
      settle env host st.phase
      let st ← read Home.st
      pure (some st)

/-- Refuses while the owner of another update is alive; otherwise settles a dead one. -/
def ensureIdle (pid : ℕ) : Op B T H Unit := do
  match ← read Home.state with
  | none => pure ()
  | some st =>
    if st.phase.isTerminal then pure ()
    else if host.alive st.owner then raise "update-in-progress"
    else do
      match ← attempt (recover env host pid) with
      | .error _ => raise "state-unreadable"
      | .ok after =>
        if after.any (·.phase = .failed) then raise "snapshot-invalid" else pure ()

def freshState (plan : Plan B T) (pid : ℕ) : State where
  phase := .stopping
  fromVersion := plan.fromVersion
  toVersion := plan.toVersion
  owner := pid
  wasRunning := false
  coreSwapped := false
  release := plan.release
  reason := none
  addonsDisabled := []
  addonsReenable := plan.reenable

/-- Until the new files are in place. -/
def swapIn (plan : Plan B T) : Op B T H Unit := do
  enter env .swapping
  match ← attempt (swap env plan) with
  | .error _ => raise "swap-failed"
  | .ok _ => enter env .swapped

/-- The incompatible add-ons are recorded first and disabled then. -/
def disableAddons (plan : Plan B T) : Op B T H Unit := do
  if plan.disable.isEmpty then pure ()
  else do
    setSt fun st => { st with addonsDisabled := plan.disable }
    save env
    if host.disableAddons (← read Home.ticks) then pure () else raise "addon-disable-failed"

/-- The health gate. -/
def Host.gates : Op B T H Unit := do
  if host.gate (← read Home.ticks) then pure () else raise "health-gate-failed"

/-- From the swap to the health gate. -/
def flow (plan : Plan B T) : Op B T H Unit := do
  swapIn env plan
  disableAddons env host plan
  host.starts host.migrate
  enter env .started
  host.gates
  enter env .gated

/-- What is new is committed, and rolled back if that fails. -/
def finish : Op B T H Unit := do
  match ← attempt (commit env host) with
  | .ok _ => pure ()
  | .error _ => rollback env host "commit-failed"

/-- An attempt that ends before the swap is closed as rolled back. -/
def giveUp (reason : String) : Op B T H Unit := do
  setSt fun st => { st with reason := some reason }
  ignore (enter env .rolledBack)

def stopDaemon : Op B T H Unit := do
  match ← attempt host.stops with
  | .ok was => setSt fun st => { st with wasRunning := was }
  | .error _ => do
    giveUp env "stop-failed"
    removeStaging env
    raise "stop-failed"

def takeSnapshot : Op B T H Unit := do
  match ← attempt (create env) with
  | .ok _ => pure ()
  | .error _ => do
    giveUp env "snapshot-failed"
    startAgain host
    raise "snapshot-failed"

/-- A state file that cannot be written must not keep the daemon down. -/
def enterSnapshotted : Op B T H Unit := do
  match ← attempt (enter env .snapshotted) with
  | .ok _ => pure ()
  | .error _ => do
    startAgain host
    giveUp env "io"
    removeStaging env
    raise "io"

def checkInstalled (plan : Plan B T) : Op B T H Unit := do
  match ← read fun h => h.install.manifest with
  | none => raise "not-installed"
  | some installed =>
    if installed.binary.version ≠ plan.fromVersion then raise "not-installed" else pure ()

/-- The new files are downloaded into the staging area. -/
def download (plan : Plan B T) : Op B T H Unit :=
  match env.refusal with
  | some reason => raise reason
  | none =>
    fs env (fun h => { h with staging := ⟨some plan.binary, some plan.tools, plan.core⟩ })
      (fun n h => { h with staging := ⟨env.cut n plan.binary, env.cut n plan.tools, none⟩ })

/-- Once the swap begins, what fails is rolled back. -/
def swapOrRollback (plan : Plan B T) : Op B T H Unit := do
  match ← attempt (flow env host plan) with
  | .ok _ => finish env host
  | .error reason => rollback env host reason

/-- Throws what is refused or fails before the swap; after it, answers the final state. -/
def apply (plan : Plan B T) (pid : ℕ) : Op B T H State := do
  ensureIdle env host pid
  checkInstalled plan
  download env plan
  setSt fun _ => freshState plan pid
  enter env .stopping
  stopDaemon env host
  takeSnapshot env host
  enterSnapshotted env host
  swapOrRollback env host plan
  read Home.st

end Plur1bus.Update
