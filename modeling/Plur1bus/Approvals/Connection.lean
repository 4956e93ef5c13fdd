import Plur1bus.Program.Exec
import Plur1bus.Approvals.Chain
import Plur1bus.Policy.Decide
import Mathlib.Data.List.Sort
import Mathlib.Tactic.Simps.Basic

/-!
One SQLite connection and the `ApprovalChain` object that lives on it: the
tables it sees, the transaction it may have open, the cached snapshot with its
two keys (`data_version` and the generation counter), and `transaction`,
`snapshot` and `append` over them.

Everything outside the program is an `Env`: the clock, the random bytes, the
audit sink and the faults of the storage are streams, read one after another,
so a statement about every `Env` is one about every clock, every collision and
every failure.
-/

namespace Plur1bus.Approvals

open Program Policy

/-! ### Tables -/

inductive ApprovalStatus | pending | approved | denied | used | expired | cancelled
  deriving DecidableEq, Repr

/-- A row of `approvals`, the projection for listing. Only the columns that
some operation reads or constrains are kept. -/
structure ApprovalRow where
  id : String
  nonce : String
  status : ApprovalStatus
  deriving DecidableEq, Repr

structure GrantRow where
  id : String
  person : String
  agent : String
  capability : String
  effect : Option String := none
  «match» : GrantMatch
  duration : GrantScope
  createdBy : String
  createdAt : ℤ
  expiresAt : Option ℤ := none
  revokedAt : Option ℤ := none
  endReason : Option String := none
  lastUsedAt : Option ℤ := none
  consumedAt : Option ℤ := none
  actionHash : Option String := none
  taskId : Option String := none
  sessionId : Option String := none
  projectId : Option String := none
  jobId : Option String := none
  delegable : Bool := false
  surface : SurfaceTrust
  acknowledgedUnsandboxed : Bool := false
  attestedVia : Option String := none
  defHash : String := ""
  chainSeq : ℤ := 0
  deriving DecidableEq, Repr

structure Db where
  chain : ChainTables := {}
  approvals : List ApprovalRow := []
  grants : List GrantRow := []
  deriving DecidableEq, Repr

/-! ### The environment -/

/-- What `checkSyntax` finds: a refusal, or whether the path is absolute. -/
inductive PathSyntax
  | refused (reason : String)
  | path (absolute : Bool)
  deriving DecidableEq, Repr

structure Env where
  key : ChainKey
  /-- The readings of the clock, in order. -/
  now : ℕ → ℤ
  /-- The random identifiers and nonces, in order. -/
  random : ℕ → String
  /-- Whether the audit line at this position cannot be written. -/
  auditFails : ℕ → Bool := fun _ => false
  /-- Whether the BEGIN, COMMIT or write statement at this position fails. -/
  fault : ℕ → Bool := fun _ => false
  sha256 : JsonText → String
  /-- `trim().toLowerCase()`. -/
  canon : String → String
  checkSyntax : String → PathSyntax
  /-- Whether a grant on this path reaches a home, a drive root or a system tree. -/
  reachesSystemTree : (path : String) → (recursive : Bool) → Bool
  maxGrantDays : ℤ := 90

inductive GrantErrorCode
  | invalidGrant | ceilingExceeded | surfaceTooLow | neverCapability | duplicateId
  deriving DecidableEq, Repr

inductive Exn
  /-- `ApprovalChainError` and its subclass `ApprovalIntegrityError`. -/
  | chain (b : Broken)
  | grant (code : GrantErrorCode) (message : String)
  | refused (code : String)
  | type (message : String)
  | range
  | constraint
  | audit
  | fault
  deriving DecidableEq, Repr

/-! ### The connection -/

structure Cache where
  dv : ℕ
  gen : ℕ
  snap : ChainSnapshot
  deriving DecidableEq, Repr

/-- What a ROLLBACK found: whether the cached snapshot was current, and whether
the transaction had changed the chain tables. -/
structure RolledBack where
  cacheCurrent : Bool
  chainChanged : Bool
  deriving DecidableEq, Repr

structure Conn where
  db : Db := {}
  /-- The database as BEGIN found it, while a transaction is open. -/
  saved : Option Db := none
  gen : ℕ := 0
  cache : Option Cache := none
  /-- Commits of other connections that changed the database. -/
  dataVersion : ℕ := 0
  reads : ℕ := 0
  draws : ℕ := 0
  lines : ℕ := 0
  statements : ℕ := 0
  /-- Every ROLLBACK so far, newest first. -/
  rollbacks : List RolledBack := []
  deriving DecidableEq, Repr

abbrev Op (α : Type) := Prog Exn Conn α

def Conn.cached (s : Conn) : Option ChainSnapshot :=
  match s.cache with
  | none => none
  | some c => if c.dv = s.dataVersion ∧ c.gen = s.gen then some c.snap else none

def Conn.isTransaction (s : Conn) : Bool := s.saved.isSome

@[simps] def Conn.bumpGen (s : Conn) : Conn := { s with gen := s.gen + 1 }

@[simps] def Conn.tick (s : Conn) : Conn := { s with reads := s.reads + 1 }

@[simps] def Conn.draw (s : Conn) : Conn := { s with draws := s.draws + 1 }

@[simps] def Conn.line (s : Conn) : Conn := { s with lines := s.lines + 1 }

@[simps] def Conn.step (s : Conn) : Conn := { s with statements := s.statements + 1 }

@[simps] def Conn.write (s : Conn) (f : Db → Db) : Conn := { s with db := f s.db }

@[simps] def Conn.opening (s : Conn) : Conn := { s with saved := some s.db }

@[simps] def Conn.closing (s : Conn) : Conn := { s with saved := none }

def now (env : Env) : Op ℤ := do
  let t ← Prog.gets (fun s => env.now s.reads)
  Prog.modify Conn.tick
  pure t

def randomBytes (env : Env) : Op String := do
  let r ← Prog.gets (fun s => env.random s.draws)
  Prog.modify Conn.draw
  pure r

/-- One audit line; throws when it cannot be written. -/
def record (env : Env) : Op Unit := do
  let bad ← Prog.gets (fun s => env.auditFails s.lines)
  Prog.modify Conn.line
  if bad then Prog.throw .audit else pure ()

/-- The storage gets a chance to fail before it does anything. -/
def statement (env : Env) : Op Unit := do
  let bad ← Prog.gets (fun s => env.fault s.statements)
  Prog.modify Conn.step
  if bad then Prog.throw .fault else pure ()

/-- A statement with its effect on the tables, unless a constraint forbids it. -/
def exec (env : Env) (ok : Db → Bool) (f : Db → Db) : Op Unit := do
  statement env
  let allowed ← Prog.gets (fun s => ok s.db)
  if allowed then Prog.modify (·.write f) else Prog.throw .constraint

/-! ### Transactions -/

def begin' (env : Env) : Op Unit := do
  statement env
  Prog.modify Conn.opening

def commit (env : Env) : Op Unit := do
  statement env
  Prog.modify Conn.closing

def Conn.rolledBack (s : Conn) (old : Db) : RolledBack where
  cacheCurrent := s.cached.isSome
  chainChanged := decide (s.db.chain ≠ old.chain)

/-- Nothing on the connection object notices a ROLLBACK: the generation and the
cache stay as they are. -/
def Conn.rollback (s : Conn) : Conn :=
  match s.saved with
  | none => s
  | some old =>
    { s with db := old, saved := none, rollbacks := s.rolledBack old :: s.rollbacks }

/-- Runs `fn` in an IMMEDIATE transaction; inside one, the outer transaction
commits or rolls back everything. -/
def transaction {α : Type} (env : Env) (fn : Op α) : Op α := do
  if (← Prog.gets Conn.isTransaction) then fn
  else do
    begin' env
    Prog.tryCatch
      (do
        let r ← fn
        commit env
        pure r)
      (fun e => do
        Prog.modify Conn.rollback
        Prog.throw e)

/-! ### The chain object -/

/-- Verified view of the whole chain; cached until this connection appends or
another one commits. -/
def snapshot (env : Env) : Op ChainSnapshot := do
  match (← Prog.gets Conn.cached) with
  | some snap => pure snap
  | none =>
    match build env.key (← Prog.gets (fun s => s.db.chain)) with
    | none => Prog.throw .range
    | some snap => do
      Prog.modify (fun s => { s with cache := some ⟨s.dataVersion, s.gen, snap⟩ })
      pure snap

/-- `seq` is the primary key, and an approval kind occurs once per request. -/
def ChainTables.admits (t : ChainTables) (e : ChainEntry) : Bool :=
  t.rows.all fun r =>
    r.seq ≠ e.seq && !(e.kind.likeApproval && (r.kind = e.kind) && (r.refId = e.refId))

def ChainTables.insertRow (t : ChainTables) (e : ChainEntry) : ChainTables :=
  { t with rows := t.rows.orderedInsert (fun a b => a.seq ≤ b.seq) e }

def ChainTables.putHead (t : ChainTables) (h : ChainHead) : ChainTables :=
  { t with head := some h }

def ChainTables.addSignature (t : ChainTables) (r : SignatureRow) : ChainTables :=
  { t with signatures := t.signatures ++ [r] }

def Db.onChain (db : Db) (f : ChainTables → ChainTables) : Db := { db with chain := f db.chain }

/-- The entry that follows `last`. -/
def nextEntry (key : ChainKey) (last : Option ChainEntry) (ts : ℤ) (kind : Kind)
    (refId : String) (payload : Json) (nonce : Option String) : ChainEntry :=
  let prev := (last.map (·.mac)).getD GENESIS_MAC
  let base : ChainEntry :=
    { seq := (last.map (·.seq)).getD 0 + 1, ts := ts, kind := kind, refId := refId,
      nonce := nonce, payload := .stringify payload, prevMac := prev, mac := "" }
  { base with mac := key.mac prev base }

def insertSignature (env : Env) (e : ChainEntry) : Op Unit :=
  match env.key.signer with
  | none => pure ()
  | some signer =>
    if e.kind = .decided then
      exec env (fun db => db.chain.signatures.all (fun r => r.seq ≠ e.seq))
        (·.onChain (·.addSignature ⟨e.seq, signer.sign e.mac⟩))
    else pure ()

def appendRun (env : Env) (kind : Kind) (refId : String) (payload : Json)
    (nonce : Option String) : Op ChainEntry := do
  let snap ← snapshot env
  match snap.result with
  | .broken b => Prog.throw (.chain b)
  | .ok .. => do
    let ts ← now env
    let e := nextEntry env.key snap.entries.getLast? ts kind refId payload nonce
    -- the cache is stale from here on, whether or not the statements below succeed
    Prog.modify Conn.bumpGen
    exec env (fun db => db.chain.admits e) (·.onChain (·.insertRow e))
    exec env (fun _ => true) (·.onChain (·.putHead ⟨e.seq, e.mac, env.key.tag e.seq e.mac⟩))
    insertSignature env e
    pure e

/-- Appends one entry, in the caller's transaction when one is open, else in
its own. Refuses a broken chain. -/
def append (env : Env) (kind : Kind) (refId : String) (payload : Json)
    (nonce : Option String := none) : Op ChainEntry :=
  Prog.finallyModify (transaction env (appendRun env kind refId payload nonce)) Conn.bumpGen

end Plur1bus.Approvals
