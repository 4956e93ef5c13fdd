import Plur1bus.Approvals.Connection

/-!
Grants on the shared approvals database. A grant's definition is chained when
it is created; revocation, end, consumption and use are chained when they
happen. On every read the row is compared with its chain entries: a grant
whose entry is not proven, or whose row no longer matches its chained
definition, is suspended; revoked and consumed in the chain win over a row
that says otherwise, and the last use is taken from the chain only.
-/

namespace Plur1bus.Grants

open Program Policy Approvals

/-- A use is chained at most this often per grant. -/
def USE_RECORD_GRANULARITY_MS : ℤ := 60 * 60000

/-- Upper bound for every identifier-like field. -/
def MAX_FIELD_CHARS : ℕ := 256

/-- The policy grant with what the store records about its origin and end. -/
structure StoredGrant extends Grant where
  createdBy : String
  effect : Option String := none
  revokedAt : Option ℤ := none
  endReason : Option String := none
  attestedVia : Option String := none
  deriving DecidableEq, Repr

inductive GrantState | active | revoked | consumed | suspended
  deriving DecidableEq, Repr

structure View where
  grant : StoredGrant
  state : GrantState
  deriving DecidableEq, Repr

/-! ### Definitions and views -/

def scopeName : GrantScope → String
  | .once => "once"
  | .task => "task"
  | .session => "session"
  | .always => "always"

def accessName : Access → String
  | .read => "read"
  | .write => "write"

def matchJson : GrantMatch → Json
  | .action =>
    .obj [("kind", .str "action"), ("path", .null), ("access", .null), ("recursive", .null)]
  | .capability =>
    .obj [("kind", .str "capability"), ("path", .null), ("access", .null), ("recursive", .null)]
  | .path p access recursive =>
    .obj [("kind", .str "path"), ("path", .str p), ("access", .str (accessName access)),
      ("recursive", .bool recursive)]

/-- The immutable definition that is chained at creation. -/
def definitionOf (r : GrantRow) : Json :=
  .obj ([("id", .str r.id), ("person", .str r.person), ("agent", .str r.agent),
    ("capability", .str r.capability), ("effect", Json.orNull .str r.effect),
    ("scope", .str (scopeName r.duration)), ("match", matchJson r.match),
    ("createdBy", .str r.createdBy), ("createdAt", .num r.createdAt),
    ("expiresAt", Json.orNull .num r.expiresAt), ("actionHash", Json.orNull .str r.actionHash),
    ("taskId", Json.orNull .str r.taskId), ("sessionId", Json.orNull .str r.sessionId),
    ("projectId", Json.orNull .str r.projectId), ("jobId", Json.orNull .str r.jobId),
    ("delegable", .bool r.delegable), ("surface", .num r.surface.val),
    ("acknowledgedUnsandboxed", .bool r.acknowledgedUnsandboxed)] ++
    Json.optional "attestedVia" (r.attestedVia.map .str))

def toGrant (r : GrantRow) : StoredGrant where
  id := r.id
  capability := r.capability
  person := r.person
  agent := r.agent
  scope := r.duration
  «match» := r.match
  createdAt := r.createdAt
  lastUsedAt := r.lastUsedAt
  expiresAt := r.expiresAt
  revoked := r.revokedAt.isSome
  consumedAt := r.consumedAt
  actionHash := r.actionHash
  taskId := r.taskId
  sessionId := r.sessionId
  projectId := r.projectId
  jobId := r.jobId
  delegable := r.delegable
  surface := r.surface
  acknowledgedUnsandboxed := r.acknowledgedUnsandboxed
  createdBy := r.createdBy
  effect := r.effect
  revokedAt := r.revokedAt
  endReason := r.endReason
  attestedVia := r.attestedVia

/-- The chain vouches for a row: its creation is proven and chained this very
definition. -/
def vouched (snap : ChainSnapshot) (list : List ChainEntry) (r : GrantRow) : Bool :=
  match list.find? (fun e => e.kind = .grantCreated) with
  | none => false
  | some created =>
    snap.trusts created.seq && created.payload.parsed.bind (·.get "def") = some (definitionOf r)

def endEntry (list : List ChainEntry) : Option ChainEntry :=
  list.find? (fun e => e.kind = .grantRevoked ∨ e.kind = .grantEnded)

def consumeEntry (snap : ChainSnapshot) (list : List ChainEntry) : Option ChainEntry :=
  list.find? (fun e => e.kind = .grantConsumed ∧ snap.trusts e.seq)

/-- The timestamps of the proven uses. -/
def useTimes (snap : ChainSnapshot) (list : List ChainEntry) : List ℤ :=
  (list.filter (fun e => e.kind = .grantUsed ∧ snap.trusts e.seq)).map (·.ts)

def viewOfRow (snap : ChainSnapshot) (r : GrantRow) : View :=
  let list := snap.byRef r.id
  let ended := endEntry list
  let g := toGrant r
  let revokedAt := g.revokedAt.or (ended.map (·.ts))
  let consumedAt := g.consumedAt.or ((consumeEntry snap list).map (·.ts))
  let g : StoredGrant := { g with
      lastUsedAt := (useTimes snap list).max?
      revokedAt := revokedAt
      revoked := g.revoked || ended.isSome || revokedAt.isSome
      consumedAt := consumedAt }
  let state : GrantState :=
    if !vouched snap list r then .suspended
    else if g.revoked then .revoked
    else if consumedAt.isSome then .consumed
    else .active
  ⟨g, state⟩

/-! ### The read side -/

def rowOf (db : Db) (id : String) : Option GrantRow := db.grants.find? (fun r => r.id = id)

/-- `#viewOf`: an unknown id asks nothing of the chain. -/
def viewOf (env : Env) (id : String) : Op (Option View) := do
  match (← Prog.gets (fun s => rowOf s.db id)) with
  | none => pure none
  | some r => do
    let snap ← snapshot env
    pure (some (viewOfRow snap r))

/-- `ORDER BY created_at, id`. -/
def before (a b : GrantRow) : Prop := a.createdAt < b.createdAt ∨ (a.createdAt = b.createdAt ∧ a.id ≤ b.id)

instance : DecidableRel before := fun _ _ => inferInstanceAs (Decidable (_ ∨ _))

def openRows (db : Db) (q : GrantQuery) : List GrantRow := (db.grants.filter fun r =>
    r.person = q.person && r.agent = q.agent && r.capability = q.capability &&
      r.revokedAt.isNone && r.consumedAt.isNone).insertionSort before

def list (env : Env) (q : GrantQuery) : Op (List Grant) := do
  let rows ← Prog.gets (fun s => openRows s.db q)
  let snap ← snapshot env
  pure (((rows.map (viewOfRow snap)).filter (fun v => v.state = .active)).map
    (fun v => v.grant.toGrant))

/-- For ids a hand-off references. Unknown or suspended ids resolve to nothing,
revoked and consumed grants are returned flagged. -/
def get (env : Env) (id : String) : Op (Option Grant) := do
  match (← viewOf env id) with
  | none => pure none
  | some v => pure (if v.state = .suspended then none else some v.grant.toGrant)

/-! ### Creation -/

structure CreateGrantInput where
  id : Option String := none
  capability : String
  person : String
  agent : String
  scope : GrantScope
  «match» : GrantMatch
  createdBy : String
  surface : SurfaceTrust
  effect : Option String := none
  expiresAt : Option ℤ := none
  actionHash : Option String := none
  taskId : Option String := none
  sessionId : Option String := none
  projectId : Option String := none
  jobId : Option String := none
  delegable : Bool := false
  acknowledgedUnsandboxed : Bool := false
  attestedVia : Option String := none
  deriving DecidableEq, Repr

def bad {α : Type} (code : GrantErrorCode) (message : String) : Except Exn α := .error (.grant code message)

/-- `typeof v === "string" && v.length > 0`. -/
def str (v : Option String) : Bool := v.any nonEmpty

def isLowerAlnum (c : Char) : Bool := ('a' ≤ c && c ≤ 'z') || ('0' ≤ c && c ≤ '9')

/-- `/^attested:[a-z0-9][a-z0-9-]{0,31}$/`. -/
def attestedSyntax (s : String) : Bool :=
  match "attested:".toList.isPrefixOf s.toList, s.toList.drop 9 with
  | true, c :: rest =>
    isLowerAlnum c && rest.length ≤ 31 && rest.all (fun c => isLowerAlnum c || c == '-')
  | _, _ => false

def longField (fields : List (String × Option String)) : Option String :=
  (fields.find? (fun f => f.2.any (fun v => decide (utf16Length v > MAX_FIELD_CHARS)))).map (·.1)

def identifierFields (i : CreateGrantInput) : List (String × Option String) :=
  [("id", i.id), ("person", some i.person), ("agent", some i.agent),
    ("createdBy", some i.createdBy), ("taskId", i.taskId), ("sessionId", i.sessionId),
    ("projectId", i.projectId), ("jobId", i.jobId), ("effect", i.effect),
    ("actionHash", i.actionHash)]

/-- The checks before the clock is asked: capability, duration, surface and
the identifier-like fields. Answers the capability. -/
def checkFields (env : Env) (i : CreateGrantInput) : Except Exn CapabilityDef :=
  match capabilityOf (env.canon i.capability) with
  | none => bad .invalidGrant ("unknown capability " ++ i.capability)
  | some d =>
    if d.base.inside = .never then
      bad .neverCapability (d.id.name ++ " is a never capability; no grant can exist for it")
    else
      match d.ceiling with
      | none => bad .ceilingExceeded (d.id.name ++ " takes no standing grant")
      | some ceiling =>
        if !(nonEmpty i.person && nonEmpty i.agent && nonEmpty i.createdBy) then
          bad .invalidGrant "person, agent and createdBy are required"
        else if scopeRank i.scope > scopeRank ceiling then
          bad .ceilingExceeded
            (d.id.name ++ " allows at most " ++ scopeName ceiling ++ " grants")
        else if i.surface = 0 then
          bad .surfaceTooLow "a grant needs a decision from a T1..T3 surface"
        else if d.minSurface.any (fun m => decide (i.surface < m)) then
          bad .surfaceTooLow (d.id.name ++ " needs a decision from T" ++
            toString (d.minSurface.getD 0).val ++ " or above")
        else if i.attestedVia.any (fun v => !attestedSyntax v || decide (i.surface < 2)) then
          bad .invalidGrant
            "attestedVia must be attested:<method> and needs a T2 or higher surface"
        else
          match longField (identifierFields i) with
          | some name => bad .invalidGrant (name ++ " is longer than 256 characters")
          | none => .ok d

/-- The path part: canonical, and T3 and at most `task` where it reaches a
home, a drive root or a system tree. -/
def checkPath (env : Env) (d : CapabilityDef) (i : CreateGrantInput) (path : String)
    (recursive : Bool) : Except Exn Unit :=
  if !nonEmpty path then bad .invalidGrant "path match needs path, access and recursive"
  else
    match env.checkSyntax path with
    | .refused reason => bad .invalidGrant ("grant path refused: " ++ reason)
    | .path false => bad .invalidGrant "grant path must be absolute and canonical"
    | .path true =>
      let rest := (path.toList.splitOnP (isSep false)).drop 1
      if rest.isEmpty || rest.any (fun seg => seg.isEmpty || seg == ['.']) then
        bad .invalidGrant ("grant path must be canonical (no root-only path, " ++
          "trailing or doubled separator, or '.' segment)")
      else if env.reachesSystemTree path recursive then
        let flags : CallFlags := { outsideRoots := true, denyListHit := false, systemTree := true }
        if scopeRank i.scope > scopeRank (maxScopeFor d flags) then
          bad .ceilingExceeded ("a grant on a home, drive root or system tree is at most " ++
            scopeName (maxScopeFor d flags))
        else if i.surface < requiredSurface d i.scope flags then
          bad .surfaceTooLow
            "a grant on a home, drive root or system tree needs a decision from T3"
        else .ok ()
      else .ok ()

/-- What each duration and match kind asks for. -/
def checkScope (env : Env) (d : CapabilityDef) (i : CreateGrantInput) : Except Exn Unit :=
  if i.scope = .once ∧ (!str i.actionHash ∨ i.match ≠ .action) then
    bad .invalidGrant "a once grant is bound to an action hash (match.kind = action)"
  else if i.scope ≠ .once ∧ i.match = .action then
    bad .invalidGrant "only a once grant can match an action hash"
  else if i.scope = .task ∧ !str i.taskId then
    bad .invalidGrant "a task grant needs a taskId"
  else if i.scope = .session ∧ !str i.sessionId then
    bad .invalidGrant "a session grant needs a sessionId"
  else if i.jobId.isSome ∧ (i.scope ≠ .always ∨ !str i.jobId) then
    bad .invalidGrant "a job grant is a standing (always) grant"
  else
    match i.match with
    | .path p _ recursive => checkPath env d i p recursive
    | _ => .ok ()

/-- The expiry must lie ahead; the clock is asked only when one is given. -/
def checkExpiry (env : Env) (i : CreateGrantInput) : Op Unit :=
  match i.expiresAt with
  | none => pure ()
  | some t => do
    let now ← now env
    if t ≤ now then Prog.throw (.grant .invalidGrant "expiresAt must lie in the future")
    else pure ()

def rowFor (id : String) (now : ℤ) (i : CreateGrantInput) (capability : String) : GrantRow where
  id := id
  person := i.person
  agent := i.agent
  capability := capability
  effect := i.effect
  «match» := i.match
  duration := i.scope
  createdBy := i.createdBy
  createdAt := now
  expiresAt := i.expiresAt
  actionHash := i.actionHash
  taskId := i.taskId
  sessionId := i.sessionId
  projectId := i.projectId
  jobId := i.jobId
  delegable := i.delegable
  surface := i.surface
  acknowledgedUnsandboxed := i.acknowledgedUnsandboxed
  attestedVia := i.attestedVia

def insertGrant (db : Db) (r : GrantRow) : Db := { db with grants := db.grants ++ [r] }

/-- An UPDATE of the rows that meet a condition. -/
def updateGrants (db : Db) (where' : GrantRow → Bool) (set : GrantRow → GrantRow) : Db :=
  { db with grants := db.grants.map (fun r => if where' r then set r else r) }

def createdPayload (definition : Json) (defHash : String) : Json :=
  .obj [("def", definition), ("defHash", .str defHash)]

/-- The row is written first, read back through `definitionOf`, then chained. -/
def insert (env : Env) (id : String) (now : ℤ) (i : CreateGrantInput) (capability : String) :
    Op StoredGrant := do
  let row := rowFor id now i capability
  exec env (fun db => db.grants.all (fun r => r.id ≠ id)) (insertGrant · row)
  let definition := definitionOf row
  let defHash := env.sha256 (.stringify definition)
  let e ← append env .grantCreated id (createdPayload definition defHash)
  exec env (fun _ => true)
    (updateGrants · (fun r => r.id = id) (fun r => { r with defHash := defHash, chainSeq := e.seq }))
  pure (toGrant { row with defHash := defHash, chainSeq := e.seq })

def grantId (env : Env) (i : CreateGrantInput) : Op String :=
  match i.id with
  | some id => pure id
  | none => do
    let r ← randomBytes env
    pure ("grt_" ++ r)

def create (env : Env) (i : CreateGrantInput) : Op StoredGrant := do
  let d ← Prog.ofExcept (checkFields env i)
  checkExpiry env i
  Prog.ofExcept (checkScope env d i)
  let now ← now env
  let id ← grantId env i
  transaction env do
    if (← Prog.gets (fun s => (rowOf s.db id).isSome)) then
      Prog.throw (.grant .duplicateId ("grant " ++ id ++ " exists"))
    else do
      let created ← insert env id now i d.id.name
      record env
      pure created

/-! ### The end of a grant -/

def endKind (reason : String) : Kind := if reason = "revoked" then .grantRevoked else .grantEnded

def endPayload (by' reason : String) : Json := .obj [("by", .str by'), ("reason", .str reason)]

/-- A broken chain cannot take a new entry, but a revocation only narrows: the
row alone ends the grant. -/
def tolerateBroken (e : Exn) : Op Unit :=
  match e with
  | .chain _ => pure ()
  | e => Prog.throw e

/-- Answers `false` when the grant was unknown or already ended. -/
def revoke (env : Env) (id by' : String) (reason : String := "revoked") : Op Bool := transaction env do
    let now ← now env
    let open' : GrantRow → Bool := fun r => r.id = id && r.revokedAt.isNone
    let changes ← Prog.gets (fun s => (s.db.grants.filter open').length)
    exec env (fun _ => true) (updateGrants · open'
      (fun r => { r with revokedAt := some now, endReason := some reason }))
    if changes ≠ 1 then pure false
    else do
      Prog.tryCatch
        (do
          let _ ← append env (endKind reason) id (endPayload by' reason)
          pure ())
        tolerateBroken
      -- a revocation is never blocked by the audit trail
      Prog.tryCatch (record env) (fun _ => pure ())
      pure true

/-- Ends every open grant the condition selects and counts them. -/
def endWhere (env : Env) (where' : GrantRow → Bool) (by' reason : String) : Op ℕ := transaction env do
    let ids ← Prog.gets (fun s =>
      (s.db.grants.filter (fun r => where' r && r.revokedAt.isNone)).map (·.id))
    let ended ← Prog.traverse (fun id => revoke env id by' reason) ids
    pure (ended.count true)

def endTask (env : Env) (taskId : String) (by' : String := "core") : Op ℕ :=
  endWhere env (fun r => r.duration = .task && r.taskId = some taskId) by' "task-ended"

def endSession (env : Env) (sessionId : String) (by' : String := "core") : Op ℕ :=
  endWhere env (fun r => r.duration = .session && r.sessionId = some sessionId) by' "session-ended"

/-! ### Uses -/

/-- Whether a use of this grant is recorded at `now`: only on a live standing
grant, and at most once per granularity. -/
def usable (env : Env) (g : StoredGrant) (now : ℤ) : Bool :=
  !(decide (g.createdAt > now) || decide (now ≥ grantExpiry g.toGrant env.maxGrantDays)) &&
    !g.lastUsedAt.any (fun t => decide (now - t < USE_RECORD_GRANULARITY_MS))

def markUsed (env : Env) (id : String) : Op Unit := transaction env do
    match (← viewOf env id) with
    | none => pure ()
    | some v =>
      if v.state ≠ .active ∨ v.grant.scope = .once then pure ()
      else do
        let now ← now env
        if !usable env v.grant now then pure ()
        else do
          let _ ← append env .grantUsed id (.obj [])
          exec env (fun _ => true)
            (updateGrants · (fun r => r.id = id) (fun r => { r with lastUsedAt := some now }))
          record env
          let _ ← viewOf env id
          pure ()

structure ConsumeBinding where
  person : String
  agent : String
  actionHash : String
  deriving DecidableEq, Repr

/-- The WHERE clause of the consuming UPDATE. -/
def consumable (id : String) (b : ConsumeBinding) (now : ℤ) (r : GrantRow) : Bool :=
  r.id = id && r.duration = .once && r.consumedAt.isNone && r.revokedAt.isNone &&
    r.person = b.person && r.agent = b.agent && r.actionHash = some b.actionHash &&
    decide (r.createdAt + onceUnusedMs > now) && r.expiresAt.all (fun t => decide (t > now))

def consumeOnceRun (env : Env) (id : String) (b : ConsumeBinding) : Op Bool := transaction env do
    match (← viewOf env id) with
    | none => pure false
    | some v =>
      if v.state ≠ .active then pure false
      else do
        let now ← now env
        let changes ← Prog.gets (fun s => (s.db.grants.filter (consumable id b now)).length)
        exec env (fun _ => true) (updateGrants · (consumable id b now)
          (fun r => { r with consumedAt := some now, lastUsedAt := some now }))
        if changes ≠ 1 then pure false
        else do
          let _ ← append env .grantConsumed id (.obj [("actionHash", .str b.actionHash)])
          record env
          pure true

/-- A broken chain cannot record the consumption: nothing runs on it. -/
def consumeOnce (env : Env) (id : String) (b : ConsumeBinding) : Op Bool :=
  Prog.tryCatch (consumeOnceRun env id b) fun e =>
    match e with
    | .chain _ => pure false
    | e => Prog.throw e

end Plur1bus.Grants
