import Plur1bus.Approvals.Store
import Plur1bus.Grants.Store

/-!
The approval service over the two stores: a call whose decision is `ask` is
stored as a request, `decideForSession` records a person's decision and
creates the grants it gives in one transaction, and `begin` is the execution
start that consumes the approval and its once grant. Waiting, timers and
events are not part of the model; what they read of the chain is.
-/

namespace Plur1bus.Approvals

open Program Policy Grants

def MAX_TARGETS : ℕ := 50

/-! ### The ask and its stored detail -/

structure ApprovalAsk where
  request : ApprovalRequest
  callId : String
  agentId : String
  principal : String
  sessionId : Option String := none
  park : Bool := false
  subjectKind : SubjectKind := .agent
  turnId : Option String := none
  taskId : Option String := none
  projectId : Option String := none
  targets : Option (List String) := none
  access : Option Access := none
  /-- Set only by the core for a code folder request. -/
  codeRoot : Bool := false
  /-- The redacted texts and sizes a surface is shown. -/
  shown : List (String × Json) := []
  deriving DecidableEq, Repr

def taskKeyOf (taskId sessionId : Option String) : String := (taskId.or sessionId).getD "-"

def bindingOf (ask : ApprovalAsk) : Bound where
  actionHash := ask.request.actionHash
  principal := ask.principal
  subject := ⟨ask.subjectKind, ask.agentId⟩
  turnId := ask.turnId.getD ask.callId
  taskId := taskKeyOf ask.taskId ask.sessionId
  sessionId := ask.sessionId.getD "-"

def isLineTerminator (c : Char) : Bool := c == '\n' || c == '\r' || c.toNat == 0x2028 || c.toNat == 0x2029

def isDrive : List Char → Bool
  | [d, ':'] => isAsciiLetter d
  | _ => false

/-- The directory of a canonical path: what stands before the last separator of
either kind, unless it is empty or a bare drive. -/
def parentOf (p : String) : Option String :=
  let rev := p.toList.reverse
  let name := rev.takeWhile (fun c => !isSep false c)
  match rev.dropWhile (fun c => !isSep false c) with
  | [] => none
  | _ :: dirRev =>
    let dir := dirRev.reverse
    if name.isEmpty || dir.any isLineTerminator || dir.isEmpty || isDrive dir then none
    else some (String.ofList dir)

def riskName : Risk → String
  | .low => "low"
  | .medium => "medium"
  | .high => "high"
  | .critical => "critical"

/-- What the harness computed about a request; chained with it. -/
structure RequestDetail where
  codeRoot : Bool
  effect : String
  risk : String
  flags : CallFlags
  grantOptions : List GrantScope
  targets : List String
  targetsMasked : Bool
  access : Option Access
  taskId : Option String
  sessionId : Option String
  projectId : Option String
  deriving DecidableEq, Repr

def flagFields (f : CallFlags) : List (String × Bool) :=
  [("outsideRoots", f.outsideRoots), ("denyListHit", f.denyListHit), ("privileged", f.privileged),
    ("irreversible", f.irreversible), ("batch", f.batch), ("shellAllowlisted", f.shellAllowlisted),
    ("sandboxed", f.sandboxed), ("secretSlotDeclared", f.secretSlotDeclared),
    ("publishPublic", f.publishPublic), ("systemTree", f.systemTree)]

def flagsJson (f : CallFlags) : Json := .obj ((flagFields f).map (fun p => (p.1, .bool p.2)))

def optionJson (o : GrantOption) : Json :=
  .obj [("scope", .str (scopeName o.scope)), ("requiredSurface", .num o.requiredSurface.val)]

def maskedTargets (redact : String → String) (ask : ApprovalAsk) : List String :=
  ((ask.targets.getD []).take MAX_TARGETS).map redact

def targetsMasked (redact : String → String) (ask : ApprovalAsk) : Bool :=
  let all := ask.targets.getD []
  decide (maskedTargets redact ask ≠ all.take MAX_TARGETS) || decide (all.length > MAX_TARGETS)

def detailOf (redact : String → String) (ask : ApprovalAsk) : Json :=
  let req := ask.request
  .obj ([("tool", .str req.tool), ("effect", .str req.effect.name), ("risk", .str (riskName req.risk)),
    ("reversible", .bool req.reversible), ("flags", flagsJson req.flags)] ++
    Json.optional "origin" (if ask.codeRoot then some (.str "code-session-root") else none) ++
    [("requiredSurface", .num req.requiredSurface.val), ("originSurface", .num req.originSurface.val),
      ("grantOptions", .arr (req.grantOptions.map optionJson)), ("tainted", .bool req.tainted),
      ("taintSuspended", .bool req.taintSuspended), ("agentId", .str ask.agentId),
      ("callId", .str ask.callId), ("targets", .arr ((maskedTargets redact ask).map .str)),
      ("targetsMasked", .bool (targetsMasked redact ask)),
      ("targetsTotal", .num (ask.targets.getD []).length)] ++
    Json.optional "access" (ask.access.map (fun a => .str (accessName a))) ++ ask.shown ++
    Json.optional "taskId" (ask.taskId.map .str) ++
    Json.optional "sessionId" (ask.sessionId.map .str) ++
    Json.optional "projectId" (ask.projectId.map .str))

/-! ### Reading a detail back -/

def flagsOf (v : Json) : CallFlags :=
  let flag := fun name => decide (v.get name = some (.bool true))
  { outsideRoots := flag "outsideRoots"
    denyListHit := flag "denyListHit"
    privileged := flag "privileged"
    irreversible := flag "irreversible"
    batch := flag "batch"
    shellAllowlisted := flag "shellAllowlisted"
    sandboxed := flag "sandboxed"
    secretSlotDeclared := flag "secretSlotDeclared"
    publishPublic := flag "publishPublic"
    systemTree := flag "systemTree" }

def scopeOfName (s : String) : Option GrantScope := GRANT_SCOPES.find? (fun g => scopeName g = s)

def accessOfName : String → Option Access
  | "read" => some .read
  | "write" => some .write
  | _ => none

def strField (v : Json) (name : String) : Option String := (v.get name).bind Json.asStr?

def strItems : Option Json → List String
  | some (.arr items) => items.filterMap Json.asStr?
  | _ => []

/-- The grant options' scopes, when the field is an array. -/
def optionScopes : Option Json → Option (List GrantScope)
  | some (.arr items) => some (items.filterMap (fun o => (strField o "scope").bind scopeOfName))
  | _ => none

def isCodeRoot (detail : Option Json) : Bool :=
  detail.any (fun v => strField v "origin" = some "code-session-root")

/-- The detail as a decision reads it: nothing without a risk and flags. -/
def readDetail (v : Json) : Option RequestDetail :=
  match strField v "risk", v.get "flags" with
  | some risk, some flags =>
    some
      { codeRoot := isCodeRoot (some v)
        effect := (strField v "effect").getD ""
        risk := risk
        flags := flagsOf flags
        grantOptions := (optionScopes (v.get "grantOptions")).getD []
        targets := strItems (v.get "targets")
        targetsMasked := v.get "targetsMasked" = some (.bool true)
        access := (strField v "access").bind accessOfName
        taskId := strField v "taskId"
        sessionId := strField v "sessionId"
        projectId := strField v "projectId" }
  | _, _ => none

/-! ### Requests -/

/-- An audit line about something already refused: never turns a refusal into a
failure. -/
def recSoft (env : Env) : Op Unit := Prog.tryCatch (record env) (fun _ => pure ())

def integrityFailure (env : Env) (e : Exn) : Op Unit :=
  match e with
  | .chain _ => recSoft env
  | _ => pure ()

/-- Stores a request: the synchronous part of `request`, which answers nothing
when the run is headless or the store refuses. -/
def request (env : Env) (ttl : ℤ) (redact : String → String) (ask : ApprovalAsk) : Op (Option Issued) :=
  if ask.park then do
    recSoft env
    pure none
  else
    Prog.tryCatch
      (transaction env do
        let made ← ApprovalStore.request env ttl
          { toBound := bindingOf ask, capability := ask.request.capability,
            detail := some (detailOf redact ask) }
        record env
        pure (some made))
      (fun e => do
        integrityFailure env e
        pure none)

/-! ### Decisions -/

structure ServiceDecideInput where
  requestId : String
  decision : Verdict
  person : String
  surface : SurfaceTrust
  scope : GrantScope := .once
  delegable : Bool := false
  acknowledgedUnsandboxed : Bool := false
  attestedVia : Option String := none
  /-- What the session behind a code folder request answers when it is asked. -/
  codeRootActive : Bool := false
  deriving DecidableEq, Repr

inductive ServiceDenial
  | store (d : ApprovalDenial)
  | scopeUnavailable
  deriving DecidableEq, Repr

structure Decided where
  status : ApprovalStatus
  scope : GrantScope
  grantIds : List String
  deriving DecidableEq, Repr

def grantBase (r : ApprovalStore.ApprovalRecord) (d : RequestDetail) (input : ServiceDecideInput)
    (scope : GrantScope) («match» : GrantMatch) : CreateGrantInput where
  capability := r.capability
  person := r.principal
  agent := r.subjectId
  scope := scope
  «match» := «match»
  createdBy := input.person
  surface := input.surface
  effect := some d.effect
  taskId := d.taskId
  sessionId := d.sessionId
  projectId := d.projectId
  delegable := input.delegable
  acknowledgedUnsandboxed := input.acknowledgedUnsandboxed
  attestedVia := input.attestedVia

/-- The two grants of a code folder request. -/
def codeRootGrants (r : ApprovalStore.ApprovalRecord) (d : RequestDetail)
    (input : ServiceDecideInput) (root : String) : List CreateGrantInput :=
  [{ grantBase r d input .session (.path root .write true) with
      capability := "fs.write", effect := some "local-write", delegable := false },
    { grantBase r d input .session (.path root .read true) with
      capability := "fs.read", effect := some "read", delegable := false }]

/-- Which grants an approval at this scope gives, before the store has checked
them. A wider scope is narrowed to the directories of the call's own targets. -/
def grantsFor (env : Env) (r : ApprovalStore.ApprovalRecord) (d : RequestDetail)
    (input : ServiceDecideInput) (scope : GrantScope) : Except Exn (List CreateGrantInput) :=
  if d.codeRoot then
    match d.targets with
    | [root] =>
      if scope ≠ .session ∨ input.delegable ∨ d.targetsMasked ∨ d.access ≠ some .write ∨
          env.reachesSystemTree root true then
        bad .invalidGrant "code folder grants are exact, non-delegable and session-only"
      else .ok (codeRootGrants r d input root)
    | _ => bad .invalidGrant "code folder grants are exact, non-delegable and session-only"
  else if scope = .once then
    .ok [{ grantBase r d input .once .action with actionHash := some r.actionHash }]
  else if scope = .task ∧ d.taskId.isNone then
    bad .invalidGrant "a task grant needs a task id"
  else if scope = .session ∧ d.sessionId.isNone then
    bad .invalidGrant "a session grant needs a session id"
  else if d.targets.isEmpty then .ok [grantBase r d input scope .capability]
  else if d.targetsMasked then
    bad .invalidGrant "the targets were masked or truncated; only a once grant is possible"
  else
    let access := d.access.getD (if d.effect = "read" then .read else .write)
    -- in the order of the first target of each directory
    match (d.targets.mapM parentOf).map (fun dirs => dirs.reverse.dedup.reverse) with
    | none => bad .invalidGrant "a target has no directory to grant"
    | some dirs => .ok (dirs.map (fun dir => grantBase r d input scope (.path dir access false)))

/-- A capability that takes no standing grant is still approvable for this one
call. -/
def tolerateCeiling (scope : GrantScope) (codeRoot : Bool) (e : Exn) : Op (List String) :=
  match e with
  | .grant .ceilingExceeded _ =>
    if scope = .once ∧ !codeRoot then pure [] else Prog.throw e
  | e => Prog.throw e

def createGrants (env : Env) (r : ApprovalStore.ApprovalRecord) (d : RequestDetail)
    (input : ServiceDecideInput) (scope : GrantScope) : Op (List String) := do
  let inputs ← Prog.ofExcept (grantsFor env r d input scope)
  Prog.tryCatch
    (Prog.traverse (fun i => do
      let g ← create env i
      pure g.id) inputs)
    (tolerateCeiling scope d.codeRoot)

def riskIs (risk : String) : Risk :=
  match ([Risk.low, .medium, .high, .critical].find? (fun r => riskName r = risk)) with
  | some r => r
  | none => .critical

/-- The checks of an approval before anything is written. -/
def refuseApproval (r : ApprovalStore.ApprovalRecord) (input : ServiceDecideInput) :
    Except ServiceDenial RequestDetail :=
  if isCodeRoot r.detail ∧ (input.scope ≠ .session ∨ input.delegable) then
    .error .scopeUnavailable
  else if isCodeRoot r.detail ∧ !input.codeRootActive then .error (.store .mismatch)
  else
    match capabilityOf r.capability, r.detail.bind readDetail with
    | some c, some d =>
      if input.scope ∉ d.grantOptions then .error .scopeUnavailable
      else if input.surface = 0 then .error (.store .surfaceUntrusted)
      else if scopeRank input.scope > scopeRank (maxScopeFor c d.flags) then
        .error .scopeUnavailable
      else if !surfaceMayDecide r.capability (riskIs d.risk) d.flags input.surface input.scope then
        .error (.store .surfaceUntrusted)
      else .ok d
    | _, _ => .error (.store .surfaceUntrusted)

def refuse {α : Type} (env : Env) (reason : ServiceDenial) : Op (Except ServiceDenial α) := do
  recSoft env
  pure (.error reason)

/-- A denial gives no grants. -/
def givenGrants (env : Env) (r : ApprovalStore.ApprovalRecord) (d : Option RequestDetail)
    (input : ServiceDecideInput) : Op (List String) :=
  match input.decision, d with
  | .approve, some d => createGrants env r d input input.scope
  | _, _ => pure []

/-- The transaction of a decision: the decision, its grants and the audit line. -/
def decideTx (env : Env) (r : ApprovalStore.ApprovalRecord) (d : Option RequestDetail)
    (input : ServiceDecideInput) (nonce : String) :
    Op (ApprovalResult (ApprovalStatus × List String)) :=
  transaction env do
    let res ← ApprovalStore.decide env
      { requestId := input.requestId, nonce := nonce, decision := input.decision,
        person := input.person, surface := input.surface, delegable := input.delegable }
    match res with
    | .error reason => pure (.error reason)
    | .ok status => do
      let grantIds ← givenGrants env r d input
      record env
      pure (.ok (status, grantIds))

/-- What the rest of the decision reads once it stands: the request and the new
grants, for the listeners. -/
def announce (env : Env) (requestId : String) (grantIds : List String) : Op Unit := do
  let _ ← Prog.tryCatch (ApprovalStore.get env requestId) (fun _ => pure none)
  let _ ← Prog.traverse (fun gid => Grants.get env gid) grantIds
  pure ()

def decideChecked (env : Env) (r : ApprovalStore.ApprovalRecord) (d : Option RequestDetail)
    (input : ServiceDecideInput) (nonce : String) : Op (Except ServiceDenial Decided) := do
  let out ← Prog.tryCatch
    (do
      let res ← decideTx env r d input nonce
      pure (res.mapError ServiceDenial.store))
    (fun e =>
      match e with
      | .grant .surfaceTooLow _ => pure (.error (.store .surfaceUntrusted))
      | .grant _ _ => pure (.error .scopeUnavailable)
      | e => do
        integrityFailure env e
        Prog.throw e)
  match out with
  | .error reason => refuse env reason
  | .ok (status, grantIds) => do
    announce env input.requestId grantIds
    pure (.ok ⟨status, input.scope, grantIds⟩)

def decideCore (env : Env) (input : ServiceDecideInput) (nonce : String) :
    Op (Except ServiceDenial Decided) := do
  let r ← Prog.tryCatch (ApprovalStore.get env input.requestId) (fun e => do
    integrityFailure env e
    Prog.throw e)
  match r with
  | none => refuse env (.store .mismatch)
  | some r =>
    if r.principal ≠ input.person then refuse env (.store .mismatch)
    else
      match input.decision with
      | .deny => decideChecked env r none input nonce
      | .approve =>
        match refuseApproval r input with
        | .error reason => refuse env reason
        | .ok d => decideChecked env r (some d) input nonce

/-- For an authenticated surface: the nonce stays inside the core. -/
def decideForSession (env : Env) (input : ServiceDecideInput) : Op (Except ServiceDenial Decided) := do
  let nonce ← Prog.gets (fun s =>
    ((s.db.approvals.find? (fun r => r.id = input.requestId)).map (·.nonce)).getD "")
  decideCore env input nonce

/-! ### Execution start -/

structure ApprovalAnswer where
  approved : Bool
  requestId : Option String := none
  grantIds : List String := []
  deriving DecidableEq, Repr

/-- One grant of the answer: known, of this person and agent, and consumed or
marked. -/
def beginGrant (env : Env) (ask : ApprovalAsk) (gid : String) : Op Unit := do
  match (← Grants.get env gid) with
  | none => Prog.throw (.refused "grant-mismatch")
  | some g =>
    if g.person ≠ ask.principal ∨ g.agent ≠ ask.agentId then
      Prog.throw (.refused "grant-mismatch")
    else if g.scope = .once then do
      if (← consumeOnce env gid ⟨ask.principal, ask.agentId, ask.request.actionHash⟩) then pure ()
      else Prog.throw (.refused "grant-used")
    else markUsed env gid

def denialCode : ApprovalDenial → String
  | .mismatch => "approval-mismatch"
  | .used => "approval-used"
  | .expired => "approval-expired"
  | .surfaceUntrusted => "surface-untrusted"

def beginTx (env : Env) (ask : ApprovalAsk) (requestId : String) (grantIds : List String) : Op Bool :=
  transaction env do
    match (← ApprovalStore.consume env { toBound := bindingOf ask, requestId := requestId }) with
    | .error reason => Prog.throw (.refused (denialCode reason))
    | .ok _ => do
      let _ ← Prog.traverse (beginGrant env ask) grantIds
      record env
      pure true

/-- The execution start of an approved answer: the approval and its once grant
are consumed together. -/
def begin (env : Env) (answer : ApprovalAnswer) (ask : ApprovalAsk) : Op Bool :=
  match answer.approved, answer.requestId with
  | true, some requestId =>
    Prog.tryCatch (beginTx env ask requestId answer.grantIds) fun e => do
      integrityFailure env e
      recSoft env
      pure false
  | _, _ => pure false

end Plur1bus.Approvals
