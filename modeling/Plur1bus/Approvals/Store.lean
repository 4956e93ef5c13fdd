import Plur1bus.Approvals.Connection

/-!
The approval store. A request is bound to its action hash, principal, subject
and turn, task and session, and to a one-time nonce; a decision is a chain
entry; `consume` is single-use. The chain is the authority: every guard below
reads the verified snapshot, and the `approvals` table is only written.
-/

namespace Plur1bus.Approvals

open Program Policy

/-! ### Bindings -/

def subjectKindName : SubjectKind → String
  | .agent => "agent"
  | .subagent => "subagent"
  | .acpAgent => "acp-agent"
  | .mcpClient => "mcp-client"
  | .acpEditor => "acp-editor"
  | .a2aPeer => "a2a-peer"
  | .remoteHarness => "remote-harness"

structure ApprovalSubject where
  kind : SubjectKind
  id : String
  deriving DecidableEq, Repr

/-- An `ApprovalBinding` without its request id. -/
structure Bound where
  actionHash : String
  principal : String
  subject : ApprovalSubject
  turnId : String
  taskId : String
  sessionId : String
  deriving DecidableEq, Repr

def Bound.tuple (b : Bound) : List String :=
  [b.actionHash, b.principal, subjectKindName b.subject.kind, b.subject.id, b.turnId, b.taskId, b.sessionId]

def Bound.json (b : Bound) : Json :=
  .obj [("actionHash", .str b.actionHash), ("principal", .str b.principal),
    ("subject", .obj [("kind", .str (subjectKindName b.subject.kind)), ("id", .str b.subject.id)]),
    ("turnId", .str b.turnId), ("taskId", .str b.taskId), ("sessionId", .str b.sessionId)]

structure ApprovalBinding extends Bound where
  requestId : String
  deriving DecidableEq, Repr

/-! ### Answers -/

inductive ApprovalDenial | mismatch | used | expired | surfaceUntrusted
  deriving DecidableEq, Repr

/-- `ok: true` with its fields, or `ok: false` with a reason. Neither throws. -/
abbrev ApprovalResult (α : Type) := Except ApprovalDenial α

structure RequestInput extends Bound where
  capability : String
  detail : Option Json := none
  deriving DecidableEq, Repr

structure Issued where
  id : String
  nonce : String
  expiresAt : ℤ
  deriving DecidableEq, Repr

inductive Verdict | approve | deny
  deriving DecidableEq, Repr

def Verdict.json : Verdict → Json
  | .approve => Approvals.approve
  | .deny => Approvals.deny

def Verdict.status : Verdict → ApprovalStatus
  | .approve => .approved
  | .deny => .denied

structure DecideInput where
  requestId : String
  nonce : String
  decision : Verdict
  person : String
  surface : SurfaceTrust
  delegable : Bool := false
  deriving DecidableEq, Repr

/-! ### Texts -/

/-- The length of a character inside a JSON string, in UTF-16 units. -/
def jsonCharLength (c : Char) : ℕ :=
  if c = '"' ∨ c = '\\' ∨ c = '\n' ∨ c = '\r' ∨ c = '\t' ∨ c.toNat = 8 ∨ c.toNat = 12 then 2
  else if c.toNat < 0x20 then 6
  else if c.toNat < 0x10000 then 1
  else 2

def jsonStringLength (s : String) : ℕ := (s.toList.map jsonCharLength).sum + 2

mutual

/-- `JSON.stringify(v).length`. -/
def jsonLength : Json → ℕ
  | .null => 4
  | .bool b => if b then 4 else 5
  | .num n => (toString n).length
  | .str s => jsonStringLength s
  | .arr items => 2 + (items.length - 1) + itemsLength items
  | .obj fields => 2 + (fields.length - 1) + fieldsLength fields

def itemsLength : List Json → ℕ
  | [] => 0
  | v :: rest => jsonLength v + itemsLength rest

def fieldsLength : List (String × Json) → ℕ
  | [] => 0
  | (k, v) :: rest => jsonStringLength k + 1 + jsonLength v + fieldsLength rest

end

def MAX_DETAIL_BYTES : ℕ := 16 * 1024

/-- Parked up to 24 h, then expired. -/
def DEFAULT_REQUEST_TTL_MS : ℤ := 24 * 60 * 60000

/-! ### Reading the chain -/

/-- The verified snapshot, or a thrown integrity error. -/
def trusted (env : Env) : Op ChainSnapshot := do
  let snap ← snapshot env
  match snap.result with
  | .broken b => Prog.throw (.chain b)
  | .ok .. => pure snap

def find (list : List ChainEntry) (kind : Kind) : Option ChainEntry := list.find? (fun e => e.kind = kind)

def parse (e : ChainEntry) : Op Json :=
  match e.payload.parsed with
  | none => Prog.throw (.type "payload is not JSON")
  | some p => pure p

/-- `now >= Number(rp.expiresAt)`; a comparison with anything that is not a
number is false. -/
def pastExpiry (now : ℤ) (rp : Json) : Bool :=
  ((rp.get "expiresAt").bind Json.asNum?).any (fun t => decide (t ≤ now))

/-- Projection only: nothing is decided from it. -/
def Db.setStatus (db : Db) (id : String) (status : ApprovalStatus) : Db :=
  let rows := db.approvals.map (fun r => if r.id = id then { r with status := status } else r)
  { db with approvals := rows }

def setStatus (env : Env) (id : String) (status : ApprovalStatus) : Op Unit :=
  exec env (fun _ => true) (·.setStatus id status)

/-! ### The operations -/

namespace ApprovalStore

def requestPayload (input : RequestInput) (expiresAt : ℤ) : Json :=
  .obj ([("capability", .str input.capability), ("expiresAt", .num expiresAt),
    ("bound", input.toBound.json)] ++ Json.optional "detail" input.detail)

def decidePayload (d : DecideInput) (delegable : Bool) (bound : Json) : Json :=
  .obj [("decision", d.decision.json), ("person", .str d.person),
    ("surface", .num d.surface.val), ("delegable", .bool delegable), ("bound", bound)]

def cancelPayload (by' : String) (bound : Option Json) : Json :=
  .obj ([("by", .str by')] ++ Json.optional "bound" bound)

def consumePayload (bound : Option Json) : Json := .obj (Json.optional "bound" bound)

def requestRun (env : Env) (ttl : ℤ) (input : RequestInput) (id nonce : String) : Op Issued := do
  let _ ← trusted env
  let now ← now env
  let expiresAt := now + ttl
  let _ ← append env .requested id (requestPayload input expiresAt) (some nonce)
  exec env (fun db => db.approvals.all (fun r => r.id ≠ id && r.nonce ≠ nonce))
    (fun db => { db with approvals := db.approvals ++ [⟨id, nonce, .pending⟩] })
  pure ⟨id, nonce, expiresAt⟩

/-- Issues a request with a one-time nonce. -/
def request (env : Env) (ttl : ℤ) (input : RequestInput) : Op Issued := do
  let id := "apr_" ++ (← randomBytes env)
  let nonce ← randomBytes env
  if (bindingTuple (some input.toBound.json)).isNone then
    Prog.throw (.type
      "approval request needs actionHash, principal, subject, turnId, taskId and sessionId")
  else if input.detail.any (fun d => decide (jsonLength d > MAX_DETAIL_BYTES)) then
    Prog.throw (.type "approval request detail is too large")
  else transaction env (requestRun env ttl input id nonce)

def decideRun (env : Env) (d : DecideInput) : Op (ApprovalResult ApprovalStatus) := do
  let list := (← trusted env).byRef d.requestId
  match find list .requested with
  | none => pure (.error .mismatch)
  | some req =>
    let rp ← parse req
    match rp.get "bound" with
    | none => Prog.throw (.type "Cannot read properties of undefined (reading 'principal')")
    | some bound =>
      if bound.get "principal" ≠ some (.str d.person) then pure (.error .mismatch)
      else if req.nonce ≠ some d.nonce then pure (.error .mismatch)
      else if (find list .decided).isSome then pure (.error .used)
      else if (find list .cancelled).isSome then pure (.error .expired)
      else do
        let now ← now env
        if pastExpiry now rp then pure (.error .expired)
        else do
          let delegable := d.delegable && d.decision = .approve
          let _ ← append env .decided d.requestId (decidePayload d delegable bound) (some d.nonce)
          setStatus env d.requestId d.decision.status
          pure (.ok d.decision.status)

def decide (env : Env) (d : DecideInput) : Op (ApprovalResult ApprovalStatus) :=
  if d.surface = 0 then pure (.error .surfaceUntrusted) else transaction env (decideRun env d)

def cancelRun (env : Env) (id by' : String) : Op (ApprovalResult Unit) := do
  let list := (← trusted env).byRef id
  match find list .requested with
  | none => pure (.error .mismatch)
  | some req =>
    let rp ← parse req
    if (find list .decided).isSome ∨ (find list .cancelled).isSome then pure (.error .used)
    else do
      let now ← now env
      if pastExpiry now rp then pure (.error .expired)
      else do
        let _ ← append env .cancelled id (cancelPayload by' (rp.get "bound"))
        setStatus env id .cancelled
        pure (.ok ())

/-- Closes a pending request without a decision. -/
def cancel (env : Env) (id by' : String) : Op (ApprovalResult Unit) :=
  transaction env (cancelRun env id by')

def consumeRun (env : Env) (b : ApprovalBinding) : Op (ApprovalResult Bool) := do
  let list := (← trusted env).byRef b.requestId
  match find list .requested, find list .decided, bindingTuple (some b.toBound.json) with
  | some req, some dec, some tuple =>
    let rp ← parse req
    let dp ← parse dec
    if dp.get "decision" ≠ some Approvals.approve ∨ bindingTuple (rp.get "bound") ≠ some tuple then
      pure (.error .mismatch)
    else if (find list .used).isSome then pure (.error .used)
    else do
      let now ← now env
      if pastExpiry now rp then pure (.error .expired)
      else do
        let _ ← append env .used b.requestId (consumePayload (rp.get "bound"))
        setStatus env b.requestId .used
        pure (.ok (dp.get "delegable" = some (.bool true)))
  | _, _, _ => pure (.error .mismatch)

/-- Atomic single use; answers whether the approval was delegable. -/
def consume (env : Env) (b : ApprovalBinding) : Op (ApprovalResult Bool) :=
  transaction env (consumeRun env b)

/-- What the store tells about a request. -/
structure ApprovalRecord where
  id : String
  status : ApprovalStatus
  capability : String
  /-- The seven strings of the binding, in the order of `bindingTuple`. -/
  bound : List String
  createdAt : ℤ
  expiresAt : Option ℤ
  delegable : Bool
  detail : Option Json
  deriving DecidableEq, Repr

def ApprovalRecord.actionHash (r : ApprovalRecord) : String := r.bound.getD 0 ""

def ApprovalRecord.principal (r : ApprovalRecord) : String := r.bound.getD 1 ""

def ApprovalRecord.subjectId (r : ApprovalRecord) : String := r.bound.getD 3 ""

def recordStatus (list : List ChainEntry) (dp : Option Json) (rp : Json) (now : ℤ) : ApprovalStatus :=
  if (find list .used).isSome then .used
  else if (find list .cancelled).isSome then .cancelled
  else
    match dp with
    | some p =>
      if p.get "decision" = some Approvals.approve then
        if pastExpiry now rp then .expired else .approved
      else .denied
    | none => if pastExpiry now rp then .expired else .pending

def get (env : Env) (id : String) : Op (Option ApprovalRecord) := do
  let list := (← trusted env).byRef id
  let now ← now env
  match find list .requested with
  | none => pure none
  | some req =>
    let rp ← parse req
    let dp := (find list .decided).bind (·.payload.parsed)
    match bindingTuple (rp.get "bound") with
    | none => Prog.throw (.type "Cannot read properties of undefined (reading 'principal')")
    | some bound =>
      pure (some
        { id := id
          status := recordStatus list dp rp now
          capability := ((rp.get "capability").bind Json.asStr?).getD "undefined"
          bound := bound
          createdAt := req.ts
          expiresAt := (rp.get "expiresAt").bind Json.asNum?
          delegable := dp.bind (·.get "delegable") = some (.bool true)
          detail := (rp.get "detail").filter (·.isObject) })

end ApprovalStore

end Plur1bus.Approvals
