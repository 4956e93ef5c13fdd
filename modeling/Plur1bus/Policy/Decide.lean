import Plur1bus.Policy.Capabilities

/-!
The decision evaluator. It is pure: grants arrive through a `GrantSource`,
time through one clock reading, and the case folding of names through `canon`,
which no rule below looks into. A reading of `none` is a clock that did not
answer a finite number.

Precedence, first match wins: deny-list, never, `tools.deny`, subject limits,
class and floors, grants, fatigue guards, ask.
-/

namespace Plur1bus.Policy

/-! ### Calls and contexts -/

inductive SubjectKind
  | agent | subagent | acpAgent | mcpClient | acpEditor | a2aPeer | remoteHarness
  deriving DecidableEq, Repr

inductive Access | read | write
  deriving DecidableEq, Repr

/-- Flags the harness computes per call. An absent optional flag and `false`
are read alike everywhere, so both are `false` here. -/
structure CallFlags where
  outsideRoots : Bool
  denyListHit : Bool
  privileged : Bool := false
  irreversible : Bool := false
  batch : Bool := false
  shellAllowlisted : Bool := false
  sandboxed : Bool := false
  secretSlotDeclared : Bool := false
  publishPublic : Bool := false
  systemTree : Bool := false
  deriving DecidableEq, Repr

structure Call where
  capability : String
  tool : String
  /-- The declared effect as it arrives: any string, or none. -/
  effect : Option String := none
  flags : CallFlags
  targets : Option (List String) := none
  access : Option Access := none
  actionHash : String
  deriving DecidableEq, Repr

inductive Override | allowed | approval
  deriving DecidableEq, Repr

/-- `tools.deny` as it arrives. An entry is `none` when it is not a string. -/
inductive DenyList
  | notArray
  | entries (list : List (Option String))
  deriving DecidableEq, Repr

structure Taint where
  tainted : Bool
  readPrivate : Bool
  deriving DecidableEq, Repr

structure Handoff where
  scope : List String
  taskId : String
  approvalsHeld : List String
  deriving DecidableEq, Repr

structure Subject where
  kind : SubjectKind
  agentId : String
  deriving DecidableEq, Repr

structure Context where
  person : String
  subject : Subject
  surface : SurfaceTrust
  sessionId : Option String := none
  taskId : Option String := none
  projectId : Option String := none
  /-- The job id of a headless run. -/
  headless : Option String := none
  toolsDeny : Option DenyList := none
  overrides : List (String × Override) := []
  taint : Option Taint := none
  handoff : Option Handoff := none
  tokenScopes : Option (List String) := none
  deniedActionHashes : Option (List String) := none
  promptsThisHour : Option ℤ := none
  deriving DecidableEq, Repr

def Context.tainted (ctx : Context) : Bool := ctx.taint.any Taint.tainted

def Context.readPrivate (ctx : Context) : Bool := ctx.taint.any Taint.readPrivate

/-! ### Grants -/

inductive GrantMatch
  | action
  | capability
  | path (path : String) (access : Access) (recursive : Bool)
  deriving DecidableEq, Repr

structure Grant where
  id : String
  capability : String
  person : String
  agent : String
  scope : GrantScope
  «match» : GrantMatch
  createdAt : ℤ
  lastUsedAt : Option ℤ := none
  expiresAt : Option ℤ := none
  revoked : Bool := false
  consumedAt : Option ℤ := none
  actionHash : Option String := none
  taskId : Option String := none
  sessionId : Option String := none
  projectId : Option String := none
  jobId : Option String := none
  delegable : Bool := false
  surface : SurfaceTrust
  acknowledgedUnsandboxed : Bool := false
  deriving DecidableEq, Repr

structure GrantQuery where
  person : String
  agent : String
  capability : String
  deriving DecidableEq, Repr

/-- A source of grants. `list` answers its query: it yields grants of the
person, agent and capability it was asked for. -/
structure GrantSource where
  maxGrantDays : Option ℤ := none
  list : GrantQuery → List Grant
  get : String → Option Grant
  list_query : ∀ q, ∀ g ∈ list q, g.person = q.person ∧ g.agent = q.agent ∧ g.capability = q.capability

structure Deps where
  grants : GrantSource
  /-- The clock's reading, when it is a finite number. -/
  now : Option ℤ

/-! ### Decisions -/

inductive DenyReason | policyNever | denyList | surfaceUntrusted | repeatDenied | promptCap
  deriving DecidableEq, Repr

structure GrantOption where
  scope : GrantScope
  requiredSurface : SurfaceTrust
  deriving DecidableEq, Repr

structure ApprovalRequest where
  capability : String
  tool : String
  effect : Effect
  flags : CallFlags
  risk : Risk
  reversible : Bool
  actionHash : String
  grantOptions : List GrantOption
  requiredSurface : SurfaceTrust
  tainted : Bool
  taintSuspended : Bool
  originSurface : SurfaceTrust
  deriving DecidableEq, Repr

inductive Via | default | override | grant
  deriving DecidableEq, Repr

inductive Decision
  | allow (via : Via) (grantId : Option String) (reviewDue : Bool)
  | ask (request : ApprovalRequest) (park : Bool) (why : String)
  | deny (reason : DenyReason) (rule : String)
  deriving DecidableEq, Repr

def Decision.isAllow : Decision → Bool
  | .allow .. => true
  | _ => false

/-! ### `tools.deny` -/

section Glob

variable {α : Type} [DecidableEq α]

/-- The loop of `globMatch`: `p` and `n` are the positions in the pattern and
the name, `last` the position of the last star and `mark` the name position it
was last matched up to. Answers the pattern position when the name is used up,
`none` on a mismatch no star can absorb. -/
def globLoop (star : α) (pattern name : List α) (p n : ℕ) (last : Option ℕ) (mark : ℕ)
    (h : mark ≤ n) : Option ℕ :=
  if hn : n < name.length then
    if hp : p < pattern.length then
      if pattern[p] = star then
        globLoop star pattern name (p + 1) n (some p) n le_rfl
      else if pattern[p] = name[n] then
        globLoop star pattern name (p + 1) (n + 1) last mark (Nat.le_succ_of_le h)
      else
        match last with
        | some s => globLoop star pattern name (s + 1) (mark + 1) (some s) (mark + 1) le_rfl
        | none => none
    else
      match last with
      | some s => globLoop star pattern name (s + 1) (mark + 1) (some s) (mark + 1) le_rfl
      | none => none
  else some p
termination_by (name.length - mark, pattern.length - p)
decreasing_by
  · by_cases hm : mark = n
    · subst hm
      exact Prod.Lex.right _ (by omega)
    · exact Prod.Lex.left _ _ (by omega)
  · exact Prod.Lex.right _ (by omega)
  · exact Prod.Lex.left _ _ (by omega)
  · exact Prod.Lex.left _ _ (by omega)

/-- A star matches any run, everything else is literal. -/
def globMatch (star : α) (pattern name : List α) : Bool :=
  match globLoop star pattern name 0 0 none 0 le_rfl with
  | some p => (pattern.drop p).all (· = star)
  | none => false

end Glob

def globHit (pattern name : String) : Bool := globMatch '*' pattern.toList name.toList

section Evaluator

variable (canon : String → String)

/-- What the fold over `tools.deny` finds: an unreadable list or entry, a hit,
or nothing. -/
inductive DenyMatch | invalid | hit | miss
  deriving DecidableEq, Repr

def matchesEntries (names : List String) : List (Option String) → Bool → DenyMatch
  | [], hit => if hit then .hit else .miss
  | none :: _, _ => .invalid
  | some entry :: rest, hit =>
      if (canon entry).isEmpty then .invalid
      else matchesEntries names rest (hit || names.any (globHit (canon entry)))

def matchesDeny (list : DenyList) (call : Call) (capability : String) : DenyMatch :=
  match list with
  | .notArray => .invalid
  | .entries l => matchesEntries canon [canon call.tool, capability] l false

/-! ### Shape checks

The checks a typed value can still fail. -/

def nonEmpty (s : String) : Bool := !s.isEmpty

def malformed (ctx : Context) : Option String :=
  if !nonEmpty ctx.person || !nonEmpty ctx.subject.agentId then some "invalid-context"
  else if ctx.headless.any (fun jobId => !nonEmpty jobId) then some "invalid-context"
  else if ctx.handoff.any (fun h => !nonEmpty h.taskId) then some "invalid-context"
  else none

def validGrant (g : Grant) : Bool :=
  nonEmpty g.id && nonEmpty g.capability && nonEmpty g.person && nonEmpty g.agent &&
    match g.match with
    | .action | .capability => true
    | .path p _ _ => nonEmpty p

/-! ### Scope, surface and risk -/

def isBatch (flags : CallFlags) (targets : Option (List String)) : Bool :=
  flags.batch || (targets.getD []).length > batchTargetsOver

/-- The lower of two scopes. -/
def capScope (max s : GrantScope) : GrantScope := if scopeRank s < scopeRank max then s else max

def maxScopeFor (d : CapabilityDef) (flags : CallFlags) : GrantScope :=
  let max := d.ceiling.getD .once
  let max := if isBatch flags none then capScope max .once else max
  let max := if flags.systemTree then capScope max .task else max
  if flags.publishPublic then capScope max .once else max

def riskScore (d : CapabilityDef) (flags : CallFlags) : ℕ :=
  let r := riskRank d.baseRisk
  let r := if flags.outsideRoots && effectRank d.intrinsicEffect ≥ effectRank .localWrite
    then r + 1 else r
  let r := if flags.irreversible then r + 1 else r
  let r := if flags.privileged then r + 1 else r
  if flags.publishPublic || flags.systemTree then 3 else r

def riskOf (d : CapabilityDef) (flags : CallFlags) : Risk := riskOfRank (min (riskScore d flags) 3)

def requiredSurface (d : CapabilityDef) (scope : GrantScope) (flags : CallFlags) : SurfaceTrust :=
  let s := max (d.minSurface.getD 1) (surfaceByRisk (riskOf d flags))
  let s := if scope == .always && flags.outsideRoots && (d.id == .fsWrite || d.id == .shellExec)
    then 3 else s
  let s := if scope == .always && (d.id == .netPublish || d.id == .remoteControl) then 3 else s
  if flags.publishPublic || flags.systemTree then 3 else s

def surfaceMayDecide (capability : String) (risk : Risk) (flags : CallFlags)
    (surface : SurfaceTrust) (scope : GrantScope) : Bool :=
  match capabilityOf capability with
  | none => false
  | some d =>
      if surface = 0 then false
      else if surface == 1 &&
          !(risk == .low && (d.id == .fsRead || d.id == .fsWrite || d.id == .clipboardRead)) then
        false
      else
        requiredSurface d scope flags ≤ surface && scopeRank scope ≤ scopeRank (maxScopeFor d flags)

/-- Expiry per scope: `session` and `always` run from the last use. -/
def grantExpiry (g : Grant) (maxGrantDays : ℤ) : ℤ := let bound := match g.scope with
    | .once => g.createdAt + onceUnusedMs
    | .task => g.createdAt + taskMs
    | .session => g.lastUsedAt.getD g.createdAt + sessionIdleMs
    | .always => g.lastUsedAt.getD g.createdAt + maxGrantDays * 24 * 60 * 60000
  match g.expiresAt with
  | none => bound
  | some e => min bound e

def grantReviewDue (g : Grant) (now : ℤ) : Bool :=
  g.scope == .always && now - g.createdAt ≥ reviewNudgeAgeMs

/-! ### Path coverage -/

def isSep (posix : Bool) (c : Char) : Bool := c == '/' || (!posix && c == '\\')

def isAsciiLetter (c : Char) : Bool := ('a' ≤ c && c ≤ 'z') || ('A' ≤ c && c ≤ 'Z')

/-- `ABS`: a leading slash, a drive with a separator, or a UNC prefix. -/
def isAbs : List Char → Bool
  | '/' :: _ => true
  | '\\' :: '\\' :: _ => true
  | d :: ':' :: c :: _ => isAsciiLetter d && isSep false c
  | _ => false

structure Segments where
  posix : Bool
  segs : List (List Char)
  deriving DecidableEq, Repr

def segments (p : String) : Option Segments :=
  let cs := p.toList
  if cs.isEmpty || cs.contains (Char.ofNat 0) || !isAbs cs then none
  else
    let posix := cs.head? == some '/'
    let segs := (cs.splitOnP (isSep posix)).filter (fun s => !s.isEmpty)
    if segs.any (fun s => s == ['.'] || s == ['.', '.']) then none else some ⟨posix, segs⟩

/-- Coverage of already canonical paths: every segment of the grant's path is
the target's, and without `recursive` the target is a direct child. -/
def pathCovered (grantPath : String) (recursive : Bool) (target : String) : Bool :=
  match segments grantPath, segments target with
  | some g, some t =>
      g.posix == t.posix && !g.segs.isEmpty && g.segs.isPrefixOf t.segs &&
        (recursive || t.segs.length == g.segs.length + 1)
  | _, _ => false

/-! ### The evaluator -/

def overrideFor (o : List (String × Override)) (id : String) : Option Override :=
  if o.any (fun e => canon e.1 == id && e.2 == .approval) then some .approval
  else if o.any (fun e => canon e.1 == id && e.2 == .allowed) then some .allowed
  else none

/-- The refusals that come before any class is computed: deny-list, never,
secret slot, `tools.deny` and the subject limits. -/
def refusal (call : Call) (ctx : Context) (d : CapabilityDef) : Option Decision :=
  if call.flags.denyListHit then some (.deny .denyList "deny-list")
  else if d.base.inside == .never then some (.deny .policyNever "never")
  else if d.id == .secretsUse && !call.flags.secretSlotDeclared then
    some (.deny .policyNever "never:secret-slot")
  else if ctx.toolsDeny.any (fun l => matchesDeny canon l call d.id.name == .invalid) then
    some (.deny .policyNever "tools.deny:invalid")
  else if ctx.toolsDeny.any (fun l => matchesDeny canon l call d.id.name == .hit) then
    some (.deny .policyNever "tools.deny")
  else if ctx.subject.kind == .a2aPeer then some (.deny .surfaceUntrusted "a2a-peer")
  else if ctx.tokenScopes.any (fun l => !l.any (fun c => canon c == d.id.name)) then
    some (.deny .policyNever "token-scope")
  else if ctx.subject.kind == .subagent &&
      !ctx.handoff.any (fun h => h.scope.any (fun c => canon c == d.id.name)) then
    some (.deny .policyNever "handoff-scope")
  else none

/-- The call's effect: declared or intrinsic, whichever ranks higher; a string
outside the vocabulary is money. -/
def effectOf (call : Call) (d : CapabilityDef) : Effect :=
  match call.effect with
  | none => d.intrinsicEffect
  | some s =>
      match isEffect s with
      | some e => maxEffect e d.intrinsicEffect
      | none => .money

def taintSuspends (ctx : Context) (d : CapabilityDef) (effect : Effect) : Bool :=
  ctx.tainted && ctx.readPrivate &&
    (d.taintSensitive || effect == .external || effect == .networkA2a)

/-- The class from roots and defaults. -/
def baseClass (d : CapabilityDef) (flags : CallFlags) : PolicyClass :=
  if d.id == .shellExec && flags.shellAllowlisted && !flags.outsideRoots && !flags.privileged then
    .allowed
  else if flags.outsideRoots then d.base.outside else d.base.inside

/-- The person's per-agent move of that class, with the way it came about. -/
def overriddenClass (ctx : Context) (d : CapabilityDef) (flags : CallFlags) : PolicyClass × Via :=
  let cls := baseClass d flags
  if d.lowerable then
    match overrideFor canon ctx.overrides d.id.name with
    | some .approval => (stricterClass cls .approval, .default)
    | some .allowed =>
        if cls == .approval && !flags.outsideRoots then (.allowed, .override) else (cls, .default)
    | none => (cls, .default)
  else (cls, .default)

def isFloored (flags : CallFlags) (effect : Effect) (batch : Bool) : Bool :=
  flags.privileged || flags.irreversible || batch ||
    effect == .money || effect == .external || effect == .networkA2a ||
    effect == .localDestructive ||
    (flags.outsideRoots && effectRank effect ≥ effectRank .localWrite)

/-- The class after the floors no override lowers. -/
def classFor (ctx : Context) (d : CapabilityDef) (flags : CallFlags) (effect : Effect)
    (batch : Bool) : PolicyClass :=
  let cls := (overriddenClass canon ctx d flags).1
  if isFloored flags effect batch then stricterClass cls .approval else cls

def ask (d : CapabilityDef) (call : Call) (ctx : Context) (effect : Effect)
    (taintSuspended : Bool) (why : String) : Decision :=
  let flags := call.flags
  let batch := isBatch flags call.targets
  let max := scopeRank (maxScopeFor d { flags with batch := batch })
  let options := (GRANT_SCOPES.filter (fun s => scopeRank s ≤ max)).map
    (fun scope => (⟨scope, requiredSurface d scope flags⟩ : GrantOption))
  .ask
    { capability := d.id.name
      tool := call.tool
      effect := effect
      flags := { flags with batch := flags.batch || batch }
      risk := riskOf d flags
      reversible := !flags.irreversible && effect != .localDestructive && effect != .money
      actionHash := call.actionHash
      grantOptions := options
      requiredSurface := requiredSurface d .once flags
      tainted := ctx.tainted
      taintSuspended := taintSuspended
      originSurface := ctx.surface }
    ctx.headless.isSome why

def candidateGrants (ctx : Context) (grants : GrantSource) (capability : String) : List Grant :=
  let own := grants.list ⟨ctx.person, ctx.subject.agentId, capability⟩
  let held := match ctx.subject.kind, ctx.handoff with
    | .subagent, some h =>
        (h.approvalsHeld.filterMap grants.get).filter
          (fun g => g.delegable && g.taskId == some h.taskId && g.person == ctx.person)
    | _, _ => []
  own ++ held

/-- Which standing grant matches the call, once its scope does. -/
def standingMatches (g : Grant) (d : CapabilityDef) (call : Call) (flags : CallFlags)
    (effect : Effect) (batch : Bool) : Bool :=
  if g.match == .action then false
  else if batch || flags.privileged || effect == .money then false
  else if d.id == .shellExec && !flags.sandboxed && !g.acknowledgedUnsandboxed then false
  else
    match g.match with
    | .action => false
    | .capability => !flags.outsideRoots
    | .path p access recursive =>
        match call.targets, call.access with
        | some targets, some callAccess =>
            if targets.isEmpty then false
            else if access == .read && callAccess == .write then false
            else targets.all (fun t => pathCovered p recursive t)
        | _, _ => false

/-- A headless run takes only the standing grants of its own job, any other run
only grants without a job. -/
def jobMismatch (g : Grant) (ctx : Context) : Bool :=
  match ctx.headless with
  | some jobId => g.jobId != some jobId || g.scope != .always
  | none => g.jobId.isSome

/-- Neither the subject's own grant nor one its hand-off holds. -/
def foreignAgent (g : Grant) (ctx : Context) : Bool := g.agent != ctx.subject.agentId &&
    !(ctx.subject.kind == .subagent && ctx.handoff.any (fun h => h.approvalsHeld.contains g.id))

/-- The task a `task` grant has to name. -/
def grantTask (g : Grant) (ctx : Context) : Option String :=
  if g.agent == ctx.subject.agentId then ctx.taskId else ctx.handoff.map Handoff.taskId

/-- The last part of `grantApplies`: what the grant's own scope asks for. -/
def scopeMatches (g : Grant) (d : CapabilityDef) (call : Call) (ctx : Context) (flags : CallFlags)
    (effect : Effect) (batch : Bool) : Bool :=
  match g.scope with
  | .once => g.consumedAt.isNone && g.actionHash == some call.actionHash && g.match == .action
  | .task =>
      g.taskId.isSome && g.taskId == grantTask g ctx && standingMatches g d call flags effect batch
  | .session =>
      g.sessionId.isSome && g.sessionId == ctx.sessionId &&
        standingMatches g d call flags effect batch
  | .always => standingMatches g d call flags effect batch

def grantApplies (g : Grant) (d : CapabilityDef) (call : Call) (ctx : Context) (flags : CallFlags)
    (effect : Effect) (batch suspends : Bool) (now maxGrantDays : ℤ) : Bool :=
  if g.revoked || canon g.capability != d.id.name || g.person != ctx.person then false
  else if jobMismatch g ctx then false
  else if foreignAgent g ctx then false
  else if scopeRank g.scope > scopeRank (maxScopeFor d { flags with batch := batch }) then false
  else if g.createdAt > now ∨ now ≥ grantExpiry g maxGrantDays then false
  else if g.lastUsedAt.any (fun t => t > now) then false
  else if g.surface < requiredSurface d g.scope flags then false
  else if suspends && g.scope != .once then false
  else if g.projectId.isSome && g.projectId != ctx.projectId then false
  else scopeMatches g d call ctx flags effect batch

/-- The grant that lets the call through, the first one that applies. -/
def applyingGrant (call : Call) (ctx : Context) (deps : Deps) (d : CapabilityDef) : Option Grant :=
  let effect := effectOf call d
  let batch := isBatch call.flags call.targets
  deps.now.bind fun now =>
    (candidateGrants ctx deps.grants d.id.name).find? fun g =>
      validGrant g && grantApplies canon g d call ctx call.flags effect batch
        (taintSuspends ctx d effect) now (deps.grants.maxGrantDays.getD 90)

/-- What is left when the class asks and no grant applies. -/
def askOrRefuse (call : Call) (ctx : Context) (d : CapabilityDef) (effect : Effect)
    (suspends : Bool) (cls : PolicyClass) : Decision :=
  if ctx.deniedActionHashes.any (fun l => l.contains call.actionHash) then
    .deny .repeatDenied "fatigue:repeat-denied"
  else if ¬ ctx.promptsThisHour.getD 0 < maxPromptsPerTaskPerHour then
    .deny .promptCap "fatigue:prompt-cap"
  else
    ask d call ctx effect suspends
      (if suspends then "taint-suspended" else if cls == .approval then "approval-class"
        else "approval")

def evaluate (call : Call) (ctx : Context) (deps : Deps) (d : CapabilityDef) : Decision :=
  let effect := effectOf call d
  let batch := isBatch call.flags call.targets
  let suspends := taintSuspends ctx d effect
  let cls := classFor canon ctx d call.flags effect batch
  let via := (overriddenClass canon ctx d call.flags).2
  if cls = .allowed then
    if via == .override && suspends then ask d call ctx effect true "taint-suspended"
    else .allow via none false
  else
    match applyingGrant canon call ctx deps d with
    | some g => .allow .grant (some g.id) (deps.now.any (grantReviewDue g))
    | none => askOrRefuse call ctx d effect suspends cls

def decide (call : Call) (ctx : Context) (deps : Deps) : Decision :=
  match malformed ctx with
  | some bad => .deny .policyNever bad
  | none =>
      match capabilityOf (canon call.capability) with
      | none => .deny .policyNever "unknown-capability"
      | some d =>
          match refusal canon call ctx d with
          | some r => r
          | none => evaluate canon call ctx deps d

end Evaluator

end Plur1bus.Policy
