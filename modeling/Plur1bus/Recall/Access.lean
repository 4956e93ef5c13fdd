import Plur1bus.Recall.Candidate
import Plur1bus.Engine.Tombstone
import Mathlib.Data.List.Infix

/-!
Who may read a memory. The ownership columns of the row are validated and brought
into one form: its agent, its workspace, looked up in the request's aliases, and its
user. A row is then read in its own scope only, by the one who owns it there.

Paths are resolved by the platform, and lower case is Unicode's; both are
parameters. The sink of denials gets the id and the rule the caller sees.
-/

namespace Plur1bus.Recall

open Plur1bus.Engine (toJson encodeUtf16 toUtf8Lossy)

/-! ### Identities -/

def AGENT_ID : ℕ := 128
def SESSION_KEY : ℕ := 1024
def PRINCIPAL : ℕ := 128
def WORKSPACE_KEY_PREFIX : String := "workspace:v1:"
def WORKSPACE_DIR_PREFIX : String := "workspace-dir:v1:"

inductive RealpathError
  | notFound | other
  deriving DecidableEq

/-- What the identities take from the platform. -/
structure Platform where
  /-- `std::fs::canonicalize` and the text of its path, or the walk Windows has in its place. -/
  realpath : String → Except RealpathError String
  /-- `str::to_lowercase`. -/
  toLowercase : String → String

structure WorkspacePathBinding where
  path : String
  workspaceKey : String
  deriving DecidableEq

structure WorkspaceAliasBinding where
  key : String
  workspaceKey : String
  deriving DecidableEq

structure WorkspaceAliases where
  paths : List WorkspacePathBinding
  aliases : List WorkspaceAliasBinding
  deriving DecidableEq

def startsWith (s pre : String) : Bool := pre.toList.isPrefixOf s.toList

def afterFirst (n : ℕ) (s : String) : String := String.ofList (s.toList.drop n)

/-- `validate_input` without a pattern. -/
def validateInput (value : Option String) (maxLength : ℕ) (name : String) (required : Bool) :
    Except String (Option String) :=
  if required && value.all (· = "") then .error (name ++ " is required")
  else
    match value with
    | none => .ok none
    | some value =>
      if 0 < maxLength ∧ maxLength < unitLength value then
        .error (name ++ " exceeds maximum length of " ++ toString maxLength ++
          " characters (received " ++ toString (unitLength value) ++ ")")
      else .ok (some value)

def validatedIdentity (value : Option String) (maxLength : ℕ) (name : String) (required : Bool) :
    Except String String :=
  match value.filter (· ≠ "") with
  | none => if required then .error (name ++ " is required") else .ok ""
  | some value =>
    let canonical := trim value
    if required && canonical = "" then .error (name ++ " is required")
    else (validateInput (some canonical) maxLength name required).map (·.getD canonical)

def isSafeAgentId (id : String) : Bool :=
  id.toList.all (fun c => isAsciiAlphanumeric c || c = '_' || c = '-') &&
    1 ≤ id.toList.length && id.toList.length ≤ 64

/-- `JSON.stringify` of a string, with the two line separators escaped as well. -/
def jsonString (value : String) : List Char := (toJson (value.toList.flatMap encodeUtf16)).flatMap fun c =>
    if c.toNat = 0x2028 then "\\u2028".toList
    else if c.toNat = 0x2029 then "\\u2029".toList
    else [c]

/-- The first code units of a text; half a pair at the cut becomes `U+FFFD`. -/
def utf16Slice (limit : ℕ) (s : List Char) : List Char := toUtf8Lossy ((s.flatMap encodeUtf16).take limit)

def invalidAgentMessage (id : String) : String :=
  "Invalid agent ID: " ++ String.ofList (utf16Slice 80 (jsonString id))

def safeAgentId (id : String) : Except String String :=
  if isSafeAgentId id then .ok id else .error (invalidAgentMessage id)

/-- `^user:v[12]:[0-9a-f]{64}$`. -/
def isUserPrincipal (value : String) : Bool :=
  if startsWith value "user:v1:" || startsWith value "user:v2:" then
    let hex := value.toList.drop 8
    hex.length = 64 && hex.all fun c => ('0' ≤ c && c ≤ '9') || ('a' ≤ c && c ≤ 'f')
  else false

/-! ### Workspaces -/

def workspaceTargetLimit : ℕ := unitLength WORKSPACE_DIR_PREFIX + SESSION_KEY

def normalizeWorkspaceTarget (value name : String) : Except String String := do
  let target ← validatedIdentity (some value) workspaceTargetLimit name true
  match [(WORKSPACE_KEY_PREFIX, AGENT_ID), (WORKSPACE_DIR_PREFIX, SESSION_KEY)].find?
      (fun p => startsWith target p.1) with
  | some (pre, limit) =>
    let suffix ← validatedIdentity (some (afterFirst pre.toList.length target)) limit name true
    if startsWith suffix WORKSPACE_KEY_PREFIX || startsWith suffix WORKSPACE_DIR_PREFIX then
      .error ("invalid " ++ name)
    else .ok (pre ++ suffix)
  | none =>
    if startsWith target "workspace:" || startsWith target "workspace-dir:" then
      .error ("invalid " ++ name)
    else
      let bare ← validatedIdentity (some target) AGENT_ID name true
      .ok (WORKSPACE_KEY_PREFIX ++ bare)

def insertPath (paths : List WorkspacePathBinding) (path target : String) :
    Except String (List WorkspacePathBinding) :=
  match paths.find? (fun entry => entry.path = path) with
  | some existing =>
    if existing.workspaceKey ≠ target then .error "conflicting workspace path declaration"
    else .ok paths
  | none => .ok (paths ++ [⟨path, target⟩])

def insertAlias (aliases : List WorkspaceAliasBinding) (key target : String) :
    Except String (List WorkspaceAliasBinding) :=
  match aliases.find? (fun entry => entry.key = key) with
  | some existing =>
    if existing.workspaceKey ≠ target then .error "conflicting workspace alias declaration"
    else .ok aliases
  | none => .ok (aliases ++ [⟨key, target⟩])

def pushUnique (values : List String) (value : String) : List String :=
  if value ∈ values then values else values ++ [value]

/-- The loop of `sanitize_alias`: what may not stand in an alias becomes one `_` for each gap. -/
def fillGaps : Bool → List Char → List Char
  | _, [] => []
  | inGap, c :: cs =>
    if isAsciiAlphanumeric c || c = '.' || c = '_' || c = '-' then c :: fillGaps false cs
    else if inGap then fillGaps true cs
    else '_' :: fillGaps true cs

def sanitizeAlias (raw : String) : String :=
  let out := fillGaps false (trim raw).toList
  let stripped := ((out.dropWhile (· = '_')).reverse.dropWhile (· = '_')).reverse
  String.ofList (utf16Slice 120 (if stripped = [] then "default".toList else stripped))

variable (p : Platform)

def nodeRealpath (path : String) : Except String String :=
  match p.realpath path with
  | .ok canonical => .ok canonical
  | .error .notFound => .error "path does not exist"
  | .error .other => .error "path cannot be resolved"

def aliasLookupKeys (value : String) : List String :=
  [value, p.toLowercase (sanitizeAlias value), p.toLowercase value].foldl pushUnique []

def normalizePath (paths : List WorkspacePathBinding) (entry : WorkspacePathBinding) :
    Except String (List WorkspacePathBinding) := do
  let path ← nodeRealpath p (← validatedIdentity (some entry.path) SESSION_KEY "workspace path" true)
  let target ← normalizeWorkspaceTarget entry.workspaceKey "workspace alias target"
  insertPath paths path target

def normalizeAlias (aliases : List WorkspaceAliasBinding) (entry : WorkspaceAliasBinding) :
    Except String (List WorkspaceAliasBinding) := do
  let name ← validatedIdentity (some entry.key) AGENT_ID "workspace alias" true
  let target ← normalizeWorkspaceTarget entry.workspaceKey "workspace alias target"
  (aliasLookupKeys p name).foldlM (fun aliases key => insertAlias aliases key target) aliases

def normalizeAliases (source : WorkspaceAliases) : Except String WorkspaceAliases := do
  let paths ← source.paths.foldlM (normalizePath p) []
  let aliases ← source.aliases.foldlM (normalizeAlias p) []
  .ok ⟨paths, aliases⟩

def lookupAlias (snapshot : WorkspaceAliases) (value : String) : String :=
  ((aliasLookupKeys p value).findSome? fun key =>
    ((snapshot.aliases.find? (fun entry => entry.key = key)).map (·.workspaceKey)).filter
      (· ≠ "")).getD ""

def canonicalExplicit (validated : String) (snapshot : WorkspaceAliases) : Except String String :=
  if startsWith validated WORKSPACE_KEY_PREFIX || startsWith validated WORKSPACE_DIR_PREFIX then
    normalizeWorkspaceTarget validated "workspace identity"
  else
    let found := lookupAlias p snapshot validated
    if found = "" then normalizeWorkspaceTarget validated "workspace identity" else .ok found

/-- `resolve_canonical` of one explicit id, without a key and a directory. -/
def resolveCanonical (explicitId : String) (aliases : WorkspaceAliases) : Except String String := do
  let snapshot ← normalizeAliases p aliases
  if explicitId = "" then .ok ""
  else
    let validated ← validatedIdentity (some explicitId) workspaceTargetLimit "workspace identity" true
    canonicalExplicit p validated snapshot

def canonicalStoredWorkspace (value : String) (aliases : WorkspaceAliases) : Except String String :=
  if value = "" then .ok ""
  else if startsWith value WORKSPACE_KEY_PREFIX || startsWith value WORKSPACE_DIR_PREFIX then
    normalizeWorkspaceTarget value "memory workspace binding"
  else resolveCanonical p value aliases

/-! ### The rules -/

/-- The reason of a denial. -/
structure Rule where
  name : String
  deriving DecidableEq

/-- What a request says of itself. -/
structure RequestContext where
  agentId : String
  workspaceKey : String
  ownerUserId : String
  aliases : WorkspaceAliases
  deriving DecidableEq

/-- The request's side of a check; `aliases` may be missing. -/
structure AclSubject where
  agentId : String
  workspaceIdentity : String
  userPrincipal : String
  aliases : Option WorkspaceAliases
  deriving DecidableEq

def AclSubject.fromContext (ctx : RequestContext) : AclSubject where
  agentId := ctx.agentId
  workspaceIdentity := ctx.workspaceKey
  userPrincipal := ctx.ownerUserId
  aliases := some ctx.aliases

structure Bindings where
  agentId : String
  workspaceIdentity : String
  ownerUserId : String
  deriving DecidableEq

def deny (reason : String) : Except Rule Unit := .error ⟨reason⟩

def requesterAgent (agentId : String) : Except Rule String :=
  match validatedIdentity (some agentId) AGENT_ID "agentId" true with
  | .error _ => .error ⟨"acl.request.missing_agent"⟩
  | .ok validated =>
    match safeAgentId validated with
    | .error _ => .error ⟨"acl.request.missing_agent"⟩
    | .ok id => .ok id

def ownedAgent (value name : String) : Except String String := do
  let validated ← validatedIdentity (some value) AGENT_ID name false
  if validated = "" then .ok "" else safeAgentId validated

def storedWorkspaces (memory : AclMemory) (aliases : Option WorkspaceAliases) :
    Except String (String × String) :=
  if memory.workspaceId = "" ∧ memory.workspaceKey = "" then .ok ("", "")
  else
    match aliases with
    | none => .error "invalid workspace alias snapshot"
    | some aliases => do
      let snapshot ← normalizeAliases p aliases
      let workspaceId ← canonicalStoredWorkspace p memory.workspaceId snapshot
      let workspaceKey ← canonicalStoredWorkspace p memory.workspaceKey snapshot
      if workspaceId ≠ "" ∧ workspaceKey ≠ "" ∧ workspaceId ≠ workspaceKey then
        .error "conflicting workspace ownership binding"
      else .ok (workspaceId, workspaceKey)

def resolveOwnership (memory : AclMemory) (aliases : Option WorkspaceAliases) : Except String Bindings := do
  let agentId ← ownedAgent memory.agentId "memory.agentId"
  let storedBy ← ownedAgent memory.storedBy "memory.storedBy"
  if agentId ≠ "" ∧ storedBy ≠ "" ∧ agentId ≠ storedBy then
    .error "conflicting agent ownership binding"
  else
    let workspaces ← storedWorkspaces p memory aliases
    let ownerUserId ←
      validatedIdentity (some memory.ownerUserId) PRINCIPAL "memory.ownerUserId" false
    if ownerUserId ≠ "" ∧ isUserPrincipal ownerUserId = false then
      .error "invalid user ownership principal"
    else
      .ok
        { agentId := if agentId = "" then storedBy else agentId
          workspaceIdentity := if workspaces.1 = "" then workspaces.2 else workspaces.1
          ownerUserId := ownerUserId }

def contains (message word : String) : Bool := word.toList <:+: message.toList

def classify (message : String) : String :=
  let workspace := contains message "workspace"
  if workspace && contains message "conflicting" then "acl.workspace.conflicting_binding"
  else if workspace then "acl.workspace.invalid_binding"
  else "acl.invalid_binding"

def ownership (memory : AclMemory) (aliases : Option WorkspaceAliases) : Except Rule Bindings :=
  match resolveOwnership p memory aliases with
  | .error message => .error ⟨classify message⟩
  | .ok bindings => .ok bindings

def agentPrivate (requester owner : String) : Except Rule Unit :=
  if owner = "" then deny "acl.agent_private.missing_owner"
  else if requester = owner then .ok ()
  else deny "acl.agent_private.mismatch"

def workspaceRule (request memory : String) : Except Rule Unit :=
  if memory = "" then deny "acl.workspace.missing_workspace"
  else if request ≠ "" ∧ request = memory then .ok ()
  else deny "acl.workspace.mismatch"

def userRule (principal owner : String) : Except Rule Unit :=
  let request := trim principal
  if isUserPrincipal request = false then deny "acl.user.missing_principal"
  else if owner = "" then deny "acl.user.missing_owner"
  else if request = owner then .ok ()
  else deny "acl.user.mismatch"

/-- The scope of a row; none is that of its agent. -/
def scopeOf (memory : AclMemory) : String := if memory.scope = "" then "agent-private" else memory.scope

def checkAccess (ctx : Option AclSubject) (memory : Option AclMemory) : Except Rule Unit :=
  match ctx, memory with
  | none, _ => deny "acl.no_context"
  | some _, none => deny "acl.no_memory"
  | some ctx, some memory =>
    let scope := scopeOf memory
    if scope ∉ ["agent-private", "workspace", "user"] then deny "acl.unknown_scope"
    else do
      let requester ← requesterAgent ctx.agentId
      let bindings ← ownership p memory ctx.aliases
      if scope = "agent-private" then agentPrivate requester bindings.agentId
      else if scope = "workspace" then
        workspaceRule ctx.workspaceIdentity bindings.workspaceIdentity
      else userRule ctx.userPrincipal bindings.ownerUserId

/-! ### What a check that passes says -/

theorem agentPrivate_ok {requester owner : String} :
    agentPrivate requester owner = .ok () ↔ owner ≠ "" ∧ requester = owner := by
  unfold agentPrivate deny
  split
  · simp_all
  · split <;> simp_all

theorem workspaceRule_ok {request memory : String} :
    workspaceRule request memory = .ok () ↔ memory ≠ "" ∧ request = memory := by
  unfold workspaceRule deny
  split
  · simp_all
  · split
    · simp_all
    · rename_i hmemory hrequest
      have hne : request ≠ memory := by
        rintro rfl
        exact hrequest ⟨hmemory, rfl⟩
      simp [hne]

theorem userRule_ok {principal owner : String} : userRule principal owner = .ok () ↔
      isUserPrincipal (trim principal) = true ∧ owner ≠ "" ∧ trim principal = owner := by
  unfold userRule deny
  dsimp only
  split
  · simp_all
  · split
    · simp_all
    · split <;> simp_all

/-- A row is read in the scope it has, by the agent, the workspace or the user it is bound to. -/
theorem checkAccess_ok {ctx : AclSubject} {memory : AclMemory} :
    checkAccess p (some ctx) (some memory) = .ok () ↔
      ∃ requester bindings, requesterAgent ctx.agentId = .ok requester ∧
        ownership p memory ctx.aliases = .ok bindings ∧
        ((scopeOf memory = "agent-private" ∧ bindings.agentId ≠ "" ∧ requester = bindings.agentId) ∨
          (scopeOf memory = "workspace" ∧ bindings.workspaceIdentity ≠ "" ∧
            ctx.workspaceIdentity = bindings.workspaceIdentity) ∨
          (scopeOf memory = "user" ∧ isUserPrincipal (trim ctx.userPrincipal) = true ∧
            bindings.ownerUserId ≠ "" ∧ trim ctx.userPrincipal = bindings.ownerUserId)) := by
  unfold checkAccess
  dsimp only
  split
  · rename_i hscope
    simp only [List.mem_cons, List.not_mem_nil, or_false, not_or] at hscope
    simp [deny, hscope]
  · rename_i hscope
    simp only [List.mem_cons, List.not_mem_nil, or_false, Decidable.not_not] at hscope
    simp only [Program.bind_ok]
    obtain hs | hs | hs := hscope
    · simp [hs, agentPrivate_ok]
    · simp [hs, workspaceRule_ok]
    · simp [hs, userRule_ok]


end Plur1bus.Recall
