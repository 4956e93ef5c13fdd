import Mathlib.Data.Nat.Notation
import Mathlib.Tactic.Common

/-!
Who may do what, as data. An action asks for one kind of resource, and each role has a list of ways
to satisfy it, of which the first that holds wins; a role that is not listed is denied.
-/

namespace Plur1bus.Rbac

inductive Role
  | owner
  | admin
  | operator
  | member
  | viewer
  deriving DecidableEq, Repr

inductive PrincipalKind
  | person
  | agent
  deriving DecidableEq, Repr

/-- The rights on an agent (`use`, `manage`) and on a project (`member`, `lead`). -/
inductive Right
  | use
  | manage
  | member
  | lead
  deriving DecidableEq, Repr

inductive MemoryAgentScope
  | agentPrivate
  | workspace
  deriving DecidableEq, Repr

inductive ResourceShape
  | system
  | user
  | agent
  | project
  | memoryUser
  | memoryAgent (scope : MemoryAgentScope)
  deriving DecidableEq, Repr

inductive Grant
  | allow
  | own
  | object
  | breakGlass
  deriving DecidableEq, Repr

structure ActionSpec where
  action : String
  resource : ResourceShape
  needs : Option Right
  humanOnly : Bool
  grants : List (Role × List Grant)
  deriving DecidableEq, Repr

def A : List Grant := [.allow]

def O : List Grant := [.own]

def U : List Grant := [.object]

def OB : List Grant := [.own, .breakGlass]

def spec (action : String) (resource : ResourceShape) (grants : List (Role × List Grant)) (needs : Option Right := none) :
    ActionSpec :=
  ⟨action, resource, needs, false, grants⟩

/-- An action that no agent may ever hold. -/
def humanOnly (s : ActionSpec) : ActionSpec := { s with humanOnly := true }

def OA : List (Role × List Grant) := [(.owner, A), (.admin, A)]

def READERS : List (Role × List Grant) := [(.owner, A), (.admin, A), (.operator, A), (.viewer, A)]

def catalogue (area : String) : List ActionSpec :=
  [spec (area ++ ".read") .system READERS, spec (area ++ ".write") .system OA]

def POLICY : List ActionSpec := [
    humanOnly (spec "a2a.peers.manage" .system [(.owner, A)]),
    spec "chat:read" .system [(.owner, A), (.admin, A), (.operator, A), (.member, A), (.viewer, A)],
    spec "chat:write" .system [(.owner, A), (.admin, A), (.operator, A), (.member, A)],
    spec "chat:delete" .system [(.owner, A), (.admin, A), (.operator, A), (.member, A)],
    humanOnly (spec "inbox.read" .system [(.owner, A), (.admin, A), (.operator, A), (.member, A), (.viewer, A)]),
    humanOnly (spec "inbox.write" .system [(.owner, A), (.admin, A), (.operator, A), (.member, A), (.viewer, A)]),
    spec "project.board.read" .system [(.owner, A), (.admin, A), (.operator, A), (.member, A), (.viewer, A)],
    spec "project.board.move" .system [(.owner, A), (.admin, A), (.operator, A), (.member, A)],
    spec "project.board.comment" .system [(.owner, A), (.admin, A), (.operator, A), (.member, A)],
    humanOnly (spec "project.board.write" .system [(.owner, A), (.admin, A), (.operator, A), (.member, A)]),
    humanOnly (spec "project.board.manage" .system [(.owner, A), (.admin, A), (.operator, A), (.member, A)]),
    spec "memory.user.read" .memoryUser [(.owner, OB), (.admin, OB), (.operator, O), (.member, O), (.viewer, O)],
    spec "memory.user.write" .memoryUser [(.owner, O), (.admin, O), (.operator, O), (.member, O)],
    spec "memory.agent-private.read" (.memoryAgent .agentPrivate) [(.owner, A), (.admin, A), (.member, U)]
      (some .manage),
    spec "memory.agent-private.write" (.memoryAgent .agentPrivate) [(.owner, A), (.admin, A), (.member, U)]
      (some .manage),
    spec "memory.workspace.read" (.memoryAgent .workspace) [(.owner, A), (.admin, A), (.operator, U), (.member, U), (.viewer, U)]
      (some .use),
    spec "memory.workspace.write" (.memoryAgent .workspace) [(.owner, A), (.admin, A), (.operator, U), (.member, U)]
      (some .use),
    spec "memory.forget" .agent [(.owner, A), (.admin, A), (.operator, U), (.member, U)] (some .use),
    spec "memory.sensitivity.read" .agent [(.owner, A), (.admin, A), (.operator, U), (.member, U), (.viewer, U)]
      (some .use),
    spec "memory.sensitivity.write" .agent [(.owner, A), (.admin, A), (.operator, U), (.member, U)] (some .manage),
    spec "agent.list" .system [(.owner, A), (.admin, A), (.operator, A), (.member, A), (.viewer, A)],
    spec "agent.read" .agent [(.owner, A), (.admin, A), (.operator, A), (.member, U), (.viewer, U)] (some .use),
    spec "agent.use" .agent [(.owner, A), (.admin, A), (.operator, U), (.member, U)] (some .use),
    spec "agent.operate" .agent [(.owner, A), (.admin, A), (.operator, A)],
    spec "agent.manage" .agent [(.owner, A), (.admin, A), (.member, U)] (some .manage),
    spec "agent.create" .system OA,
    spec "agent.delete" .agent OA,
    spec "dreaming.read" .system READERS,
    spec "dreaming.operate" .system [(.owner, A), (.admin, A), (.operator, A)],
    spec "cron.read" .system READERS,
    spec "cron.operate" .system [(.owner, A), (.admin, A), (.operator, A)],
    spec "jobs.run" .system [(.owner, A), (.admin, A), (.operator, A)],
    spec "sessions.read" .system READERS,
    spec "logs.read" .system READERS,
    spec "audit.read" .system OA,
    spec "logs.query" .system OA] ++
  ["models", "providers", "channels", "plugins", "mcp"].flatMap catalogue ++
  [
    humanOnly (spec "extensions.read" .system OA),
    humanOnly (spec "extensions.manage" .system OA),
    humanOnly (spec "imports.read" .system OA),
    humanOnly (spec "imports.manage" .system OA),
    spec "users.read" .system OA,
    spec "users.manage" .system OA,
    spec "users.delete" .user [(.owner, A)],
    spec "ownership.transfer" .system [(.owner, A)],
    spec "breakglass.request" .user OA,
    spec "breakglass.log.read" .system OA,
    spec "licence.confirm" .system [(.owner, A)],
    humanOnly (spec "media.read" .system [(.owner, A), (.admin, A), (.operator, A), (.member, A), (.viewer, A)]),
    humanOnly (spec "media.write" .system [(.owner, A), (.admin, A), (.operator, A), (.member, A)]),
    spec "media.index.read" .system [(.owner, A), (.admin, A), (.operator, A), (.member, A), (.viewer, A)],
    humanOnly (spec "media.index.operate" .system OA),
    humanOnly (spec "media.caption.write" .system [(.owner, A), (.admin, A), (.operator, A), (.member, A)]),
    humanOnly (spec "project.surface.read" .system [(.owner, A), (.admin, A), (.operator, A), (.member, A), (.viewer, A)]),
    humanOnly (spec "project.surface.write" .system [(.owner, A), (.admin, A), (.operator, A), (.member, A)]),
    humanOnly (spec "project.create" .system OA),
    humanOnly (spec "identity.self.read" .system [(.owner, A), (.admin, A), (.operator, A), (.member, A), (.viewer, A)]),
    humanOnly (spec "identity.self.write" .system [(.owner, A), (.admin, A), (.operator, A), (.member, A)]),
    humanOnly (spec "auth.credentials.read" .system [(.owner, A)]),
    humanOnly (spec "auth.credentials.write" .system [(.owner, A)]),
    humanOnly (spec "channel.read" .system OA),
    humanOnly (spec "channel.write" .system OA),
    humanOnly (spec "admin.agent.operate" .agent [(.owner, A), (.admin, A), (.operator, A)]),
    humanOnly (spec "admin.agent.manage" .agent OA),
    humanOnly (spec "admin.agent.delete" .agent OA),
    humanOnly (spec "admin.agent.rights" .agent OA),
    humanOnly (spec "admin.users.read" .system OA),
    humanOnly (spec "admin.users.write" .system OA),
    humanOnly (spec "admin.breakglass.read" .system OA),
    humanOnly (spec "admin.breakglass.write" .system OA),
    humanOnly (spec "admin.sessions.write" .system [(.owner, A), (.admin, A), (.operator, A), (.member, A)]),
    humanOnly (spec "admin.sessions.read" .system [(.owner, A), (.admin, A), (.operator, A), (.member, A), (.viewer, A)]),
    humanOnly (spec "admin.pairing.read" .system OA),
    humanOnly (spec "remote.device.write" .system [(.owner, A), (.admin, A), (.operator, A), (.member, A)])] ++
  ["device.list", "device.revoke", "device.rename"].map (fun a =>
      humanOnly (spec a .system [(.owner, A), (.admin, A), (.operator, A), (.member, A), (.viewer, A)])) ++
  [
    humanOnly (spec "admin.notices.read" .system [(.owner, A), (.admin, A), (.operator, A), (.member, A), (.viewer, A)]),
    humanOnly (spec "admin.sessions.transcript" .system [(.owner, A), (.admin, A), (.operator, A), (.member, A), (.viewer, A)]),
    humanOnly (spec "admin.memory.read" .system [(.owner, A), (.admin, A), (.operator, A), (.member, A), (.viewer, A)]),
    spec "my.read" .user [(.owner, O), (.admin, O), (.operator, O), (.member, O), (.viewer, O)],
    spec "my.write" .user [(.owner, O), (.admin, O), (.operator, O), (.member, O)],
    spec "project.read" .project [(.owner, A), (.admin, A), (.operator, A), (.member, A), (.viewer, A)],
    spec "project.write" .project [(.owner, A), (.admin, A), (.operator, U), (.member, U)] (some .member),
    spec "project.manage" .project [(.owner, A), (.admin, A), (.operator, U), (.member, U)] (some .lead),
    spec "settings.read" .system OA,
    spec "settings.write" .system OA,
    spec "secrets.list" .system OA,
    spec "secrets.reveal" .system [(.owner, A)],
    spec "secrets.write" .system [(.owner, A)],
    spec "egress.read" .system OA,
    spec "import.run" .system OA,
    spec "doctor.read" .system [(.owner, A), (.admin, A), (.operator, A)],
    spec "doctor.run" .system [(.owner, A), (.admin, A), (.operator, A)],
    humanOnly (spec "grant.read" .system OA),
    humanOnly (spec "grant.write" .system OA),
    humanOnly (spec "approval.read" .system [(.owner, A), (.admin, A), (.operator, A)]),
    humanOnly (spec "approval.decide" .system OA)] ++
  ["admin.obsidian.detect", "admin.obsidian.prepare", "admin.obsidian.confirm", "admin.migrate",
      "admin.embedding.probe", "admin.embedding.serve", "admin.embedding.check", "admin.reembed.plan",
      "admin.reembed.run", "admin.reembed.status", "admin.reembed.abort", "admin.backup.snapshot"].map
    (fun a => spec a .system OA)

/-- The last row of the table that names the action. -/
def policyFor (action : String) : Option ActionSpec := POLICY.reverse.find? fun s => s.action = action

/-- Reading the cards of a user is the only thing that a break-glass grant can open. -/
theorem breakGlass_rows : ∀ s ∈ POLICY, ∀ row ∈ s.grants, Grant.breakGlass ∈ row.2 →
    s.action = "memory.user.read" ∧ s.resource = .memoryUser := by
  decide

end Plur1bus.Rbac
