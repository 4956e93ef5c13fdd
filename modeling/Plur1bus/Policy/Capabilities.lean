import Mathlib.Order.Basic
import Mathlib.Order.Fin.Basic
import Mathlib.Order.Lattice
import Mathlib.Algebra.GroupWithZero.Nat

/-!
The policy vocabulary: effects, classes, scopes, risks, surfaces and the
capability table with every default number of the evaluator. A capability id
is a string on the wire and one of finitely many names in the table, so the
table is a function on an enumeration and the string is looked up once, at the
entry of the evaluator.
-/

namespace Plur1bus.Policy

/-! ### Effects -/

inductive Effect | read | localWrite | localDestructive | external | networkA2a | money
  deriving DecidableEq, Repr

def Effect.name : Effect → String
  | .read => "read"
  | .localWrite => "local-write"
  | .localDestructive => "local-destructive"
  | .external => "external"
  | .networkA2a => "network.a2a"
  | .money => "money"

def EFFECTS : List Effect := [.read, .localWrite, .localDestructive, .external, .networkA2a, .money]

def effectRank : Effect → ℕ
  | .read => 0
  | .localWrite => 1
  | .localDestructive => 2
  | .external => 3
  | .networkA2a => 3
  | .money => 4

def maxEffect (a b : Effect) : Effect := if effectRank a ≥ effectRank b then a else b

/-- `isEffect`: the vocabulary entry a string spells, if it spells one. -/
def isEffect (v : String) : Option Effect := EFFECTS.find? (fun e => e.name == v)

theorem effectRank_maxEffect (a b : Effect) :
    effectRank (maxEffect a b) = max (effectRank a) (effectRank b) := by
  unfold maxEffect
  split <;> omega

theorem effectRank_le_money (e : Effect) : effectRank e ≤ effectRank .money := by
  cases e <;> simp [effectRank]

theorem eq_money_of_effectRank {e : Effect} (h : effectRank .money ≤ effectRank e) : e = .money := by
  cases e <;> simp [effectRank] at h ⊢

/-! ### Classes, scopes, risks, surfaces -/

inductive PolicyClass | allowed | approval | never
  deriving DecidableEq, Repr

def classStrictness : PolicyClass → ℕ
  | .allowed => 0
  | .approval => 1
  | .never => 2

def stricterClass (a b : PolicyClass) : PolicyClass :=
  if classStrictness a ≥ classStrictness b then a else b

@[simp] theorem stricterClass_allowed (a : PolicyClass) : stricterClass a .approval ≠ .allowed := by
  cases a <;> decide

inductive GrantScope | once | task | session | always
  deriving DecidableEq, Repr

def GRANT_SCOPES : List GrantScope := [.once, .task, .session, .always]

def scopeRank : GrantScope → ℕ
  | .once => 0
  | .task => 1
  | .session => 2
  | .always => 3

inductive Risk | low | medium | high | critical
  deriving DecidableEq, Repr

def riskRank : Risk → ℕ
  | .low => 0
  | .medium => 1
  | .high => 2
  | .critical => 3

/-- `RISKS[min(r, 3)]`. -/
def riskOfRank : ℕ → Risk
  | 0 => .low
  | 1 => .medium
  | 2 => .high
  | _ => .critical

/-- Surface trust T0 to T3. -/
abbrev SurfaceTrust := Fin 4

scoped instance instNeZeroSurface : NeZero 4 := ⟨by decide⟩

/-! ### Default numbers -/

def MIN : ℤ := 60000
def HOUR : ℤ := 60 * MIN
def DAY : ℤ := 24 * HOUR

def onceUnusedMs : ℤ := 10 * MIN
def taskMs : ℤ := 24 * HOUR
def sessionIdleMs : ℤ := 7 * DAY
def reviewNudgeAgeMs : ℤ := 90 * DAY
def maxPromptsPerTaskPerHour : ℤ := 10
def batchTargetsOver : ℕ := 20

def surfaceByRisk : Risk → SurfaceTrust
  | .low => 1
  | .medium => 2
  | .high => 2
  | .critical => 3

theorem surfaceByRisk_mono {m n : ℕ} (h : m ≤ n) :
    surfaceByRisk (riskOfRank m) ≤ surfaceByRisk (riskOfRank n) := by
  match m, n, h with
  | 0, 0, _ | 0, 1, _ | 0, 2, _ | 1, 1, _ | 1, 2, _ | 2, 2, _ => decide
  | 0, _ + 3, _ | 1, _ + 3, _ | 2, _ + 3, _ | _ + 3, _ + 3, _ => exact Fin.le_last _

/-! ### The capability table -/

inductive CapabilityId
  | appsLaunch | fsRead | fsWrite | memoryRead | memoryWrite | fsDelete | shellExec | procSignal
  | pkgChange | sysRead | clipboardRead | netFetch | netSubmit | networkA2a | mcpToolRead
  | mcpToolWrite | mcpToolDestructive | commSend | netPublish | moneySpend | osPrivilege | osGrant
  | osScript | screenCapture | uiControl | secretsUse | agentDelegate | remoteControl
  | hostctlFsTrash | hostctlProcSessionRead | hostctlProcSessionWrite | hostctlProcKillForeign
  | harnessAdmin | credentialEntry | captchaSolve | inputMonitor | policyBypass
  deriving DecidableEq, Repr

def CapabilityId.name : CapabilityId → String
  | .appsLaunch => "apps.launch"
  | .fsRead => "fs.read"
  | .fsWrite => "fs.write"
  | .memoryRead => "memory.read"
  | .memoryWrite => "memory.write"
  | .fsDelete => "fs.delete"
  | .shellExec => "shell.exec"
  | .procSignal => "proc.signal"
  | .pkgChange => "pkg.change"
  | .sysRead => "sys.read"
  | .clipboardRead => "clipboard.read"
  | .netFetch => "net.fetch"
  | .netSubmit => "net.submit"
  | .networkA2a => "network.a2a"
  | .mcpToolRead => "mcp.tool.read"
  | .mcpToolWrite => "mcp.tool.write"
  | .mcpToolDestructive => "mcp.tool.destructive"
  | .commSend => "comm.send"
  | .netPublish => "net.publish"
  | .moneySpend => "money.spend"
  | .osPrivilege => "os.privilege"
  | .osGrant => "os.grant"
  | .osScript => "os.script"
  | .screenCapture => "screen.capture"
  | .uiControl => "ui.control"
  | .secretsUse => "secrets.use"
  | .agentDelegate => "agent.delegate"
  | .remoteControl => "remote.control"
  | .hostctlFsTrash => "hostctl.fs.trash"
  | .hostctlProcSessionRead => "hostctl.proc.session.read"
  | .hostctlProcSessionWrite => "hostctl.proc.session.write"
  | .hostctlProcKillForeign => "hostctl.proc.kill_foreign"
  | .harnessAdmin => "harness.admin"
  | .credentialEntry => "credential.entry"
  | .captchaSolve => "captcha.solve"
  | .inputMonitor => "input.monitor"
  | .policyBypass => "policy.bypass"

/-- The default class inside and outside the agent's roots. -/
structure BaseClass where
  inside : PolicyClass
  outside : PolicyClass
  deriving DecidableEq, Repr

structure CapabilityDef where
  id : CapabilityId
  intrinsicEffect : Effect
  base : BaseClass
  /-- Highest grant scope; `none` takes no standing grant. -/
  ceiling : Option GrantScope
  /-- Lowest surface that may decide; `none` never asks. -/
  minSurface : Option SurfaceTrust
  baseRisk : Risk
  lowerable : Bool
  taintSensitive : Bool
  deriving DecidableEq, Repr

/-- The table's row builder: a capability is lowerable unless its ceiling is
`once`, its surface T3 or its class never. -/
def mkDef (id : CapabilityId) (intrinsicEffect : Effect) (base : BaseClass)
    (ceiling : Option GrantScope) (minSurface : Option SurfaceTrust) (baseRisk : Risk)
    (taintSensitive : Bool) : CapabilityDef where
  id := id
  intrinsicEffect := intrinsicEffect
  base := base
  ceiling := ceiling
  minSurface := minSurface
  baseRisk := baseRisk
  lowerable := ceiling != some .once && minSurface != some 3 && base.inside != .never
  taintSensitive := taintSensitive

def same (c : PolicyClass) : BaseClass := ⟨c, c⟩

def TABLE : CapabilityId → CapabilityDef
  | .appsLaunch => mkDef .appsLaunch .localWrite (same .approval) (some .once) (some 2) .medium false
  | .fsRead => mkDef .fsRead .read ⟨.allowed, .approval⟩ (some .always) (some 1) .low false
  | .fsWrite => mkDef .fsWrite .localWrite ⟨.allowed, .approval⟩ (some .always) (some 1) .low false
  | .memoryRead => mkDef .memoryRead .read (same .allowed) none none .low false
  | .memoryWrite => mkDef .memoryWrite .localWrite (same .allowed) (some .always) (some 2) .low false
  | .fsDelete =>
      mkDef .fsDelete .localDestructive (same .approval) (some .task) (some 2) .high false
  | .shellExec => mkDef .shellExec .localWrite (same .approval) (some .always) (some 2) .medium false
  | .procSignal =>
      mkDef .procSignal .localDestructive (same .approval) (some .session) (some 2) .medium false
  | .pkgChange =>
      mkDef .pkgChange .localDestructive (same .approval) (some .once) (some 2) .high false
  | .sysRead => mkDef .sysRead .read (same .allowed) none none .low false
  | .clipboardRead => mkDef .clipboardRead .read (same .approval) (some .session) (some 1) .low false
  | .netFetch => mkDef .netFetch .read (same .allowed) none none .low false
  | .netSubmit => mkDef .netSubmit .external (same .approval) (some .session) (some 2) .medium true
  | .networkA2a =>
      mkDef .networkA2a .networkA2a (same .approval) (some .session) (some 2) .medium true
  | .mcpToolRead => mkDef .mcpToolRead .read (same .allowed) none none .low false
  | .mcpToolWrite =>
      mkDef .mcpToolWrite .localWrite (same .approval) (some .session) (some 2) .medium false
  | .mcpToolDestructive =>
      mkDef .mcpToolDestructive .localDestructive (same .approval) (some .once) (some 2) .high false
  | .commSend => mkDef .commSend .external (same .approval) (some .session) (some 2) .high true
  | .netPublish => mkDef .netPublish .external (same .approval) (some .always) (some 2) .high true
  | .moneySpend => mkDef .moneySpend .money (same .approval) (some .once) (some 3) .critical false
  | .osPrivilege =>
      mkDef .osPrivilege .localDestructive (same .approval) (some .once) (some 3) .critical false
  | .osGrant => mkDef .osGrant .localWrite (same .approval) (some .always) (some 3) .high false
  | .osScript => mkDef .osScript .localWrite (same .approval) (some .session) (some 2) .medium false
  | .screenCapture =>
      mkDef .screenCapture .read (same .approval) (some .session) (some 2) .medium false
  | .uiControl => mkDef .uiControl .localWrite (same .approval) (some .session) (some 2) .high false
  | .secretsUse => mkDef .secretsUse .read (same .allowed) none none .low false
  | .agentDelegate => mkDef .agentDelegate .read (same .allowed) none none .low false
  | .remoteControl =>
      mkDef .remoteControl .external (same .approval) (some .always) (some 3) .critical false
  | .hostctlFsTrash =>
      mkDef .hostctlFsTrash .localDestructive (same .approval) (some .task) (some 2) .medium false
  | .hostctlProcSessionRead =>
      mkDef .hostctlProcSessionRead .read (same .allowed) (some .session) (some 1) .low false
  | .hostctlProcSessionWrite =>
      mkDef .hostctlProcSessionWrite .localWrite (same .approval) (some .session) (some 2) .medium
        false
  | .hostctlProcKillForeign =>
      mkDef .hostctlProcKillForeign .localDestructive (same .approval) (some .once) (some 2) .high
        false
  | .harnessAdmin => mkDef .harnessAdmin .localWrite (same .never) none none .critical false
  | .credentialEntry => mkDef .credentialEntry .external (same .never) none none .critical false
  | .captchaSolve => mkDef .captchaSolve .external (same .never) none none .critical false
  | .inputMonitor => mkDef .inputMonitor .read (same .never) none none .critical false
  | .policyBypass => mkDef .policyBypass .localWrite (same .never) none none .critical false

/-- The ids in the order of the source table. -/
def CAPABILITY_IDS : List CapabilityId :=
  [.appsLaunch, .fsRead, .fsWrite, .memoryRead, .memoryWrite, .fsDelete, .shellExec, .procSignal,
    .pkgChange, .sysRead, .clipboardRead, .netFetch, .netSubmit, .networkA2a, .mcpToolRead,
    .mcpToolWrite, .mcpToolDestructive, .commSend, .netPublish, .moneySpend, .osPrivilege, .osGrant,
    .osScript, .screenCapture, .uiControl, .secretsUse, .agentDelegate, .remoteControl,
    .hostctlFsTrash, .hostctlProcSessionRead, .hostctlProcSessionWrite, .hostctlProcKillForeign,
    .harnessAdmin, .credentialEntry, .captchaSolve, .inputMonitor, .policyBypass]

/-- `CAPABILITIES.get`. -/
def capabilityOf (id : String) : Option CapabilityDef :=
  (CAPABILITY_IDS.find? (fun c => c.name == id)).map TABLE

@[simp] theorem TABLE_id (c : CapabilityId) : (TABLE c).id = c := by
  cases c <;> rfl

theorem capabilityOf_name (c : CapabilityId) : capabilityOf c.name = some (TABLE c) := by
  cases c <;> rfl

theorem capabilityOf_eq_some {id : String} {d : CapabilityDef} (h : capabilityOf id = some d) :
    d = TABLE d.id ∧ d.id.name = id := by
  simp only [capabilityOf, Option.map_eq_some_iff] at h
  obtain ⟨c, hc, rfl⟩ := h
  have hname := List.find?_some hc
  simp only [beq_iff_eq] at hname
  simpa using hname

/-! ### What the evaluator relies on in the table -/

/-- Outside the roots no capability is laxer than inside them. -/
theorem TABLE_outside_stricter (c : CapabilityId) :
    classStrictness (TABLE c).base.inside ≤ classStrictness (TABLE c).base.outside := by
  cases c <;> decide

/-- A taint-sensitive capability leaves the machine, so its own effect already
puts it on a floor. -/
theorem TABLE_taintSensitive (c : CapabilityId) (h : (TABLE c).taintSensitive = true) :
    effectRank .external ≤ effectRank (TABLE c).intrinsicEffect := by
  cases c <;> revert h <;> decide

end Plur1bus.Policy
