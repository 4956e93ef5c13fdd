import Plur1bus.Rbac.Policy

/-!
The decision whether a principal may do something to a resource. It reads no clock and changes
nothing. Where the source checks at run time that a value is of its type, the model has a value that
stands for everything else.

An instant is a number of the source: what is used of it are comparisons, which are false where one
side is no number, and so they are all that is asked of the type.
-/

namespace Plur1bus.Rbac

open List

class Instants (T : Type) where
  /-- `a < b`. -/
  before : T → T → Bool
  /-- `a >= b`. -/
  notBefore : T → T → Bool
  isFinite : T → Bool
  plus : T → ℕ → T

structure BreakGlassGrant (T : Type) where
  id : String
  holderUserId : String
  targetUserId : String
  reason : String
  issuedAt : T
  expiresAt : T
  revokedAt : Option T
  deriving DecidableEq, Repr

/-- `none` in `userId`, `role` or within `kind` is a value that is no such thing. -/
structure Principal (T : Type) where
  userId : Option String
  kind : Option (Option PrincipalKind)
  role : Option Role
  agentRights : Option (List (String × Right))
  projectRights : Option (List (String × Right))
  tokenScopes : Option (List String)
  breakGlass : Option (List (BreakGlassGrant T))
  deriving DecidableEq, Repr

/-- Who calls: nobody, a principal, or a value that is no object. -/
inductive Caller (T : Type)
  | missing
  | object (p : Principal T)
  | other
  deriving DecidableEq, Repr

/-- An id is `none` where it is no string. -/
inductive Resource
  | system
  | user (userId : Option String)
  | agent (agentId : Option String)
  | project (projectId : Option String)
  | memoryUser (ownerUserId : Option String)
  | memoryAgent (scope : MemoryAgentScope) (agentId : Option String)
  | other
  deriving DecidableEq, Repr

inductive AllowReason
  | role
  | own
  | objectRight
  | breakGlass
  deriving DecidableEq, Repr

inductive DenyReason
  | unauthenticated
  | invalidPrincipal
  | unknownAction
  | resourceMismatch
  | tokenScope
  | roleDenied
  | notOwner
  | objectRightRequired
  | breakGlassRequired
  | auditFailed
  | agentPrincipal
  deriving DecidableEq, Repr

inductive Decision
  | allow (reason : AllowReason) (breakGlassId : Option String)
  | deny (reason : DenyReason)
  deriving DecidableEq, Repr

def agentRank : Right → Option ℕ
  | .use => some 1
  | .manage => some 2
  | _ => none

def projectRank : Right → Option ℕ
  | .member => some 1
  | .lead => some 2
  | _ => none

/-- An own property of the table. -/
def right (table : Option (List (String × Right))) (id : String) : Option Right :=
  table.bind fun rows => (rows.find? fun row => row.1 = id).map (·.2)

def shapeOf : Resource → Option ResourceShape
  | .system => some .system
  | .user _ => some .user
  | .agent _ => some .agent
  | .project _ => some .project
  | .memoryUser _ => some .memoryUser
  | .memoryAgent scope _ => some (.memoryAgent scope)
  | .other => none

def idOf : Resource → Option String
  | .system => some ""
  | .user id => id
  | .agent id => id
  | .project id => id
  | .memoryUser id => id
  | .memoryAgent _ id => id
  | .other => none

def scopeMatches (scopes : List String) (action : String) : Bool := scopes.any fun s =>
    s = action || (['.', '*'].isSuffixOf s.toList && s.toList.dropLast.isPrefixOf action.toList)

/-- `(RANK[have] ?? 0) >= (RANK[needs] ?? Infinity)`. -/
def ranksAtLeast (rank : Right → Option ℕ) (needs : Right) (have' : Right) : Bool :=
  (rank needs).any fun n => n ≤ (rank have').getD 0

section

variable {T : Type}

def holdsObjectRight (p : Principal T) (spec : ActionSpec) (r : Resource) (id : String) : Bool :=
  match spec.needs with
  | none => false
  | some needs =>
    match r with
    | .project _ => (right p.projectRights id).any (ranksAtLeast projectRank needs)
    | _ => (right p.agentRights id).any (ranksAtLeast agentRank needs)

variable [Instants T]

def liveBreakGlass (p : Principal T) (targetUserId : String) (now : Option T) : Option (BreakGlassGrant T) :=
  match now with
  | none => none
  | some now =>
    if Instants.isFinite now then
      p.breakGlass.bind fun grants => grants.find? fun g =>
        some g.holderUserId = p.userId && g.targetUserId = targetUserId && g.revokedAt.isNone &&
          Instants.notBefore now g.issuedAt && Instants.before now g.expiresAt
    else none

def evaluate (g : Grant) (p : Principal T) (spec : ActionSpec) (r : Resource) (id : String) (now : Option T) :
    Option Decision :=
  match g with
  | .allow => some (.allow .role none)
  | .own => if id ≠ "" ∧ some id = p.userId then some (.allow .own none) else none
  | .object => if holdsObjectRight p spec r id then some (.allow .objectRight none) else none
  | .breakGlass =>
    if id ≠ "" ∧ some id ≠ p.userId then
      (liveBreakGlass p id now).map fun g => .allow .breakGlass (some g.id)
    else none

/-- The roles of a row, and what is missing where none of them holds. -/
def decideByRole (p : Principal T) (role : Role) (spec : ActionSpec) (r : Resource) (id : String) (now : Option T) :
    Decision :=
  let grants := ((spec.grants.find? fun row => row.1 = role).map (·.2)).getD []
  match grants.findSome? fun g => evaluate g p spec r id now with
  | some d => d
  | none =>
    if grants = [] then .deny .roleDenied
    else if .breakGlass ∈ grants then .deny .breakGlassRequired
    else if .own ∈ grants then .deny .notOwner
    else .deny .objectRightRequired

def authorize (principal : Caller T) (action : String) (resource : Resource) (now : Option T) : Decision :=
  match principal with
  | .missing => .deny .unauthenticated
  | .other => .deny .invalidPrincipal
  | .object p =>
    match p.userId, p.role with
    | some userId, some role =>
      if userId = "" ∨ p.kind = some none then .deny .invalidPrincipal
      else
        match policyFor action with
        | none => .deny .unknownAction
        | some spec =>
          if spec.humanOnly ∧ p.kind ≠ some (some .person) then .deny .agentPrincipal
          else if shapeOf resource ≠ some spec.resource then .deny .resourceMismatch
          else
            match idOf resource with
            | none => .deny .resourceMismatch
            | some id =>
              if resource ≠ .system ∧ id = "" then .deny .resourceMismatch
              else if p.tokenScopes.any (fun scopes => !scopeMatches scopes action) then .deny .tokenScope
              else decideByRole p role spec resource id now
    | _, _ => .deny .invalidPrincipal

/-! ### Break-glass -/

/-- A grant that opens the cards of its target to its holder now. -/
structure BreakGlassGrant.Opens (g : BreakGlassGrant T) (holder target : String) (now : T) : Prop where
  holder : g.holderUserId = holder
  target : g.targetUserId = target
  notBefore : Instants.notBefore now g.issuedAt = true
  before : Instants.before now g.expiresAt = true

variable {p : Principal T} {r : Resource} {now : Option T} {gid : Option String}

theorem evaluate_breakGlass {g : Grant} {spec : ActionSpec} {id : String}
    (h : evaluate g p spec r id now = some (.allow .breakGlass gid)) :
    g = .breakGlass ∧ ∃ grants t grant, p.breakGlass = some grants ∧ now = some t ∧ grant ∈ grants ∧
      gid = some grant.id ∧ ∃ holder, p.userId = some holder ∧ grant.Opens holder id t := by
  cases g with
  | allow => cases h
  | own =>
    rw [evaluate] at h
    split at h
    · cases h
    · cases h
  | object =>
    rw [evaluate] at h
    split at h
    · cases h
    · cases h
  | breakGlass =>
    rw [evaluate] at h
    split at h
    · obtain ⟨grant, hlive, hgid⟩ := Option.map_eq_some_iff.mp h
      cases hgid
      unfold liveBreakGlass at hlive
      split at hlive
      · cases hlive
      next t =>
        split at hlive
        · obtain ⟨grants, hgrants, hfind⟩ := Option.bind_eq_some_iff.mp hlive
          have hgood := List.find?_some hfind
          simp only [Bool.and_eq_true, decide_eq_true_eq] at hgood
          obtain ⟨⟨⟨⟨hholder, htarget⟩, -⟩, hissued⟩, hexpires⟩ := hgood
          exact ⟨rfl, grants, t, grant, hgrants, rfl, mem_of_find?_eq_some hfind, rfl, grant.holderUserId,
            hholder.symm, rfl, htarget, hissued, hexpires⟩
        · cases hlive
    · cases h

/-- What an allowance by break-glass says. -/
theorem authorize_breakGlass {action : String}
    (h : authorize (.object p) action r now = .allow .breakGlass gid) :
    action = "memory.user.read" ∧ ∃ grants t grant holder target, p.breakGlass = some grants ∧ now = some t ∧
      grant ∈ grants ∧ gid = some grant.id ∧ p.userId = some holder ∧ r = .memoryUser (some target) ∧
      grant.Opens holder target t := by
  unfold authorize at h
  dsimp only at h
  split at h
  next userId role huser hrole =>
    split at h
    · cases h
    · split at h
      · cases h
      next spec hspec =>
        split at h
        · cases h
        · split at h
          · cases h
          next hshape =>
            split at h
            · cases h
            next id hid =>
              split at h
              · cases h
              · split at h
                · cases h
                · unfold decideByRole at h
                  dsimp only at h
                  split at h
                  next d hd =>
                    subst h
                    obtain ⟨g, hg, heval⟩ := exists_of_findSome?_eq_some hd
                    obtain ⟨rfl, grants, t, grant, hgrants, hnow, hmem, hgid, holder, hholder, hopens⟩ :=
                      evaluate_breakGlass heval
                    have hrow : ∃ row ∈ spec.grants, Grant.breakGlass ∈ row.2 := by
                      cases hfind : spec.grants.find? fun row => decide (row.1 = role) with
                      | none =>
                        rw [hfind] at hg
                        exact absurd hg not_mem_nil
                      | some row =>
                        rw [hfind] at hg
                        exact ⟨row, mem_of_find?_eq_some hfind, hg⟩
                    obtain ⟨row, hrow, hglass⟩ := hrow
                    have hmemSpec : spec ∈ POLICY := mem_reverse.mp (mem_of_find?_eq_some hspec)
                    obtain ⟨haction, hresource⟩ := breakGlass_rows spec hmemSpec row hrow hglass
                    have hname : spec.action = action := by simpa using List.find?_some hspec
                    have hmemory : r = .memoryUser (some id) := by
                      rw [hresource] at hshape
                      cases r with
                      | memoryUser owner =>
                        rw [idOf] at hid
                        rw [hid]
                      | _ => exact absurd (fun hno => (by cases hno)) hshape
                    exact ⟨hname ▸ haction, grants, t, grant, holder, id, hgrants, hnow, hmem, hgid, hholder, hmemory, hopens⟩
                  next =>
                    repeat' split at h
                    all_goals cases h
  · cases h

end

end Plur1bus.Rbac
