import Plur1bus.Language
import Plur1bus.Program.Runs
import Plur1bus.Program.Upsert
import Plur1bus.Rbac.Authorize

/-!
The registry of break-glass grants. A grant is written to the audit log before it is kept, its use
before the decision is handed out; the log and the notice to the affected user can fail at any call.
What the registry asks of the outside, the n-th clock reading or whether the n-th entry is written,
is a function of n, so that a run over it says nothing about these answers.
-/

namespace Plur1bus.Rbac

open Program

def MIN_REASON_CHARS : ℕ := 10
def MAX_REASON_CHARS : ℕ := 500
def DEFAULT_TTL_MS : ℕ := 15 * 60000
def MIN_TTL_MS : ℕ := 60000
def MAX_TTL_MS : ℕ := 60 * 60000

inductive BreakGlassErrorCode
  | notPermitted
  | invalidTarget
  | selfTarget
  | reasonRequired
  | ttlInvalid
  | auditFailed
  | unknownGrant
  | notificationFailed
  deriving DecidableEq, Repr

structure BreakGlassError where
  code : BreakGlassErrorCode
  message : String
  deriving DecidableEq, Repr

inductive Detail (T : Type)
  | expired (grantId holderUserId : String) (expiresAt : T)
  | granted (grantId reason : String) (issuedAt expiresAt : T) (ttlMs : ℕ)
  | notifyFailed (grantId error : String)
  | revoked (grantId holderUserId : String)
  | used (grantId : Option String) (action : String)
  deriving DecidableEq, Repr

structure AuditEvent (T : Type) where
  at' : T
  user : Option String
  host : String
  action : String
  target : String
  detail : Detail T
  deriving DecidableEq, Repr

structure BreakGlassNotice (T : Type) where
  userId : String
  grantId : String
  holderUserId : String
  reason : String
  expiresAt : T
  deriving DecidableEq, Repr

structure Limits where
  reasonMinChars : ℕ
  reasonMaxChars : ℕ
  maxWindowMinutes : ℕ
  deriving DecidableEq, Repr

/-- `none` is no string in the first two, and absent in the third. -/
structure BreakGlassRequest where
  targetUserId : Option String
  reason : Option String
  ttlMs : Option Number
  deriving DecidableEq, Repr

/-- What the outside answers. -/
structure Outside (T : Type) where
  clock : ℕ → T
  /-- Whether the entry is written; `append` throws where it is not. -/
  append : ℕ → AuditEvent T → Bool
  /-- The message of the error that `notify` throws. -/
  notify : ℕ → BreakGlassNotice T → Option String
  idGen : ℕ → String
  limits : Option (ℕ → Limits)
  requireNotification : Bool
  host : String

/-- The grants by their id, the entries that were written, and how often the outside was asked. -/
structure Registry (T : Type) where
  grants : List (BreakGlassGrant T) := []
  log : List (AuditEvent T) := []
  reads : ℕ := 0
  appends : ℕ := 0
  notices : ℕ := 0
  ids : ℕ := 0
  asks : ℕ := 0
  deriving DecidableEq, Repr

namespace Registry

variable {T : Type}

section

variable (o : Outside T)

/-- `o.clock()`. -/
def clock (s : Registry T) : T × Registry T := (o.clock s.reads, { s with reads := s.reads + 1 })

/-- Whether the entry is written, and the registry after. -/
def record (s : Registry T) (action : String) (actor : Option String) (target : String) (detail : Detail T) :
    Bool × Registry T :=
  let event : AuditEvent T := ⟨o.clock s.reads, actor, o.host, action, target, detail⟩
  if o.append s.appends event then
    (true, { s with reads := s.reads + 1, appends := s.appends + 1, log := s.log ++ [event] })
  else (false, { s with reads := s.reads + 1, appends := s.appends + 1 })

/-- `grants.delete`. -/
def delete (s : Registry T) (id : String) : Registry T := { s with grants := s.grants.filter fun g => g.id ≠ id }

/-- `grants.set`. -/
def put (s : Registry T) (g : BreakGlassGrant T) : Registry T :=
  { s with grants := Keyed.upsert BreakGlassGrant.id (fun _ new => new) g s.grants }

/-- What `limits` answers now, or the limits of this file. -/
def limits (s : Registry T) : Limits × Registry T :=
  match o.limits with
  | some f => (f s.asks, { s with asks := s.asks + 1 })
  | none => (⟨MIN_REASON_CHARS, MAX_REASON_CHARS, MAX_TTL_MS / 60000⟩, s)

def revoke (s : Registry T) (actor : Caller T) (grantId : String) : Except BreakGlassError Unit × Registry T :=
  match Keyed.rowAt BreakGlassGrant.id grantId s.grants with
  | none => (.error ⟨.unknownGrant, "no such live grant"⟩, s)
  | some g =>
    match actor with
    | .object p =>
      if p.kind ≠ none ∧ p.kind ≠ some (some .person) then
        (.error ⟨.notPermitted, "break-glass is for people only"⟩, s)
      else if p.userId ≠ some g.holderUserId ∧ p.role ≠ some .owner then
        (.error ⟨.notPermitted, "only the holder or an Owner may revoke"⟩, s)
      else
        match s.record o "break-glass.revoked" p.userId g.targetUserId (.revoked g.id g.holderUserId) with
        | (false, s) => (.error ⟨.auditFailed, "the revocation could not be audited"⟩, s)
        | (true, s) => (.ok (), s.delete g.id)
    | _ => (.error ⟨.notPermitted, "only the holder or an Owner may revoke"⟩, s)

variable [Instants T]

/-- One entry for every grant that has lapsed. A grant whose entry is not written is kept. -/
def sweepLoop (now : T) : List (BreakGlassGrant T) → Registry T → ℕ → ℕ × Registry T
  | [], s, n => (n, s)
  | g :: gs, s, n =>
    if Instants.before now g.expiresAt then sweepLoop now gs s n
    else
      match s.record o "break-glass.expired" (some "system") g.targetUserId (.expired g.id g.holderUserId g.expiresAt) with
      | (false, s) => sweepLoop now gs s n
      | (true, s) => sweepLoop now gs (s.delete g.id) (n + 1)

def sweep (s : Registry T) : ℕ × Registry T :=
  let (now, s) := s.clock o
  sweepLoop o now s.grants s 0

def live (s : Registry T) (holderUserId : Option String) : List (BreakGlassGrant T) × Registry T :=
  let (now, s) := s.clock o
  (s.grants.filter fun g => some g.holderUserId = holderUserId && Instants.before now g.expiresAt, s)

def active (s : Registry T) (holderUserId : String) : List (BreakGlassGrant T) × Registry T :=
  (s.sweep o).2.live o (some holderUserId)

/-- The part of `request` from the sweep on: the grant is made, written down, kept and told of. -/
def grant (s : Registry T) (holder target reason : String) (ttlMs : ℕ) :
    Except BreakGlassError (BreakGlassGrant T) × Registry T :=
  let (_, s) := s.sweep o
  let (issuedAt, s) := s.clock o
  let g : BreakGlassGrant T := ⟨o.idGen s.ids, holder, target, reason, issuedAt, Instants.plus issuedAt ttlMs, none⟩
  let s := { s with ids := s.ids + 1 }
  match s.record o "break-glass.granted" (some holder) target (.granted g.id reason issuedAt g.expiresAt ttlMs) with
  | (false, s) => (.error ⟨.auditFailed, "the grant could not be audited, so it was not made"⟩, s)
  | (true, s) =>
    let s := s.put g
    let told := o.notify s.notices ⟨target, g.id, holder, reason, g.expiresAt⟩
    let s := { s with notices := s.notices + 1 }
    match told with
    | none => (.ok g, s)
    | some e =>
      let s := if o.requireNotification then s.delete g.id else s
      -- The grant is already in the log, so a failure here is let pass.
      let (_, s) := s.record o "break-glass.notify-failed" (some holder) target (.notifyFailed g.id e)
      if o.requireNotification then (.error ⟨.notificationFailed, "no grant without a durable notice"⟩, s) else (.ok g, s)

def request (s : Registry T) (holder : Caller T) (req : BreakGlassRequest) :
    Except BreakGlassError (BreakGlassGrant T) × Registry T :=
  let target := req.targetUserId.getD ""
  if target = "" then (.error ⟨.invalidTarget, "a target user is required"⟩, s)
  else
    match holder with
    | .object p =>
      if p.kind ≠ none ∧ p.kind ≠ some (some .person) then
        (.error ⟨.notPermitted, "break-glass is for people only"⟩, s)
      else
        let (now, s) := s.clock o
        match Rbac.authorize (.object p) "breakglass.request" (.user (some target)) (some now), p.userId with
        | .allow _ _, some userId =>
          if target = userId then (.error ⟨.selfTarget, "break-glass on one's own cards is meaningless"⟩, s)
          else
            let reason := trim (req.reason.getD "")
            let (limits, s) := s.limits o
            if unitLength reason < limits.reasonMinChars ∨ unitLength reason > limits.reasonMaxChars then
              (.error ⟨.reasonRequired, "a reason of " ++ toString limits.reasonMinChars ++ "-" ++
                toString limits.reasonMaxChars ++ " characters is required"⟩, s)
            else
              let maxTtlMs := limits.maxWindowMinutes * 60000
              match req.ttlMs.getD (.int (min DEFAULT_TTL_MS maxTtlMs : ℕ)) with
              | .int ttlMs =>
                if ttlMs < MIN_TTL_MS ∨ ttlMs > maxTtlMs then
                  (.error ⟨.ttlInvalid, "ttlMs must be an integer between " ++ toString MIN_TTL_MS ++ " and " ++
                    toString maxTtlMs⟩, s)
                else s.grant o userId target reason ttlMs.toNat
              | .other =>
                (.error ⟨.ttlInvalid, "ttlMs must be an integer between " ++ toString MIN_TTL_MS ++ " and " ++
                  toString maxTtlMs⟩, s)
        | _, _ => (.error ⟨.notPermitted, "break-glass is not permitted for this principal"⟩, s)
    | _ =>
      -- Nobody, or no object: the policy denies.
      let (_, s) := s.clock o
      (.error ⟨.notPermitted, "break-glass is not permitted for this principal"⟩, s)

def authorize (s : Registry T) (principal : Caller T) (action : String) (resource : Resource) : Decision × Registry T :=
  let (_, s) := s.sweep o
  let (now, s) := s.clock o
  match principal with
  | .object p =>
    let (grants, s) := s.live o p.userId
    match Rbac.authorize (.object { p with breakGlass := some grants }) action resource (some now) with
    | .allow .breakGlass gid =>
      let target := match resource with
        | .memoryUser owner => owner.getD ""
        | _ => ""
      match s.record o "break-glass.used" p.userId target (.used gid action) with
      | (false, s) => (.deny .auditFailed, s)
      | (true, s) => (.allow .breakGlass gid, s)
    | d => (d, s)
  | caller => (Rbac.authorize caller action resource (some now), s)

end

end Registry

/-! ### Histories -/

inductive Op (T : Type)
  | request (holder : Caller T) (req : BreakGlassRequest)
  | revoke (actor : Caller T) (grantId : String)
  | sweep
  | active (holderUserId : String)
  | authorize (principal : Caller T) (action : String) (resource : Resource)
  deriving DecidableEq, Repr

/-- The registry after one more call. -/
def act {T : Type} [Instants T] (o : Outside T) (s : Registry T) : Op T → Registry T
  | .request holder req => (s.request o holder req).2
  | .revoke actor grantId => (s.revoke o actor grantId).2
  | .sweep => (s.sweep o).2
  | .active holderUserId => (s.active o holderUserId).2
  | .authorize principal action resource => (s.authorize o principal action resource).2

end Plur1bus.Rbac
