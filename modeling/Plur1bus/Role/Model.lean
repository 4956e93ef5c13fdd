import Mathlib.Data.String.Basic
import Plur1bus.Program.Outcome

/-!
The role of a node in its cluster: the record, its validation and the pure
transition function `apply`. Times and epochs are 64-bit numbers in the source;
here they are natural numbers with the source's checked and saturating
additions, so an event may carry any number.

`step` answers the record after an event, before the caller's time and name are
stamped on it; `apply` validates, steps, stamps and validates again.
-/

namespace Plur1bus.Role

open Program

def U64_MAX : ℕ := 2 ^ 64 - 1

def checkedAdd (a b : ℕ) : Option ℕ := if a + b ≤ U64_MAX then some (a + b) else none

def saturatingAdd (a b : ℕ) : ℕ := min (a + b) U64_MAX

/-! ### Data -/

def ROLE_SCHEMA : String := "plur1bus.role/1"

inductive Role
  | standalone | primary | client | handingOver | pending | fenced
  deriving DecidableEq, Repr

/-- Only a standalone node and a primary may run writers. -/
def Role.writersAllowed : Role → Bool
  | .standalone | .primary => true
  | _ => false

inductive ReachKind
  | ssh | tailnet | network
  deriving DecidableEq, Repr

inductive HandoverSide
  | source | target
  deriving DecidableEq, Repr

structure Reach where
  kind : ReachKind
  reference : String
  deriving DecidableEq, Repr

structure NodeRef where
  nodeId : String
  nodeKeyFingerprint : String
  displayName : String
  reach : Reach
  deriving DecidableEq, Repr

structure Handover where
  id : String
  side : HandoverSide
  peerNodeId : String
  peerKeyFingerprint : String
  bundleSha256 : Option String
  expectedEpoch : Option ℕ
  startedAtMs : ℕ
  leaseExpiresAtMs : ℕ
  previousRole : Role
  previousClusterId : Option String
  previousEpoch : ℕ
  deriving DecidableEq, Repr

structure Frozen where
  epoch : ℕ
  bundleSha256 : String
  frozenAtMs : ℕ
  rollbackUntilMs : ℕ
  deriving DecidableEq, Repr

structure RoleRecord where
  schema : String
  role : Role
  epoch : ℕ
  clusterId : Option String
  nodeId : String
  nodeKeyFingerprint : String
  primary : Option NodeRef
  handover : Option Handover
  frozen : Option Frozen
  highestSeenEpoch : ℕ
  lastPrimaryContactAtMs : Option ℕ
  changedAtMs : ℕ
  changedBy : String
  deriving DecidableEq, Repr

inductive RoleError
  | invalidTransition (role : Role) (event : String)
  | invalidInput (field : String)
  | staleEpoch (got highest : ℕ)
  | foreignCluster
  | targetNotEmpty
  | leaseExpired
  | epochExhausted
  | receiptInvalid (field : String)
  | commitInvalid (field : String)
  | takeoverTooEarly (remainingMs : ℕ)
  | unconfirmed
  | rollbackExpired
  | recordCorrupt (detail : String)
  | io (detail : String)
  deriving DecidableEq, Repr

inductive Event
  | prepare (handoverId targetNodeId targetKeyFingerprint : String) (newClusterId : Option String)
      (leaseTtlMs : ℕ)
  | bundleReady (bundleSha256 : String)
  | renewLease (leaseTtlMs : ℕ)
  | abort
  | commit (receiptHandoverId receiptBundleSha256 receiptTargetNodeId : String) (primary : NodeRef)
      (rollbackWindowMs : ℕ)
  | accept (handoverId clusterId : String) (bundleEpoch : ℕ)
      (bundleSha256 sourceNodeId sourceKeyFingerprint : String) (targetIsFresh replace : Bool)
      (leaseTtlMs : ℕ)
  | activate (tokenHandoverId tokenClusterId : String) (tokenEpoch : ℕ)
      (tokenBundleSha256 tokenTargetNodeId : String)
  | discard
  | forceTakeover (minUnreachableMs : ℕ) (confirmed : Bool)
  | restoreFrozen (confirmed : Bool) (serverDemotedEpoch : ℕ)
  /-- What an authenticated peer says of itself; the primary is descriptive only. -/
  | observed (clusterId : String) (epoch : ℕ) (peerNodeId : String) (peerIsWriter : Bool)
      (primary : Option NodeRef)
  | resolveAsClient (epoch : ℕ) (primary : NodeRef)
  | join (clusterId : String) (epoch : ℕ) (primary : NodeRef) (nodeIsFresh : Bool)
  | leave (confirmed : Bool)
  deriving DecidableEq, Repr

def Event.name : Event → String
  | .prepare .. => "prepare"
  | .bundleReady .. => "bundle-ready"
  | .renewLease .. => "renew-lease"
  | .abort => "abort"
  | .commit .. => "commit"
  | .accept .. => "accept"
  | .activate .. => "activate"
  | .discard => "discard"
  | .forceTakeover .. => "force-takeover"
  | .restoreFrozen .. => "restore-frozen"
  | .observed .. => "observed"
  | .resolveAsClient .. => "resolve-as-client"
  | .join .. => "join"
  | .leave .. => "leave"

/-! ### Validation -/

abbrev Checked := Except RoleError Unit

def ensureField (ok : Bool) (field : String) : Checked := ensure (ok = true) (.invalidInput field)

def isLowerHex (c : Char) : Bool := ('0' ≤ c && c ≤ '9') || ('a' ≤ c && c ≤ 'f')

/-- The canonical form that `Uuid::to_string` prints: lower-case hexadecimal in
groups of 8, 4, 4, 4 and 12. -/
def isUuid (s : String) : Bool := s.toList.length = 36 && s.toList.zipIdx.all fun (c, i) =>
    if i = 8 ∨ i = 13 ∨ i = 18 ∨ i = 23 then c = '-' else isLowerHex c

def isFingerprint (s : String) : Bool := "sha256:".toList.isPrefixOf s.toList &&
    (s.toList.drop 7).length = 43 &&
    (s.toList.drop 7).all fun c => c.isAlphanum || c = '-' || c = '_'

def isSha256 (s : String) : Bool := s.toList.length = 64 && s.toList.all isLowerHex

/-- `char::is_control`. -/
def isControl (c : Char) : Bool := c.toNat < 0x20 || (0x7f ≤ c.toNat && c.toNat < 0xa0)

def textOk (s : String) (maxChars : ℕ) : Bool :=
  1 ≤ s.toList.length && s.toList.length ≤ maxChars && !s.toList.any isControl

/-- The first invalid part of a node reference. -/
def nodeRefProblem (n : NodeRef) : Option String :=
  if !isUuid n.nodeId then some "nodeId"
  else if !isFingerprint n.nodeKeyFingerprint then some "nodeKeyFingerprint"
  else if !textOk n.displayName 128 then some "displayName"
  else if !textOk n.reach.reference 256 then some "reach.ref"
  else none

def validatePrimary (n : NodeRef) : Checked :=
  match nodeRefProblem n with
  | none => .ok ()
  | some "nodeId" => .error (.invalidInput "primary.nodeId")
  | some "nodeKeyFingerprint" => .error (.invalidInput "primary.nodeKeyFingerprint")
  | some "displayName" => .error (.invalidInput "primary.displayName")
  | some _ => .error (.invalidInput "primary.reach.ref")

/-- A check of an option's value, when there is one. -/
def ifSome {α : Type} (o : Option α) (f : α → Checked) : Checked :=
  match o with
  | none => .ok ()
  | some a => f a

namespace RoleRecord

def standalone (nodeId nodeKeyFingerprint : String) (nowMs : ℕ) (actor : String) : RoleRecord where
  schema := ROLE_SCHEMA
  role := .standalone
  epoch := 0
  clusterId := none
  nodeId := nodeId
  nodeKeyFingerprint := nodeKeyFingerprint
  primary := none
  handover := none
  frozen := none
  highestSeenEpoch := 0
  lastPrimaryContactAtMs := none
  changedAtMs := nowMs
  changedBy := actor

variable (r : RoleRecord)

def clustered (want : Bool) : Checked := ensureField (r.clusterId.isSome = want) "clusterId"

def noPrimary : Checked := ensureField r.primary.isNone "primary"

def noHandover : Checked := ensureField r.handover.isNone "handover"

def noFrozen : Checked := ensureField r.frozen.isNone "frozen"

def minEpoch (min : ℕ) : Checked := ensureField (min ≤ r.epoch) "epoch"

def someHandover : Except RoleError Handover :=
  match r.handover with
  | some h => .ok h
  | none => .error (.invalidInput "handover")

def validateRole : Checked :=
  match r.role with
  | .standalone => do
    r.clustered false
    ensureField (r.epoch = 0) "epoch"
    r.noPrimary
    r.noHandover
    r.noFrozen
    ensureField (r.highestSeenEpoch = 0) "highestSeenEpoch"
    ensureField r.lastPrimaryContactAtMs.isNone "lastPrimaryContactAtMs"
  | .primary => do
    r.clustered true
    r.minEpoch 1
    r.noPrimary
    r.noHandover
    r.noFrozen
  | .client => do
    r.clustered true
    r.minEpoch 1
    ensureField r.primary.isSome "primary"
    r.noHandover
  | .handingOver => do
    r.clustered true
    r.minEpoch 1
    r.noPrimary
    let h ← r.someHandover
    ensureField (h.side = .source) "handover.side"
    r.noFrozen
  | .pending => do
    r.clustered true
    let h ← r.someHandover
    ensureField (h.side = .target) "handover.side"
    ensureField h.bundleSha256.isSome "handover.bundleSha256"
    ensureField h.expectedEpoch.isSome "handover.expectedEpoch"
  | .fenced => do
    r.clustered true
    r.minEpoch 1
    r.noHandover
    r.noFrozen

/-- Every rule of the record format. -/
def validate : Checked := do
  ensureField (r.schema = ROLE_SCHEMA) "schema"
  ensureField (isUuid r.nodeId) "nodeId"
  ensureField (isFingerprint r.nodeKeyFingerprint) "nodeKeyFingerprint"
  ifSome r.clusterId fun c => ensureField (isUuid c) "clusterId"
  ensureField (textOk r.changedBy 128) "changedBy"
  ifSome r.primary fun p => do
    validatePrimary p
    ensureField (p.nodeId ≠ r.nodeId) "primary.nodeId"
  ifSome r.handover fun h => do
    ensureField (isUuid h.id) "handover.id"
    ensureField (isUuid h.peerNodeId) "handover.peerNodeId"
    ensureField (isFingerprint h.peerKeyFingerprint) "handover.peerKeyFingerprint"
    ifSome h.bundleSha256 fun b => ensureField (isSha256 b) "handover.bundleSha256"
    ensureField (h.peerNodeId ≠ r.nodeId) "handover.peerNodeId"
  ifSome r.frozen fun f => do
    ensureField (isSha256 f.bundleSha256) "frozen.bundleSha256"
    ensureField (f.frozenAtMs ≤ f.rollbackUntilMs) "frozen.rollbackUntilMs"
  ensureField (r.epoch ≤ r.highestSeenEpoch) "highestSeenEpoch"
  r.validateRole

end RoleRecord

/-! ### Transitions -/

/-- Milliseconds a client still has to wait before a forced takeover. -/
def takeoverRemainingMs (rec' : RoleRecord) (nowMs minUnreachableMs : ℕ) : ℕ :=
  saturatingAdd (rec'.lastPrimaryContactAtMs.getD rec'.changedAtMs) minUnreachableMs - nowMs

def need (rec' : RoleRecord) (event : String) (roles : List Role) : Checked :=
  ensure (rec'.role ∈ roles) (.invalidTransition rec'.role event)

def handoverOf (rec' : RoleRecord) : Except RoleError Handover :=
  match rec'.handover with
  | some h => .ok h
  | none => .error (.invalidInput "handover")

def clusterOf (rec' : RoleRecord) : Except RoleError String :=
  match rec'.clusterId with
  | some c => .ok c
  | none => .error (.invalidInput "clusterId")

def checkRef (n : NodeRef) (field : String) : Checked := ensureField (nodeRefProblem n).isNone field

/-- The value, or the error. -/
def orError {α : Type} (e : RoleError) : Option α → Except RoleError α
  | some a => .ok a
  | none => .error e

/-- Back to the role held before a handover began. -/
def restorePrevious (out : RoleRecord) (ho : Handover) : RoleRecord := let out := { out with
    role := ho.previousRole
    epoch := ho.previousEpoch
    clusterId := ho.previousClusterId
    handover := none }
  if out.role = .standalone then
    { out with
      highestSeenEpoch := 0
      primary := none
      frozen := none
      lastPrimaryContactAtMs := none }
  else out

/-- The node's identity kept, everything about a cluster gone. -/
def becomeStandalone (out : RoleRecord) : RoleRecord := { out with
    role := .standalone
    clusterId := none
    epoch := 0
    highestSeenEpoch := 0
    primary := none
    handover := none
    frozen := none
    lastPrimaryContactAtMs := none }

/-- `Lease::grant(now, ttl).expires_at_ms()`. -/
def leaseExpiresAt (now ttlMs : ℕ) : ℕ := saturatingAdd now ttlMs

namespace Source

/-- The cluster and the epoch a handover starts in. -/
def preparedCluster (rec' : RoleRecord) (newClusterId : Option String) : Except RoleError (String × ℕ) :=
  if rec'.role = .standalone then do
    let c ← orError (.invalidInput "newClusterId") newClusterId
    pure (c, 1)
  else do
    ensureField newClusterId.isNone "newClusterId"
    let c ← clusterOf rec'
    pure (c, rec'.epoch)

def prepare (rec' : RoleRecord) (handoverId targetNodeId targetKeyFingerprint : String)
    (newClusterId : Option String) (leaseTtlMs now : ℕ) : Except RoleError RoleRecord := do
  need rec' "prepare" [.standalone, .primary]
  ensureField (isUuid handoverId) "handoverId"
  ensureField (isUuid targetNodeId) "targetNodeId"
  ensureField (isFingerprint targetKeyFingerprint) "targetKeyFingerprint"
  ifSome newClusterId fun c => ensureField (isUuid c) "newClusterId"
  let (cluster, epoch) ← preparedCluster rec' newClusterId
  ensureField (targetNodeId ≠ rec'.nodeId) "targetNodeId"
  pure { rec' with
    role := .handingOver
    clusterId := some cluster
    epoch := epoch
    highestSeenEpoch := max rec'.highestSeenEpoch epoch
    handover := some
      { id := handoverId
        side := .source
        peerNodeId := targetNodeId
        peerKeyFingerprint := targetKeyFingerprint
        bundleSha256 := none
        expectedEpoch := none
        startedAtMs := now
        leaseExpiresAtMs := leaseExpiresAt now leaseTtlMs
        previousRole := .primary
        previousClusterId := some cluster
        previousEpoch := epoch } }

def bundleReady (rec' : RoleRecord) (bundleSha256 : String) : Except RoleError RoleRecord := do
  need rec' "bundle-ready" [.handingOver]
  ensureField (isSha256 bundleSha256) "bundleSha256"
  let ho ← handoverOf rec'
  ensure (ho.bundleSha256.isNone = true) (.invalidTransition rec'.role "bundle-ready")
  pure { rec' with handover := some { ho with bundleSha256 := some bundleSha256 } }

def renewLease (rec' : RoleRecord) (leaseTtlMs now : ℕ) : Except RoleError RoleRecord := do
  need rec' "renew-lease" [.handingOver, .pending]
  let ho ← handoverOf rec'
  ensure (now ≤ ho.leaseExpiresAtMs) .leaseExpired
  pure { rec' with handover := some { ho with leaseExpiresAtMs := leaseExpiresAt now leaseTtlMs } }

def abort (rec' : RoleRecord) : Except RoleError RoleRecord := do
  need rec' "abort" [.handingOver]
  let ho ← handoverOf rec'
  pure (restorePrevious rec' ho)

def receipt (ok : Bool) (field : String) : Checked := ensure (ok = true) (.receiptInvalid field)

def commit (rec' : RoleRecord) (receiptHandoverId receiptBundleSha256 receiptTargetNodeId : String)
    (primary : NodeRef) (rollbackWindowMs now : ℕ) : Except RoleError RoleRecord := do
  need rec' "commit" [.handingOver]
  let ho ← handoverOf rec'
  ensure (now ≤ ho.leaseExpiresAtMs) .leaseExpired
  let bundle ← orError (.receiptInvalid "bundleSha256") ho.bundleSha256
  receipt (receiptHandoverId = ho.id) "handoverId"
  receipt (receiptBundleSha256 = bundle) "bundleSha256"
  receipt (receiptTargetNodeId = ho.peerNodeId) "targetNodeId"
  receipt (primary.nodeId = ho.peerNodeId && primary.nodeKeyFingerprint = ho.peerKeyFingerprint)
    "primary"
  checkRef primary "primary"
  let epoch ← orError .epochExhausted (checkedAdd rec'.epoch 1)
  pure { rec' with
    role := .client
    epoch := epoch
    highestSeenEpoch := max rec'.highestSeenEpoch epoch
    primary := some primary
    frozen := some
      { epoch := rec'.epoch
        bundleSha256 := bundle
        frozenAtMs := now
        rollbackUntilMs := saturatingAdd now rollbackWindowMs }
    handover := none
    lastPrimaryContactAtMs := some now }

end Source

namespace Target

def accept (rec' : RoleRecord) (handoverId clusterId : String) (bundleEpoch : ℕ)
    (bundleSha256 sourceNodeId sourceKeyFingerprint : String) (targetIsFresh replace : Bool)
    (leaseTtlMs now : ℕ) : Except RoleError RoleRecord := do
  need rec' "accept" [.standalone, .client]
  ensureField (isUuid handoverId) "handoverId"
  ensureField (isUuid clusterId) "clusterId"
  ensureField (isSha256 bundleSha256) "bundleSha256"
  ensureField (isUuid sourceNodeId) "sourceNodeId"
  ensureField (isFingerprint sourceKeyFingerprint) "sourceKeyFingerprint"
  ensureField (sourceNodeId ≠ rec'.nodeId) "sourceNodeId"
  (if rec'.role = .standalone then ensure ((targetIsFresh || replace) = true) .targetNotEmpty
  else ensure (rec'.clusterId = some clusterId) .foreignCluster)
  ensure (rec'.highestSeenEpoch ≤ bundleEpoch) (.staleEpoch bundleEpoch rec'.highestSeenEpoch)
  let expected ← orError .epochExhausted (checkedAdd bundleEpoch 1)
  pure { rec' with
    role := .pending
    clusterId := some clusterId
    highestSeenEpoch := max rec'.highestSeenEpoch bundleEpoch
    handover := some
      { id := handoverId
        side := .target
        peerNodeId := sourceNodeId
        peerKeyFingerprint := sourceKeyFingerprint
        bundleSha256 := some bundleSha256
        expectedEpoch := some expected
        startedAtMs := now
        leaseExpiresAtMs := leaseExpiresAt now leaseTtlMs
        previousRole := rec'.role
        previousClusterId := rec'.clusterId
        previousEpoch := rec'.epoch } }

def token (ok : Bool) (field : String) : Checked := ensure (ok = true) (.commitInvalid field)

def activate (rec' : RoleRecord) (tokenHandoverId tokenClusterId : String) (tokenEpoch : ℕ)
    (tokenBundleSha256 tokenTargetNodeId : String) : Except RoleError RoleRecord := do
  need rec' "activate" [.pending]
  let ho ← handoverOf rec'
  token (tokenHandoverId = ho.id) "handoverId"
  token (rec'.clusterId = some tokenClusterId) "clusterId"
  token (tokenTargetNodeId = rec'.nodeId) "targetNodeId"
  token (ho.bundleSha256 = some tokenBundleSha256) "bundleSha256"
  token (ho.expectedEpoch = some tokenEpoch) "epoch"
  ensure (rec'.highestSeenEpoch ≤ tokenEpoch) (.staleEpoch tokenEpoch rec'.highestSeenEpoch)
  pure { rec' with
    role := .primary
    epoch := tokenEpoch
    highestSeenEpoch := max rec'.highestSeenEpoch tokenEpoch
    primary := none
    handover := none
    frozen := none
    lastPrimaryContactAtMs := none }

def discard (rec' : RoleRecord) : Except RoleError RoleRecord := do
  need rec' "discard" [.pending]
  let ho ← handoverOf rec'
  pure (restorePrevious rec' ho)

end Target

namespace Membership

/-- A new primary at `epoch`. -/
def takeOver (rec' : RoleRecord) (epoch : ℕ) : RoleRecord := { rec' with
    role := .primary
    epoch := epoch
    highestSeenEpoch := epoch
    primary := none
    frozen := none
    lastPrimaryContactAtMs := none }

def forceTakeover (rec' : RoleRecord) (minUnreachableMs : ℕ) (confirmed : Bool) (now : ℕ) :
    Except RoleError RoleRecord := do
  need rec' "force-takeover" [.client]
  ensure (confirmed = true) .unconfirmed
  ensure (takeoverRemainingMs rec' now minUnreachableMs = 0)
    (.takeoverTooEarly (takeoverRemainingMs rec' now minUnreachableMs))
  let epoch ← orError .epochExhausted (checkedAdd rec'.highestSeenEpoch 1)
  pure (takeOver rec' epoch)

def restoreFrozen (rec' : RoleRecord) (confirmed : Bool) (serverDemotedEpoch now : ℕ) :
    Except RoleError RoleRecord := do
  need rec' "restore-frozen" [.client]
  let frozen ← orError (.invalidTransition rec'.role "restore-frozen") rec'.frozen
  ensure (confirmed = true) .unconfirmed
  ensure (now ≤ frozen.rollbackUntilMs) .rollbackExpired
  ensure (rec'.epoch ≤ serverDemotedEpoch) (.staleEpoch serverDemotedEpoch rec'.epoch)
  let epoch ← orError .epochExhausted
    (checkedAdd (max rec'.highestSeenEpoch serverDemotedEpoch) 1)
  pure (takeOver rec' epoch)

def resolveAsClient (rec' : RoleRecord) (epoch : ℕ) (primary : NodeRef) (now : ℕ) :
    Except RoleError RoleRecord := do
  need rec' "resolve-as-client" [.fenced]
  checkRef primary "primary"
  ensure (rec'.highestSeenEpoch ≤ epoch) (.staleEpoch epoch rec'.highestSeenEpoch)
  ensureField (primary.nodeId ≠ rec'.nodeId) "primary"
  pure { rec' with
    role := .client
    epoch := epoch
    highestSeenEpoch := max rec'.highestSeenEpoch epoch
    primary := some primary
    frozen := none
    lastPrimaryContactAtMs := some now }

def join (rec' : RoleRecord) (clusterId : String) (epoch : ℕ) (primary : NodeRef)
    (nodeIsFresh : Bool) (now : ℕ) : Except RoleError RoleRecord := do
  need rec' "join" [.standalone]
  ensureField (isUuid clusterId) "clusterId"
  checkRef primary "primary"
  ensure (nodeIsFresh = true) .targetNotEmpty
  ensureField (1 ≤ epoch) "epoch"
  ensureField (primary.nodeId ≠ rec'.nodeId) "primary"
  pure { rec' with
    role := .client
    clusterId := some clusterId
    epoch := epoch
    highestSeenEpoch := epoch
    primary := some primary
    lastPrimaryContactAtMs := some now }

def leave (rec' : RoleRecord) (confirmed : Bool) (now : ℕ) : Except RoleError RoleRecord := do
  need rec' "leave" [.client]
  ensure (¬((rec'.frozen.any fun f => now < f.rollbackUntilMs) = true ∧ confirmed = false))
    .unconfirmed
  pure (becomeStandalone rec')

end Membership

namespace Fence

inductive EpochVerdict
  | same | localBehind | localAhead | foreignCluster
  deriving DecidableEq, Repr

/-- Peer facts against a record: the higher epoch first, then the lower node id
of two writers. -/
def compare (localRec : RoleRecord) (clusterId : String) (epoch : ℕ) (peerNodeId : String)
    (peerIsWriter : Bool) : EpochVerdict :=
  if localRec.clusterId ≠ some clusterId then .foreignCluster
  else if epoch = localRec.epoch then
    if peerIsWriter = true ∧ peerNodeId ≠ localRec.nodeId ∧
        (localRec.role = .primary ∨ localRec.role = .handingOver) then
      if peerNodeId < localRec.nodeId then .localBehind else .localAhead
    else .same
  else if epoch > localRec.epoch then .localBehind
  else .localAhead

end Fence

namespace Observation

/-- Display data that can be kept: a valid reference to another node. -/
def usable (rec' : RoleRecord) (primary : Option NodeRef) : Option NodeRef :=
  primary.filter fun p => (nodeRefProblem p).isNone && p.nodeId ≠ rec'.nodeId

def raise (e : ℕ) (out : RoleRecord) : RoleRecord :=
  { out with highestSeenEpoch := max out.highestSeenEpoch e }

/-- Contact that reveals the cluster's current epoch `e`. -/
def observe (rec' : RoleRecord) (e : ℕ) (peerNodeId : String) (peerIsWriter : Bool)
    (primary : Option NodeRef) (now : ℕ) : Except RoleError RoleRecord :=
  let primary := usable rec' primary
  match rec'.role with
  | .primary | .handingOver =>
    let out := raise e rec'
    if Fence.compare rec' (rec'.clusterId.getD "") e peerNodeId peerIsWriter = .localBehind then
      .ok { out with role := .fenced, handover := none, primary := primary.or rec'.primary }
    else .ok out
  | .client =>
    if rec'.epoch ≤ e then
      let out := if rec'.epoch < e then raise e { rec' with epoch := e } else rec'
      .ok { out with primary := primary.or out.primary, lastPrimaryContactAtMs := some now }
    else .ok rec'
  | .pending => do
    let ho ← handoverOf rec'
    if ho.expectedEpoch.getD U64_MAX < e then
      let out := restorePrevious rec' ho
      pure (if out.role ≠ .standalone then raise e out else out)
    else pure (raise e rec')
  | .fenced => .ok (raise e rec')
  | .standalone => .error .foreignCluster

def step (rec' : RoleRecord) (clusterId : String) (e : ℕ) (peerNodeId : String)
    (peerIsWriter : Bool) (primary : Option NodeRef) (now : ℕ) : Except RoleError RoleRecord := do
  ensureField (isUuid clusterId) "clusterId"
  ensureField (isUuid peerNodeId) "peerNodeId"
  ensure (rec'.clusterId = some clusterId) .foreignCluster
  observe rec' e peerNodeId peerIsWriter primary now

end Observation

def step (rec' : RoleRecord) (now : ℕ) : Event → Except RoleError RoleRecord
  | .prepare handoverId targetNodeId targetKeyFingerprint newClusterId leaseTtlMs =>
    Source.prepare rec' handoverId targetNodeId targetKeyFingerprint newClusterId leaseTtlMs now
  | .bundleReady bundleSha256 => Source.bundleReady rec' bundleSha256
  | .renewLease leaseTtlMs => Source.renewLease rec' leaseTtlMs now
  | .abort => Source.abort rec'
  | .commit receiptHandoverId receiptBundleSha256 receiptTargetNodeId primary rollbackWindowMs =>
    Source.commit rec' receiptHandoverId receiptBundleSha256 receiptTargetNodeId primary
      rollbackWindowMs now
  | .accept handoverId clusterId bundleEpoch bundleSha256 sourceNodeId sourceKeyFingerprint
      targetIsFresh replace leaseTtlMs =>
    Target.accept rec' handoverId clusterId bundleEpoch bundleSha256 sourceNodeId
      sourceKeyFingerprint targetIsFresh replace leaseTtlMs now
  | .activate tokenHandoverId tokenClusterId tokenEpoch tokenBundleSha256 tokenTargetNodeId =>
    Target.activate rec' tokenHandoverId tokenClusterId tokenEpoch tokenBundleSha256
      tokenTargetNodeId
  | .discard => Target.discard rec'
  | .forceTakeover minUnreachableMs confirmed =>
    Membership.forceTakeover rec' minUnreachableMs confirmed now
  | .restoreFrozen confirmed serverDemotedEpoch =>
    Membership.restoreFrozen rec' confirmed serverDemotedEpoch now
  | .resolveAsClient epoch primary => Membership.resolveAsClient rec' epoch primary now
  | .join clusterId epoch primary nodeIsFresh =>
    Membership.join rec' clusterId epoch primary nodeIsFresh now
  | .leave confirmed => Membership.leave rec' confirmed now
  | .observed clusterId epoch peerNodeId peerIsWriter primary =>
    Observation.step rec' clusterId epoch peerNodeId peerIsWriter primary now

/-- Applies one event. An event that changes nothing leaves the time and the name
of the last change as they are. -/
def apply (rec' : RoleRecord) (ev : Event) (nowMs : ℕ) (actor : String) : Except RoleError RoleRecord := do
  rec'.validate
  let out ← step rec' nowMs ev
  if out = rec' then pure out
  else do
    let out := { out with changedAtMs := nowMs, changedBy := actor }
    out.validate
    pure out

end Plur1bus.Role
