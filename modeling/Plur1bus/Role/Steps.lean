import Plur1bus.Role.Model

/-!
What validation asks of a record, and what each event can do to one. A record
that validates is `Valid`; an accepted event tells the guards that held and the
record it left. Everything later in this directory is argued from these.
-/

namespace Plur1bus.Role

open Program List

/-! ### Valid records -/

variable {field : String} {u : Unit}

@[simp] theorem ensureField_ok {ok : Bool} : ensureField ok field = .ok u ↔ ok = true := ensure_ok

@[simp] theorem ifSome_ok {α : Type} {o : Option α} {f : α → Checked} :
    ifSome o f = .ok u ↔ ∀ a, o = some a → f a = .ok () := by
  cases o <;> simp [ifSome]

@[simp] theorem orError_ok {α : Type} {e : RoleError} {o : Option α} {a : α} :
    orError e o = .ok a ↔ o = some a := by
  cases o <;> simp [orError]

variable {r : RoleRecord}

@[simp] theorem handoverOf_ok {ho : Handover} : handoverOf r = .ok ho ↔ r.handover = some ho := by
  unfold handoverOf
  cases r.handover <;> simp

@[simp] theorem clusterOf_ok {c : String} : clusterOf r = .ok c ↔ r.clusterId = some c := by
  unfold clusterOf
  cases r.clusterId <;> simp

@[simp] theorem need_ok {event : String} {roles : List Role} :
    need r event roles = .ok u ↔ r.role ∈ roles := ensure_ok

variable {n : NodeRef}

@[simp] theorem checkRef_ok : checkRef n field = .ok u ↔ nodeRefProblem n = none := by
  simp [checkRef]

@[simp] theorem validatePrimary_ok : validatePrimary n = .ok u ↔ nodeRefProblem n = none := by
  unfold validatePrimary
  split <;> simp_all

theorem checkedAdd_eq_some {a b c : ℕ} : checkedAdd a b = some c ↔ c = a + b ∧ a + b ≤ U64_MAX := by
  unfold checkedAdd
  split <;> simp_all [eq_comm]

/-- A reference to a node other than the record's own. -/
structure ValidRef (nodeId : String) (n : NodeRef) : Prop where
  ref : nodeRefProblem n = none
  other : n.nodeId ≠ nodeId

structure ValidHandover (nodeId : String) (h : Handover) : Prop where
  id : isUuid h.id = true
  peer : isUuid h.peerNodeId = true
  key : isFingerprint h.peerKeyFingerprint = true
  bundle : ∀ b, h.bundleSha256 = some b → isSha256 b = true
  other : h.peerNodeId ≠ nodeId

structure ValidFrozen (f : Frozen) : Prop where
  bundle : isSha256 f.bundleSha256 = true
  window : f.frozenAtMs ≤ f.rollbackUntilMs

/-- What the role asks of the other fields. -/
def RoleShape (r : RoleRecord) : Prop :=
  match r.role with
  | .standalone => r.clusterId = none ∧ r.epoch = 0 ∧ r.primary = none ∧ r.handover = none ∧
      r.frozen = none ∧ r.highestSeenEpoch = 0 ∧ r.lastPrimaryContactAtMs = none
  | .primary => r.clusterId.isSome = true ∧ 1 ≤ r.epoch ∧ r.primary = none ∧ r.handover = none ∧
      r.frozen = none
  | .client => r.clusterId.isSome = true ∧ 1 ≤ r.epoch ∧ r.primary.isSome = true ∧ r.handover = none
  | .handingOver => r.clusterId.isSome = true ∧ 1 ≤ r.epoch ∧ r.primary = none ∧
      ∃ h, r.handover = some h ∧ h.side = .source ∧ r.frozen = none
  | .pending => r.clusterId.isSome = true ∧ ∃ h, r.handover = some h ∧ h.side = .target ∧
      h.bundleSha256.isSome = true ∧ h.expectedEpoch.isSome = true
  | .fenced => r.clusterId.isSome = true ∧ 1 ≤ r.epoch ∧ r.handover = none ∧ r.frozen = none

structure Valid (r : RoleRecord) : Prop where
  schema : r.schema = ROLE_SCHEMA
  nodeId : isUuid r.nodeId = true
  key : isFingerprint r.nodeKeyFingerprint = true
  clusterId : ∀ c, r.clusterId = some c → isUuid c = true
  changedBy : textOk r.changedBy 128 = true
  primary : ∀ p, r.primary = some p → ValidRef r.nodeId p
  handover : ∀ h, r.handover = some h → ValidHandover r.nodeId h
  frozen : ∀ f, r.frozen = some f → ValidFrozen f
  seen : r.epoch ≤ r.highestSeenEpoch
  shape : RoleShape r

theorem validateRole_ok : r.validateRole = .ok u ↔ RoleShape r := by
  have hsome : ∀ h, r.someHandover = .ok h ↔ r.handover = some h := by
    intro h
    unfold RoleRecord.someHandover
    cases r.handover <;> simp
  unfold RoleRecord.validateRole RoleShape
  cases r.role <;>
    simp [bind_ok, RoleRecord.clustered, RoleRecord.noPrimary, RoleRecord.noHandover,
      RoleRecord.noFrozen, RoleRecord.minEpoch, hsome]

theorem validate_iff : r.validate = .ok () ↔ Valid r := by
  unfold RoleRecord.validate
  simp only [bind_ok, ensureField_ok, ifSome_ok, validatePrimary_ok, validateRole_ok,
    decide_eq_true_eq, exists_const]
  constructor
  · rintro ⟨hschema, hnode, hkey, hcluster, hby, hprimary, hhandover, hfrozen, hseen, hshape⟩
    refine ⟨hschema, hnode, hkey, hcluster, hby, fun p hp => ?_, fun h hh => ?_, fun f hf => ?_,
      hseen, hshape⟩
    · obtain ⟨href, hother⟩ := hprimary p hp
      exact ⟨href, hother⟩
    · obtain ⟨hid, hpeer, hpeerKey, hbundle, hother⟩ := hhandover h hh
      exact ⟨hid, hpeer, hpeerKey, hbundle, hother⟩
    · obtain ⟨hbundle, hwindow⟩ := hfrozen f hf
      exact ⟨hbundle, hwindow⟩
  · intro h
    refine ⟨h.schema, h.nodeId, h.key, h.clusterId, h.changedBy, fun p hp => ?_, fun ho hho => ?_,
      fun f hf => ?_, h.seen, h.shape⟩
    · exact ⟨(h.primary p hp).ref, (h.primary p hp).other⟩
    · have hv := h.handover ho hho
      exact ⟨hv.id, hv.peer, hv.key, hv.bundle, hv.other⟩
    · exact ⟨(h.frozen f hf).bundle, (h.frozen f hf).window⟩

/-! ### Accepted events -/

section

variable {r out : RoleRecord} {now : ℕ}

variable {handoverId target key : String} {ttl : ℕ}

theorem prepare_ok {newCluster : Option String}
    (h : Source.prepare r handoverId target key newCluster ttl now = .ok out) : ∃ cluster epoch,
      ((r.role = .standalone ∧ newCluster = some cluster ∧ epoch = 1) ∨
        (r.role = .primary ∧ r.clusterId = some cluster ∧ epoch = r.epoch)) ∧
      isUuid handoverId = true ∧ isUuid target = true ∧ isFingerprint key = true ∧
      (∀ c, newCluster = some c → isUuid c = true) ∧ target ≠ r.nodeId ∧
      out = { r with
        role := .handingOver
        clusterId := some cluster
        epoch := epoch
        highestSeenEpoch := max r.highestSeenEpoch epoch
        handover := some
          { id := handoverId
            side := .source
            peerNodeId := target
            peerKeyFingerprint := key
            bundleSha256 := none
            expectedEpoch := none
            startedAtMs := now
            leaseExpiresAtMs := leaseExpiresAt now ttl
            previousRole := .primary
            previousClusterId := some cluster
            previousEpoch := epoch } } := by
  unfold Source.prepare at h
  simp only [bind_ok, need_ok, ensureField_ok, ifSome_ok, exists_const] at h
  obtain ⟨hrole, hid, htarget, hkey, hnew, ⟨cluster, epoch⟩, hcluster, hother, hout⟩ := h
  refine ⟨cluster, epoch, ?_, hid, htarget, hkey, hnew, by simpa using hother, (Except.ok.inj hout).symm⟩
  unfold Source.preparedCluster at hcluster
  split at hcluster
  · rename_i hstandalone
    simp only [bind_ok, orError_ok] at hcluster
    obtain ⟨c, hc, heq⟩ := hcluster
    cases heq
    exact .inl ⟨hstandalone, hc, rfl⟩
  · rename_i hstandalone
    simp only [bind_ok, ensureField_ok, clusterOf_ok, exists_const] at hcluster
    obtain ⟨-, c, hc, heq⟩ := hcluster
    cases heq
    refine .inr ⟨?_, hc, rfl⟩
    simpa [hstandalone] using hrole

variable {bundle : String}

theorem bundleReady_ok (h : Source.bundleReady r bundle = .ok out) :
    r.role = .handingOver ∧ isSha256 bundle = true ∧ ∃ ho, r.handover = some ho ∧ out = { r with
        handover := some { ho with bundleSha256 := some bundle } } := by
  unfold Source.bundleReady at h
  simp only [bind_ok, need_ok, ensureField_ok, handoverOf_ok, ensure_ok, exists_const, mem_singleton] at h
  obtain ⟨hrole, hbundle, ho, hho, -, hout⟩ := h
  exact ⟨hrole, hbundle, ho, hho, (Except.ok.inj hout).symm⟩

theorem renewLease_ok (h : Source.renewLease r ttl now = .ok out) :
    (r.role = .handingOver ∨ r.role = .pending) ∧ ∃ ho, r.handover = some ho ∧ out = { r with
        handover := some { ho with leaseExpiresAtMs := leaseExpiresAt now ttl } } := by
  unfold Source.renewLease at h
  simp only [bind_ok, need_ok, handoverOf_ok, ensure_ok, exists_const, mem_cons, not_mem_nil, or_false] at h
  obtain ⟨hrole, ho, hho, -, hout⟩ := h
  exact ⟨hrole, ho, hho, (Except.ok.inj hout).symm⟩

theorem abort_ok (h : Source.abort r = .ok out) :
    r.role = .handingOver ∧ ∃ ho, r.handover = some ho ∧ out = restorePrevious r ho := by
  unfold Source.abort at h
  simp only [bind_ok, need_ok, handoverOf_ok, exists_const, mem_singleton] at h
  obtain ⟨hrole, ho, hho, hout⟩ := h
  exact ⟨hrole, ho, hho, (Except.ok.inj hout).symm⟩

variable {primary : NodeRef}

theorem commit_ok {receiptId receiptBundle receiptTarget : String} {window : ℕ}
    (h : Source.commit r receiptId receiptBundle receiptTarget primary window now = .ok out) :
    r.role = .handingOver ∧ r.epoch + 1 ≤ U64_MAX ∧ nodeRefProblem primary = none ∧
      ∃ ho bundle, r.handover = some ho ∧ ho.bundleSha256 = some bundle ∧
        primary.nodeId = ho.peerNodeId ∧ out = { r with
          role := .client
          epoch := r.epoch + 1
          highestSeenEpoch := max r.highestSeenEpoch (r.epoch + 1)
          primary := some primary
          frozen := some
            { epoch := r.epoch
              bundleSha256 := bundle
              frozenAtMs := now
              rollbackUntilMs := saturatingAdd now window }
          handover := none
          lastPrimaryContactAtMs := some now } := by
  unfold Source.commit Source.receipt at h
  simp only [bind_ok, need_ok, handoverOf_ok, ensure_ok, orError_ok, checkRef_ok, exists_const,
    mem_singleton, checkedAdd_eq_some, Bool.and_eq_true, decide_eq_true_eq] at h
  obtain ⟨hrole, ho, hho, -, bundle, hbundle, -, -, -, hprimary, href, epoch, ⟨rfl, hmax⟩, hout⟩ := h
  exact ⟨hrole, hmax, href, ho, bundle, hho, hbundle, hprimary.1, (Except.ok.inj hout).symm⟩

variable {cluster : String} {fresh : Bool}

theorem accept_ok {bundleEpoch : ℕ} {source : String} {replace : Bool}
    (h : Target.accept r handoverId cluster bundleEpoch bundle source key fresh replace ttl now =
      .ok out) : (r.role = .standalone ∨ (r.role = .client ∧ r.clusterId = some cluster)) ∧
      isUuid handoverId = true ∧ isUuid cluster = true ∧ isSha256 bundle = true ∧
      isUuid source = true ∧ isFingerprint key = true ∧ source ≠ r.nodeId ∧
      r.highestSeenEpoch ≤ bundleEpoch ∧ out = { r with
        role := .pending
        clusterId := some cluster
        highestSeenEpoch := max r.highestSeenEpoch bundleEpoch
        handover := some
          { id := handoverId
            side := .target
            peerNodeId := source
            peerKeyFingerprint := key
            bundleSha256 := some bundle
            expectedEpoch := some (bundleEpoch + 1)
            startedAtMs := now
            leaseExpiresAtMs := leaseExpiresAt now ttl
            previousRole := r.role
            previousClusterId := r.clusterId
            previousEpoch := r.epoch } } := by
  unfold Target.accept at h
  simp only [bind_ok, need_ok, ensureField_ok, ensure_ok, orError_ok, exists_const, checkedAdd_eq_some] at h
  obtain ⟨hrole, hid, hcluster, hbundle, hsource, hkey, hother, _, hsame, hstale, expected,
    ⟨rfl, -⟩, hout⟩ := h
  refine ⟨?_, hid, hcluster, hbundle, hsource, hkey, by simpa using hother, hstale,
    (Except.ok.inj hout).symm⟩
  split at hsame
  · rename_i hstandalone
    exact .inl hstandalone
  · rename_i hstandalone
    refine .inr ⟨?_, ensure_ok.mp hsame⟩
    simpa [hstandalone] using hrole

variable {epoch : ℕ}

theorem activate_ok {id : String} (h : Target.activate r id cluster epoch bundle target = .ok out) :
    r.role = .pending ∧ r.clusterId = some cluster ∧ target = r.nodeId ∧ r.highestSeenEpoch ≤ epoch ∧
      (∃ ho, r.handover = some ho ∧ id = ho.id ∧ ho.bundleSha256 = some bundle ∧
        ho.expectedEpoch = some epoch) ∧
      out = { r with
        role := .primary
        epoch := epoch
        highestSeenEpoch := max r.highestSeenEpoch epoch
        primary := none
        handover := none
        frozen := none
        lastPrimaryContactAtMs := none } := by
  unfold Target.activate Target.token at h
  simp only [bind_ok, need_ok, handoverOf_ok, ensure_ok, exists_const, mem_singleton,
    decide_eq_true_eq] at h
  obtain ⟨hrole, ho, hho, hid, hcluster, htarget, hbundle, hexpected, hstale, hout⟩ := h
  exact ⟨hrole, hcluster, htarget, hstale, ⟨ho, hho, hid, hbundle, hexpected⟩, (Except.ok.inj hout).symm⟩

theorem discard_ok (h : Target.discard r = .ok out) :
    r.role = .pending ∧ ∃ ho, r.handover = some ho ∧ out = restorePrevious r ho := by
  unfold Target.discard at h
  simp only [bind_ok, need_ok, handoverOf_ok, exists_const, mem_singleton] at h
  obtain ⟨hrole, ho, hho, hout⟩ := h
  exact ⟨hrole, ho, hho, (Except.ok.inj hout).symm⟩

variable {confirmed : Bool}

theorem forceTakeover_ok {wait : ℕ} (h : Membership.forceTakeover r wait confirmed now = .ok out) :
    r.role = .client ∧ out = Membership.takeOver r (r.highestSeenEpoch + 1) := by
  unfold Membership.forceTakeover at h
  simp only [bind_ok, need_ok, ensure_ok, orError_ok, exists_const, mem_singleton, checkedAdd_eq_some] at h
  obtain ⟨hrole, -, -, epoch, ⟨rfl, -⟩, hout⟩ := h
  exact ⟨hrole, (Except.ok.inj hout).symm⟩

theorem restoreFrozen_ok {demoted : ℕ} (h : Membership.restoreFrozen r confirmed demoted now = .ok out) :
    r.role = .client ∧ out = Membership.takeOver r (max r.highestSeenEpoch demoted + 1) := by
  unfold Membership.restoreFrozen at h
  simp only [bind_ok, need_ok, ensure_ok, orError_ok, exists_const, mem_singleton, checkedAdd_eq_some] at h
  obtain ⟨hrole, frozen, -, -, -, -, epoch, ⟨rfl, -⟩, hout⟩ := h
  exact ⟨hrole, (Except.ok.inj hout).symm⟩

theorem resolveAsClient_ok (h : Membership.resolveAsClient r epoch primary now = .ok out) :
    r.role = .fenced ∧ ValidRef r.nodeId primary ∧ r.highestSeenEpoch ≤ epoch ∧ out = { r with
      role := .client
      epoch := epoch
      highestSeenEpoch := max r.highestSeenEpoch epoch
      primary := some primary
      frozen := none
      lastPrimaryContactAtMs := some now } := by
  unfold Membership.resolveAsClient at h
  simp only [bind_ok, need_ok, ensure_ok, ensureField_ok, checkRef_ok, exists_const,
    mem_singleton, decide_eq_true_eq] at h
  obtain ⟨hrole, href, hstale, hother, hout⟩ := h
  exact ⟨hrole, ⟨href, hother⟩, hstale, (Except.ok.inj hout).symm⟩

theorem join_ok (h : Membership.join r cluster epoch primary fresh now = .ok out) :
    r.role = .standalone ∧ isUuid cluster = true ∧ ValidRef r.nodeId primary ∧ 1 ≤ epoch ∧ out = { r with
        role := .client
        clusterId := some cluster
        epoch := epoch
        highestSeenEpoch := epoch
        primary := some primary
        lastPrimaryContactAtMs := some now } := by
  unfold Membership.join at h
  simp only [bind_ok, need_ok, ensure_ok, ensureField_ok, checkRef_ok, exists_const,
    mem_singleton, decide_eq_true_eq] at h
  obtain ⟨hrole, hcluster, href, -, hepoch, hother, hout⟩ := h
  exact ⟨hrole, hcluster, ⟨href, hother⟩, hepoch, (Except.ok.inj hout).symm⟩

theorem leave_ok (h : Membership.leave r confirmed now = .ok out) :
    r.role = .client ∧ out = becomeStandalone r := by
  unfold Membership.leave at h
  simp only [bind_ok, need_ok, ensure_ok, exists_const, mem_singleton] at h
  obtain ⟨hrole, -, hout⟩ := h
  exact ⟨hrole, (Except.ok.inj hout).symm⟩

/-- A peer's facts are taken only in the record's own cluster, and what they do
depends on the role. -/
theorem observed_ok {e : ℕ} {peer : String} {writer : Bool} {primary : Option NodeRef}
    (h : Observation.step r cluster e peer writer primary now = .ok out) : r.clusterId = some cluster ∧
      (((r.role = .primary ∨ r.role = .handingOver) ∧
          ((Fence.compare r cluster e peer writer = .localBehind ∧ out = { Observation.raise e r with
                role := .fenced
                handover := none
                primary := (Observation.usable r primary).or r.primary }) ∨
            (Fence.compare r cluster e peer writer ≠ .localBehind ∧ out = Observation.raise e r))) ∨
        (r.role = .client ∧ ((e < r.epoch ∧ out = r) ∨ (r.epoch = e ∧ out = { r with
              primary := (Observation.usable r primary).or r.primary
              lastPrimaryContactAtMs := some now }) ∨
            (r.epoch < e ∧ out = { r with
              epoch := e
              highestSeenEpoch := max r.highestSeenEpoch e
              primary := (Observation.usable r primary).or r.primary
              lastPrimaryContactAtMs := some now }))) ∨
        (r.role = .pending ∧ ∃ ho, r.handover = some ho ∧ ((ho.expectedEpoch.getD U64_MAX < e ∧
              out = if (restorePrevious r ho).role ≠ .standalone
                then Observation.raise e (restorePrevious r ho) else restorePrevious r ho) ∨
            (e ≤ ho.expectedEpoch.getD U64_MAX ∧ out = Observation.raise e r))) ∨
        (r.role = .fenced ∧ out = Observation.raise e r)) := by
  unfold Observation.step at h
  simp only [bind_ok, ensureField_ok, ensure_ok, exists_const] at h
  obtain ⟨-, -, hcluster, hobs⟩ := h
  refine ⟨hcluster, ?_⟩
  have hget : r.clusterId.getD "" = cluster := by rw [hcluster, Option.getD_some]
  unfold Observation.observe at hobs
  simp only [hget] at hobs
  split at hobs
  case h_1 hrole => grind
  case h_2 hrole => grind
  case h_3 hrole =>
    refine .inr (.inl ⟨hrole, ?_⟩)
    split at hobs
    · split at hobs
      · rename_i hlt
        exact .inr (.inr ⟨hlt, (Except.ok.inj hobs).symm⟩)
      · rename_i hle hlt
        exact .inr (.inl ⟨by omega, (Except.ok.inj hobs).symm⟩)
    · rename_i hle
      exact .inl ⟨by omega, (Except.ok.inj hobs).symm⟩
  case h_4 hrole =>
    simp only [bind_ok, handoverOf_ok] at hobs
    obtain ⟨ho, hho, hobs⟩ := hobs
    refine .inr (.inr (.inl ⟨hrole, ho, hho, ?_⟩))
    split at hobs <;> rename_i hlt
    · exact .inl ⟨hlt, (Except.ok.inj hobs).symm⟩
    · exact .inr ⟨by omega, (Except.ok.inj hobs).symm⟩
  case h_5 hrole => exact .inr (.inr (.inr ⟨hrole, (Except.ok.inj hobs).symm⟩))
  case h_6 hrole => cases hobs

end

end Plur1bus.Role
