import Plur1bus.Role.Steps

/-!
The record of one node over a whole run. A run is any sequence of events with
any clock readings, starting from a standalone record; an event that is refused
leaves the record as it was. The store keeps the last record and compares each
new one with it before it is published.

Validity alone is not kept by every event: an abort restores whatever role the
handover remembers. `Sound` adds what a run guarantees about the remembered
role and about the highest epoch a writer has seen.
-/

namespace Plur1bus.Role

open Program

/-! ### The store -/

/-- What `load` answers. -/
inductive Loaded
  | missing
  | valid (record : RoleRecord)
  | corrupt (detail : String)
  deriving DecidableEq, Repr

namespace Store

/-- The comparison `save` makes, under the role lock, with the record it is about
to replace. -/
def replaces (old rec' : RoleRecord) : Checked := do
  ensureField (old.nodeId = rec'.nodeId) "nodeId"
  ensureField (!(old.clusterId.isSome && old.role.writersAllowed && rec'.clusterId ≠ old.clusterId))
    "clusterId"
  if rec'.clusterId.isSome && rec'.clusterId = old.clusterId then do
    ensure (old.epoch ≤ rec'.epoch) (.staleEpoch rec'.epoch old.epoch)
    ensure (old.highestSeenEpoch ≤ rec'.highestSeenEpoch)
      (.staleEpoch rec'.highestSeenEpoch old.highestSeenEpoch)
  else pure ()

/-- `fits` says that the written record is no longer than `MAX_RECORD_BYTES`. -/
def save (fits : RoleRecord → Bool) (disk : Loaded) (rec' : RoleRecord) : Except RoleError Loaded := do
  rec'.validate
  match disk with
  | .corrupt detail => .error (.recordCorrupt detail)
  | .missing => pure ()
  | .valid old => replaces old rec'
  ensureField (fits rec') "record"
  pure (.valid rec')

end Store

theorem replaces_ok {old rec' : RoleRecord} {u : Unit} : Store.replaces old rec' = .ok u ↔
    old.nodeId = rec'.nodeId ∧ (old.clusterId.isSome = true → old.role.writersAllowed = true →
        rec'.clusterId = old.clusterId) ∧
      (rec'.clusterId.isSome = true → rec'.clusterId = old.clusterId →
        old.epoch ≤ rec'.epoch ∧ old.highestSeenEpoch ≤ rec'.highestSeenEpoch) := by
  unfold Store.replaces
  simp only [bind_ok, ensureField_ok, decide_eq_true_eq, exists_const]
  refine and_congr Iff.rfl (and_congr ?_ ?_)
  · cases old.clusterId.isSome <;> cases old.role.writersAllowed <;> simp
  · split
    · rename_i hsame
      simp only [Bool.and_eq_true, decide_eq_true_eq] at hsame
      simp only [bind_ok, ensure_ok, exists_const]
      exact ⟨fun h _ _ => h, fun h => h hsame.1 hsame.2⟩
    · rename_i hsame
      simp only [Bool.and_eq_true, decide_eq_true_eq, not_and] at hsame
      constructor
      · intro _ h1 h2
        exact absurd h2 (hsame h1)
      · intro _
        rfl

/-! ### Records of a run -/

/-- What a run adds to validity: a writer has seen no epoch above its own, a
source remembers the primary it was, and a target remembers the node it was. -/
def Remembers (r : RoleRecord) : Prop :=
  match r.role with
  | .primary => r.highestSeenEpoch = r.epoch
  | .handingOver => r.highestSeenEpoch = r.epoch ∧ ∀ h, r.handover = some h →
      h.previousRole = .primary ∧ h.previousClusterId = r.clusterId ∧ h.previousEpoch = r.epoch
  | .pending => ∀ h, r.handover = some h → h.previousEpoch = r.epoch ∧
      (∀ e, h.expectedEpoch = some e → 1 ≤ e) ∧
      ((h.previousRole = .standalone ∧ h.previousClusterId = none ∧ r.epoch = 0) ∨
        (h.previousRole = .client ∧ h.previousClusterId = r.clusterId ∧ 1 ≤ r.epoch ∧
          r.primary.isSome = true))
  | _ => True

structure Sound (r : RoleRecord) : Prop extends Valid r where
  remembers : Remembers r

variable {actor : String}

theorem sound_standalone {nodeId key : String} (now : ℕ) (hid : isUuid nodeId = true)
    (hkey : isFingerprint key = true) (hactor : textOk actor 128 = true) :
    Sound (.standalone nodeId key now actor) := by
  refine ⟨⟨rfl, hid, hkey, nofun, hactor, nofun, nofun, nofun, Nat.le_refl 0, ?_⟩, trivial⟩
  simp [RoleShape, RoleRecord.standalone]

variable {r : RoleRecord}

/-- The time and the name of a change do not matter. -/
theorem Sound.stamp (h : Sound r) (now : ℕ) (hactor : textOk actor 128 = true) :
    Sound { r with changedAtMs := now, changedBy := actor } :=
  ⟨⟨h.schema, h.nodeId, h.key, h.clusterId, hactor, h.primary, h.handover, h.frozen, h.seen,
    h.shape⟩, h.remembers⟩

section

variable {r out : RoleRecord} {now : ℕ}

variable {ho : Handover}

/-- An abort goes back to the primary of the same cluster and epoch. -/
theorem Sound.restore_source (h : Sound r) (hrole : r.role = .handingOver) (hho : r.handover = some ho) :
    restorePrevious r ho = { r with role := .primary, handover := none } := by
  have hrem := h.remembers
  simp only [Remembers, hrole] at hrem
  obtain ⟨hprev, hcluster, hepoch⟩ := hrem.2 ho hho
  simp [restorePrevious, hprev, hcluster, hepoch]

/-- A target goes back to the standalone node or to the client it was. -/
theorem Sound.restore_target (h : Sound r) (hrole : r.role = .pending) (hho : r.handover = some ho) :
    (restorePrevious r ho = becomeStandalone r ∧ ho.previousRole = .standalone) ∨
      (restorePrevious r ho = { r with role := .client, handover := none } ∧
        ho.previousRole = .client ∧ 1 ≤ r.epoch ∧ r.primary.isSome = true) := by
  have hrem := h.remembers
  simp only [Remembers, hrole] at hrem
  obtain ⟨hepoch, -, ⟨hprev, hcluster, hzero⟩ | ⟨hprev, hcluster, hone, hsome⟩⟩ := hrem ho hho
  · refine .inl ⟨?_, hprev⟩
    simp [restorePrevious, becomeStandalone, hprev, hcluster, hepoch, hzero]
  · refine .inr ⟨?_, hprev, hone, hsome⟩
    simp [restorePrevious, hprev, hcluster, hepoch]

theorem Sound.becomeStandalone (h : Sound r) : Sound (becomeStandalone r) := by
  refine ⟨⟨h.schema, h.nodeId, h.key, nofun, h.changedBy, nofun, nofun, nofun, Nat.le_refl 0, ?_⟩, trivial⟩
  simp [RoleShape, Role.becomeStandalone]

variable {epoch : ℕ}

theorem Sound.takeOver (h : Sound r) (hrole : r.role = .client) (hepoch : 1 ≤ epoch) :
    Sound (Membership.takeOver r epoch) := by
  have hshape := h.shape
  simp only [RoleShape, hrole] at hshape
  refine ⟨⟨h.schema, h.nodeId, h.key, h.clusterId, h.changedBy, nofun, h.handover, nofun,
    Nat.le_refl _, ?_⟩, rfl⟩
  simpa [RoleShape, Membership.takeOver] using ⟨hshape.1, hepoch, hshape.2.2.2⟩

variable {target : String} {ttl : ℕ}

theorem Sound.prepare (h : Sound r) {handoverId key : String} {newCluster : Option String}
    (hstep : Source.prepare r handoverId target key newCluster ttl now = .ok out) : Sound out := by
  obtain ⟨cluster, epoch, hstart, hid, htarget, hkey, hnew, hother, rfl⟩ := prepare_ok hstep
  have hshape := h.shape
  have hrem := h.remembers
  have hfacts : isUuid cluster = true ∧ 1 ≤ epoch ∧ max r.highestSeenEpoch epoch = epoch ∧
      r.primary = none ∧ r.frozen = none := by
    obtain ⟨hrole, hc, rfl⟩ | ⟨hrole, hc, rfl⟩ := hstart
    · simp only [RoleShape, hrole] at hshape
      exact ⟨hnew _ hc, Nat.le_refl 1, by omega, hshape.2.2.1, hshape.2.2.2.2.1⟩
    · simp only [RoleShape, hrole] at hshape
      simp only [Remembers, hrole] at hrem
      exact ⟨h.clusterId _ hc, hshape.2.1, by omega, hshape.2.2.1, hshape.2.2.2.2⟩
  obtain ⟨hcluster, hone, hmax, hprimary, hfrozen⟩ := hfacts
  refine ⟨⟨h.schema, h.nodeId, h.key, ?_, h.changedBy, h.primary, ?_, h.frozen,
    Nat.le_max_right _ _, ?_⟩, ?_⟩
  · rintro c ⟨⟩
    exact hcluster
  · rintro ho ⟨⟩
    exact ⟨hid, htarget, hkey, nofun, hother⟩
  · simpa [RoleShape] using ⟨hone, hprimary, hfrozen⟩
  · simp [Remembers, hmax]

variable {bundle : String}

theorem Sound.bundleReady (h : Sound r) (hstep : Source.bundleReady r bundle = .ok out) : Sound out := by
  obtain ⟨hrole, hbundle, ho, hho, rfl⟩ := bundleReady_ok hstep
  have hshape := h.shape
  have hrem := h.remembers
  have hv := h.handover ho hho
  simp only [RoleShape, hrole, hho] at hshape
  simp only [Remembers, hrole, hho] at hrem
  refine ⟨⟨h.schema, h.nodeId, h.key, h.clusterId, h.changedBy, h.primary, ?_, h.frozen, h.seen, ?_⟩, ?_⟩
  · rintro ho' ⟨⟩
    refine ⟨hv.id, hv.peer, hv.key, ?_, hv.other⟩
    rintro b ⟨⟩
    exact hbundle
  · simpa [RoleShape, hrole] using hshape
  · simpa [Remembers, hrole] using hrem

theorem Sound.renewLease (h : Sound r) (hstep : Source.renewLease r ttl now = .ok out) : Sound out := by
  obtain ⟨hrole, ho, hho, rfl⟩ := renewLease_ok hstep
  have hshape := h.shape
  have hrem := h.remembers
  have hv := h.handover ho hho
  refine ⟨⟨h.schema, h.nodeId, h.key, h.clusterId, h.changedBy, h.primary, ?_, h.frozen, h.seen, ?_⟩, ?_⟩
  · rintro ho' ⟨⟩
    exact ⟨hv.id, hv.peer, hv.key, hv.bundle, hv.other⟩
  · obtain hrole | hrole := hrole <;> simpa [RoleShape, hrole, hho] using hshape
  · obtain hrole | hrole := hrole <;> simpa [Remembers, hrole, hho] using hrem

theorem Sound.abort (h : Sound r) (hstep : Source.abort r = .ok out) : Sound out := by
  obtain ⟨hrole, ho, hho, rfl⟩ := abort_ok hstep
  have hshape := h.shape
  have hrem := h.remembers
  simp only [RoleShape, hrole] at hshape
  simp only [Remembers, hrole] at hrem
  obtain ⟨hcluster, hone, hprimary, -, -, -, hfrozen⟩ := hshape
  rw [h.restore_source hrole hho]
  refine ⟨⟨h.schema, h.nodeId, h.key, h.clusterId, h.changedBy, h.primary, nofun, h.frozen, h.seen,
    ?_⟩, hrem.1⟩
  simpa [RoleShape] using ⟨hcluster, hone, hprimary, hfrozen⟩

theorem Sound.commit (h : Sound r) {receiptId receiptBundle receiptTarget : String}
    {primary : NodeRef} {window : ℕ}
    (hstep : Source.commit r receiptId receiptBundle receiptTarget primary window now = .ok out)
    (hnow : now ≤ U64_MAX) : Sound out := by
  obtain ⟨hrole, -, href, ho, bundle, hho, hbundle, hpeer, rfl⟩ := commit_ok hstep
  have hshape := h.shape
  have hv := h.handover ho hho
  simp only [RoleShape, hrole] at hshape
  refine ⟨⟨h.schema, h.nodeId, h.key, h.clusterId, h.changedBy, ?_, nofun, ?_,
    Nat.le_max_right _ _, ?_⟩, trivial⟩
  · rintro p ⟨⟩
    exact ⟨href, fun heq => hv.other (hpeer.symm.trans heq)⟩
  · rintro f ⟨⟩
    exact ⟨hv.bundle _ hbundle, Nat.le_min.mpr ⟨Nat.le_add_right _ _, hnow⟩⟩
  · simpa [RoleShape] using hshape.1

theorem Sound.accept (h : Sound r) {handoverId cluster : String} {bundleEpoch : ℕ} {source key : String}
    {fresh replace : Bool}
    (hstep : Target.accept r handoverId cluster bundleEpoch bundle source key fresh replace ttl now =
      .ok out) : Sound out := by
  obtain ⟨hstart, hid, hcluster, hbundle, hsource, hkey, hother, hstale, rfl⟩ := accept_ok hstep
  have hshape := h.shape
  refine ⟨⟨h.schema, h.nodeId, h.key, ?_, h.changedBy, h.primary, ?_, h.frozen, ?_, ?_⟩, ?_⟩
  · rintro c ⟨⟩
    exact hcluster
  · rintro ho ⟨⟩
    refine ⟨hid, hsource, hkey, ?_, hother⟩
    rintro b ⟨⟩
    exact hbundle
  · exact Nat.le_trans h.seen (Nat.le_max_left _ _)
  · simp [RoleShape]
  · obtain hrole | ⟨hrole, hsame⟩ := hstart
    · simp only [RoleShape, hrole] at hshape
      simp [Remembers, hrole, hshape.1, hshape.2.1]
    · simp only [RoleShape, hrole] at hshape
      simp [Remembers, hrole, hsame, hshape.2.1, hshape.2.2.1]

theorem Sound.activate (h : Sound r) {id cluster : String}
    (hstep : Target.activate r id cluster epoch bundle target = .ok out) : Sound out := by
  obtain ⟨hrole, hcluster, -, hstale, ⟨ho, hho, -, -, hexpected⟩, rfl⟩ := activate_ok hstep
  have hrem := h.remembers
  simp only [Remembers, hrole] at hrem
  have hone : 1 ≤ epoch := (hrem ho hho).2.1 epoch hexpected
  refine ⟨⟨h.schema, h.nodeId, h.key, h.clusterId, h.changedBy, nofun, nofun, nofun,
    Nat.le_max_right _ _, ?_⟩, ?_⟩
  · simpa [RoleShape, hcluster] using hone
  · simpa [Remembers] using hstale

theorem Sound.restored (h : Sound r) (hrole : r.role = .pending) (hho : r.handover = some ho) :
    Sound (restorePrevious r ho) := by
  have hshape := h.shape
  simp only [RoleShape, hrole] at hshape
  obtain ⟨heq, -⟩ | ⟨heq, -, hone, hsome⟩ := h.restore_target hrole hho
  · rw [heq]
    exact h.becomeStandalone
  · rw [heq]
    refine ⟨⟨h.schema, h.nodeId, h.key, h.clusterId, h.changedBy, h.primary, nofun, h.frozen,
      h.seen, ?_⟩, trivial⟩
    simpa [RoleShape] using ⟨hshape.1, hone, hsome⟩

theorem Sound.resolveAsClient (h : Sound r) {primary : NodeRef}
    (hstep : Membership.resolveAsClient r epoch primary now = .ok out) : Sound out := by
  obtain ⟨hrole, href, hstale, rfl⟩ := resolveAsClient_ok hstep
  have hshape := h.shape
  simp only [RoleShape, hrole] at hshape
  have hone : 1 ≤ epoch := hshape.2.1.trans (h.seen.trans hstale)
  refine ⟨⟨h.schema, h.nodeId, h.key, h.clusterId, h.changedBy, ?_, h.handover, nofun,
    Nat.le_max_right _ _, ?_⟩, trivial⟩
  · rintro p ⟨⟩
    exact href
  · simpa [RoleShape] using ⟨hshape.1, hone, hshape.2.2.1⟩

theorem Sound.join (h : Sound r) {cluster : String} {primary : NodeRef} {fresh : Bool}
    (hstep : Membership.join r cluster epoch primary fresh now = .ok out) : Sound out := by
  obtain ⟨hrole, hcluster, href, hone, rfl⟩ := join_ok hstep
  have hshape := h.shape
  simp only [RoleShape, hrole] at hshape
  refine ⟨⟨h.schema, h.nodeId, h.key, ?_, h.changedBy, ?_, h.handover, h.frozen, Nat.le_refl _,
    ?_⟩, trivial⟩
  · rintro c ⟨⟩
    exact hcluster
  · rintro p ⟨⟩
    exact href
  · simpa [RoleShape] using ⟨hone, hshape.2.2.2.1⟩

/-! A peer's facts raise the highest epoch seen. A writer they leave a writer had
seen as much before, so nothing is raised there. -/

theorem Sound.raise (h : Sound r) (hrole : r.role ≠ .standalone)
    (hwriter : r.role = .primary ∨ r.role = .handingOver → e ≤ r.highestSeenEpoch) :
    Sound (Observation.raise e r) := by
  have hshape := h.shape
  have hrem := h.remembers
  refine ⟨⟨h.schema, h.nodeId, h.key, h.clusterId, h.changedBy, h.primary, h.handover, h.frozen,
    h.seen.trans (Nat.le_max_left _ _), ?_⟩, ?_⟩
  · simp only [RoleShape, Observation.raise] at hshape ⊢
    split at hshape <;> simp_all
  · by_cases hw : r.role = .primary ∨ r.role = .handingOver
    · have hmax : Observation.raise e r = r := by
        simp [Observation.raise, Nat.max_eq_left (hwriter hw)]
      rw [hmax]
      exact hrem
    · simp only [Remembers, Observation.raise] at hrem ⊢
      split at hrem <;> simp_all

variable {p : NodeRef} {primary : Option NodeRef}

theorem usable_valid (h : Observation.usable r primary = some p) : ValidRef r.nodeId p := by
  simp only [Observation.usable, Option.filter_eq_some_iff, Bool.and_eq_true, Option.isNone_iff_eq_none,
    decide_eq_true_eq] at h
  exact ⟨h.2.1, h.2.2⟩

/-- The display data kept after a contact. -/
theorem Valid.shown (h : Valid r) (hp : (Observation.usable r primary).or r.primary = some p) :
    ValidRef r.nodeId p := by
  obtain hu | ⟨-, hp⟩ := Option.or_eq_some_iff.mp hp
  · exact usable_valid hu
  · exact h.primary p hp

variable {writer : Bool}

/-- A writer that is not behind has seen at least the peer's epoch. -/
theorem not_behind {cluster peer : String} (hcluster : r.clusterId = some cluster)
    (h : Fence.compare r cluster e peer writer ≠ .localBehind) : e ≤ r.epoch := by
  by_contra hlt
  apply h
  unfold Fence.compare
  rw [if_neg (by simpa using hcluster), if_neg (by omega), if_pos (by omega)]

theorem Sound.observed (h : Sound r) {cluster peer : String}
    (hstep : Observation.step r cluster e peer writer primary now = .ok out) : Sound out := by
  obtain ⟨hcluster, hcase⟩ := observed_ok hstep
  have hshape := h.shape
  obtain ⟨hrole, ⟨-, rfl⟩ | ⟨hahead, rfl⟩⟩ | ⟨hrole, ⟨-, rfl⟩ | ⟨heq, rfl⟩ | ⟨hlt, rfl⟩⟩ |
    ⟨hrole, ho, hho, ⟨-, rfl⟩ | ⟨-, rfl⟩⟩ | ⟨hrole, rfl⟩ := hcase
  · -- fenced
    have hfacts : 1 ≤ r.epoch ∧ r.frozen = none := by
      obtain hrole | hrole := hrole
      · simp only [RoleShape, hrole] at hshape
        exact ⟨hshape.2.1, hshape.2.2.2.2⟩
      · simp only [RoleShape, hrole] at hshape
        obtain ⟨-, hone, -, -, -, -, hfrozen⟩ := hshape
        exact ⟨hone, hfrozen⟩
    refine ⟨⟨h.schema, h.nodeId, h.key, h.clusterId, h.changedBy, fun p hp => h.shown hp, nofun,
      h.frozen, h.seen.trans (Nat.le_max_left _ _), ?_⟩, trivial⟩
    simpa [RoleShape, Observation.raise, hcluster] using hfacts
  · refine h.raise (by rintro hs; simp [hs] at hrole) fun _ => ?_
    exact (not_behind hcluster hahead).trans h.seen
  · exact h
  · simp only [RoleShape, hrole] at hshape
    refine ⟨⟨h.schema, h.nodeId, h.key, h.clusterId, h.changedBy, fun p hp => h.shown hp,
      h.handover, h.frozen, h.seen, ?_⟩, ?_⟩
    · simpa [RoleShape, hrole, hshape.1, hshape.2.1, hshape.2.2.2] using Or.inr hshape.2.2.1
    · simp [Remembers, hrole]
  · simp only [RoleShape, hrole] at hshape
    refine ⟨⟨h.schema, h.nodeId, h.key, h.clusterId, h.changedBy, fun p hp => h.shown hp,
      h.handover, h.frozen, Nat.le_max_right _ _, ?_⟩, ?_⟩
    · have hone : 1 ≤ e := by omega
      simpa [RoleShape, hrole, hshape.1, hone, hshape.2.2.2] using Or.inr hshape.2.2.1
    · simp [Remembers, hrole]
  · have hs := h.restored hrole hho
    split
    · rename_i hback
      refine hs.raise hback ?_
      obtain ⟨heq, -⟩ | ⟨heq, -⟩ := h.restore_target hrole hho <;>
        simp [heq, Role.becomeStandalone]
    · exact hs
  · exact h.raise (by simp [hrole]) (by simp [hrole])
  · exact h.raise (by simp [hrole]) (by simp [hrole])

variable {ev : Event}

theorem Sound.step (h : Sound r) (hnow : now ≤ U64_MAX) (hstep : step r now ev = .ok out) : Sound out := by
  cases ev with
  | prepare => exact h.prepare hstep
  | bundleReady => exact h.bundleReady hstep
  | renewLease => exact h.renewLease hstep
  | abort => exact h.abort hstep
  | commit => exact h.commit hstep hnow
  | accept => exact h.accept hstep
  | activate => exact h.activate hstep
  | discard =>
    obtain ⟨hrole, ho, hho, rfl⟩ := discard_ok hstep
    exact h.restored hrole hho
  | forceTakeover =>
    obtain ⟨hrole, rfl⟩ := forceTakeover_ok hstep
    exact h.takeOver hrole (Nat.le_add_left 1 _)
  | restoreFrozen =>
    obtain ⟨hrole, rfl⟩ := restoreFrozen_ok hstep
    exact h.takeOver hrole (Nat.le_add_left 1 _)
  | observed => exact h.observed hstep
  | resolveAsClient => exact h.resolveAsClient hstep
  | join => exact h.join hstep
  | leave =>
    obtain ⟨-, rfl⟩ := leave_ok hstep
    exact h.becomeStandalone

/-- The events that can make a primary of a node that was none. -/
def Event.promotes : Event → Bool
  | .activate .. | .abort | .forceTakeover .. | .restoreFrozen .. => true
  | _ => false

/-- What an accepted event leaves of the record before it. -/
structure Follows (r : RoleRecord) (ev : Event) (out : RoleRecord) : Prop where
  node : out.nodeId = r.nodeId
  cluster : r.role = .primary → out.clusterId = r.clusterId
  epoch : r.clusterId.isSome = true → out.clusterId = r.clusterId → r.epoch ≤ out.epoch
  seen : r.clusterId.isSome = true → out.clusterId = r.clusterId → r.highestSeenEpoch ≤ out.highestSeenEpoch
  promoted : out.role = .primary → r.role = .primary ∨ ev.promotes = true

/-- An event that keeps the node, the cluster and both epochs, or raises them,
and makes no primary. -/
theorem Follows.of_le (hnode : out.nodeId = r.nodeId)
    (hcluster : r.role = .primary → out.clusterId = r.clusterId) (hepoch : r.epoch ≤ out.epoch)
    (hseen : r.highestSeenEpoch ≤ out.highestSeenEpoch)
    (hrole : out.role = .primary → r.role = .primary ∨ ev.promotes = true) : Follows r ev out :=
  ⟨hnode, hcluster, fun _ _ => hepoch, fun _ _ => hseen, hrole⟩

theorem Follows.restored (h : Sound r) (hrole : r.role = .pending) (hho : r.handover = some ho)
    (ev : Event) : Follows r ev (restorePrevious r ho) := by
  obtain ⟨heq, -⟩ | ⟨heq, -⟩ := h.restore_target hrole hho
  · rw [heq]
    refine ⟨rfl, by simp [hrole], fun hsome hsame => ?_, fun hsome hsame => ?_, nofun⟩
    all_goals simp [becomeStandalone, ← hsame] at hsome
  · rw [heq]
    exact .of_le rfl (fun _ => rfl) (Nat.le_refl _) (Nat.le_refl _) nofun

theorem Follows.takeOver (h : Sound r) (hrole : r.role = .client) {e : ℕ} (he : r.highestSeenEpoch ≤ e)
    (hev : ev.promotes = true) : Follows r ev (Membership.takeOver r e) :=
  .of_le rfl (fun hp => by simp [hrole] at hp) (h.seen.trans he) he fun _ => .inr hev

theorem Follows.observed (h : Sound r) {cluster peer : String}
    (hstep : Observation.step r cluster e peer writer primary now = .ok out) :
    Follows r (.observed cluster e peer writer primary) out := by
  obtain ⟨-, hcase⟩ := observed_ok hstep
  obtain ⟨hrole, ⟨-, rfl⟩ | ⟨hahead, rfl⟩⟩ | ⟨hrole, ⟨-, rfl⟩ | ⟨heq, rfl⟩ | ⟨hlt, rfl⟩⟩ |
    ⟨hrole, ho, hho, ⟨-, rfl⟩ | ⟨-, rfl⟩⟩ | ⟨hrole, rfl⟩ := hcase
  · exact .of_le rfl (fun _ => rfl) (Nat.le_refl _) (Nat.le_max_left _ _) nofun
  · exact .of_le rfl (fun _ => rfl) (Nat.le_refl _) (Nat.le_max_left _ _) .inl
  · exact .of_le rfl (fun _ => rfl) (Nat.le_refl _) (Nat.le_refl _) .inl
  · exact .of_le rfl (fun _ => rfl) (Nat.le_refl _) (Nat.le_refl _) .inl
  · exact .of_le rfl (fun _ => rfl) hlt.le (Nat.le_max_left _ _) .inl
  · have hback := Follows.restored h hrole hho (.observed cluster e peer writer primary)
    split
    · exact ⟨hback.node, hback.cluster, hback.epoch,
        fun hsome hsame => (hback.seen hsome hsame).trans (Nat.le_max_left _ _), hback.promoted⟩
    · exact hback
  · exact .of_le rfl (fun _ => rfl) (Nat.le_refl _) (Nat.le_max_left _ _) .inl
  · exact .of_le rfl (fun _ => rfl) (Nat.le_refl _) (Nat.le_max_left _ _) .inl

theorem Sound.follows (h : Sound r) (hstep : Role.step r now ev = .ok out) : Follows r ev out := by
  have hshape := h.shape
  cases ev with
  | prepare =>
    obtain ⟨cluster, epoch, hstart, -, -, -, -, -, rfl⟩ := prepare_ok hstep
    obtain ⟨hrole, -, rfl⟩ | ⟨hrole, hc, rfl⟩ := hstart
    · simp only [RoleShape, hrole] at hshape
      refine ⟨rfl, by simp [hrole], ?_, ?_, nofun⟩ <;> simp [hshape.1]
    · exact .of_le rfl (fun _ => hc.symm) (Nat.le_refl _) (Nat.le_max_left _ _) nofun
  | bundleReady =>
    obtain ⟨-, -, ho, -, rfl⟩ := bundleReady_ok hstep
    exact .of_le rfl (fun _ => rfl) (Nat.le_refl _) (Nat.le_refl _) .inl
  | renewLease =>
    obtain ⟨-, ho, -, rfl⟩ := renewLease_ok hstep
    exact .of_le rfl (fun _ => rfl) (Nat.le_refl _) (Nat.le_refl _) .inl
  | abort =>
    obtain ⟨hrole, ho, hho, rfl⟩ := abort_ok hstep
    rw [h.restore_source hrole hho]
    exact .of_le rfl (fun _ => rfl) (Nat.le_refl _) (Nat.le_refl _) fun _ => .inr rfl
  | commit =>
    obtain ⟨-, -, -, ho, bundle, -, -, -, rfl⟩ := commit_ok hstep
    exact .of_le rfl (fun _ => rfl) (Nat.le_succ _) (Nat.le_max_left _ _) nofun
  | accept =>
    obtain ⟨hstart, -, -, -, -, -, -, -, rfl⟩ := accept_ok hstep
    refine .of_le rfl (fun hp => ?_) (Nat.le_refl _) (Nat.le_max_left _ _) nofun
    obtain hrole | ⟨hrole, -⟩ := hstart <;> simp [hrole] at hp
  | activate =>
    obtain ⟨-, -, -, hstale, -, rfl⟩ := activate_ok hstep
    exact .of_le rfl (fun _ => rfl) (h.seen.trans hstale) (Nat.le_max_left _ _) fun _ => .inr rfl
  | discard =>
    obtain ⟨hrole, ho, hho, rfl⟩ := discard_ok hstep
    exact .restored h hrole hho _
  | forceTakeover =>
    obtain ⟨hrole, rfl⟩ := forceTakeover_ok hstep
    exact .takeOver h hrole (Nat.le_succ _) rfl
  | restoreFrozen =>
    obtain ⟨hrole, rfl⟩ := restoreFrozen_ok hstep
    exact .takeOver h hrole ((Nat.le_max_left _ _).trans (Nat.le_succ _)) rfl
  | observed => exact .observed h hstep
  | resolveAsClient =>
    obtain ⟨-, -, hstale, rfl⟩ := resolveAsClient_ok hstep
    exact .of_le rfl (fun _ => rfl) (h.seen.trans hstale) (Nat.le_max_left _ _) nofun
  | join =>
    obtain ⟨hrole, -, -, -, rfl⟩ := join_ok hstep
    simp only [RoleShape, hrole] at hshape
    refine ⟨rfl, by simp [hrole], ?_, ?_, nofun⟩ <;> simp [hshape.1]
  | leave =>
    obtain ⟨hrole, rfl⟩ := leave_ok hstep
    refine ⟨rfl, by simp [hrole], fun hsome hsame => ?_, fun hsome hsame => ?_, nofun⟩
    all_goals simp [Role.becomeStandalone, ← hsame] at hsome

end

/-! ### Runs -/

/-- The record an accepted step is stored as. -/
def stamped (r : RoleRecord) (now : ℕ) (actor : String) (out : RoleRecord) : RoleRecord :=
  if out = r then out else { out with changedAtMs := now, changedBy := actor }

/-! The stamp changes neither the role nor the node's place in its cluster. -/

section

variable (r mid : RoleRecord) (now : ℕ) (actor : String)

@[simp] theorem stamped_role : (stamped r now actor mid).role = mid.role := by
  unfold stamped
  split <;> rfl

@[simp] theorem stamped_nodeId : (stamped r now actor mid).nodeId = mid.nodeId := by
  unfold stamped
  split <;> rfl

@[simp] theorem stamped_clusterId : (stamped r now actor mid).clusterId = mid.clusterId := by
  unfold stamped
  split <;> rfl

@[simp] theorem stamped_epoch : (stamped r now actor mid).epoch = mid.epoch := by
  unfold stamped
  split <;> rfl

@[simp] theorem stamped_seen : (stamped r now actor mid).highestSeenEpoch = mid.highestSeenEpoch := by
  unfold stamped
  split <;> rfl

@[simp] theorem stamped_handover : (stamped r now actor mid).handover = mid.handover := by
  unfold stamped
  split <;> rfl

end

theorem apply_ok {out : RoleRecord} {ev : Event} {now : ℕ} (h : apply r ev now actor = .ok out) :
    Valid r ∧ Valid out ∧ ∃ mid, step r now ev = .ok mid ∧ out = stamped r now actor mid := by
  unfold apply at h
  simp only [bind_ok] at h
  obtain ⟨⟨⟩, hvalid, mid, hmid, h⟩ := h
  have hvalid := validate_iff.mp hvalid
  unfold stamped
  split at h
  · rename_i heq
    cases h
    exact ⟨hvalid, heq ▸ hvalid, out, hmid, (if_pos heq).symm⟩
  · rename_i hne
    simp only [bind_ok] at h
    obtain ⟨⟨⟩, hout, h⟩ := h
    cases h
    exact ⟨hvalid, validate_iff.mp hout, mid, hmid, (if_neg hne).symm⟩

variable {mid : RoleRecord}

theorem Sound.stamped (h : Sound mid) (now : ℕ) (hactor : textOk actor 128 = true) :
    Sound (stamped r now actor mid) := by
  unfold Role.stamped
  split
  · exact h
  · exact h.stamp now hactor

theorem Follows.stamped {ev : Event} (h : Follows r ev mid) (now : ℕ) (actor : String) :
    Follows r ev (stamped r now actor mid) :=
  ⟨by simpa using h.node, by simpa using h.cluster, by simpa using h.epoch, by simpa using h.seen,
    by simpa using h.promoted⟩

section

variable {r out : RoleRecord} {ev : Event} {now : ℕ} {actor : String}

variable {mid : RoleRecord}

theorem apply_of_valid (h : Valid r) (hstep : step r now ev = .ok mid)
    (hmid : Valid (stamped r now actor mid)) :
    apply r ev now actor = .ok (stamped r now actor mid) := by
  unfold Role.apply
  rw [validate_iff.mpr h, hstep]
  show (if mid = r then pure mid else _ >>= _) = _
  unfold stamped at hmid ⊢
  split
  · rfl
  · rename_i hne
    rw [if_neg hne] at hmid
    rw [validate_iff.mpr hmid]
    rfl

/-- The checks around a step refuse nothing that the step accepts. -/
theorem Sound.apply_eq (h : Sound r) (hnow : now ≤ U64_MAX) (hactor : textOk actor 128 = true) :
    apply r ev now actor = Role.stamped r now actor <$> Role.step r now ev := by
  cases hstep : Role.step r now ev with
  | error e =>
    unfold apply
    rw [validate_iff.mpr h.toValid, hstep]
    rfl
  | ok mid => exact apply_of_valid h.toValid hstep ((h.step hnow hstep).stamped now hactor).toValid

theorem Remembers.stamped (h : Remembers mid) : Remembers (Role.stamped r now actor mid) := by
  unfold Role.stamped
  split <;> exact h

theorem Sound.apply (h : Sound r) (hnow : now ≤ U64_MAX)
    (happly : apply r ev now actor = .ok out) : Sound out ∧ Follows r ev out := by
  obtain ⟨-, hvalid, mid, hmid, rfl⟩ := apply_ok happly
  exact ⟨⟨hvalid, (h.step hnow hmid).remembers.stamped⟩, (h.follows hmid).stamped now actor⟩

/-- The record that follows is stored over the one before it. -/
theorem Follows.replaces (h : Follows r ev out) (hrole : Valid r) : Store.replaces r out = .ok () := by
  refine replaces_ok.mpr ⟨h.node.symm, fun hsome hwriter => ?_, fun hsome hsame => ?_⟩
  · refine h.cluster ?_
    have hshape := hrole.shape
    cases hr : r.role <;> simp [hr, Role.writersAllowed] at hwriter
    · simp only [RoleShape, hr] at hshape
      simp [hshape.1] at hsome
    · rfl
  · rw [hsame] at hsome
    exact ⟨h.epoch hsome hsame, h.seen hsome hsame⟩

end

/-- An event with the caller's clock reading and name. -/
structure Input where
  event : Event
  now : ℕ
  actor : String
  deriving DecidableEq, Repr

/-- A 64-bit clock reading and a name that can be stored. -/
def Input.Ok (i : Input) : Prop := i.now ≤ U64_MAX ∧ textOk i.actor 128 = true

instance (i : Input) : Decidable i.Ok := inferInstanceAs (Decidable (_ ∧ _))

/-- A refused event leaves the record as it was. -/
def run (r : RoleRecord) : List Input → RoleRecord
  | [] => r
  | i :: is =>
    match apply r i.event i.now i.actor with
    | .ok out => run out is
    | .error _ => run r is

theorem Sound.run (h : Sound r) {is : List Input} (his : ∀ i ∈ is, i.Ok) : Sound (run r is) := by
  induction is generalizing r with
  | nil => exact h
  | cons i is ih =>
    have hi := his i List.mem_cons_self
    have hrest : ∀ j ∈ is, j.Ok := fun j hj => his j (List.mem_cons_of_mem _ hj)
    unfold Role.run
    split
    · rename_i out hout
      exact ih (h.apply hi.1 hout).1 hrest
    · exact ih h hrest

theorem Sound.writer_seen (h : Sound r) (hrole : r.role = .primary ∨ r.role = .handingOver) :
    r.highestSeenEpoch = r.epoch := by
  have hrem := h.remembers
  obtain hrole | hrole := hrole
  · simpa only [Remembers, hrole] using hrem
  · simp only [Remembers, hrole] at hrem
    exact hrem.1

/-- After any events, the record is valid and a writer has seen no epoch above its
own. The next event is accepted whenever its step is, and the record it leaves
keeps the epochs of its cluster from falling, is a primary only by one of four
events where it was none before, and is stored over its predecessor unless it is
too long to be stored at all. -/
theorem run_records {nodeId key actor₀ : String} (now₀ : ℕ) (hid : isUuid nodeId = true)
    (hkey : isFingerprint key = true) (hactor₀ : textOk actor₀ 128 = true) (is : List Input)
    (his : ∀ i ∈ is, i.Ok) (i : Input) (hi : i.Ok) :
    let r := run (.standalone nodeId key now₀ actor₀) is
    r.validate = .ok () ∧ (r.role = .primary ∨ r.role = .handingOver → r.highestSeenEpoch = r.epoch) ∧
      (∀ mid, step r i.now i.event = .ok mid →
        apply r i.event i.now i.actor = .ok (stamped r i.now i.actor mid)) ∧
      ∀ out, apply r i.event i.now i.actor = .ok out →
        (r.clusterId.isSome = true → out.clusterId = r.clusterId →
          r.epoch ≤ out.epoch ∧ r.highestSeenEpoch ≤ out.highestSeenEpoch) ∧
        (out.role = .primary → r.role.writersAllowed = false → i.event.promotes = true) ∧
        ∀ fits : RoleRecord → Bool, Store.save fits (.valid r) out =
          if fits out then .ok (.valid out) else .error (.invalidInput "record") := by
  intro r
  have hr : Sound r := (sound_standalone now₀ hid hkey hactor₀).run his
  refine ⟨validate_iff.mpr hr.toValid, hr.writer_seen, fun mid hmid => ?_, fun out hout => ?_⟩
  · rw [hr.apply_eq hi.1 hi.2, hmid]
    rfl
  · obtain ⟨hsound, hfollows⟩ := hr.apply hi.1 hout
    refine ⟨fun hsome hsame => ⟨hfollows.epoch hsome hsame, hfollows.seen hsome hsame⟩,
      fun hprimary hnot => ?_, fun fits => ?_⟩
    · obtain hrole | hev := hfollows.promoted hprimary
      · simp [hrole, Role.writersAllowed] at hnot
      · exact hev
    · unfold Store.save
      rw [validate_iff.mpr hsound.toValid]
      show (Store.replaces r out >>= fun _ => _) = _
      rw [hfollows.replaces hr.toValid]
      cases hfits : fits out <;> simp [ensureField, ensure, bind, Except.bind, pure, Except.pure]

namespace Sample

def laptop : String := "00000000-0000-4000-8000-000000000002"

def server : String := "00000000-0000-4000-8000-000000000001"

def cluster : String := "00000000-0000-4000-8000-00000000000c"

def handover : String := "00000000-0000-4000-8000-00000000000d"

def key : String := "sha256:AAAAAAAAAAAAAAAAAAAAAAAAAAAAAAAAAAAAAAAAAAA"

/-- A standalone laptop begins to hand over to the server. -/
def prepared : Input := ⟨.prepare handover server key (some cluster) 60000, 1000, "owner"⟩

def aborted : Input := ⟨.abort, 2000, "owner"⟩

theorem laptop_uuid : isUuid laptop = true := by decide

theorem server_uuid : isUuid server = true := by decide

theorem cluster_uuid : isUuid cluster = true := by decide

theorem key_fingerprint : isFingerprint key = true := by decide

theorem owner_text : textOk "owner" 128 = true := by decide

end Sample

/-- A source that aborts before its commit: a non-writer that becomes the primary
of the new cluster. -/
theorem run_records_aborted :
    (Role.run (.standalone Sample.laptop Sample.key 0 "owner") [Sample.prepared]).role = .handingOver ∧
      Sample.aborted.Ok ∧
      ((apply (Role.run (.standalone Sample.laptop Sample.key 0 "owner") [Sample.prepared])
        Sample.aborted.event Sample.aborted.now Sample.aborted.actor).toOption.map
          RoleRecord.role) = some .primary ∧
      (Role.run (.standalone Sample.laptop Sample.key 0 "owner") [Sample.prepared]).validate = .ok () :=
  ⟨by decide +kernel, ⟨by decide, Sample.owner_text⟩, by decide +kernel,
    (run_records 0 Sample.laptop_uuid Sample.key_fingerprint Sample.owner_text [Sample.prepared]
      (by simpa using ⟨by decide, Sample.owner_text⟩) Sample.aborted
      ⟨by decide, Sample.owner_text⟩).1⟩

end Plur1bus.Role
