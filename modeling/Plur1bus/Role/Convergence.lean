import Mathlib.Data.Prod.Lex
import Mathlib.Data.Fintype.Lattice
import Plur1bus.Role.Records

/-!
Primaries of one cluster that were made without one another: forced takeovers,
or a restored node and its successor. Each publishes what it says of itself and
takes the others' words as `Observed` events, in any order, late, repeated or
never.

Only the role and the highest epoch seen change on the way, so the facts in
flight stay true of the nodes that published them. The node with the highest
epoch, and of those the one with the lowest id, is the only one that nobody can
put behind.
-/

namespace Plur1bus.Role

open Program List

/-- What a node says of itself on contact. -/
structure Fact where
  clusterId : String
  epoch : ℕ
  nodeId : String
  writer : Bool
  deriving DecidableEq, Repr

def RoleRecord.fact (r : RoleRecord) (clusterId : String) : Fact :=
  ⟨clusterId, r.epoch, r.nodeId, r.role.writersAllowed⟩

def Fact.observed (m : Fact) (primary : Option NodeRef) : Event :=
  .observed m.clusterId m.epoch m.nodeId m.writer primary

/-- The nodes and every fact published so far. -/
structure Fleet (ι : Type) where
  nodes : ι → RoleRecord
  flight : List Fact

inductive Contact (ι : Type)
  | publish (i : ι)
  /-- Node `i` receives the fact at position `k`, again or for the first time. -/
  | deliver (i : ι) (k : ℕ) (primary : Option NodeRef) (now : ℕ) (actor : String)
  deriving DecidableEq, Repr

def Contact.Ok {ι : Type} : Contact ι → Prop
  | .publish _ => True
  | .deliver _ _ _ _ actor => textOk actor 128 = true

section

variable {ι : Type} [DecidableEq ι]

def Fleet.act (w : Fleet ι) : Contact ι → Fleet ι
  | .publish i =>
    match (w.nodes i).clusterId with
    | some c => { w with flight := w.flight ++ [(w.nodes i).fact c] }
    | none => w
  | .deliver i k primary now actor =>
    match w.flight[k]? with
    | none => w
    | some m =>
      match apply (w.nodes i) (m.observed primary) now actor with
      | .ok out => { w with nodes := Function.update w.nodes i out }
      | .error _ => w

def Fleet.run (w : Fleet ι) : List (Contact ι) → Fleet ι
  | [] => w
  | a :: as => (w.act a).run as

theorem Fleet.run_append (w : Fleet ι) (as bs : List (Contact ι)) :
    w.run (as ++ bs) = (w.run as).run bs := by
  induction as generalizing w with
  | nil => rfl
  | cons a as ih => exact ih _

/-- The higher epoch first, then the lower node id. -/
def Precedes (r s : RoleRecord) : Prop := s.epoch < r.epoch ∨ (s.epoch = r.epoch ∧ r.nodeId < s.nodeId)

/-- Node `i` has received a fact that `source` published. -/
def Heard (w : Fleet ι) (as : List (Contact ι)) (source : RoleRecord) (i : ι) : Prop :=
  ∃ before k primary now actor after m, as = before ++ .deliver i k primary now actor :: after ∧
    (w.run before).flight[k]? = some m ∧ m.nodeId = source.nodeId

end

/-! ### One contact -/

section

variable {r out : RoleRecord} {c : String} {m : Fact} {primary : Option NodeRef} {now : ℕ}
  {actor : String}

/-- A competing primary of the cluster, fenced by now or not. -/
structure Competitor (c : String) (r : RoleRecord) : Prop extends Valid r where
  cluster : r.clusterId = some c
  role : r.role = .primary ∨ r.role = .fenced

/-- What a contact leaves of a competitor. -/
structure Stays (r out : RoleRecord) : Prop where
  nodeId : out.nodeId = r.nodeId
  epoch : out.epoch = r.epoch
  fenced : r.role = .fenced → out.role = .fenced

theorem Competitor.settled (h : Competitor c r) : 1 ≤ r.epoch ∧ r.handover = none ∧ r.frozen = none := by
  have hshape := h.toValid.shape
  obtain hrole | hrole := h.role
  · simp only [RoleShape, hrole] at hshape
    exact ⟨hshape.2.1, hshape.2.2.2.1, hshape.2.2.2.2⟩
  · simp only [RoleShape, hrole] at hshape
    exact ⟨hshape.2.1, hshape.2.2.1, hshape.2.2.2⟩

theorem Competitor.raise (h : Competitor c r) (e : ℕ) : Competitor c (Observation.raise e r) := by
  refine ⟨⟨h.schema, h.nodeId, h.key, h.clusterId, h.changedBy, h.primary, h.handover, h.frozen,
    h.seen.trans (Nat.le_max_left _ _), ?_⟩, h.cluster, h.role⟩
  have hshape := h.toValid.shape
  obtain hrole | hrole := h.role <;> simpa [RoleShape, Observation.raise, hrole] using hshape

theorem Competitor.fenced (h : Competitor c r) (e : ℕ) (primary : Option NodeRef) :
    Competitor c { Observation.raise e r with
      role := .fenced
      handover := none
      primary := (Observation.usable r primary).or r.primary } := by
  refine ⟨⟨h.schema, h.nodeId, h.key, h.clusterId, h.changedBy, fun p hp => h.shown hp, nofun,
    h.frozen, h.seen.trans (Nat.le_max_left _ _), ?_⟩, h.cluster, .inr rfl⟩
  simpa [RoleShape, Observation.raise, h.cluster] using ⟨h.settled.1, h.settled.2.2⟩

theorem Competitor.stamp (h : Competitor c r) (hactor : textOk actor 128 = true) :
    Competitor c { r with changedAtMs := now, changedBy := actor } :=
  ⟨⟨h.schema, h.toValid.nodeId, h.key, h.clusterId, hactor, h.primary, h.handover, h.frozen, h.seen,
    h.toValid.shape⟩, h.cluster, h.role⟩

theorem Competitor.stamped {mid : RoleRecord} (h : Competitor c mid)
    (hactor : textOk actor 128 = true) : Competitor c (Role.stamped r now actor mid) := by
  unfold Role.stamped
  split
  · exact h
  · exact h.stamp hactor

/-- A contact fences a primary that is behind the peer, and raises the highest
epoch seen by any other. -/
theorem Competitor.step (h : Competitor c r) (hcluster : m.clusterId = c)
    (hpeer : isUuid m.nodeId = true) :
    Role.step r now (m.observed primary) = .ok
      (if r.role = .primary ∧ Fence.compare r c m.epoch m.nodeId m.writer = .localBehind then
        { Observation.raise m.epoch r with
          role := .fenced
          handover := none
          primary := (Observation.usable r primary).or r.primary }
      else Observation.raise m.epoch r) := by
  have hc : isUuid c = true := h.clusterId c h.cluster
  simp only [Role.step, Fact.observed, Observation.step, hcluster, hc, hpeer, h.cluster,
    Observation.observe, Option.getD_some]
  obtain hrole | hrole := h.role
  · simp only [hrole, true_and]
    split <;> rfl
  · simp only [hrole, reduceCtorEq, false_and, if_false]
    rfl

theorem compare_behind_iff {e : ℕ} {peer : String} {writer : Bool} (hcluster : r.clusterId = some c)
    (hrole : r.role = .primary) : Fence.compare r c e peer writer = .localBehind ↔
      r.epoch < e ∨ (e = r.epoch ∧ writer = true ∧ peer < r.nodeId) := by
  grind [Fence.compare]

theorem Competitor.contact (h : Competitor c r) (hcluster : m.clusterId = c)
    (hpeer : isUuid m.nodeId = true) (hactor : textOk actor 128 = true) :
    ∃ out, apply r (m.observed primary) now actor = .ok out ∧ Competitor c out ∧ Stays r out ∧
      (r.role = .primary → (out.role = .fenced ↔ r.epoch < m.epoch ∨
          (m.epoch = r.epoch ∧ m.writer = true ∧ m.nodeId < r.nodeId))) := by
  have hstep : Role.step r now (m.observed primary) = _ := h.step hcluster hpeer
  split at hstep
  · rename_i hbehind
    have hout : Competitor c (Role.stamped r now actor _) := (h.fenced m.epoch primary).stamped hactor
    refine ⟨_, apply_of_valid h.toValid hstep hout.toValid, hout, ⟨?_, ?_, ?_⟩, fun hrole => ?_⟩
    · simp [Observation.raise]
    · simp [Observation.raise]
    · simp
    · simpa using (compare_behind_iff h.cluster hrole).mp hbehind.2
  · rename_i hahead
    have hout : Competitor c (Role.stamped r now actor _) := (h.raise m.epoch).stamped hactor
    refine ⟨_, apply_of_valid h.toValid hstep hout.toValid, hout, ⟨?_, ?_, ?_⟩, fun hrole => ?_⟩
    · simp [Observation.raise]
    · simp [Observation.raise]
    · simp [Observation.raise]
    · rw [← compare_behind_iff h.cluster hrole]
      simpa [Observation.raise, hrole] using hahead

end

/-! ### Any sequence of contacts -/

/-- Of finitely many nodes with their own ids, one precedes all others. -/
theorem exists_first {ι : Type} [Finite ι] [Nonempty ι] (start : ι → RoleRecord)
    (hids : Function.Injective fun i => (start i).nodeId) :
    ∃ first, ∀ i, i ≠ first → Precedes (start first) (start i) := by
  obtain ⟨first, hmin⟩ := Finite.exists_min fun i =>
    toLex (OrderDual.toDual (start i).epoch, (start i).nodeId)
  refine ⟨first, fun i hi => ?_⟩
  obtain hlt | ⟨heq, hle⟩ := Prod.Lex.toLex_le_toLex.mp (hmin i)
  · exact .inl hlt
  · refine .inr ⟨(OrderDual.toDual.injective heq).symm, lt_of_le_of_ne hle fun h => ?_⟩
    exact hi (hids h.symm)

section

variable {ι : Type} [DecidableEq ι] {start : ι → RoleRecord} {c : String} {first : ι} {w : Fleet ι}

/-- The nodes are what they were but for their roles, the first one is still a
primary, and every fact in flight is true of the node that published it. -/
structure Fleet.Consistent (start : ι → RoleRecord) (c : String) (first : ι) (w : Fleet ι) : Prop where
  node : ∀ i, Competitor c (w.nodes i)
  nodeId : ∀ i, (w.nodes i).nodeId = (start i).nodeId
  epoch : ∀ i, (w.nodes i).epoch = (start i).epoch
  leads : (w.nodes first).role = .primary
  facts : ∀ m ∈ w.flight, m.clusterId = c ∧ ∃ j, m.nodeId = (start j).nodeId ∧
    m.epoch = (start j).epoch ∧ (j = first → m.writer = true)

variable {m : Fact}

theorem Fleet.Consistent.peer (h : w.Consistent start c first) (hm : m ∈ w.flight) :
    isUuid m.nodeId = true := by
  obtain ⟨-, j, hid, -⟩ := h.facts m hm
  rw [hid, ← h.nodeId j]
  exact (h.node j).nodeId

/-- The outcome of a delivery at one node. -/
theorem Fleet.Consistent.deliver (h : w.Consistent start c first) (i : ι) {k : ℕ}
    (primary : Option NodeRef) (now : ℕ) {actor : String} (hactor : textOk actor 128 = true)
    (hk : w.flight[k]? = some m) : ∃ out, w.act (.deliver i k primary now actor) =
        { w with nodes := Function.update w.nodes i out } ∧
      Competitor c out ∧ Stays (w.nodes i) out ∧
      ((w.nodes i).role = .primary → (out.role = .fenced ↔ (start i).epoch < m.epoch ∨
          (m.epoch = (start i).epoch ∧ m.writer = true ∧ m.nodeId < (start i).nodeId))) := by
  have hm : m ∈ w.flight := mem_of_getElem? hk
  obtain ⟨out, hout, hcomp, hstays, hfenced⟩ : ∃ out, apply (w.nodes i) (m.observed primary) now
      actor = .ok out ∧ _ := (h.node i).contact (h.facts m hm).1 (h.peer hm) hactor
  rw [h.epoch i, h.nodeId i] at hfenced
  exact ⟨out, by simp only [Fleet.act, hk, hout], hcomp, hstays, hfenced⟩

theorem Fleet.Consistent.act (h : w.Consistent start c first)
    (hfirst : ∀ i, i ≠ first → Precedes (start first) (start i)) {a : Contact ι} (ha : a.Ok) :
    (w.act a).Consistent start c first := by
  cases a with
  | publish i =>
    simp only [Fleet.act, (h.node i).cluster]
    refine ⟨h.node, h.nodeId, h.epoch, h.leads, fun m hm => ?_⟩
    obtain hm | hm := mem_append.mp hm
    · exact h.facts m hm
    · obtain rfl := mem_singleton.mp hm
      refine ⟨rfl, i, h.nodeId i, h.epoch i, ?_⟩
      rintro rfl
      simp [RoleRecord.fact, h.leads, Role.writersAllowed]
  | deliver i k primary now actor =>
    cases hk : w.flight[k]? with
    | none => simpa only [Fleet.act, hk] using h
    | some m =>
      obtain ⟨out, hact, hcomp, hstays, hfenced⟩ := h.deliver i primary now ha hk
      rw [hact]
      have hnode : ∀ j, Function.update w.nodes i out j = w.nodes j ∨
          (j = i ∧ Function.update w.nodes i out j = out) := by
        intro j
        by_cases hj : j = i
        · subst hj
          simp
        · simp [hj]
      refine ⟨fun j => ?_, fun j => ?_, fun j => ?_, ?_, h.facts⟩
      · obtain heq | ⟨-, heq⟩ := hnode j <;> simp only [heq]
        · exact h.node j
        · exact hcomp
      · obtain heq | ⟨rfl, heq⟩ := hnode j <;> simp only [heq]
        · exact h.nodeId j
        · exact hstays.nodeId.trans (h.nodeId j)
      · obtain heq | ⟨rfl, heq⟩ := hnode j <;> simp only [heq]
        · exact h.epoch j
        · exact hstays.epoch.trans (h.epoch j)
      · obtain heq | ⟨rfl, heq⟩ := hnode first <;> simp only [heq]
        · exact h.leads
        · -- No fact puts the first node behind: all of them are of nodes it precedes.
          refine hcomp.role.resolve_right fun hrole => ?_
          obtain ⟨-, j, hid, hepoch, -⟩ := h.facts m (mem_of_getElem? hk)
          have hbehind := (hfenced h.leads).mp hrole
          rw [hid, hepoch] at hbehind
          by_cases hj : j = first
          · subst hj
            simp at hbehind
          · obtain hlt | ⟨heqe, hltid⟩ := hfirst j hj
            · omega
            · obtain hlt' | ⟨-, -, hltid'⟩ := hbehind
              · omega
              · exact absurd hltid' hltid.asymm

variable {as : List (Contact ι)}

theorem Fleet.Consistent.run (h : w.Consistent start c first)
    (hfirst : ∀ i, i ≠ first → Precedes (start first) (start i)) (has : ∀ a ∈ as, a.Ok) :
    (w.run as).Consistent start c first := by
  induction as generalizing w with
  | nil => exact h
  | cons a as ih =>
    exact ih (h.act hfirst (has a mem_cons_self)) fun b hb => has b (mem_cons_of_mem _ hb)

/-- A fenced node stays fenced. -/
theorem Fleet.Consistent.stays_fenced (h : w.Consistent start c first)
    (hfirst : ∀ i, i ≠ first → Precedes (start first) (start i)) (has : ∀ a ∈ as, a.Ok) {i : ι}
    (hi : (w.nodes i).role = .fenced) : ((w.run as).nodes i).role = .fenced := by
  induction as generalizing w with
  | nil => exact hi
  | cons a as ih =>
    have ha := has a mem_cons_self
    refine ih (h.act hfirst ha) (fun b hb => has b (mem_cons_of_mem _ hb)) ?_
    cases a with
    | publish j => simpa only [Fleet.act, (h.node j).cluster] using hi
    | deliver j k primary now actor =>
      cases hk : w.flight[k]? with
      | none => simpa only [Fleet.act, hk] using hi
      | some m =>
        obtain ⟨out, hact, -, hstays, -⟩ := h.deliver j primary now ha hk
        rw [hact]
        by_cases hij : i = j
        · subst hij
          simpa using hstays.fenced hi
        · simpa [hij] using hi

/-- One fact of the first node fences any other node for good. -/
theorem Fleet.Consistent.heard (h : w.Consistent start c first)
    (hfirst : ∀ i, i ≠ first → Precedes (start first) (start i))
    (hids : Function.Injective fun i => (start i).nodeId) (has : ∀ a ∈ as, a.Ok) {i : ι}
    (hi : i ≠ first) (hheard : Heard w as (start first) i) : ((w.run as).nodes i).role = .fenced := by
  obtain ⟨before, k, primary, now, actor, after, m, rfl, hk, hid⟩ := hheard
  have hbefore : (w.run before).Consistent start c first :=
    h.run hfirst fun a ha => has a (mem_append_left _ ha)
  have hdeliver := has (.deliver i k primary now actor)
    (mem_append_right _ mem_cons_self)
  rw [Fleet.run_append, Fleet.run]
  refine (hbefore.act hfirst hdeliver).stays_fenced hfirst (fun a ha => has a
    (mem_append_right _ (mem_cons_of_mem _ ha))) ?_
  obtain ⟨out, hact, hcomp, hstays, hfenced⟩ := hbefore.deliver i primary now hdeliver hk
  rw [hact]
  simp only [Function.update_self]
  obtain hrole | hrole := (hbefore.node i).role
  · obtain ⟨-, j, hj, hepoch, hwriter⟩ := hbefore.facts m (mem_of_getElem? hk)
    obtain rfl : j = first := hids (hj.symm.trans hid)
    refine (hfenced hrole).mpr ?_
    rw [hepoch, hj]
    obtain hlt | ⟨heq, hlt⟩ := hfirst i hi
    · exact .inl hlt
    · exact .inr ⟨heq.symm, hwriter rfl, hlt⟩
  · exact hstays.fenced hrole

/-- Among finitely many primaries of one cluster, whatever they tell each other
and in whatever order, the first by epoch and id is never fenced, every other is
fenced from the first fact of it on, and no contact undoes a fence. -/
theorem competing_primaries_converge [Finite ι] [Nonempty ι] (start : ι → RoleRecord) (c : String)
    (hvalid : ∀ i, (start i).validate = .ok ()) (hrole : ∀ i, (start i).role = .primary)
    (hcluster : ∀ i, (start i).clusterId = some c)
    (hids : Function.Injective fun i => (start i).nodeId) :
    ∃ first, (∀ i, i ≠ first → Precedes (start first) (start i)) ∧
      ∀ as : List (Contact ι), (∀ a ∈ as, a.Ok) → let w : Fleet ι := ⟨start, []⟩
        ((w.run as).nodes first).role = .primary ∧
        (∀ i, i ≠ first → Heard w as (start first) i → ((w.run as).nodes i).role = .fenced) ∧
        (∀ before after i, as = before ++ after → ((w.run before).nodes i).role = .fenced →
          ((w.run as).nodes i).role = .fenced) ∧
        ((∀ i, i ≠ first → Heard w as (start first) i) →
          ∀ i, ((w.run as).nodes i).role.writersAllowed = true ↔ i = first) := by
  obtain ⟨first, hfirst⟩ := exists_first start hids
  refine ⟨first, hfirst, fun as has => ?_⟩
  intro w
  have hw : w.Consistent start c first :=
    ⟨fun i => ⟨validate_iff.mp (hvalid i), hcluster i, .inl (hrole i)⟩, fun _ => rfl, fun _ => rfl,
      hrole first, nofun⟩
  have hend := (hw.run hfirst has).leads
  refine ⟨hend, fun i hi hheard => hw.heard hfirst hids has hi hheard, ?_, fun hall i => ?_⟩
  · rintro before after i rfl hi
    rw [Fleet.run_append]
    exact (hw.run hfirst fun a ha => has a (mem_append_left _ ha)).stays_fenced hfirst
      (fun a ha => has a (mem_append_right _ ha)) hi
  · by_cases hi : i = first
    · subst hi
      simp [hend, Role.writersAllowed]
    · simp [hw.heard hfirst hids has hi (hall i hi), hi, Role.writersAllowed]

end

namespace Sample

/-- The laptop and the server after two forced takeovers at the same epoch. -/
def rival (isServer : Bool) : RoleRecord :=
  { RoleRecord.standalone (if isServer then server else laptop) key 0 "owner" with
    role := .primary
    epoch := 7
    highestSeenEpoch := 7
    clusterId := some cluster }

theorem rival_valid (b : Bool) : (rival b).validate = .ok () := by
  refine validate_iff.mpr ⟨rfl, ?_, key_fingerprint, ?_, owner_text, nofun, nofun, nofun, Nat.le_refl _, ?_⟩
  · cases b
    · exact laptop_uuid
    · exact server_uuid
  · rintro c ⟨⟩
    exact cluster_uuid
  · simp [RoleShape, rival, RoleRecord.standalone]

end Sample

/-- Two rivals: the one that precedes the other is never fenced. -/
theorem competing_primaries_converge_rivals : ∃ first, ∀ as : List (Contact Bool), (∀ a ∈ as, a.Ok) →
      ((Fleet.run ⟨Sample.rival, []⟩ as).nodes first).role = .primary := by
  obtain ⟨first, -, h⟩ := competing_primaries_converge Sample.rival Sample.cluster
    Sample.rival_valid (fun _ => rfl) (fun _ => rfl) (by decide)
  exact ⟨first, fun as has => (h as has).1⟩

end Plur1bus.Role
