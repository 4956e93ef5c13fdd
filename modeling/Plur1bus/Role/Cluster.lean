import Mathlib.Logic.Relation
import Plur1bus.Role.Records

/-!
Any number of nodes that hand a cluster over to one another. A committed source
issues a token, and the token makes its target the next primary; it may be late,
lost, repeated or tried at any node. Everything else an event carries is
arbitrary, except that a standalone node that prepares its first handover names
a cluster nobody has founded before. Handover ids need not even be fresh.

The authority to write in a cluster is held by a node or by a token that its
target has not used up. A commit passes it from the one to the other, an
activation passes it back, a fence ends it, and nothing makes a second one.
-/

namespace Plur1bus.Role

open Program Function

structure Token where
  handoverId : String
  clusterId : String
  epoch : ℕ
  bundleSha256 : String
  targetNodeId : String
  deriving DecidableEq, Repr

/-- The nodes by their ids, every token issued so far, and every cluster a
standalone node has founded. -/
structure Net where
  nodes : String → RoleRecord
  tokens : List Token
  founded : List String

/-- The token of a commit that made `out` of `r`. -/
def issued (r out : RoleRecord) : Option Token := do
  let ho ← r.handover
  let c ← r.clusterId
  let bundle ← ho.bundleSha256
  pure ⟨ho.id, c, out.epoch, bundle, ho.peerNodeId⟩

namespace Net

def start (key actor : String → String) (now : String → ℕ) : Net where
  nodes n := .standalone n (key n) (now n) (actor n)
  tokens := []
  founded := []

/-- A founded cluster is a new one, a token is one that was issued, and no one
forces a takeover, restores a frozen node or leaves. -/
def Allowed (s : Net) : Event → Prop
  | .prepare _ _ _ newClusterId _ => ∀ c, newClusterId = some c → c ∉ s.founded
  | .activate handoverId clusterId epoch bundleSha256 targetNodeId =>
    ⟨handoverId, clusterId, epoch, bundleSha256, targetNodeId⟩ ∈ s.tokens
  | .forceTakeover .. | .restoreFrozen .. | .leave .. => False
  | _ => True

def after (s : Net) (n : String) (ev : Event) (out : RoleRecord) : Net where
  nodes := Function.update s.nodes n out
  tokens :=
    match ev with
    | .commit .. => (issued (s.nodes n) out).toList ++ s.tokens
    | _ => s.tokens
  founded :=
    match ev with
    | .prepare _ _ _ newClusterId _ => newClusterId.toList ++ s.founded
    | _ => s.founded

/-- Node `n` accepts an event; a refused one changes nothing. -/
inductive Step (s : Net) : Net → Prop
  | accepted (n : String) (ev : Event) (now : ℕ) (actor : String) (out : RoleRecord)
      (clock : now ≤ U64_MAX) (allowed : s.Allowed ev)
      (accepts : apply (s.nodes n) ev now actor = .ok out) : Step s (s.after n ev out)

end Net

/-! ### Writers and used tokens -/

/-- A primary of the cluster, or one that is handing it over. -/
def Writes (c : String) (r : RoleRecord) : Prop :=
  r.clusterId = some c ∧ (r.role = .primary ∨ r.role = .handingOver)

/-- The token's target is in its cluster for good, has seen its epoch, and is not
waiting for it. -/
structure Spent (t : Token) (r : RoleRecord) : Prop where
  cluster : r.clusterId = some t.clusterId
  seen : t.epoch ≤ r.highestSeenEpoch
  member : r.role ≠ .standalone
  back : ∀ ho, r.role = .pending → r.handover = some ho →
    ho.previousRole ≠ .standalone ∧ ho.expectedEpoch ≠ some t.epoch

section

variable {r out : RoleRecord} {now : ℕ} {t : Token} {c : String} {e : ℕ}

/-- A node that is not a target any more keeps a token spent if it keeps its place. -/
theorem Spent.of_role (h : Spent t r) (hcluster : out.clusterId = r.clusterId)
    (hseen : r.highestSeenEpoch ≤ out.highestSeenEpoch) (hmember : out.role ≠ .standalone)
    (htarget : out.role ≠ .pending) : Spent t out :=
  ⟨hcluster.trans h.cluster, h.seen.trans hseen, hmember, fun _ hp _ => absurd hp htarget⟩

theorem Spent.restored (h : Spent t r) (hr : Sound r) (hrole : r.role = .pending) {ho : Handover}
    (hho : r.handover = some ho) :
    restorePrevious r ho = { r with role := .client, handover := none } := by
  obtain ⟨-, hprev⟩ | ⟨heq, -⟩ := hr.restore_target hrole hho
  · exact absurd hprev (h.back ho hrole hho).1
  · exact heq

theorem Spent.observed (h : Spent t r) (hr : Sound r) {cluster peer : String} {writer : Bool}
    {primary : Option NodeRef}
    (hstep : Observation.step r cluster e peer writer primary now = .ok out) : Spent t out := by
  obtain ⟨-, hcase⟩ := observed_ok hstep
  obtain ⟨hrole, ⟨-, rfl⟩ | ⟨-, rfl⟩⟩ | ⟨hrole, ⟨-, rfl⟩ | ⟨-, rfl⟩ | ⟨-, rfl⟩⟩ |
    ⟨hrole, ho, hho, ⟨-, rfl⟩ | ⟨-, rfl⟩⟩ | ⟨hrole, rfl⟩ := hcase
  · exact h.of_role rfl (Nat.le_max_left _ _) (by simp [Observation.raise]) (by simp [Observation.raise])
  · refine h.of_role rfl (Nat.le_max_left _ _) h.member fun hp => ?_
    simp [Observation.raise] at hp
    simp [hp] at hrole
  · exact h
  · exact h.of_role rfl (Nat.le_refl _) h.member (by simp [hrole])
  · exact h.of_role rfl (Nat.le_max_left _ _) h.member (by simp [hrole])
  · rw [h.restored hr hrole hho]
    exact h.of_role rfl (Nat.le_max_left _ _) (by simp [Observation.raise]) (by simp [Observation.raise])
  · exact ⟨h.cluster, h.seen.trans (Nat.le_max_left _ _), h.member, h.back⟩
  · refine h.of_role rfl (Nat.le_max_left _ _) h.member ?_
    simp [Observation.raise, hrole]

/-- A spent token stays spent, whatever its target does but leave the cluster. -/
theorem Spent.step (h : Spent t r) (hr : Sound r) (hleave : ∀ confirmed, ev ≠ .leave confirmed)
    (hstep : Role.step r now ev = .ok out) : Spent t out := by
  cases ev with
  | prepare =>
    obtain ⟨cluster, epoch, hstart, -, -, -, -, -, rfl⟩ := prepare_ok hstep
    obtain ⟨hrole, -⟩ | ⟨-, hc, -⟩ := hstart
    · exact absurd hrole h.member
    · exact h.of_role hc.symm (Nat.le_max_left _ _) nofun nofun
  | bundleReady =>
    obtain ⟨hrole, -, ho, -, rfl⟩ := bundleReady_ok hstep
    exact h.of_role rfl (Nat.le_refl _) h.member (by simp [hrole])
  | renewLease =>
    obtain ⟨-, ho, hho, rfl⟩ := renewLease_ok hstep
    refine ⟨h.cluster, h.seen, h.member, ?_⟩
    rintro ho' hp ⟨⟩
    exact h.back ho hp hho
  | abort =>
    obtain ⟨hrole, ho, hho, rfl⟩ := abort_ok hstep
    rw [hr.restore_source hrole hho]
    exact h.of_role rfl (Nat.le_refl _) nofun nofun
  | commit =>
    obtain ⟨-, -, -, ho, bundle, -, -, -, rfl⟩ := commit_ok hstep
    exact h.of_role rfl (Nat.le_max_left _ _) nofun nofun
  | accept =>
    obtain ⟨hstart, -, -, -, -, -, -, hstale, rfl⟩ := accept_ok hstep
    obtain hrole | ⟨hrole, hc⟩ := hstart
    · exact absurd hrole h.member
    · refine ⟨hc.symm.trans h.cluster, h.seen.trans (Nat.le_max_left _ _), nofun, ?_⟩
      rintro ho - ⟨⟩
      -- A new bundle is at least as new as what was seen, so its epoch is above the token's.
      have hnew := h.seen.trans hstale
      refine ⟨by simp [hrole], fun heq => ?_⟩
      simp only [Option.some.injEq] at heq
      omega
  | activate =>
    obtain ⟨-, -, -, -, -, rfl⟩ := activate_ok hstep
    exact h.of_role rfl (Nat.le_max_left _ _) nofun nofun
  | discard =>
    obtain ⟨hrole, ho, hho, rfl⟩ := discard_ok hstep
    rw [h.restored hr hrole hho]
    exact h.of_role rfl (Nat.le_refl _) nofun nofun
  | forceTakeover =>
    obtain ⟨-, rfl⟩ := forceTakeover_ok hstep
    exact h.of_role rfl (Nat.le_succ _) nofun nofun
  | restoreFrozen =>
    obtain ⟨-, rfl⟩ := restoreFrozen_ok hstep
    exact h.of_role rfl ((Nat.le_max_left _ _).trans (Nat.le_succ _)) nofun nofun
  | observed => exact h.observed hr hstep
  | resolveAsClient =>
    obtain ⟨-, -, -, rfl⟩ := resolveAsClient_ok hstep
    exact h.of_role rfl (Nat.le_max_left _ _) nofun nofun
  | join =>
    obtain ⟨hrole, -⟩ := join_ok hstep
    exact absurd hrole h.member
  | leave confirmed => exact absurd rfl (hleave confirmed)

/-- Where a writer comes from: it wrote the same cluster at the same epoch before,
it founded the cluster, or it used a token. -/
theorem writes_origin (hr : Sound r) (hforce : ∀ w b, ev ≠ .forceTakeover w b)
    (hrestore : ∀ b d, ev ≠ .restoreFrozen b d) (hstep : Role.step r now ev = .ok out)
    (hout : Writes c out) : (Writes c r ∧ out.epoch = r.epoch) ∨
      (∃ id target key ttl, ev = .prepare id target key (some c) ttl) ∨
      ∃ id epoch bundle, ev = .activate id c epoch bundle r.nodeId ∧ out.epoch = epoch := by
  obtain ⟨hcluster, hwrites⟩ := hout
  cases ev with
  | prepare =>
    obtain ⟨cluster, epoch, hstart, -, -, -, -, -, rfl⟩ := prepare_ok hstep
    cases hcluster
    obtain ⟨-, rfl, -⟩ | ⟨hrole, hc, rfl⟩ := hstart
    · exact .inr (.inl ⟨_, _, _, _, rfl⟩)
    · exact .inl ⟨⟨hc, .inl hrole⟩, rfl⟩
  | bundleReady =>
    obtain ⟨hrole, -, ho, -, rfl⟩ := bundleReady_ok hstep
    exact .inl ⟨⟨hcluster, .inr hrole⟩, rfl⟩
  | renewLease =>
    obtain ⟨-, ho, -, rfl⟩ := renewLease_ok hstep
    exact .inl ⟨⟨hcluster, hwrites⟩, rfl⟩
  | abort =>
    obtain ⟨hrole, ho, hho, rfl⟩ := abort_ok hstep
    rw [hr.restore_source hrole hho] at hcluster ⊢
    exact .inl ⟨⟨hcluster, .inr hrole⟩, rfl⟩
  | commit =>
    obtain ⟨-, -, -, ho, bundle, -, -, -, rfl⟩ := commit_ok hstep
    simp at hwrites
  | accept =>
    obtain ⟨-, -, -, -, -, -, -, -, rfl⟩ := accept_ok hstep
    simp at hwrites
  | activate id cluster epoch bundle target =>
    obtain ⟨-, hc, rfl, -, -, rfl⟩ := activate_ok hstep
    obtain rfl : cluster = c := Option.some.inj (hc.symm.trans hcluster)
    exact .inr (.inr ⟨id, epoch, bundle, rfl, rfl⟩)
  | discard =>
    obtain ⟨hrole, ho, hho, rfl⟩ := discard_ok hstep
    obtain ⟨heq, -⟩ | ⟨heq, -⟩ := hr.restore_target hrole hho <;>
      simp [heq, becomeStandalone] at hwrites
  | forceTakeover w b => exact absurd rfl (hforce w b)
  | restoreFrozen b d => exact absurd rfl (hrestore b d)
  | observed =>
    obtain ⟨-, hcase⟩ := observed_ok hstep
    obtain ⟨hrole, ⟨-, rfl⟩ | ⟨-, rfl⟩⟩ | ⟨hrole, ⟨-, rfl⟩ | ⟨-, rfl⟩ | ⟨-, rfl⟩⟩ |
      ⟨hrole, ho, hho, ⟨-, rfl⟩ | ⟨-, rfl⟩⟩ | ⟨hrole, rfl⟩ := hcase
    · simp at hwrites
    · exact .inl ⟨⟨hcluster, hrole⟩, rfl⟩
    · simp [hrole] at hwrites
    · simp [hrole] at hwrites
    · simp [hrole] at hwrites
    · obtain ⟨heq, -⟩ | ⟨heq, -⟩ := hr.restore_target hrole hho <;>
        simp [heq, becomeStandalone, Observation.raise] at hwrites
    · simp [Observation.raise, hrole] at hwrites
    · simp [Observation.raise, hrole] at hwrites
  | resolveAsClient =>
    obtain ⟨-, -, -, rfl⟩ := resolveAsClient_ok hstep
    simp at hwrites
  | join =>
    obtain ⟨-, -, -, -, rfl⟩ := join_ok hstep
    simp at hwrites
  | leave =>
    obtain ⟨-, rfl⟩ := leave_ok hstep
    simp [becomeStandalone] at hwrites

/-! The same of the record that is stored. -/

variable {actor : String} {ev : Event}

theorem Spent.apply (h : Spent t r) (hr : Remembers r) (hleave : ∀ confirmed, ev ≠ .leave confirmed)
    (happly : apply r ev now actor = .ok out) : Spent t out := by
  obtain ⟨hvalid, -, mid, hmid, rfl⟩ := apply_ok happly
  have hspent := h.step ⟨hvalid, hr⟩ hleave hmid
  exact ⟨by simpa using hspent.cluster, by simpa using hspent.seen, by simpa using hspent.member,
    by simpa using hspent.back⟩

theorem writes_origin_apply (hr : Remembers r) (hforce : ∀ w b, ev ≠ .forceTakeover w b)
    (hrestore : ∀ b d, ev ≠ .restoreFrozen b d) (happly : Role.apply r ev now actor = .ok out)
    (hout : Writes c out) :
    (Writes c r ∧ out.epoch = r.epoch) ∨ (∃ id target key ttl, ev = .prepare id target key (some c) ttl) ∨
      ∃ id epoch bundle, ev = .activate id c epoch bundle r.nodeId ∧ out.epoch = epoch := by
  obtain ⟨hvalid, -, mid, hmid, rfl⟩ := apply_ok happly
  simp only [Writes, stamped_clusterId, stamped_role, stamped_epoch] at hout ⊢
  exact writes_origin ⟨hvalid, hr⟩ hforce hrestore hmid hout

/-- A commit issues a token for the next epoch, and the source writes no more. -/
theorem commit_issues {a b d : String} {p : NodeRef} {window : ℕ}
    (happly : Role.apply r (.commit a b d p window) now actor = .ok out) :
    ∃ t c, issued r out = some t ∧ t.clusterId = c ∧ Writes c r ∧ t.epoch = r.epoch + 1 ∧
      out.role = .client := by
  obtain ⟨hvalid, -, mid, hmid, rfl⟩ := apply_ok happly
  obtain ⟨hrole, -, -, ho, bundle, hho, hbundle, -, rfl⟩ := commit_ok hmid
  have hshape := hvalid.shape
  simp only [RoleShape, hrole] at hshape
  obtain ⟨c, hc⟩ := Option.isSome_iff_exists.mp hshape.1
  refine ⟨⟨ho.id, c, r.epoch + 1, bundle, ho.peerNodeId⟩, c, ?_, rfl, ⟨hc, .inr hrole⟩, rfl, ?_⟩
  · simp [issued, hho, hc, hbundle]
  · simp

/-- An activation uses a token that was not spent, and spends it. -/
theorem activate_spends {id cluster bundle target : String}
    (happly : Role.apply r (.activate id cluster e bundle target) now actor = .ok out) :
    target = r.nodeId ∧ ¬Spent ⟨id, cluster, e, bundle, target⟩ r ∧
      Spent ⟨id, cluster, e, bundle, target⟩ out := by
  obtain ⟨-, -, mid, hmid, rfl⟩ := apply_ok happly
  obtain ⟨hrole, hc, htarget, -, ⟨ho, hho, -, -, hexpected⟩, rfl⟩ := activate_ok hmid
  refine ⟨htarget, fun hspent => (hspent.back ho hrole hho).2 hexpected, ?_, ?_, ?_, ?_⟩
  · simpa using hc
  · simp
  · simp
  · simp

end

/-! ### Who holds the authority of a cluster -/

inductive Holder
  | node (n : String)
  | token (t : Token)

/-- A writer of the cluster at epoch `e`, or a token for `e` that is not spent. -/
def Net.Holds (s : Net) (c : String) (e : ℕ) : Holder → Prop
  | .node n => Writes c (s.nodes n) ∧ (s.nodes n).epoch = e
  | .token t => t ∈ s.tokens ∧ t.clusterId = c ∧ t.epoch = e ∧ ¬Spent t (s.nodes t.targetNodeId)

structure Net.Inv (s : Net) : Prop where
  nodeId : ∀ n, (s.nodes n).nodeId = n
  remembers : ∀ n, Remembers (s.nodes n)
  founded : ∀ c e h, s.Holds c e h → c ∈ s.founded
  unique : ∀ c e e' h h', s.Holds c e h → s.Holds c e' h' → h = h'

theorem Net.inv_start (key actor : String → String) (now : String → ℕ) : (Net.start key actor now).Inv := by
  have hnone : ∀ c e h, ¬(Net.start key actor now).Holds c e h := by
    rintro c e (n | t) h
    · obtain ⟨⟨h, -⟩, -⟩ := h
      cases h
    · exact absurd h.1 List.not_mem_nil
  exact ⟨fun _ => rfl, fun _ => trivial, fun c e h hh => absurd hh (hnone c e h),
    fun c e _ h _ hh => absurd hh (hnone c e h)⟩

section

variable {s s' : Net}

variable {n : String}

/-- A token that is not spent after a step was not spent before it. -/
theorem Net.Inv.unspent (hs : s.Inv) {ev : Event} {now : ℕ} {actor : String} {out : RoleRecord}
    (hallowed : s.Allowed ev) (happly : apply (s.nodes n) ev now actor = .ok out) {t : Token}
    (h : ¬Spent t ((s.after n ev out).nodes t.targetNodeId)) : ¬Spent t (s.nodes t.targetNodeId) := by
  intro hspent
  apply h
  by_cases hn : t.targetNodeId = n
  · have hleave : ∀ confirmed, ev ≠ .leave confirmed := by
      rintro confirmed rfl
      exact hallowed
    simp only [Net.after, hn, update_self] at hspent ⊢
    exact hspent.apply (hs.remembers n) hleave happly
  · simpa only [Net.after, update_of_ne hn] using hspent

/-- Whoever holds a cluster's authority after a step held it before, or is the one
holder the step adds: it founded the cluster, or took over from a holder that has
let go, at a later epoch or from a token of the same one. -/
theorem Net.Inv.origin (hs : s.Inv) (hstep : s.Step s') :
    ∃ new, ∀ c e' h', s'.Holds c e' h' → s.Holds c e' h' ∨ (h' = new ∧ ((c ∉ s.founded ∧ c ∈ s'.founded) ∨
        ∃ e h, s.Holds c e h ∧ (∀ e₁, ¬s'.Holds c e₁ h) ∧ (e < e' ∨ (e = e' ∧ ∃ t, h = .token t)))) := by
  obtain ⟨n, ev, now, actor, out, -, hallowed, happly⟩ := hstep
  have hother : ∀ {c e' m}, m ≠ n → (s.after n ev out).Holds c e' (.node m) → s.Holds c e' (.node m) := by
    intro c e' m hm hh
    simpa only [Net.Holds, Net.after, update_of_ne hm] using hh
  by_cases hcommit : ∃ a b d p w, ev = .commit a b d p w
  · -- A commit: the authority passes from the source to the token.
    obtain ⟨a, b, d, p, w, rfl⟩ := hcommit
    obtain ⟨t, c₀, hissued, rfl, hwrites, hepoch, hclient⟩ := commit_issues happly
    have hsilent : ∀ c e₁, ¬(s.after n (.commit a b d p w) out).Holds c e₁ (.node n) := by
      rintro c e₁ ⟨⟨-, hrole⟩, -⟩
      simp [Net.after, hclient] at hrole
    refine ⟨.token t, fun c e' h' hh => ?_⟩
    cases h' with
    | node m =>
      refine .inl (hother (fun hm => ?_) hh)
      subst hm
      exact hsilent c e' hh
    | token t' =>
      obtain ⟨hmem, rfl, rfl, hlive⟩ := hh
      simp only [Net.after, hissued, Option.toList_some, List.cons_append, List.nil_append,
        List.mem_cons] at hmem
      obtain rfl | hmem := hmem
      · exact .inr ⟨rfl, .inr ⟨_, .node n, ⟨hwrites, rfl⟩, hsilent _, .inl (by omega)⟩⟩
      · exact .inl ⟨hmem, rfl, rfl, hs.unspent hallowed happly hlive⟩
  · have htokens : (s.after n ev out).tokens = s.tokens := by
      cases ev <;> first | rfl | simp at hcommit
    refine ⟨.node n, fun c e' h' hh => ?_⟩
    cases h' with
    | token t' =>
      obtain ⟨hmem, hc, he, hlive⟩ := hh
      rw [htokens] at hmem
      exact .inl ⟨hmem, hc, he, hs.unspent hallowed happly hlive⟩
    | node m =>
      by_cases hm : m = n
      swap
      · exact .inl (hother hm hh)
      subst hm
      obtain ⟨hwrites, rfl⟩ := hh
      simp only [Net.after, update_self] at hwrites
      have hforce : ∀ w b, ev ≠ .forceTakeover w b := by
        rintro w b rfl
        exact hallowed
      have hrestore : ∀ b d, ev ≠ .restoreFrozen b d := by
        rintro b d rfl
        exact hallowed
      obtain ⟨hold, heq⟩ | ⟨id, target, key, ttl, rfl⟩ | ⟨id, epoch, bundle, rfl, heq⟩ :=
        writes_origin_apply (hs.remembers m) hforce hrestore happly hwrites
      · exact .inl ⟨hold, by simpa [Net.after] using heq.symm⟩
      · exact .inr ⟨rfl, .inl ⟨hallowed c rfl, by simp [Net.after]⟩⟩
      · -- An activation: the authority passes from the token to its target.
        obtain ⟨-, hlive, hspent⟩ := activate_spends happly
        rw [hs.nodeId m] at hallowed hlive hspent
        refine .inr ⟨rfl, .inr ⟨epoch, .token ⟨id, c, epoch, bundle, m⟩, ⟨hallowed, rfl, rfl, hlive⟩,
          fun e₁ hh => hh.2.2.2 ?_, .inr ⟨by simpa [Net.after] using heq.symm, _, rfl⟩⟩⟩
        simpa [Net.after] using hspent

theorem Net.Step.founded (hstep : s.Step s') {c : String} (h : c ∈ s.founded) : c ∈ s'.founded := by
  obtain ⟨n, ev, now, actor, out, -, -, -⟩ := hstep
  cases ev <;> simp [Net.after, h]

theorem Net.Inv.step (hs : s.Inv) (hstep : s.Step s') : s'.Inv := by
  obtain ⟨new, horigin⟩ := hs.origin hstep
  refine ⟨fun m => ?_, fun m => ?_, fun c e h hh => ?_, fun c e e' h h' hh hh' => ?_⟩
  · obtain ⟨n, ev, now, actor, out, hclock, -, happly⟩ := hstep
    by_cases hm : m = n
    · subst hm
      have hr : Sound (s.nodes m) := ⟨(apply_ok happly).1, hs.remembers m⟩
      simpa [Net.after] using (hr.apply hclock happly).2.node.trans (hs.nodeId m)
    · simpa [Net.after, hm] using hs.nodeId m
  · obtain ⟨n, ev, now, actor, out, hclock, -, happly⟩ := hstep
    by_cases hm : m = n
    · subst hm
      have hr : Sound (s.nodes m) := ⟨(apply_ok happly).1, hs.remembers m⟩
      simpa [Net.after] using (hr.apply hclock happly).1.remembers
    · simpa [Net.after, hm] using hs.remembers m
  · obtain hold | ⟨-, ⟨-, hnew⟩ | ⟨e₀, h₀, hold, -⟩⟩ := horigin c e h hh
    · exact hstep.founded (hs.founded c e h hold)
    · exact hnew
    · exact hstep.founded (hs.founded c e₀ h₀ hold)
  · -- Two holders after the step have the same holder before it, or none.
    obtain hold | ⟨rfl, hnew⟩ := horigin c e h hh <;>
      obtain hold' | ⟨rfl, hnew'⟩ := horigin c e' h' hh'
    · exact hs.unique c e e' h h' hold hold'
    · obtain ⟨hfresh, -⟩ | ⟨e₀, h₀, hheld, hgone, -⟩ := hnew'
      · exact absurd (hs.founded c e h hold) hfresh
      · obtain rfl := hs.unique c e₀ e h₀ h hheld hold
        exact absurd hh (hgone e)
    · obtain ⟨hfresh, -⟩ | ⟨e₀, h₀, hheld, hgone, -⟩ := hnew
      · exact absurd (hs.founded c e' h' hold') hfresh
      · obtain rfl := hs.unique c e₀ e' h₀ h' hheld hold'
        exact absurd hh' (hgone e')
    · rfl

theorem Net.Inv.run (hs : s.Inv) (hrun : Relation.ReflTransGen Net.Step s s') : s'.Inv := by
  induction hrun with
  | refl => exact hs
  | tail _ hstep ih => exact ih.step hstep

/-- Once a node has held a cluster at an epoch, whoever else holds it later does so
at a later epoch. -/
theorem Net.Inv.reign (hs : s.Inv) (hrun : Relation.ReflTransGen Net.Step s s') {c : String} {e : ℕ}
    (hn : s.Holds c e (.node n)) :
    c ∈ s'.founded ∧ ∀ h e', s'.Holds c e' h → (h = .node n ∧ e' = e) ∨ e < e' := by
  induction hrun with
  | refl =>
    refine ⟨hs.founded c e _ hn, fun h e' hh => .inl ?_⟩
    obtain rfl := hs.unique c e' e h _ hh hn
    exact ⟨rfl, hh.2.symm.trans hn.2⟩
  | tail hrun hstep ih =>
    obtain ⟨hfounded, hlater⟩ := ih
    obtain ⟨new, horigin⟩ := (hs.run hrun).origin hstep
    refine ⟨hstep.founded hfounded, fun h e' hh => ?_⟩
    obtain hold | ⟨-, ⟨hfresh, -⟩ | ⟨e₀, h₀, hheld, -, hepoch⟩⟩ := horigin c e' h hh
    · exact hlater h e' hold
    · exact absurd hfounded hfresh
    · grind

/-- In every state nodes can reach from being standalone, a cluster has at most one
node that writes in it, and over the whole run at most one node is ever a primary
at each epoch of a cluster. -/
theorem one_primary_per_cluster (key actor : String → String) (now : String → ℕ) {s : Net}
    (hrun : Relation.ReflTransGen Net.Step (Net.start key actor now) s) :
    (∀ c n m, Writes c (s.nodes n) → Writes c (s.nodes m) → n = m) ∧
      ∀ s', Relation.ReflTransGen Net.Step s s' → ∀ c e n m,
        (s.nodes n).role = .primary ∧ (s.nodes n).clusterId = some c ∧ (s.nodes n).epoch = e →
        (s'.nodes m).role = .primary ∧ (s'.nodes m).clusterId = some c ∧ (s'.nodes m).epoch = e →
        n = m := by
  have hs : s.Inv := (Net.inv_start key actor now).run hrun
  refine ⟨fun c n m hn hm => ?_, ?_⟩
  · cases hs.unique c _ _ (.node n) (.node m) ⟨hn, rfl⟩ ⟨hm, rfl⟩
    rfl
  · rintro s' hrun' c e n m ⟨hrole, hcluster, hepoch⟩ ⟨hrole', hcluster', hepoch'⟩
    have hn : s.Holds c e (.node n) := ⟨⟨hcluster, .inl hrole⟩, hepoch⟩
    have hm : s'.Holds c e (.node m) := ⟨⟨hcluster', .inl hrole'⟩, hepoch'⟩
    obtain ⟨heq, -⟩ | hlt := (hs.reign hrun' hn).2 _ e hm
    · cases heq
      rfl
    · exact absurd hlt (Nat.lt_irrefl e)

end

namespace Sample

/-- Standalone nodes with one key. -/
def alone : Net := .start (fun _ => key) (fun _ => "owner") (fun _ => 0)

/-- The laptop's record once it has begun to hand its new cluster over. -/
def handing : RoleRecord := Role.run (.standalone laptop key 0 "owner") [prepared]

theorem handing_accepted :
    apply (.standalone laptop key 0 "owner") prepared.event 1000 "owner" = .ok handing := by
  decide +kernel

end Sample

/-- The laptop founds a cluster and is the only one that writes in it. -/
theorem one_primary_per_cluster_founded : Relation.ReflTransGen Net.Step Sample.alone
        (Sample.alone.after Sample.laptop Sample.prepared.event Sample.handing) ∧
      ∀ m, Writes Sample.cluster
          ((Sample.alone.after Sample.laptop Sample.prepared.event Sample.handing).nodes m) →
        m = Sample.laptop := by
  have hrun : Relation.ReflTransGen Net.Step Sample.alone
      (Sample.alone.after Sample.laptop Sample.prepared.event Sample.handing) :=
    .single (.accepted Sample.laptop Sample.prepared.event 1000 "owner" Sample.handing (by decide)
      (fun c _ => List.not_mem_nil) Sample.handing_accepted)
  refine ⟨hrun, fun m hm => (one_primary_per_cluster _ _ _ hrun).1 Sample.cluster m Sample.laptop hm ?_⟩
  have hwrites : Sample.handing.clusterId = some Sample.cluster ∧
      Sample.handing.role = .handingOver := by decide +kernel
  simpa [Net.after, Writes] using ⟨hwrites.1, .inr hwrites.2⟩

end Plur1bus.Role
