import Plur1bus.Update.Swap

/-!
All or nothing. Every program of the update leaves a sound home wherever it is cut off,
and a sound home is settled by `recover`: what is installed is what was, or it is new and
the gate was passed. A recovery that is cut off leaves a sound home again, so any number of
them may be, and a settled home is left alone.
-/

namespace Plur1bus.Update

open Program

variable {B T H : Type} [DecidableEq H] {env : Env B T H} {host : Host B} {a : Attempt B T}
  {R : String → Home B T H → Prop}

/-! ### The commit -/

variable {st : State}

/-- Of two manifests written one over the other the first leaves nothing. -/
theorem released_released {st' : State} (hrelease : st'.release = st.release) (now now' : ℕ)
    (m : Manifest) : released st now (released st' now' m) = released st now m := by
  unfold released
  rw [hrelease]
  cases st.release.toolsSha256 <;> cases st.release.core <;> rfl

variable {i : Install B T} {s : Snapshot B T H}

/-- The new manifest is written once more. -/
theorem Gated.newManifest (h : Gated env a i s) {m : Manifest} (hm : i.manifest = some m)
    (hours : Ours host a st) (now : ℕ) : NewManifest a (some (released st now m)) := by
  obtain ⟨hold, -⟩ | ⟨st', now', old, hrelease, -, hold, hnew⟩ := h.manifest
  · exact ⟨st, now, m, hours.release, hours.toVersion, hold.symm.trans hm, rfl⟩
  · refine ⟨st, now, old, hours.release, hours.toVersion, hold, ?_⟩
    obtain rfl : released st' now' old = m := Option.some.inj (hnew.symm.trans hm)
    rw [released_released (hrelease.trans hours.release.symm)]

theorem triple_commit (hfault : Faultless env) :
    Triple (In host a .gated (Files.fit env a .gated)) (commit env host)
      (fun _ => In host a .committed (Files.fit env a .committed)) R (Sound env host a) := by
  unfold commit
  refine triple_read_any fun v => ?_
  cases v with
  | none =>
    refine Triple.of_pre fun h hh => ?_
    exfalso
    obtain ⟨hold, hsome⟩ | ⟨_, _, _, -, -, -, hnew⟩ := hh.1.files.1.manifest
    · exact hsome (hold.symm.trans hh.2)
    · cases hnew.symm.trans hh.2
  | some m =>
    refine triple_read_any fun st => ?_
    refine triple_read_skip fun n => ?_
    refine Triple.bind (Q := fun _ => In host a .gated fun i s _ g =>
      Gated env a i s ∧ NewManifest a i.manifest ∧ g = true) (triple_fs hfault ?_ ?_) fun _ => ?_
    · rintro h ⟨⟨hh, hm⟩, rfl⟩
      have hnew := hh.files.1.newManifest hm hh.memory (env.now n)
      exact ⟨hh.saved, hh.memory, hh.phase, ⟨hh.files.1.snapped.withInstall rfl,
        ⟨hh.files.1.files.binary, hh.files.1.files.tools, hh.files.1.files.core⟩, .inr hnew⟩, hnew,
        hh.files.2⟩
    · rintro k h ⟨⟨hh, -⟩, -⟩
      exact hh.sound id
    refine Triple.bind (Q := fun _ => Driven env host a fun i s _ g =>
      Gated env a i s ∧ NewManifest a i.manifest ∧ g = true) (triple_setSt ?_) fun _ => ?_
    · intro h hh
      have hsound : Sound env host a h := hh.sound fun hf => ⟨hf.1, hf.2.2⟩
      exact ⟨hsound.withSt _, ⟨hh.memory.release, hh.memory.toVersion, hh.memory.dead⟩, hh.files⟩
    refine Triple.bind (Q := fun _ => In host a .committed (Files.fit env a .committed))
      (triple_enter hfault .committed ?_) fun _ => ?_
    · rintro i s t g ⟨hgated, hnew, rfl⟩
      exact ⟨hgated.files, hnew, rfl⟩
    refine Triple.bind (triple_removeStaging hfault (fun _ hf => hf) fun _ _ _ _ _ hf => hf)
      fun _ => ?_
    refine Triple.ite (fun _ => Triple.pure fun _ => id) fun _ => ?_
    exact Triple.attempt_bind (triple_stops fun _ hf => hf) (fun _ => Triple.pure fun _ => id)
      fun _ => Triple.pure fun _ => id

/-! ### From the swap to the gate -/

theorem Swapped.migrated (h : Swapped env a i s) (c : Option B) : Swapped env a { i with config := c } s :=
  ⟨h.snapped.withInstall rfl, ⟨h.files.binary, h.files.tools, h.files.core⟩, h.manifest⟩

variable {p : Phase} {h : Home B T H}

/-- From the swap on an attempt can be rolled back. -/
theorem In.held (h₁ : In host a p (fun i s _ _ => Swapped env a i s) h)
    (hp : ∀ i s g, Snapped env a.o i s → Fits env a p i s g) : Driven env host a (Held env a) h :=
  ⟨h₁.sound fun hf => hp _ _ _ hf.snapped, h₁.memory, h₁.files.snapped⟩

variable {K : Files B T H}

theorem triple_save (hfault : Faultless env)
    (hK : ∀ i s t g, K i s t g → K i s t (g || decide (p = .gated)))
    (hfit : ∀ h, K.of h → (Files.fit env a p).of h) :
    Triple (In host a p K) (save env) (fun _ => In host a p K) R (Sound env host a) := by
  unfold save
  refine triple_fs hfault ?_ ?_
  · intro h hh
    refine ⟨⟨h.st, rfl, hh.phase, hh.memory⟩, hh.memory, hh.phase, ?_⟩
    have hfiles := hK _ _ _ _ hh.files
    rw [← hh.phase] at hfiles
    exact hfiles
  · exact fun n h hh => hh.sound (hfit h)

theorem triple_swapIn (hfault : Faultless env) (hreplaces : a.Replaces) :
    Triple (In host a .snapshotted (Untouched a (snapshotOf env a.o))) (swapIn env a.plan)
      (fun _ => In host a .swapped fun i s _ _ => Swapped env a i s) R (Sound env host a) := by
  unfold swapIn
  refine Triple.bind (Q := fun _ => In host a .swapping fun i s t _ => Swapping env a 0 i s t)
    ((triple_enter hfault .swapping (K := Untouched a (snapshotOf env a.o)) ?_).pre ?_) fun _ => ?_
  · rintro i s t g ⟨rfl, rfl, rfl⟩
    exact ⟨snapped_snapshotOf, rfl, rfl, rfl, rfl, fun h => by omega, fun h => by omega⟩
  · exact fun h hh => hh.driven fun hf => hf.1
  refine Triple.attempt_ok (triple_swap hfault hreplaces) fun _ => ?_
  refine (triple_enter hfault .swapped (K := fun i s _ _ => Swapped env a i s) ?_).pre ?_
  · exact fun _ _ _ _ => id
  · exact fun h hh => hh.driven fun hf => hf.snapped

theorem triple_disableAddons (hfault : Faultless env) :
    Triple (In host a .swapped fun i s _ _ => Swapped env a i s) (disableAddons env host a.plan)
      (fun _ => In host a .swapped fun i s _ _ => Swapped env a i s)
      (fun _ => Driven env host a (Held env a)) (Sound env host a) := by
  unfold disableAddons
  refine Triple.ite (fun _ => Triple.pure fun _ => id) fun _ => ?_
  refine Triple.bind (Q := fun _ => In host a .swapped fun i s _ _ => Swapped env a i s)
    (triple_setSt ?_) fun _ => ?_
  · intro h hh
    exact ⟨hh.saved, ⟨hh.memory.release, hh.memory.toVersion, hh.memory.dead⟩, hh.phase, hh.files⟩
  refine Triple.bind (triple_save hfault (fun _ _ _ _ => id) fun _ hf => hf.snapped) fun _ => ?_
  refine triple_read_skip fun n => ?_
  refine Triple.ite (fun _ => Triple.pure fun _ => id) fun _ => Triple.raise ?_
  exact fun h hh => hh.held fun _ _ _ => id

/-- The new version passes the gate, or the attempt can be rolled back. -/
theorem triple_flow (hfault : Faultless env) (hreplaces : a.Replaces) (hmanifest : a.o.manifest ≠ none) :
    Triple (In host a .snapshotted (Untouched a (snapshotOf env a.o))) (flow env host a.plan)
      (fun _ => In host a .gated (Files.fit env a .gated))
      (fun _ => Driven env host a (Held env a)) (Sound env host a) := by
  unfold flow
  refine Triple.bind (triple_swapIn hfault hreplaces) fun _ => ?_
  refine Triple.bind (triple_disableAddons hfault) fun _ => ?_
  have hstarts : Triple (In host a .swapped fun i s _ _ => Swapped env a i s)
      (host.starts host.migrate) (fun _ => In host a .swapped fun i s _ _ => Swapped env a i s)
      (fun _ => In host a .swapped fun i s _ _ => Swapped env a i s) (Sound env host a) :=
    triple_starts (fun _ hf => hf.snapped) fun n i s t g hf => hf.migrated _
  refine Triple.bind (hstarts.fail fun _ _ hh => hh.held fun _ _ _ => id) fun _ => ?_
  refine Triple.bind (Q := fun _ => In host a .started fun i s _ _ => Swapped env a i s)
    ((triple_enter hfault .started (K := fun i s _ _ => Swapped env a i s) ?_).pre ?_) fun _ => ?_
  · exact fun _ _ _ _ => id
  · exact fun h hh => hh.driven fun hf => hf.snapped
  refine Triple.bind (Q := fun _ => In host a .started fun i s _ _ => Swapped env a i s) ?_ fun _ => ?_
  · unfold Host.gates
    refine triple_read_skip fun n => ?_
    refine Triple.ite (fun _ => Triple.pure fun _ => id) fun _ => Triple.raise ?_
    exact fun h hh => hh.held fun _ _ _ => id
  refine (triple_enter hfault .gated (K := fun i s _ _ => Swapped env a i s) ?_).pre ?_
  · intro i s t g hf
    exact ⟨⟨hf.snapped, hf.files, .inl ⟨hf.manifest, hmanifest⟩⟩, Bool.or_true g⟩
  · exact fun h hh => hh.driven fun hf => hf.snapped

/-! ### The whole update -/

/-- Nothing has begun, or the attempt is over and the files are as its phase says. -/
inductive Settled (env : Env B T H) (host : Host B) (a : Attempt B T) (h : Home B T H) : Prop
  | before (h₁ : Before a h)
  | closed (st : State) (hst : h.state = some st) (hours : Ours host a st)
      (hfit : (Files.fit env a st.phase).of h) (hterminal : st.phase.isTerminal = true)

theorem In.settled (h₁ : In host a p (Files.fit env a p) h) (hp : p.isTerminal = true) :
    Settled env host a h := by
  obtain ⟨st, hst, rfl, hours⟩ := h₁.saved
  exact .closed st hst hours h₁.files hp

theorem triple_swapOrRollback (hfault : Faultless env) (hreplaces : a.Replaces)
    (hmanifest : a.o.manifest ≠ none) :
    Triple (In host a .snapshotted (Untouched a (snapshotOf env a.o)))
      (swapOrRollback env host a.plan) (fun _ => Settled env host a) R (Sound env host a) := by
  unfold swapOrRollback
  refine Triple.attempt_bind (triple_flow hfault hreplaces hmanifest) (fun _ => ?_) fun reason => ?_
  · unfold finish
    refine Triple.attempt_ok (triple_commit hfault) fun _ => Triple.pure ?_
    exact fun h hh => hh.settled rfl
  · exact (triple_rollback hfault reason).post fun _ _ hh => hh.settled rfl

/-- The attempt ends before the swap. -/
theorem triple_giveUp (hfault : Faultless env) (reason : String) (hK : ∀ i s t g, K i s t g → i = a.o)
    (hfit : ∀ h, K.of h → (Files.fit env a p).of h) :
    Triple (In host a p K) (giveUp env reason) (fun _ => In host a .rolledBack (Undone a)) R
      (Sound env host a) := by
  unfold giveUp
  refine Triple.bind (Q := fun _ => Driven env host a K) (triple_setSt ?_) fun _ => ?_
  · intro h hh
    have hdriven := hh.driven (hfit h)
    exact ⟨hdriven.sound.withSt _, ⟨hh.memory.release, hh.memory.toVersion, hh.memory.dead⟩, hh.files⟩
  · exact triple_ignore (triple_enter hfault .rolledBack fun i s t g hf => hK i s t g hf)

theorem triple_stopDaemon (hfault : Faultless env) :
    Triple (In host a .stopping (Staged a)) (stopDaemon env host)
      (fun _ => In host a .stopping (Staged a)) (fun _ => Settled env host a) (Sound env host a) := by
  unfold stopDaemon
  refine Triple.attempt_bind (triple_stops fun _ hf => hf.1) (fun was => ?_) fun _ => ?_
  · refine triple_setSt ?_
    intro h hh
    exact ⟨hh.saved, ⟨hh.memory.release, hh.memory.toVersion, hh.memory.dead⟩, hh.phase, hh.files⟩
  · refine Triple.bind (triple_giveUp hfault _ (fun _ _ _ _ hf => hf.1) fun _ hf => hf.1) fun _ => ?_
    refine Triple.bind (triple_removeStaging hfault (fun _ hf => hf) fun _ _ _ _ _ hf => hf)
      fun _ => Triple.raise ?_
    exact fun h hh => hh.settled rfl

variable {pid : ℕ}

/-- With nothing to settle, `apply` settles what it begins, however it ends. -/
theorem triple_apply (hfault : Faultless env) (hreplaces : a.Replaces)
    (hidle : ∀ st, a.before = some st → st.phase.isTerminal = true) (hdead : host.alive pid = false) :
    Triple (Before a) (apply env host a.plan pid) (fun _ => Settled env host a)
      (fun _ => Settled env host a) (Sound env host a) := by
  unfold apply
  refine Triple.bind (Q := fun _ => Before a) ?_ fun _ => ?_
  · unfold ensureIdle
    refine triple_read_eq a.before (fun h hh => hh.state) ?_
    cases hbefore : a.before with
    | none => exact Triple.pure fun _ => id
    | some st =>
      refine Triple.ite (fun _ => Triple.pure fun _ => id) fun hno => ?_
      exact absurd (hidle st hbefore) hno
  refine Triple.bind (Q := fun _ h => Before a h ∧ a.o.manifest ≠ none) ?_ fun _ => ?_
  · unfold checkInstalled
    refine triple_read_eq a.o.manifest (fun h hh => congrArg Install.manifest hh.install) ?_
    cases hmanifest : a.o.manifest with
    | none => exact Triple.raise fun h hh => .before hh
    | some m =>
      refine Triple.ite (fun _ => Triple.raise fun h hh => .before hh) fun _ => Triple.pure ?_
      exact fun h hh => ⟨hh, Option.some_ne_none m⟩
  refine Triple.of_pre fun h₀ hh₀ => ?_
  have hmanifest := hh₀.2
  refine Triple.pre (P := Before a) ?_ fun h hh => hh ▸ hh₀.1
  refine Triple.bind (Q := fun _ h => Before a h ∧
    h.staging = ⟨some a.plan.binary, some a.plan.tools, a.plan.core⟩) ?_ fun _ => ?_
  · unfold download
    cases env.refusal with
    | some reason => exact Triple.raise fun h hh => .before hh
    | none =>
      refine triple_fs hfault ?_ ?_
      · exact fun h hh => ⟨⟨hh.state, hh.install⟩, rfl⟩
      · exact fun n h hh => .inl ⟨hh.state, hh.install⟩
  refine Triple.bind (Q := fun _ => Driven env host a (Staged a)) (triple_setSt ?_) fun _ => ?_
  · rintro h ⟨hh, hstaging⟩
    exact ⟨.inl ⟨hh.state, hh.install⟩, ⟨rfl, rfl, hdead⟩, hh.install, hstaging⟩
  refine Triple.bind (Q := fun _ => In host a .stopping (Staged a))
    (triple_enter hfault .stopping fun _ _ _ _ => id) fun _ => ?_
  refine Triple.bind (triple_stopDaemon hfault) fun _ => ?_
  refine Triple.bind (Q := fun _ => In host a .stopping (Untouched a (snapshotOf env a.o))) ?_ fun _ => ?_
  · unfold takeSnapshot
    exact Triple.attempt_ok (triple_create hfault) fun _ => Triple.pure fun _ => id
  refine Triple.bind (Q := fun _ => In host a .snapshotted (Untouched a (snapshotOf env a.o))) ?_ fun _ => ?_
  · unfold enterSnapshotted
    refine Triple.attempt_ok ((triple_enter hfault .snapshotted fun _ _ _ _ => id).pre ?_)
      fun _ => Triple.pure fun _ => id
    exact fun h hh => hh.driven fun hf => hf.1
  refine Triple.bind (triple_swapOrRollback hfault hreplaces hmanifest) fun _ => ?_
  exact triple_read.post fun _ _ hh => hh.2

/-! ### The recovery -/

theorem Sound.before_of_none (h₁ : Sound env host a h) (hnone : h.state = none) : Before a h := by
  obtain hbefore | ⟨st, hst, -⟩ := h₁
  · exact hbefore
  · cases hst.symm.trans hnone

/-- A home whose record is closed is settled. -/
theorem Sound.settled (h₁ : Sound env host a h) (hst : h.state = some st)
    (hterminal : st.phase.isTerminal = true) : Settled env host a h := by
  obtain hbefore | ⟨st', hst', hours, hfit⟩ := h₁
  · exact .before hbefore
  · obtain rfl : st' = st := Option.some.inj (hst'.symm.trans hst)
    exact .closed st' hst' hours hfit hterminal

theorem triple_closeUntouched (hfault : Faultless env) (hp : ∀ i s g, Fits env a p i s g → i = a.o) :
    Triple (In host a p (Files.fit env a p)) (closeUntouched env host)
      (fun _ => In host a .rolledBack (Undone a)) R (Sound env host a) := by
  unfold closeUntouched
  refine Triple.bind (Q := fun _ => Driven env host a (Files.fit env a p)) (triple_setSt ?_) fun _ => ?_
  · intro h hh
    have hdriven := hh.driven fun hf => hf
    exact ⟨hdriven.sound.withSt _, ⟨hh.memory.release, hh.memory.toVersion, hh.memory.dead⟩, hh.files⟩
  refine Triple.attempt_ok (Q := fun _ => In host a .rolledBack (Undone a))
    (triple_enter hfault .rolledBack fun i s t g hf => hp i s g hf) fun _ => ?_
  refine Triple.bind (triple_removeStaging hfault (fun _ hf => hf) fun _ _ _ _ _ hf => hf) fun _ => ?_
  refine Triple.bind (triple_startAgain fun _ hf => hf) fun _ => ?_
  exact Triple.pure fun _ => id

/-- By the phase that was saved, what is done is closed. -/
theorem triple_settle (hfault : Faultless env) (p : Phase) (hp : p.isTerminal = false) :
    Triple (In host a p (Files.fit env a p)) (settle env host p) (fun _ => Settled env host a) R
      (Sound env host a) := by
  have hrollback (hfit : ∀ i s g, Fits env a p i s g → Snapped env a.o i s) :
      Triple (In host a p (Files.fit env a p)) (rollback env host "interrupted")
        (fun _ => Settled env host a) R (Sound env host a) := by
    refine (triple_rollback hfault _).mono ?_ ?_ (fun _ _ => id) fun _ => id
    · exact fun h hh => ⟨hh.sound id, hh.memory, hfit _ _ _ hh.files⟩
    · exact fun _ _ hh => hh.settled rfl
  cases p with
  | stopping => exact (triple_closeUntouched hfault fun _ _ _ => id).post fun _ _ hh => hh.settled rfl
  | snapshotted => exact (triple_closeUntouched hfault fun _ _ _ => id).post fun _ _ hh => hh.settled rfl
  | gated => exact (triple_commit hfault).post fun _ _ hh => hh.settled rfl
  | swapping => exact hrollback fun _ _ _ => id
  | swapped => exact hrollback fun _ _ _ => id
  | started => exact hrollback fun _ _ _ => id
  | rollingBack => exact hrollback fun _ _ _ => id
  | committed => cases hp
  | rolledBack => cases hp
  | failed => cases hp

/-- A sound home is settled, or left sound. -/
theorem triple_recover (hfault : Faultless env)
    (hidle : ∀ st, a.before = some st → st.phase.isTerminal = true) (hdead : host.alive pid = false) :
    Triple (Sound env host a) (recover env host pid) (fun _ => Settled env host a) R
      (Sound env host a) := by
  unfold recover
  refine triple_read_any fun v => ?_
  cases v with
  | none => exact Triple.pure fun h hh => .before (hh.1.before_of_none hh.2)
  | some st =>
    refine Triple.of_pre fun h₀ hh₀ => ?_
    obtain ⟨hsound, hst⟩ := hh₀
    have hlive : st.phase.isTerminal = false → Ours host a st ∧ (Files.fit env a st.phase).of h₀ := by
      intro hopen
      obtain hbefore | ⟨st', hst', hours⟩ := hsound
      · have hclosed := hidle st (hbefore.state.symm.trans hst)
        rw [hopen] at hclosed
        cases hclosed
      · obtain rfl : st' = st := Option.some.inj (hst'.symm.trans hst)
        exact hours
    refine Triple.ite (fun hdone => Triple.pure ?_) fun hopen => ?_
    · rintro _ rfl
      refine hsound.settled hst ?_
      by_contra hno
      rw [Bool.not_eq_true] at hno
      rw [hno, (hlive hno).1.dead] at hdone
      cases hdone
    rw [Bool.or_eq_true, not_or, Bool.not_eq_true] at hopen
    obtain ⟨hours, hfit⟩ := hlive hopen.1
    refine Triple.bind (Q := fun _ => In host a st.phase (Files.fit env a st.phase))
      (triple_setSt ?_) fun _ => ?_
    · rintro _ rfl
      exact ⟨⟨st, hst, rfl, hours⟩, ⟨hours.release, hours.toVersion, hdead⟩, rfl, hfit⟩
    refine Triple.bind (triple_settle hfault st.phase hopen.1) fun _ => ?_
    exact triple_read_skip fun _ => Triple.pure fun _ => id

/-! ### Runs with crashes -/

/-- A process that recovers and is cut off at an effect, which is left half done. -/
structure Cut where
  pid : ℕ
  effects : ℕ
  torn : ℕ

/-- The home after recoveries that were cut off, one after the other. -/
def recoveries (env : Env B T H) (host : Host B) (h : Home B T H) (cuts : List Cut) : Home B T H :=
  cuts.foldl (fun h c => leaves (recover env host c.pid) h c.effects c.torn) h

/-- No attempt is open, and none was gated. -/
structure Idle (h : Home B T H) : Prop where
  closed : ∀ st, h.state = some st → st.phase.isTerminal = true
  ungated : h.gatedOnce = false

theorem Settled.sound (h₁ : Settled env host a h) : Sound env host a h := by
  cases h₁ with
  | before hbefore => exact .inl hbefore
  | closed st hst hours hfit hterminal => exact .inr ⟨st, hst, hours, hfit⟩

theorem sound_recoveries (hfault : Faultless env)
    (hidle : ∀ st, a.before = some st → st.phase.isTerminal = true) {cuts : List Cut}
    (hdead : ∀ c ∈ cuts, host.alive c.pid = false) (h₁ : Sound env host a h) :
    Sound env host a (recoveries env host h cuts) := by
  induction cuts generalizing h with
  | nil => exact h₁
  | cons c cuts ih =>
    refine ih (fun c' hc' => hdead c' (List.mem_cons_of_mem c hc')) ?_
    have hc := hdead c List.mem_cons_self
    obtain hcut | ⟨_, hdone⟩ | ⟨_, hfalse⟩ :=
      (triple_recover hfault hidle hc (R := fun _ _ => False)).leaves h₁ c.effects c.torn
    · exact hcut
    · exact hdone.sound
    · exact hfalse.elim

/-- What the claim of an update is: everything as before, or everything new behind the gate. -/
structure AllOrNothing (h : Home B T H) (plan : Plan B T) (d : Home B T H) : Prop where
  terminal : ∀ st, d.state = some st → st.phase.isTerminal = true
  not_failed : ∀ st, d.state = some st → st.phase = .failed → h.state = some st
  files : d.install = h.install ∨ d.gatedOnce = true ∧ NewFiles ⟨h.install, plan, h.state⟩ d.install ∧
      NewManifest ⟨h.install, plan, h.state⟩ d.install.manifest

theorem Phase.terminal_cases (p : Phase) (h : p.isTerminal = true) :
    p = .committed ∨ p = .rolledBack ∨ p = .failed := by
  simpa [Phase.isTerminal, or_assoc] using h

variable {d : Home B T H}

theorem Settled.allOrNothing {plan : Plan B T} (hidle : Idle h)
    (h₁ : Settled env host ⟨h.install, plan, h.state⟩ d) : AllOrNothing h plan d := by
  cases h₁ with
  | before hbefore =>
    refine ⟨fun st hst => ?_, fun st hst _ => ?_, .inl hbefore.install⟩
    · exact hidle.closed st (hbefore.state.symm.trans hst)
    · exact hbefore.state.symm.trans hst
  | closed st hst hours hfit hterminal =>
    have hphase : st.phase = .rolledBack ∨ st.phase = .committed := by
      obtain hp | hp | hp := st.phase.terminal_cases hterminal
      · exact .inr hp
      · exact .inl hp
      · rw [hp] at hfit
        exact hfit.elim
    refine ⟨fun st' hst' => ?_, fun st' hst' hfailed => ?_, ?_⟩
    · obtain rfl : st = st' := Option.some.inj (hst.symm.trans hst')
      exact hterminal
    · simp_all
    · obtain hphase | hphase := hphase
      · rw [hphase] at hfit
        exact .inl hfit
      · rw [hphase] at hfit
        exact .inr ⟨hfit.2.2, hfit.1, hfit.2.1⟩

/-- A record that is closed is left alone. -/
theorem recover_of_terminal (hterminal : ∀ st, d.state = some st → st.phase.isTerminal = true) (pid : ℕ) :
    recover env host pid { disk := d } = (.ok none, { disk := d }) := by
  unfold recover
  rw [read_bind]
  dsimp only
  cases hd : d.state with
  | none => rfl
  | some st =>
    dsimp only
    rw [if_pos]
    · rfl
    · rw [hterminal st hd, Bool.true_or]

/-- However often an update and its recoveries are cut off, a recovery that comes to its end
leaves everything as it was, or everything new behind the gate, if no core tree comes where
there was none. -/
theorem all_or_nothing (hfault : Faultless env) {h : Home B T H} (hidle : Idle h) (plan : Plan B T)
    (hcore : plan.core = none ∨ h.install.core ≠ none) {pid : ℕ} (hpid : host.alive pid = false)
    (effects torn : ℕ) {cuts : List Cut} (hcuts : ∀ c ∈ cuts, host.alive c.pid = false)
    {last : ℕ} (hlast : host.alive last = false) :
    ∃ r t, recover env host last
        { disk := recoveries env host (leaves (apply env host plan pid) h effects torn) cuts } =
          (.ok r, t) ∧
      AllOrNothing h plan t.disk ∧
      ∀ q, recover env host q { disk := t.disk } = (.ok none, { disk := t.disk }) := by
  have happly : Sound env host ⟨h.install, plan, h.state⟩
      (leaves (apply env host plan pid) h effects torn) := by
    obtain hcut | ⟨_, hdone⟩ | ⟨_, hdone⟩ :=
      (triple_apply (a := ⟨h.install, plan, h.state⟩) hfault hcore hidle.closed hpid).leaves
        ⟨rfl, rfl⟩ effects torn
    · exact hcut
    · exact hdone.sound
    · exact hdone.sound
  have hsound := sound_recoveries hfault hidle.closed hcuts happly
  obtain ⟨r, t, hrun, hsettled⟩ | ⟨_, _, -, hfalse⟩ :=
    (triple_recover hfault hidle.closed hlast (R := fun _ _ => False)).ends hsound
  · have hall := hsettled.allOrNothing hidle
    exact ⟨r, t, hrun, hall, fun q => recover_of_terminal hall.terminal q⟩
  · exact hfalse.elim

/-! ### A core tree where there was none -/

/-- Digests are the contents, copies are cut to nothing, and no effect fails. -/
def plainEnv : Env ℕ ℕ ℕ where
  sha := id
  shaManifest := Manifest.updatedAt
  cut := fun _ _ => none
  cutManifest := fun _ _ => none
  remains := fun _ _ => none
  fault := fun _ => none
  refusal := none
  now := id

/-- Nothing fails, and nobody else is alive. -/
def plainHost : Host ℕ where
  stop := fun _ => none
  start := fun _ => true
  gate := fun _ => true
  alive := fun _ => false
  migrate := keepsConfig
  disableAddons := fun _ => true
  reenableAddons := fun _ _ => []

/-- Version 2 over version 1; the files are numbered by their version. -/
def plainPlan (core : Option ℕ) : Plan ℕ ℕ where
  fromVersion := "1"
  toVersion := "2"
  binary := 2
  tools := 2
  core := core
  release := ⟨"2", none, none⟩
  disable := []
  reenable := []

def plainHome (core : Option ℕ) : Home ℕ ℕ ℕ where
  install := ⟨1, none, core, none, some ⟨⟨"1", none⟩, none, ⟨"1", "1", "1", none, "release"⟩, 0⟩⟩
  snapshot := {}
  staging := {}
  state := none
  daemon := true
  st := freshState (plainPlan none) 0
  ticks := 0
  gatedOnce := false

theorem plainHome_idle (core : Option ℕ) : Idle (plainHome core) := ⟨fun st hst => (by cases hst), rfl⟩

/-- Cut off with the new core in place, and cut off again while the old one comes back. -/
theorem all_or_nothing_replaced : (plainHome (some 1)).install.core ≠ none ∧
    ∃ r t, recover plainEnv plainHost 3
        { disk := recoveries plainEnv plainHost
            (leaves (apply plainEnv plainHost (plainPlan (some 2)) 1) (plainHome (some 1)) 15 0)
            [⟨2, 6, 0⟩] } = (.ok r, t) ∧
      AllOrNothing (plainHome (some 1)) (plainPlan (some 2)) t.disk ∧
      ∀ q, recover plainEnv plainHost q { disk := t.disk } = (.ok none, { disk := t.disk }) :=
  ⟨Option.some_ne_none 1, all_or_nothing (fun _ => rfl) (plainHome_idle _) _
    (.inr (Option.some_ne_none 1)) rfl 15 0 (fun _ _ => rfl) rfl⟩

/-- Cut off with a first core in place: it is rolled back, and the core stays. -/
theorem core_left_behind : ∃ r t, recover plainEnv plainHost 2
        { disk := leaves (apply plainEnv plainHost (plainPlan (some 2)) 1) (plainHome none) 14 0 } =
          (.ok r, t) ∧
      t.disk.state.map State.phase = some .rolledBack ∧
      t.disk.install = { (plainHome none).install with core := some 2 } ∧
      ¬AllOrNothing (plainHome none) (plainPlan (some 2)) t.disk := by
  refine ⟨_, _, rfl, rfl, rfl, ?_⟩
  intro hall
  obtain hold | ⟨-, hnew, -⟩ := hall.files
  · exact absurd (congrArg Install.core hold) (Option.some_ne_none 2)
  · exact absurd hnew.binary (by decide)

end Plur1bus.Update
