import Plur1bus.Update.Model

/-!
What holds of the home between two effects of an update. `o` is what was installed before.
For each phase that can be saved, `Fits` says what the files are: before the swap what is
installed is `o`; from then on the snapshot has all of `o`, the core tree being in the
snapshot or still in place; once the gate passed what is installed is new. A home in which
the saved phase fits its files is `Sound`, and every effect of an update keeps it so.
-/

namespace Plur1bus.Update

open Program

variable {B T H : Type} [DecidableEq H]

/-- The installation and the plan an update is about, and the state it found. -/
structure Attempt (B T : Type) where
  o : Install B T
  plan : Plan B T
  before : Option State

variable (env : Env B T H) (host : Host B) (a : Attempt B T)

/-- The record of the snapshot of `o`. -/
def infoOf (o : Install B T) (moved : Bool) : Meta H :=
  ⟨env.sha o.binary, true, o.tools.map env.sha, o.config.map env.sha, o.manifest.map env.shaManifest, moved⟩

/-- The snapshot has every file of `o`, and the core tree is there or still in place. -/
structure Snapped (o : Install B T) (i : Install B T) (s : Snapshot B T H) : Prop where
  binary : s.binary = some o.binary
  tools : s.tools = o.tools
  config : s.config = o.config
  manifest : s.manifest = o.manifest
  info : ∃ moved, s.info = some (infoOf env o moved) ∧ (moved = true → o.core ≠ none)
  core : (s.core = o.core ∧ o.core ≠ none) ∨ (s.core = none ∧ i.core = o.core)

/-- The state the commit goes by. -/
structure Ours (st : State) : Prop where
  release : st.release = a.plan.release
  toVersion : st.toVersion = a.plan.toVersion
  dead : host.alive st.owner = false

/-- The manifest of the new version, whenever it was written. -/
def NewManifest (m : Option Manifest) : Prop :=
  ∃ st now old, st.release = a.plan.release ∧ st.toVersion = a.plan.toVersion ∧
    a.o.manifest = some old ∧ m = some (released st now old)

/-- The binary, its companion and the core are new. -/
structure NewFiles (i : Install B T) : Prop where
  binary : i.binary = a.plan.binary
  tools : i.tools = some a.plan.tools
  core : i.core = a.plan.core.or a.o.core

/-- The new files are in place, and the manifest is the old or the new one. -/
structure Gated (i : Install B T) (s : Snapshot B T H) : Prop where
  snapped : Snapped env a.o i s
  files : NewFiles a i
  manifest : (i.manifest = a.o.manifest ∧ a.o.manifest ≠ none) ∨ NewManifest a i.manifest

/-- What a saved phase says about the files; `g` says that `gated` has been saved. -/
def Fits : Phase → Install B T → Snapshot B T H → Bool → Prop
  | .stopping, i, _, _ => i = a.o
  | .snapshotted, i, _, _ => i = a.o
  | .swapping, i, s, _ => Snapped env a.o i s
  | .swapped, i, s, _ => Snapped env a.o i s
  | .started, i, s, _ => Snapped env a.o i s
  | .gated, i, s, g => Gated env a i s ∧ g = true
  | .rollingBack, i, s, _ => Snapped env a.o i s
  | .committed, i, _, g => NewFiles a i ∧ NewManifest a i.manifest ∧ g = true
  | .rolledBack, i, _, _ => i = a.o
  | .failed, _, _, _ => False

/-- A condition on the files of the home. -/
abbrev Files (B T H : Type) : Type := Install B T → Snapshot B T H → Staging B T → Bool → Prop

def Files.of (K : Files B T H) (h : Home B T H) : Prop := K h.install h.snapshot h.staging h.gatedOnce

/-- The files fit the phase. -/
def Files.fit (p : Phase) : Files B T H := fun i s _ g => Fits env a p i s g

/-- The phase is `p`, on the disk and in memory, and the files satisfy `K`. -/
structure In (p : Phase) (K : Files B T H) (h : Home B T H) : Prop where
  saved : ∃ st, h.state = some st ∧ st.phase = p ∧ Ours host a st
  memory : Ours host a h.st
  phase : h.st.phase = p
  files : K.of h

/-- The attempt has not begun. -/
structure Before (h : Home B T H) : Prop where
  state : h.state = a.before
  install : h.install = a.o

/-- What a crash may leave; what is in memory does not count. -/
def Sound (h : Home B T H) : Prop :=
  Before a h ∨ ∃ st, h.state = some st ∧ Ours host a st ∧ (Files.fit env a st.phase).of h

variable {env host a} {p : Phase} {K K' : Files B T H} {R : String → Home B T H → Prop}

variable {h : Home B T H}

theorem Sound.withSt (h₁ : Sound env host a h) (st : State) : Sound env host a { h with st := st } := by
  obtain hbefore | hsaved := h₁
  · exact .inl ⟨hbefore.state, hbefore.install⟩
  · exact .inr hsaved

theorem In.mono (h₁ : In host a p K h) (hK : K.of h → K'.of h) : In host a p K' h :=
  ⟨h₁.saved, h₁.memory, h₁.phase, hK h₁.files⟩

theorem In.sound (h₁ : In host a p K h) (hK : K.of h → (Files.fit env a p).of h) : Sound env host a h := by
  obtain ⟨st, hst, rfl, hours⟩ := h₁.saved
  exact .inr ⟨st, hst, hours, hK h₁.files⟩

/-- The change leaves the state alone, on the disk and in memory. -/
structure SameState (h h' : Home B T H) : Prop where
  state : h'.state = h.state
  st : h'.st = h.st

theorem In.change {h' : Home B T H} (h₁ : In host a p K h) (hsame : SameState h h') (hK : K'.of h') :
    In host a p K' h' where
  saved := by
    rw [hsame.state]
    exact h₁.saved
  memory := by
    rw [hsame.st]
    exact h₁.memory
  phase := by
    rw [hsame.st]
    exact h₁.phase
  files := hK

/-- Effects that do not fail. -/
def Faultless (env : Env B T H) : Prop := ∀ n, env.fault n = none

variable {P C : Home B T H → Prop}

theorem triple_read {α : Type} {f : Home B T H → α} :
    Triple P (read f : Op B T H α) (fun x h => x = f h ∧ P h) R C :=
  Triple.gets fun _ hw => ⟨rfl, hw⟩

section Reading

variable {α β : Type} {f : Home B T H → α} {k : α → Op B T H β} {P C : Home B T H → Prop}
  {Q : β → Home B T H → Prop}

theorem read_bind (w : World (Home B T H) Unit) : (read f >>= k) w = k (f w.disk) w := rfl

theorem triple_read_eq (v : α) (hv : ∀ h, P h → f h = v) (hk : Triple P (k v) Q R C) :
    Triple P (read f >>= k) Q R C :=
  Triple.gets_eq v hv hk

theorem triple_read_any (hk : ∀ v, Triple (fun h => P h ∧ f h = v) (k v) Q R C) :
    Triple P (read f >>= k) Q R C :=
  Triple.gets_any hk

/-- What is read does not matter. -/
theorem triple_read_skip (hk : ∀ v, Triple P (k v) Q R C) : Triple P (read f >>= k) Q R C :=
  triple_read_any fun v => (hk v).pre fun _ hh => hh.1

end Reading

variable {Q : Unit → Home B T H → Prop} {whole : Home B T H → Home B T H} {part : ℕ → Home B T H → Home B T H}

theorem triple_fs (hfault : Faultless env) (hwhole : ∀ h, P h → Q () (whole h).tick)
    (hpart : ∀ n h, P h → C (part n h)) : Triple P (fs env whole part) Q R C := by
  unfold fs
  refine Triple.bind triple_read ?_
  intro n
  rw [hfault n]
  refine Triple.effect ?_ ?_
  · intro h hh
    exact hwhole h hh.2
  · intro k h hh
    exact hpart k h hh.2

/-- An effect on the files, within one phase. -/
theorem triple_change (hfault : Faultless env) (hsame : ∀ h, SameState h (whole h))
    (hsame' : ∀ n h, SameState h (part n h)) (hwhole : ∀ h, K.of h → K'.of (whole h))
    (hpart : ∀ n h, K.of h → (Files.fit env a p).of (part n h)) :
    Triple (In host a p K) (fs env whole part) (fun _ => In host a p K') R (Sound env host a) := by
  refine triple_fs hfault ?_ ?_
  · intro h hh
    have hnew := hh.change (hsame h) (hwhole h hh.files)
    exact ⟨hnew.saved, hnew.memory, hnew.phase, hnew.files⟩
  · intro n h hh
    have hleft : In host a p (Files.fit env a p) (part n h) := hh.change (hsame' n h) (hpart n h hh.files)
    exact hleft.sound id

theorem triple_setSt {f : State → State} (h : ∀ h : Home B T H, P h → Q () { h with st := f h.st }) :
    Triple P (setSt f) Q R C :=
  Triple.modify (fun _ => rfl) fun w hw => h w.disk hw

theorem triple_ignore {Q : Home B T H → Prop} {m : Op B T H Unit}
    (h : Triple P m (fun _ => Q) (fun _ => Q) C) : Triple P (ignore m) (fun _ => Q) R C := by
  unfold ignore
  refine Triple.bind (Q := fun _ => Q) (Triple.attempt h) ?_
  intro _
  exact Triple.pure fun _ => id

/-- The state in memory is that of the attempt, and the home is sound. -/
structure Driven (env : Env B T H) (host : Host B) (a : Attempt B T) (K : Files B T H)
    (h : Home B T H) : Prop where
  sound : Sound env host a h
  memory : Ours host a h.st
  files : K.of h

theorem In.driven (h₁ : In host a p K h) (hK : K.of h → (Files.fit env a p).of h) : Driven env host a K h :=
  ⟨h₁.sound hK, h₁.memory, h₁.files⟩

/-- A phase can be saved when the files fit it. -/
theorem triple_enter (hfault : Faultless env) (q : Phase)
    (hK : ∀ i s t g, K i s t g → K' i s t (g || decide (q = .gated))) :
    Triple (Driven env host a K) (enter env q) (fun _ => In host a q K') R (Sound env host a) := by
  unfold enter
  refine Triple.bind (Q := fun _ h => Driven env host a K h ∧ h.st.phase = q) ?_ ?_
  · refine triple_setSt ?_
    intro h hh
    exact ⟨⟨hh.sound.withSt _, ⟨hh.memory.release, hh.memory.toVersion, hh.memory.dead⟩, hh.files⟩, rfl⟩
  · intro _
    unfold save
    refine triple_fs hfault ?_ ?_
    · rintro h ⟨hh, rfl⟩
      exact ⟨⟨h.st, rfl, rfl, hh.memory⟩, hh.memory, rfl, hK _ _ _ _ hh.files⟩
    · rintro n h ⟨hh, -⟩
      exact hh.sound

/-! ### The host -/

/-- The host leaves the files alone, but for the configuration. -/
theorem triple_stops (hK : ∀ h, K.of h → (Files.fit env a p).of h) :
    Triple (In host a p K) (host.stops) (fun _ => In host a p K) (fun _ => In host a p K)
      (Sound env host a) := by
  unfold Host.stops
  refine Triple.bind triple_read ?_
  intro n
  cases host.stop n with
  | none =>
    refine Triple.bind triple_read ?_
    intro was
    refine Triple.bind (Q := fun _ => In host a p K) (Triple.effect ?_ ?_) ?_
    · rintro h ⟨-, -, hh⟩
      exact ⟨hh.saved, hh.memory, hh.phase, hh.files⟩
    · rintro k h ⟨-, -, hh⟩
      exact hh.sound (hK h)
    · intro _
      exact Triple.pure fun _ => id
  | some left =>
    refine Triple.bind (Q := fun _ => In host a p K) (Triple.effect ?_ ?_) ?_
    · rintro h ⟨-, hh⟩
      exact ⟨hh.saved, hh.memory, hh.phase, hh.files⟩
    · rintro k h ⟨-, hh⟩
      exact hh.sound (hK h)
    · intro _
      exact Triple.raise fun _ => id

theorem triple_starts {rewrite : ℕ → Option B → Option B}
    (hK : ∀ h, K.of h → (Files.fit env a p).of h)
    (hrewrite : ∀ n i s t g, K i s t g → K { i with config := rewrite n i.config } s t g) :
    Triple (In host a p K) (host.starts rewrite) (fun _ => In host a p K) (fun _ => In host a p K)
      (Sound env host a) := by
  unfold Host.starts
  refine Triple.bind triple_read ?_
  intro n
  refine Triple.bind (Q := fun _ => In host a p K) (Triple.effect ?_ ?_) ?_
  · rintro h ⟨-, hh⟩
    exact ⟨hh.saved, hh.memory, hh.phase, hrewrite n _ _ _ _ hh.files⟩
  · rintro k h ⟨-, hh⟩
    exact hh.sound (hK h)
  · intro _
    refine Triple.ite (fun _ => ?_) fun _ => ?_
    · exact Triple.pure fun _ => id
    · exact Triple.raise fun _ => id

theorem triple_startAgain (hK : ∀ h, K.of h → (Files.fit env a p).of h) :
    Triple (In host a p K) (startAgain host) (fun _ => In host a p K) R (Sound env host a) := by
  unfold startAgain
  refine triple_read_skip fun st => ?_
  refine Triple.ite (fun _ => ?_) fun _ => Triple.pure fun _ => id
  exact triple_ignore (triple_starts hK fun _ _ _ _ _ hh => hh)

theorem triple_removeStaging (hfault : Faultless env) (hK : ∀ h, K.of h → (Files.fit env a p).of h)
    (hstaging : ∀ i s t t' g, K i s t g → K i s t' g) :
    Triple (In host a p K) (removeStaging env) (fun _ => In host a p K) R (Sound env host a) := by
  unfold removeStaging
  refine triple_ignore (triple_change hfault ?_ ?_ ?_ ?_)
  · exact fun h => ⟨rfl, rfl⟩
  · exact fun n h => ⟨rfl, rfl⟩
  · exact fun h hh => hstaging _ _ _ _ _ hh
  · exact fun n h hh => hK h hh

end Plur1bus.Update
