import Plur1bus.Update.Steps

/-!
The snapshot and the way back. A snapshot that is taken has every file; with it in place,
the swap can be interrupted anywhere, and what `restore` puts back is what was installed,
however often it is interrupted and begun again. The core tree is the one thing that is
moved and not copied: if there was none before and the plan brings one, nothing in the
snapshot says that it has to go again.
-/

namespace Plur1bus.Update

open Program Option

variable {B T H : Type} [DecidableEq H] {env : Env B T H} {host : Host B} {a : Attempt B T}
  {R : String → Home B T H → Prop}

/-! ### Taking the snapshot -/

/-- Nothing is swapped, the snapshot is `s` and the staged files are there. -/
def Untouched (a : Attempt B T) (s : Snapshot B T H) : Files B T H := fun i s' t _ =>
  i = a.o ∧ s' = s ∧ t = ⟨some a.plan.binary, some a.plan.tools, a.plan.core⟩

/-- Nothing is swapped, and the staged files are there. -/
def Staged (a : Attempt B T) : Files B T H := fun i _ t _ =>
  i = a.o ∧ t = ⟨some a.plan.binary, some a.plan.tools, a.plan.core⟩

variable {F : Type} {s : Snapshot B T H}

theorem triple_copyInto (hfault : Faultless env) {cut : ℕ → F → Option F}
    {put : Option F → Snapshot B T H → Snapshot B T H} {file : Option F} (hnone : put none s = s) :
    Triple (In host a .stopping (Untouched a s)) (copyInto env cut put file)
      (fun _ => In host a .stopping (Untouched a (put file s))) R (Sound env host a) := by
  cases file with
  | none =>
    rw [hnone]
    exact Triple.pure fun _ => id
  | some f =>
    refine triple_change hfault (fun _ => ⟨rfl, rfl⟩) (fun _ _ => ⟨rfl, rfl⟩) ?_ ?_
    · rintro h ⟨hi, rfl, ht⟩
      exact ⟨hi, rfl, ht⟩
    · rintro n h ⟨hi, -⟩
      exact hi

variable {info : Meta H}

theorem triple_writeInfo (hfault : Faultless env) :
    Triple (In host a .stopping (Untouched a s)) (writeInfo env info)
      (fun _ => In host a .stopping (Untouched a { s with info := some info })) R
      (Sound env host a) := by
  refine triple_change hfault (fun _ => ⟨rfl, rfl⟩) (fun _ _ => ⟨rfl, rfl⟩) ?_ ?_
  · rintro h ⟨hi, hs, ht⟩
    refine ⟨hi, ?_, ht⟩
    show { h.snapshot with info := some info } = _
    rw [hs]
  · rintro n h ⟨hi, -⟩
    exact hi

/-- The snapshot of `o`. -/
def snapshotOf (env : Env B T H) (o : Install B T) : Snapshot B T H :=
  ⟨some o.binary, o.tools, o.config, o.manifest, none, some (infoOf env o false)⟩

theorem triple_create (hfault : Faultless env) : Triple (In host a .stopping (Staged a)) (create env)
      (fun _ => In host a .stopping (Untouched a (snapshotOf env a.o))) R (Sound env host a) := by
  unfold create
  refine Triple.bind (Q := fun _ => In host a .stopping (Untouched a {}))
    (triple_ignore (triple_change hfault (fun _ => ⟨rfl, rfl⟩) (fun _ _ => ⟨rfl, rfl⟩) ?_ ?_)) ?_
  · rintro h ⟨hi, ht⟩
    exact ⟨hi, rfl, ht⟩
  · rintro n h ⟨hi, -⟩
    exact hi
  intro _
  refine triple_read_eq a.o (fun h hh => hh.files.1) ?_
  refine Triple.bind (triple_copyInto hfault rfl) fun _ => ?_
  refine Triple.bind (triple_copyInto hfault rfl) fun _ => ?_
  refine Triple.bind (triple_copyInto hfault rfl) fun _ => ?_
  refine Triple.bind (triple_copyInto hfault rfl) fun _ => ?_
  exact triple_writeInfo hfault

theorem snapped_snapshotOf : Snapped env a.o a.o (snapshotOf env a.o) :=
  ⟨rfl, rfl, rfl, rfl, ⟨false, rfl, fun h => by cases h⟩, .inr ⟨rfl, rfl⟩⟩

/-! ### Putting it back -/

variable {i : Install B T}

theorem Snapped.matches (h : Snapped env a.o i s) (hinfo : s.info = some info) :
    matchesInfo env s info = true := by
  obtain ⟨moved, hmoved, -⟩ := h.info
  obtain rfl : infoOf env a.o moved = info := Option.some.inj (hmoved.symm.trans hinfo)
  simp [matchesInfo, infoOf, h.binary, h.tools, h.config, h.manifest]

/-- The snapshot has every file, whatever is installed. -/
def Held (env : Env B T H) (a : Attempt B T) : Files B T H := fun i s _ _ => Snapped env a.o i s

theorem triple_verify {p : Phase} : Triple (In host a p (Held env a)) (verify env)
      (fun info => In host a p fun i s t g => Held env a i s t g ∧ s.info = some info) R
      (Sound env host a) := by
  unfold verify readInfo
  refine Triple.bind (Q := fun info => In host a p fun i s t g => Held env a i s t g ∧ s.info = some info)
    (triple_read_any fun v => ?_) ?_
  · cases v with
    | none =>
      refine Triple.of_pre fun h hh => ?_
      obtain ⟨moved, hmoved, -⟩ := hh.1.files.info
      rw [hmoved] at hh
      cases hh.2
    | some info =>
      refine Triple.pure ?_
      rintro h ⟨hh, hinfo⟩
      exact ⟨hh.saved, hh.memory, hh.phase, hh.files, hinfo⟩
  · intro info
    refine triple_read_any fun s => ?_
    refine Triple.ite (fun _ => Triple.pure fun h hh => hh.1) fun hno => ?_
    refine Triple.of_pre fun h hh => ?_
    obtain ⟨hin, rfl⟩ := hh
    exact absurd (hin.files.1.matches hin.files.2) hno

/-- The snapshot is whole, and so much of the installation is back. -/
def Restoring (env : Env B T H) (a : Attempt B T) (info : Meta H) (P : Install B T → Prop) :
    Files B T H := fun i s _ _ => Snapped env a.o i s ∧ s.info = some info ∧ P i

theorem Snapped.withInstall {i' : Install B T} (h : Snapped env a.o i s) (hcore : i'.core = i.core) :
    Snapped env a.o i' s :=
  ⟨h.binary, h.tools, h.config, h.manifest, h.info, hcore ▸ h.core⟩

theorem Snapped.movedCore {core : T} (h : Snapped env a.o i s) (hcore : s.core = some core)
    (ho : a.o.core = some core) (c : Option T) : Snapped env a.o { i with core := c } s := by
  refine ⟨h.binary, h.tools, h.config, h.manifest, h.info, .inl ⟨hcore.trans ho.symm, ?_⟩⟩
  rw [ho]
  exact some_ne_none core

theorem triple_putBack (hfault : Faultless env) {held : Snapshot B T H → Option F}
    {put : Option F → Install B T → Install B T} {wanted : Bool} {v : Option F}
    {P P' : Install B T → Prop} (hheld : ∀ i s, Snapped env a.o i s → held s = v)
    (hwanted : wanted = v.isSome) (hcore : ∀ f i, (put f i).core = i.core)
    (hput : ∀ i, P i → P' (put v i)) :
    Triple (In host a .rollingBack (Restoring env a info P)) (putBack env held put wanted)
      (fun _ => In host a .rollingBack (Restoring env a info P')) R (Sound env host a) := by
  unfold putBack
  refine triple_read_eq v (fun h hh => hheld _ _ hh.files.1) ?_
  have hfs : Triple (In host a .rollingBack (Restoring env a info P))
      (fs env (fun h => h.onInstall (put v)) fun _ h => h)
      (fun _ => In host a .rollingBack (Restoring env a info P')) R (Sound env host a) := by
    refine triple_change hfault (fun _ => ⟨rfl, rfl⟩) (fun _ _ => ⟨rfl, rfl⟩) ?_ ?_
    · rintro h ⟨hsnap, hinfo, hP⟩
      exact ⟨hsnap.withInstall (hcore _ _), hinfo, hput _ hP⟩
    · rintro n h ⟨hsnap, -⟩
      exact hsnap
  subst hwanted
  cases v with
  | none => exact hfs
  | some f => exact hfs

theorem triple_restoreCore (hfault : Faultless env) {P : Install B T → Prop}
    (hP : ∀ i c, P i → P { i with core := c }) :
    Triple (In host a .rollingBack (Restoring env a info P)) (restoreCore env info)
      (fun _ => In host a .rollingBack (Restoring env a info fun i => P i ∧ i.core = a.o.core)) R
      (Sound env host a) := by
  unfold restoreCore
  refine triple_read_any fun v => ?_
  cases v with
  | none =>
    refine triple_read_any fun missing => ?_
    refine Triple.ite (fun hmissing => ?_) fun _ => ?_
    · -- The tree was not moved, so it is still in place.
      refine Triple.of_pre fun h hh => ?_
      obtain ⟨⟨hin, hnone⟩, rfl⟩ := hh
      exfalso
      obtain ⟨moved, hmoved, hsome⟩ := hin.files.1.info
      obtain rfl : infoOf env a.o moved = info := Option.some.inj (hmoved.symm.trans hin.files.2.1)
      rw [Bool.and_eq_true] at hmissing
      obtain ⟨hcore, -⟩ | ⟨-, hcore⟩ := hin.files.1.core
      · exact hsome hmissing.1 (hcore.symm.trans hnone)
      · refine hsome hmissing.1 ?_
        rw [← hcore]
        exact isNone_iff_eq_none.mp hmissing.2
    · refine Triple.pure ?_
      rintro h ⟨⟨hin, hnone⟩, -⟩
      refine hin.mono ?_
      rintro ⟨hsnap, hinfo, hPi⟩
      refine ⟨hsnap, hinfo, hPi, ?_⟩
      obtain ⟨hcore, hsome⟩ | ⟨-, hcore⟩ := hsnap.core
      · exact absurd (hcore.symm.trans hnone) hsome
      · exact hcore
  | some core =>
    -- The tree is in the snapshot: what is in its place goes, and it comes back.
    have hheld : Triple (In host a .rollingBack fun i s t g =>
        Restoring env a info P i s t g ∧ s.core = some core ∧ a.o.core = some core)
        (do
          ignore (fs env (fun h => h.onInstall ({ · with core := none })) fun n h =>
            h.onInstall fun i => { i with core := i.core.bind (env.remains n) })
          fs env (fun h =>
            (h.onInstall ({ · with core := some core })).onSnapshot ({ · with core := none }))
            fun _ h => h)
        (fun _ => In host a .rollingBack (Restoring env a info fun i => P i ∧ i.core = a.o.core)) R
        (Sound env host a) := by
      refine Triple.bind (Q := fun _ => In host a .rollingBack fun i s t g =>
          Restoring env a info P i s t g ∧ s.core = some core ∧ a.o.core = some core)
        (triple_ignore (triple_change hfault (fun _ => ⟨rfl, rfl⟩) (fun _ _ => ⟨rfl, rfl⟩) ?_ ?_))
        fun _ => triple_change hfault (fun _ => ⟨rfl, rfl⟩) (fun _ _ => ⟨rfl, rfl⟩) ?_ ?_
      · rintro h ⟨⟨hsnap, hinfo, hPi⟩, hcore, ho⟩
        exact ⟨⟨hsnap.movedCore hcore ho _, hinfo, hP _ _ hPi⟩, hcore, ho⟩
      · rintro n h ⟨⟨hsnap, -⟩, hcore, ho⟩
        exact hsnap.movedCore hcore ho _
      · rintro h ⟨⟨hsnap, hinfo, hPi⟩, hcore, ho⟩
        refine ⟨?_, hinfo, hP _ _ hPi, ho.symm⟩
        exact ⟨hsnap.binary, hsnap.tools, hsnap.config, hsnap.manifest, hsnap.info, .inr ⟨rfl, ho.symm⟩⟩
      · rintro n h ⟨⟨hsnap, -⟩, -⟩
        exact hsnap
    refine hheld.pre ?_
    rintro h ⟨hin, hcore⟩
    refine hin.mono ?_
    intro hfiles
    refine ⟨hfiles, hcore, ?_⟩
    obtain ⟨heq, -⟩ | ⟨hnone, -⟩ := hfiles.1.core
    · exact heq.symm.trans hcore
    · rw [hcore] at hnone
      cases hnone

/-- So much of the installation is back. -/
structure Back (a : Attempt B T) (n : ℕ) (i : Install B T) : Prop where
  binary : 1 ≤ n → i.binary = a.o.binary
  tools : 2 ≤ n → i.tools = a.o.tools
  config : 3 ≤ n → i.config = a.o.config
  manifest : 4 ≤ n → i.manifest = a.o.manifest

theorem Back.eq (h : Back a 4 i) (hcore : i.core = a.o.core) : i = a.o := by
  have hbinary := h.binary (by omega)
  have htools := h.tools (by omega)
  have hconfig := h.config (by omega)
  have hmanifest := h.manifest (by omega)
  cases i
  cases a with
  | mk o plan before => simp_all

/-- What was installed is back. -/
theorem triple_restore (hfault : Faultless env) :
    Triple (In host a .rollingBack fun i s t g => Held env a i s t g ∧ s.info = some info)
      (restore env info) (fun _ => In host a .rollingBack fun i s _ _ =>
        i = a.o ∧ Snapped env a.o i s) R (Sound env host a) := by
  refine Triple.of_pre fun h hh => ?_
  obtain ⟨moved, hmoved, -⟩ := hh.files.1.info
  obtain rfl : infoOf env a.o moved = info := Option.some.inj (hmoved.symm.trans hh.files.2)
  unfold restore
  refine Triple.bind (Q := fun _ => In host a .rollingBack
    (Restoring env a (infoOf env a.o moved) (Back a 1))) ?_ fun _ => ?_
  · refine Triple.pre (triple_putBack hfault (P := fun _ => True) (v := some a.o.binary)
      (fun _ _ h => h.binary) rfl (fun _ _ => rfl) ?_) ?_
    · intro i _
      exact ⟨fun _ => rfl, fun h => by omega, fun h => by omega, fun h => by omega⟩
    · rintro _ rfl
      exact hh.mono fun hf => ⟨hf.1, hf.2, trivial⟩
  refine Triple.bind (Q := fun _ => In host a .rollingBack
    (Restoring env a (infoOf env a.o moved) (Back a 2))) ?_ fun _ => ?_
  · refine triple_putBack hfault (v := a.o.tools) (fun _ _ h => h.tools) ?_ (fun _ _ => rfl) ?_
    · exact isSome_map
    · intro i hi
      exact ⟨fun _ => hi.binary (by omega), fun _ => rfl, fun h => by omega, fun h => by omega⟩
  refine Triple.bind (Q := fun _ => In host a .rollingBack
    (Restoring env a (infoOf env a.o moved) (Back a 3))) ?_ fun _ => ?_
  · refine triple_putBack hfault (v := a.o.config) (fun _ _ h => h.config) ?_ (fun _ _ => rfl) ?_
    · exact isSome_map
    · intro i hi
      exact ⟨fun _ => hi.binary (by omega), fun _ => hi.tools (by omega), fun _ => rfl, fun h => by omega⟩
  refine Triple.bind (Q := fun _ => In host a .rollingBack
    (Restoring env a (infoOf env a.o moved) (Back a 4))) ?_ fun _ => ?_
  · refine triple_putBack hfault (v := a.o.manifest) (fun _ _ h => h.manifest) ?_ (fun _ _ => rfl) ?_
    · exact isSome_map
    · intro i hi
      exact ⟨fun _ => hi.binary (by omega), fun _ => hi.tools (by omega),
        fun _ => hi.config (by omega), fun _ => rfl⟩
  refine (triple_restoreCore hfault ?_).post ?_
  · intro i c hi
    exact ⟨hi.binary, hi.tools, hi.config, hi.manifest⟩
  · intro _ h hin
    refine hin.mono ?_
    rintro ⟨hsnap, -, hback, hcore⟩
    exact ⟨hback.eq hcore, hsnap⟩

/-! ### The whole rollback -/

/-- The attempt is closed and what is installed is what was. -/
def Undone (a : Attempt B T) : Files B T H := fun i _ _ _ => i = a.o

theorem triple_rollback (hfault : Faultless env) (reason : String) :
    Triple (Driven env host a (Held env a)) (rollback env host reason)
      (fun _ => In host a .rolledBack (Undone a)) R (Sound env host a) := by
  unfold rollback
  refine Triple.bind (Q := fun _ => Driven env host a (Held env a)) ?_ fun _ => ?_
  · refine triple_setSt ?_
    intro h hh
    exact ⟨hh.sound.withSt _, ⟨hh.memory.release, hh.memory.toVersion, hh.memory.dead⟩, hh.files⟩
  refine Triple.bind (Q := fun _ => In host a .rollingBack (Held env a))
    (triple_ignore (triple_enter hfault .rollingBack fun _ _ _ _ => id)) fun _ => ?_
  refine Triple.bind (Q := fun _ => In host a .rollingBack (Held env a))
    (Triple.attempt (triple_stops fun _ => id)) fun _ => ?_
  -- Nothing is missing and nothing fails, so the snapshot does go back.
  have hrestored : Triple (In host a .rollingBack (Held env a)) (do restore env (← verify env))
      (fun _ => In host a .rollingBack fun i s _ _ => i = a.o ∧ Snapped env a.o i s)
      (fun _ _ => False) (Sound env host a) :=
    Triple.bind triple_verify fun info => triple_restore hfault
  refine Triple.attempt_ok hrestored fun _ => ?_
  refine Triple.bind (triple_startAgain fun h hf => hf.2) fun _ => ?_
  refine Triple.bind (Q := fun _ => In host a .rolledBack (Undone a)) ?_ fun _ => ?_
  · refine triple_ignore ((triple_enter hfault .rolledBack (K := fun i s _ _ =>
      i = a.o ∧ Snapped env a.o i s) ?_).pre ?_)
    · exact fun i s t g hf => hf.1
    · exact fun h hin => hin.driven fun hf => hf.2
  · exact triple_removeStaging hfault (fun _ hf => hf) fun _ _ _ _ _ hf => hf

end Plur1bus.Update
