import Plur1bus.Update.Rollback

/-!
The way forward: the swap with the snapshot in place, the new version under the health
gate, and the commit. The old core tree is in the snapshot before the new one takes its
place, if there was an old one; `Replaces` says that a plan brings a core only where there
was one.
-/

namespace Plur1bus.Update

open Program

variable {B T H : Type} [DecidableEq H] {env : Env B T H} {host : Host B} {a : Attempt B T}
  {R : String → Home B T H → Prop}

/-- A core that comes takes the place of one that was there. -/
def Attempt.Replaces (a : Attempt B T) : Prop := a.plan.core = none ∨ a.o.core ≠ none

/-- So many steps of the swap are done; the core tree is still in place. -/
structure Swapping (env : Env B T H) (a : Attempt B T) (n : ℕ) (i : Install B T)
    (s : Snapshot B T H) (t : Staging B T) : Prop where
  snapped : Snapped env a.o i s
  empty : s.core = none
  core : i.core = a.o.core
  manifest : i.manifest = a.o.manifest
  staged : t = ⟨some a.plan.binary, some a.plan.tools, a.plan.core⟩
  binary : 1 ≤ n → i.binary = a.plan.binary
  tools : 2 ≤ n → i.tools = some a.plan.tools

/-- The core tree is in the snapshot. -/
structure Moved (env : Env B T H) (a : Attempt B T) (i : Install B T) (s : Snapshot B T H)
    (t : Staging B T) : Prop where
  snapped : Snapped env a.o i s
  held : s.core = a.o.core
  some : a.o.core ≠ none
  manifest : i.manifest = a.o.manifest
  staged : t.core = a.plan.core
  binary : i.binary = a.plan.binary
  tools : i.tools = Option.some a.plan.tools

/-- The new files are in place; the manifest is the old one. -/
structure Swapped (env : Env B T H) (a : Attempt B T) (i : Install B T) (s : Snapshot B T H) : Prop where
  snapped : Snapped env a.o i s
  files : NewFiles a i
  manifest : i.manifest = a.o.manifest

theorem triple_putFile (hfault : Faultless env) {n : ℕ} {staged : Staging B T → Option B}
    {put : B → Install B T → Install B T} {b : B}
    (hstaged : staged ⟨some a.plan.binary, some a.plan.tools, a.plan.core⟩ = some b)
    (hput : ∀ i s t, Swapping env a n i s t → Swapping env a (n + 1) (put b i) s t) :
    Triple (In host a .swapping fun i s t _ => Swapping env a n i s t) (putFile env staged put)
      (fun _ => In host a .swapping fun i s t _ => Swapping env a (n + 1) i s t) R
      (Sound env host a) := by
  unfold putFile
  refine triple_read_eq (some b) (fun h hh => ?_) ?_
  · rw [hh.files.staged]
    exact hstaged
  · refine triple_change hfault (fun _ => ⟨rfl, rfl⟩) (fun _ _ => ⟨rfl, rfl⟩) ?_ ?_
    · exact fun h hf => hput _ _ _ hf
    · exact fun n h hf => hf.snapped

theorem triple_moveCore (hfault : Faultless env) {info : Meta H} {core : T}
    (hcore : a.o.core = some core) :
    Triple (In host a .swapping fun i s t _ => Swapping env a 2 i s t) (moveCore env info core)
      (fun _ => In host a .swapping fun i s t _ => Moved env a i s t) R (Sound env host a) := by
  have hsome : a.o.core ≠ none := by
    rw [hcore]
    exact Option.some_ne_none core
  unfold moveCore
  refine Triple.attempt_ok (triple_change hfault (fun _ => ⟨rfl, rfl⟩) (fun _ _ => ⟨rfl, rfl⟩) ?_ ?_)
    fun _ => Triple.pure fun _ => id
  · intro h hf
    exact ⟨⟨hf.snapped.binary, hf.snapped.tools, hf.snapped.config, hf.snapped.manifest,
      hf.snapped.info, .inl ⟨hcore.symm, hsome⟩⟩, hcore.symm, hsome, hf.manifest,
      congrArg Staging.core hf.staged, hf.binary (by omega), hf.tools (by omega)⟩
  · exact fun n h hf => hf.snapped

theorem triple_coreIn (hfault : Faultless env) {core : T} (hcore : a.o.core = some core) :
    Triple (In host a .swapping fun i s t _ => Swapping env a 2 i s t) (coreIn env)
      (fun _ => In host a .swapping fun i s t _ => Moved env a i s t) R (Sound env host a) := by
  unfold coreIn readInfo
  refine Triple.bind (Q := fun info => In host a .swapping fun i s t _ =>
    Swapping env a 2 i s t ∧ s.info = some info) (triple_read_any fun v => ?_) fun info => ?_
  · cases v with
    | none =>
      refine Triple.of_pre fun h hh => ?_
      obtain ⟨moved, hmoved, -⟩ := hh.1.files.snapped.info
      rw [hmoved] at hh
      cases hh.2
    | some info =>
      refine Triple.pure ?_
      rintro h ⟨hh, hinfo⟩
      exact hh.mono fun hf => ⟨hf, hinfo⟩
  -- The snapshot has no core tree yet, so there is nothing to remove.
  refine Triple.bind (Q := fun _ => In host a .swapping fun i s t _ =>
    Swapping env a 2 i s t ∧ s.info = some info)
    (triple_ignore (triple_change hfault (fun _ => ⟨rfl, rfl⟩) (fun _ _ => ⟨rfl, rfl⟩) ?_ ?_))
    fun _ => ?_
  · rintro h ⟨hf, hinfo⟩
    exact ⟨⟨⟨hf.snapped.binary, hf.snapped.tools, hf.snapped.config, hf.snapped.manifest,
      hf.snapped.info, .inr ⟨rfl, hf.core⟩⟩, rfl, hf.core, hf.manifest, hf.staged, hf.binary,
      hf.tools⟩, hinfo⟩
  · rintro n h ⟨hf, -⟩
    refine ⟨hf.snapped.binary, hf.snapped.tools, hf.snapped.config, hf.snapped.manifest,
      hf.snapped.info, .inr ⟨?_, hf.core⟩⟩
    show h.snapshot.core.bind _ = none
    rw [hf.empty]
    rfl
  refine triple_read_eq (some core) (fun h hh => hh.files.1.core.trans hcore) ?_
  refine Triple.bind (Q := fun _ => In host a .swapping fun i s t _ => Swapping env a 2 i s t)
    (triple_change hfault (fun _ => ⟨rfl, rfl⟩) (fun _ _ => ⟨rfl, rfl⟩) ?_ ?_)
    fun _ => triple_moveCore hfault hcore
  · rintro h ⟨hf, hinfo⟩
    refine ⟨⟨hf.snapped.binary, hf.snapped.tools, hf.snapped.config, hf.snapped.manifest, ?_,
      hf.snapped.core⟩, hf.empty, hf.core, hf.manifest, hf.staged, hf.binary, hf.tools⟩
    obtain ⟨moved, hmoved, -⟩ := hf.snapped.info
    obtain rfl : infoOf env a.o moved = info := Option.some.inj (hmoved.symm.trans hinfo)
    refine ⟨true, rfl, fun _ => ?_⟩
    rw [hcore]
    exact Option.some_ne_none core
  · exact fun n h hf => hf.1.snapped

theorem triple_placeCore (hfault : Faultless env) {core : T} (hplan : a.plan.core = some core) :
    Triple (In host a .swapping fun i s t _ => Moved env a i s t) (placeCore env)
      (fun _ => In host a .swapping fun i s _ _ => Swapped env a i s) R (Sound env host a) := by
  unfold placeCore
  refine triple_read_eq (some core) (fun h hh => hh.files.staged.trans hplan) ?_
  refine triple_change hfault (fun _ => ⟨rfl, rfl⟩) (fun _ _ => ⟨rfl, rfl⟩) ?_ ?_
  · intro h hf
    refine ⟨⟨hf.snapped.binary, hf.snapped.tools, hf.snapped.config, hf.snapped.manifest,
      hf.snapped.info, .inl ⟨hf.held, hf.some⟩⟩, ⟨hf.binary, hf.tools, ?_⟩, hf.manifest⟩
    rw [hplan]
    rfl
  · exact fun n h hf => hf.snapped

theorem triple_swap (hfault : Faultless env) (hreplaces : a.Replaces) :
    Triple (In host a .swapping fun i s t _ => Swapping env a 0 i s t) (swap env a.plan)
      (fun _ => In host a .swapping fun i s _ _ => Swapped env a i s) R (Sound env host a) := by
  unfold swap
  refine Triple.bind (triple_putFile hfault (b := a.plan.binary) rfl ?_) fun _ => ?_
  · intro i s t hf
    exact ⟨hf.snapped.withInstall rfl, hf.empty, hf.core, hf.manifest, hf.staged, fun _ => rfl,
      fun h => by omega⟩
  refine Triple.bind (triple_putFile hfault (b := a.plan.tools) rfl ?_) fun _ => ?_
  · intro i s t hf
    exact ⟨hf.snapped.withInstall rfl, hf.empty, hf.core, hf.manifest, hf.staged,
      fun _ => hf.binary (by omega), fun _ => rfl⟩
  cases hplan : a.plan.core with
  | none =>
    refine Triple.pure fun h hh => hh.mono fun hf => ?_
    refine ⟨hf.snapped, ⟨hf.binary (by omega), hf.tools (by omega), ?_⟩, hf.manifest⟩
    rw [hplan]
    exact hf.core
  | some new =>
    obtain hnone | hsome := hreplaces
    · rw [hplan] at hnone
      cases hnone
    obtain ⟨core, hcore⟩ := Option.ne_none_iff_exists'.mp hsome
    refine Triple.bind (triple_coreIn hfault hcore) fun _ => ?_
    refine Triple.bind (triple_placeCore hfault hplan) fun _ => ?_
    refine triple_setSt ?_
    intro h hh
    exact ⟨hh.saved, ⟨hh.memory.release, hh.memory.toVersion, hh.memory.dead⟩, hh.phase, hh.files⟩

end Plur1bus.Update
