import Plur1bus.Update.Atomic

/-!
The daemon across an update that ends early. Whether it was running is learnt by the stop
and reaches the disk only with the record of the next phase; a record of the phase
`stopping` says that it was not. So a crash in between leaves it down, and so does a stop
that fails after the daemon is gone. Here an effect may fail as well as be cut off.
-/

namespace Plur1bus.Update

open Program

variable {B T H : Type} [DecidableEq H] {env : Env B T H} {host : Host B}
  {P C : Home B T H → Prop} {R : String → Home B T H → Prop}

/-- What a record says of the daemon, if it was running, and of its owner. -/
structure Truthful (host : Host B) (st : State) : Prop where
  stopping : st.phase = .stopping → st.wasRunning = false
  snapshotted : st.phase = .snapshotted → st.wasRunning = true
  dead : st.phase.isTerminal = false → host.alive st.owner = false

/-- What may be left by a crash. -/
def Marks (host : Host B) (h : Home B T H) : Prop := ∀ st, h.state = some st → Truthful host st

/-- A record from `snapshotted` on. -/
structure Later (host : Host B) (st : State) : Prop where
  running : st.wasRunning = true
  phase : st.phase ≠ .stopping
  dead : host.alive st.owner = false

/-- On the disk and in memory. -/
structure Steady (host : Host B) (h : Home B T H) : Prop where
  saved : ∃ st, h.state = some st ∧ Later host st
  memory : Later host h.st

variable {st : State}

theorem Later.truthful (h : Later host st) : Truthful host st :=
  ⟨fun hp => absurd hp h.phase, fun _ => h.running, fun _ => h.dead⟩

variable {h : Home B T H}

theorem Steady.marks (h₁ : Steady host h) : Marks host h := by
  intro st hst
  obtain ⟨st', hst', hlater⟩ := h₁.saved
  obtain rfl : st' = st := Option.some.inj (hst'.symm.trans hst)
  exact hlater.truthful

/-! ### Effects that may fail -/

variable {whole : Home B T H → Home B T H} {part : ℕ → Home B T H → Home B T H}

theorem triple_fs_or {Q : Unit → Home B T H → Prop}
    (hwhole : ∀ h, P h → env.fault h.ticks = none → Q () (whole h).tick)
    (hstay : ∀ h, P h → env.fault h.ticks ≠ none → R "io" h.tick)
    (hdone : ∀ h, P h → env.fault h.ticks ≠ none → R "io" (whole h).tick)
    (hpart : ∀ n h, P h → C (part n h)) (hcut : ∀ h, P h → C h) :
    Triple P (fs env whole part) Q R C := by
  unfold fs
  refine triple_read_any fun n => ?_
  cases hn : env.fault n with
  | none =>
    refine Triple.effect ?_ ?_
    · rintro h ⟨hh, rfl⟩
      exact hwhole h hh hn
    · exact fun k h hh => hpart k h hh.1
  | some done =>
    have hfault : ∀ h : Home B T H, h.ticks = n → env.fault h.ticks ≠ none := by
      rintro h rfl
      rw [hn]
      exact Option.some_ne_none done
    cases done with
    | false =>
      refine Triple.bind (Q := fun _ => R "io") (Triple.effect ?_ ?_) fun _ => Triple.raise fun _ => id
      · exact fun h hh => hstay h hh.1 (hfault h hh.2)
      · exact fun k h hh => hcut h hh.1
    | true =>
      refine Triple.bind (Q := fun _ => R "io") (Triple.effect ?_ ?_) fun _ => Triple.raise fun _ => id
      · exact fun h hh => hdone h hh.1 (hfault h hh.2)
      · exact fun k h hh => hpart k h hh.1

/-- An effect that keeps `P`, whether it is done or not. -/
theorem triple_fs_keep (htick : ∀ h, P h → P h.tick) (hwhole : ∀ h, P h → P (whole h).tick)
    (hpart : ∀ n h, P h → C (part n h)) (hcut : ∀ h, P h → C h) :
    Triple P (fs env whole part) (fun _ => P) (fun _ => P) C :=
  triple_fs_or (fun h hh _ => hwhole h hh) (fun h hh _ => htick h hh) (fun h hh _ => hwhole h hh) hpart hcut

/-! ### From the swap on -/

/-- `m` keeps the record one of a later phase, however it ends. -/
def KeepsLater (host : Host B) {α : Type} (m : Op B T H α) : Prop :=
  Triple (Steady host) m (fun _ => Steady host) (fun _ => Steady host) (Marks host)

section Steady

variable {α β : Type}

theorem keepsLater_pure (x : α) : KeepsLater host (pure x : Op B T H α) := Triple.pure fun _ => id

theorem keepsLater_raise (e : String) : KeepsLater host (raise e : Op B T H α) := Triple.raise fun _ => id

variable {m : Op B T H α} {k : α → Op B T H β}

theorem KeepsLater.bind (hm : KeepsLater host m) (hk : ∀ x, KeepsLater host (k x)) :
    KeepsLater host (m >>= k) :=
  Triple.bind hm hk

theorem keepsLater_read {f : Home B T H → α} (hk : ∀ x, KeepsLater host (k x)) :
    KeepsLater host (read f >>= k) :=
  triple_read_skip hk

theorem KeepsLater.attempt (hm : KeepsLater host m) : KeepsLater host (Program.attempt m) :=
  Triple.attempt hm

theorem KeepsLater.ignore {m : Op B T H Unit} (hm : KeepsLater host m) :
    KeepsLater host (Update.ignore m) :=
  triple_ignore hm

theorem KeepsLater.ite {p : Prop} [Decidable p] {m' : Op B T H α} (hm : KeepsLater host m)
    (hm' : KeepsLater host m') : KeepsLater host (if p then m else m') :=
  Triple.ite (fun _ => hm) fun _ => hm'

end Steady

variable {h' : Home B T H}

theorem Steady.change (h₁ : Steady host h) (hsame : SameState h h') : Steady host h' := by
  constructor
  · rw [hsame.state]
    exact h₁.saved
  · rw [hsame.st]
    exact h₁.memory

theorem keepsLater_fs (hwhole : ∀ h, SameState h (whole h)) (hpart : ∀ n h, SameState h (part n h)) :
    KeepsLater host (fs env whole part) := by
  refine triple_fs_keep ?_ ?_ ?_ ?_
  · exact fun h hh => hh.change ⟨rfl, rfl⟩
  · intro h hh
    have hnew := hh.change (hwhole h)
    exact ⟨hnew.saved, hnew.memory⟩
  · exact fun n h hh => (hh.change (hpart n h)).marks
  · exact fun h hh => hh.marks

theorem keepsLater_setSt {f : State → State} (hf : ∀ st, Later host st → Later host (f st)) :
    KeepsLater host (setSt f : Op B T H Unit) :=
  triple_setSt fun _ hh => ⟨hh.saved, hf _ hh.memory⟩

theorem keepsLater_save : KeepsLater host (save env : Op B T H Unit) := by
  refine triple_fs_keep ?_ ?_ ?_ ?_
  · exact fun h hh => hh.change ⟨rfl, rfl⟩
  · exact fun h hh => ⟨⟨h.st, rfl, hh.memory⟩, hh.memory⟩
  · exact fun n h hh => hh.marks
  · exact fun h hh => hh.marks

theorem keepsLater_enter {q : Phase} (hq : q ≠ .stopping) :
    KeepsLater host (enter env q : Op B T H Unit) := by
  refine KeepsLater.bind (keepsLater_setSt ?_) fun _ => keepsLater_save
  exact fun st hst => ⟨hst.running, hq, hst.dead⟩

theorem keepsLater_removeStaging : KeepsLater host (removeStaging env : Op B T H Unit) :=
  KeepsLater.ignore (keepsLater_fs (fun _ => ⟨rfl, rfl⟩) fun _ _ => ⟨rfl, rfl⟩)

theorem keepsLater_effect (hwhole : ∀ h, SameState h (whole h)) :
    KeepsLater host (effect () whole fun _ h => h) :=
  Triple.effect (fun h hh => hh.change (hwhole h)) fun _ _ hh => hh.marks

theorem keepsLater_stops : KeepsLater host (host.stops : Op B T H Bool) := by
  unfold Host.stops
  refine keepsLater_read fun n => ?_
  cases host.stop n with
  | none =>
    refine keepsLater_read fun was => ?_
    exact KeepsLater.bind (keepsLater_effect fun _ => ⟨rfl, rfl⟩) fun _ => keepsLater_pure was
  | some left =>
    exact KeepsLater.bind (keepsLater_effect fun _ => ⟨rfl, rfl⟩) fun _ => keepsLater_raise _

theorem keepsLater_starts {rewrite : ℕ → Option B → Option B} :
    KeepsLater host (host.starts rewrite : Op B T H Unit) := by
  unfold Host.starts
  refine keepsLater_read fun n => ?_
  refine KeepsLater.bind (keepsLater_effect fun _ => ⟨rfl, rfl⟩) fun _ => ?_
  exact KeepsLater.ite (keepsLater_pure ()) (keepsLater_raise _)

theorem triple_startAgain_later :
    Triple (Steady host) (startAgain host : Op B T H Unit) (fun _ => Steady host) R (Marks host) := by
  unfold startAgain
  refine triple_read_skip fun st => ?_
  exact Triple.ite (fun _ => triple_ignore keepsLater_starts) fun _ => Triple.pure fun _ => id

theorem keepsLater_verify : KeepsLater host (verify env : Op B T H (Meta H)) := by
  unfold verify readInfo
  refine KeepsLater.bind (keepsLater_read fun v => ?_) fun info => ?_
  · cases v with
    | none => exact keepsLater_raise _
    | some info => exact keepsLater_pure info
  · refine keepsLater_read fun s => ?_
    exact KeepsLater.ite (keepsLater_pure info) (keepsLater_raise _)

theorem keepsLater_writeInfo (info : Meta H) : KeepsLater host (writeInfo env info : Op B T H Unit) :=
  keepsLater_fs (fun _ => ⟨rfl, rfl⟩) fun _ _ => ⟨rfl, rfl⟩

theorem keepsLater_putBack {F : Type} (held : Snapshot B T H → Option F)
    (put : Option F → Install B T → Install B T) (wanted : Bool) :
    KeepsLater host (putBack env held put wanted) := by
  unfold putBack
  refine keepsLater_read fun v => ?_
  cases wanted with
  | false => exact keepsLater_fs (fun _ => ⟨rfl, rfl⟩) fun _ _ => ⟨rfl, rfl⟩
  | true =>
    cases v with
    | none => exact keepsLater_raise _
    | some f => exact keepsLater_fs (fun _ => ⟨rfl, rfl⟩) fun _ _ => ⟨rfl, rfl⟩

theorem keepsLater_restoreCore (info : Meta H) :
    KeepsLater host (restoreCore env info : Op B T H Unit) := by
  unfold restoreCore
  refine keepsLater_read fun v => ?_
  cases v with
  | none =>
    refine keepsLater_read fun missing => ?_
    exact KeepsLater.ite (keepsLater_raise _) (keepsLater_pure ())
  | some core =>
    refine KeepsLater.bind (KeepsLater.ignore ?_) fun _ => ?_
    · exact keepsLater_fs (fun _ => ⟨rfl, rfl⟩) fun _ _ => ⟨rfl, rfl⟩
    · exact keepsLater_fs (fun _ => ⟨rfl, rfl⟩) fun _ _ => ⟨rfl, rfl⟩

theorem keepsLater_restore (info : Meta H) : KeepsLater host (restore env info : Op B T H Unit) := by
  unfold restore
  refine KeepsLater.bind (keepsLater_putBack _ _ _) fun _ => ?_
  refine KeepsLater.ite ?_ ?_
  · refine KeepsLater.bind (keepsLater_putBack _ _ _) fun _ => ?_
    refine KeepsLater.bind (keepsLater_putBack _ _ _) fun _ => ?_
    refine KeepsLater.bind (keepsLater_putBack _ _ _) fun _ => ?_
    exact keepsLater_restoreCore info
  · refine KeepsLater.bind (keepsLater_putBack _ _ _) fun _ => ?_
    refine KeepsLater.bind (keepsLater_putBack _ _ _) fun _ => ?_
    exact keepsLater_restoreCore info

/-- What is thrown is answered, so a rollback does not throw. -/
theorem triple_rollback_later (reason : String) :
    Triple (Steady host) (rollback env host reason : Op B T H Unit) (fun _ => Steady host) R
      (Marks host) := by
  unfold rollback
  refine Triple.bind (Q := fun _ => Steady host) (triple_setSt ?_) fun _ => ?_
  · exact fun h hh => ⟨hh.saved, hh.memory.running, hh.memory.phase, hh.memory.dead⟩
  refine Triple.bind (triple_ignore (keepsLater_enter (by decide))) fun _ => ?_
  refine Triple.bind (Q := fun _ => Steady host) (Triple.attempt keepsLater_stops) fun _ => ?_
  refine Triple.attempt_bind (KeepsLater.bind keepsLater_verify keepsLater_restore) (fun _ => ?_) fun _ => ?_
  · refine Triple.bind triple_startAgain_later fun _ => ?_
    refine Triple.bind (triple_ignore (keepsLater_enter (by decide))) fun _ => ?_
    exact triple_ignore (keepsLater_fs (fun _ => ⟨rfl, rfl⟩) fun _ _ => ⟨rfl, rfl⟩)
  · exact triple_ignore (keepsLater_enter (by decide))

theorem keepsLater_putFile (staged : Staging B T → Option B) (put : B → Install B T → Install B T) :
    KeepsLater host (putFile env staged put : Op B T H Unit) := by
  unfold putFile
  refine keepsLater_read fun v => ?_
  cases v with
  | none => exact keepsLater_raise _
  | some b => exact keepsLater_fs (fun _ => ⟨rfl, rfl⟩) fun _ _ => ⟨rfl, rfl⟩

theorem keepsLater_moveCore (info : Meta H) (core : T) :
    KeepsLater host (moveCore env info core : Op B T H Unit) := by
  unfold moveCore
  refine KeepsLater.bind (KeepsLater.attempt ?_) fun r => ?_
  · exact keepsLater_fs (fun _ => ⟨rfl, rfl⟩) fun _ _ => ⟨rfl, rfl⟩
  · cases r with
    | ok _ => exact keepsLater_pure ()
    | error e =>
      exact KeepsLater.bind (KeepsLater.ignore (keepsLater_writeInfo _)) fun _ => keepsLater_raise e

theorem keepsLater_coreIn : KeepsLater host (coreIn env : Op B T H Unit) := by
  unfold coreIn readInfo
  refine KeepsLater.bind (keepsLater_read fun v => ?_) fun info => ?_
  · cases v with
    | none => exact keepsLater_raise _
    | some info => exact keepsLater_pure info
  refine KeepsLater.bind (KeepsLater.ignore ?_) fun _ => ?_
  · exact keepsLater_fs (fun _ => ⟨rfl, rfl⟩) fun _ _ => ⟨rfl, rfl⟩
  refine keepsLater_read fun v => ?_
  cases v with
  | none => exact keepsLater_writeInfo _
  | some core => exact KeepsLater.bind (keepsLater_writeInfo _) fun _ => keepsLater_moveCore info core

theorem keepsLater_placeCore : KeepsLater host (placeCore env : Op B T H Unit) := by
  unfold placeCore
  refine keepsLater_read fun v => ?_
  cases v with
  | none => exact keepsLater_raise _
  | some core => exact keepsLater_fs (fun _ => ⟨rfl, rfl⟩) fun _ _ => ⟨rfl, rfl⟩

theorem keepsLater_swap (plan : Plan B T) : KeepsLater host (swap env plan : Op B T H Unit) := by
  unfold swap
  refine KeepsLater.bind (keepsLater_putFile _ _) fun _ => ?_
  refine KeepsLater.bind (keepsLater_putFile _ _) fun _ => ?_
  refine KeepsLater.ite ?_ (keepsLater_pure ())
  refine KeepsLater.bind keepsLater_coreIn fun _ => ?_
  refine KeepsLater.bind keepsLater_placeCore fun _ => keepsLater_setSt ?_
  exact fun st hst => ⟨hst.running, hst.phase, hst.dead⟩

theorem keepsLater_flow (plan : Plan B T) : KeepsLater host (flow env host plan : Op B T H Unit) := by
  unfold flow swapIn disableAddons Host.gates
  refine KeepsLater.bind (KeepsLater.bind (keepsLater_enter (by decide)) fun _ => ?_) fun _ => ?_
  · refine KeepsLater.bind (KeepsLater.attempt (keepsLater_swap plan)) fun r => ?_
    cases r with
    | ok _ => exact keepsLater_enter (by decide)
    | error e => exact keepsLater_raise _
  refine KeepsLater.bind (KeepsLater.ite (keepsLater_pure ()) ?_) fun _ => ?_
  · refine KeepsLater.bind (keepsLater_setSt fun st hst => ?_) fun _ => ?_
    · exact ⟨hst.running, hst.phase, hst.dead⟩
    refine KeepsLater.bind keepsLater_save fun _ => keepsLater_read fun n => ?_
    exact KeepsLater.ite (keepsLater_pure ()) (keepsLater_raise _)
  refine KeepsLater.bind keepsLater_starts fun _ => ?_
  refine KeepsLater.bind (keepsLater_enter (by decide)) fun _ => ?_
  refine KeepsLater.bind (keepsLater_read fun n => ?_) fun _ => keepsLater_enter (by decide)
  exact KeepsLater.ite (keepsLater_pure ()) (keepsLater_raise _)

theorem keepsLater_commit : KeepsLater host (commit env host : Op B T H Unit) := by
  unfold commit
  refine keepsLater_read fun v => ?_
  cases v with
  | none => exact keepsLater_raise _
  | some m =>
    refine keepsLater_read fun st => keepsLater_read fun n => ?_
    refine KeepsLater.bind (keepsLater_fs (fun _ => ⟨rfl, rfl⟩) fun _ _ => ⟨rfl, rfl⟩) fun _ => ?_
    refine KeepsLater.bind (keepsLater_setSt fun st hst => ?_) fun _ => ?_
    · exact ⟨hst.running, hst.phase, hst.dead⟩
    refine KeepsLater.bind (keepsLater_enter (by decide)) fun _ => ?_
    refine KeepsLater.bind keepsLater_removeStaging fun _ => KeepsLater.ite (keepsLater_pure ()) ?_
    exact KeepsLater.bind (KeepsLater.attempt keepsLater_stops) fun _ => keepsLater_pure ()

/-- Once the swap begins nothing is thrown, and every record says that the daemon was running. -/
theorem triple_swapOrRollback_later (plan : Plan B T) :
    Triple (Steady host) (swapOrRollback env host plan : Op B T H Unit) (fun _ => Steady host) R
      (Marks host) := by
  unfold swapOrRollback finish
  refine Triple.attempt_bind (keepsLater_flow plan) (fun _ => ?_) fun reason => ?_
  · refine Triple.attempt_bind keepsLater_commit (fun _ => Triple.pure fun _ => id) fun _ => ?_
    exact triple_rollback_later _
  · exact triple_rollback_later reason

/-! ### Before the swap -/

/-- The record may be left as it is, and `F` holds of the daemon and of what is known of it. -/
structure Marked (host : Host B) (F : Bool → Bool → Prop) (h : Home B T H) : Prop where
  marks : Marks host h
  dead : host.alive h.st.owner = false
  daemon : F h.daemon h.st.wasRunning

variable {F : Bool → Bool → Prop}

theorem Marked.change (h₁ : Marked host F h) (hsame : SameState h h') (hdaemon : h'.daemon = h.daemon) :
    Marked host F h' := by
  obtain ⟨hmarks, hdead, hF⟩ := h₁
  refine ⟨?_, ?_, ?_⟩
  · unfold Marks
    rw [hsame.state]
    exact hmarks
  · rw [hsame.st]
    exact hdead
  · rw [hsame.st, hdaemon]
    exact hF

theorem triple_marked_fs (hwhole : ∀ h, SameState h (whole h) ∧ (whole h).daemon = h.daemon)
    (hpart : ∀ n h, SameState h (part n h) ∧ (part n h).daemon = h.daemon) :
    Triple (Marked host F) (fs env whole part) (fun _ => Marked host F) (fun _ => Marked host F)
      (Marks host) := by
  refine triple_fs_keep ?_ ?_ ?_ ?_
  · exact fun h hh => hh.change ⟨rfl, rfl⟩ rfl
  · intro h hh
    have hnew := hh.change (hwhole h).1 (hwhole h).2
    exact ⟨hnew.marks, hnew.dead, hnew.daemon⟩
  · exact fun n h hh => (hh.change (hpart n h).1 (hpart n h).2).marks
  · exact fun h hh => hh.marks

theorem triple_marked_removeStaging :
    Triple (Marked host F) (removeStaging env : Op B T H Unit) (fun _ => Marked host F) R
      (Marks host) :=
  triple_ignore (triple_marked_fs (fun _ => ⟨⟨rfl, rfl⟩, rfl⟩) fun _ _ => ⟨⟨rfl, rfl⟩, rfl⟩)

/-- A record that is closed says nothing more of the daemon. -/
theorem truthful_of_terminal (h : st.phase.isTerminal = true) : Truthful host st := by
  refine ⟨fun hp => ?_, fun hp => ?_, fun hp => ?_⟩
  · rw [hp] at h
    cases h
  · rw [hp] at h
    cases h
  · rw [h] at hp
    cases hp

/-- A record that tells the truth may be saved. -/
theorem triple_marked_enter (q : Phase)
    (hq : ∀ h : Home B T H, Marked host F h → Truthful host { h.st with phase := q }) :
    Triple (Marked host F) (enter env q : Op B T H Unit)
      (fun _ h => Marked host F h ∧ h.state = some h.st ∧ h.st.phase = q) (fun _ => Marked host F)
      (Marks host) := by
  unfold enter save
  refine Triple.bind (Q := fun _ h => Marked host F h ∧ h.st.phase = q ∧ Truthful host h.st)
    (triple_setSt ?_) fun _ => triple_fs_or ?_ ?_ ?_ ?_ ?_
  · exact fun h hh => ⟨⟨hh.marks, hh.dead, hh.daemon⟩, rfl, hq h hh⟩
  · rintro h ⟨hh, hphase, htrue⟩ -
    refine ⟨⟨fun st hst => ?_, hh.dead, hh.daemon⟩, rfl, hphase⟩
    obtain rfl : h.st = st := Option.some.inj hst
    exact htrue
  · exact fun h hh _ => hh.1.change ⟨rfl, rfl⟩ rfl
  · rintro h ⟨hh, hphase, htrue⟩ -
    refine ⟨fun st hst => ?_, hh.dead, hh.daemon⟩
    obtain rfl : h.st = st := Option.some.inj hst
    exact htrue
  · exact fun n h hh => hh.1.marks
  · exact fun h hh => hh.1.marks

theorem triple_marked_giveUp (reason : String) :
    Triple (Marked host F) (giveUp env reason : Op B T H Unit) (fun _ => Marked host F) R
      (Marks host) := by
  unfold giveUp
  refine Triple.bind (Q := fun _ => Marked host F) (triple_setSt ?_) fun _ => triple_ignore ?_
  · exact fun h hh => ⟨hh.marks, hh.dead, hh.daemon⟩
  · refine (triple_marked_enter .rolledBack ?_).post fun _ _ hh => hh.1
    exact fun h hh => truthful_of_terminal rfl

/-- If starting succeeds, a daemon that was running runs again. -/
theorem triple_marked_startAgain (hstart : ∀ n, host.start n = true) :
    Triple (Marked host fun _ was => was = true) (startAgain host : Op B T H Unit)
      (fun _ => Marked host fun daemon _ => daemon = true) R (Marks host) := by
  unfold startAgain
  refine triple_read_any fun st => Triple.ite (fun _ => ?_) fun hno => Triple.of_pre ?_
  · refine triple_ignore ?_
    unfold Host.starts
    refine triple_read_skip fun n => ?_
    refine Triple.bind (Q := fun _ => Marked host fun daemon _ => daemon = true)
      (Triple.effect ?_ ?_) fun _ => ?_
    · rintro h ⟨hh, -⟩
      refine ⟨hh.marks, hh.dead, ?_⟩
      show (h.daemon || host.start n) = true
      rw [hstart n, Bool.or_true]
    · exact fun k h hh => hh.1.marks
    · exact Triple.ite (fun _ => Triple.pure fun _ => id) fun _ => Triple.raise fun _ => id
  · rintro h ⟨hh, rfl⟩
    exact absurd hh.daemon hno

theorem triple_marked_copyInto {X : Type} {cut : ℕ → X → Option X}
    {put : Option X → Snapshot B T H → Snapshot B T H} (file : Option X) :
    Triple (Marked host F) (copyInto env cut put file) (fun _ => Marked host F)
      (fun _ => Marked host F) (Marks host) := by
  cases file with
  | none => exact Triple.pure fun _ => id
  | some f => exact triple_marked_fs (fun _ => ⟨⟨rfl, rfl⟩, rfl⟩) fun _ _ => ⟨⟨rfl, rfl⟩, rfl⟩

theorem triple_marked_create : Triple (Marked host F) (create env : Op B T H Unit) (fun _ => Marked host F)
      (fun _ => Marked host F) (Marks host) := by
  unfold create
  refine Triple.bind (Q := fun _ => Marked host F) (triple_ignore ?_) fun _ => ?_
  · exact triple_marked_fs (fun _ => ⟨⟨rfl, rfl⟩, rfl⟩) fun _ _ => ⟨⟨rfl, rfl⟩, rfl⟩
  refine triple_read_skip fun i => ?_
  refine Triple.bind (triple_marked_copyInto _) fun _ => ?_
  refine Triple.bind (triple_marked_copyInto _) fun _ => ?_
  refine Triple.bind (triple_marked_copyInto _) fun _ => ?_
  refine Triple.bind (triple_marked_copyInto _) fun _ => ?_
  exact triple_marked_fs (fun _ => ⟨⟨rfl, rfl⟩, rfl⟩) fun _ _ => ⟨⟨rfl, rfl⟩, rfl⟩

/-- The daemon was running, and is stopped. -/
abbrev Stopped (host : Host B) : Home B T H → Prop := Marked host fun _ was => was = true

/-- The daemon is running. -/
abbrev Up (host : Host B) : Home B T H → Prop := Marked host fun daemon _ => daemon = true

theorem triple_takeSnapshot_up (hstart : ∀ n, host.start n = true) :
    Triple (Stopped host) (takeSnapshot env host : Op B T H Unit) (fun _ => Stopped host)
      (fun _ => Up host) (Marks host) := by
  unfold takeSnapshot
  refine Triple.attempt_bind triple_marked_create (fun _ => Triple.pure fun _ => id) fun _ => ?_
  refine Triple.bind (triple_marked_giveUp _) fun _ => ?_
  exact Triple.bind (triple_marked_startAgain hstart) fun _ => Triple.raise fun _ => id

theorem triple_enterSnapshotted_up (hstart : ∀ n, host.start n = true) :
    Triple (Stopped host) (enterSnapshotted env host : Op B T H Unit) (fun _ => Steady host)
      (fun _ => Up host) (Marks host) := by
  unfold enterSnapshotted
  refine Triple.attempt_bind (triple_marked_enter .snapshotted ?_) (fun _ => Triple.pure ?_) fun _ => ?_
  · exact fun h hh => ⟨fun hp => (by cases hp), fun _ => hh.daemon, fun _ => hh.dead⟩
  · rintro h ⟨hh, hsaved, hphase⟩
    have hlater : Later host h.st := by
      refine ⟨hh.daemon, ?_, hh.dead⟩
      rw [hphase]
      decide
    exact ⟨⟨h.st, hsaved, hlater⟩, hlater⟩
  · refine Triple.bind (triple_marked_startAgain hstart) fun _ => ?_
    refine Triple.bind (triple_marked_giveUp _) fun _ => ?_
    exact Triple.bind triple_marked_removeStaging fun _ => Triple.raise fun _ => id

/-- `apply` comes to the stop. -/
structure Reached (env : Env B T H) (plan : Plan B T) (h : Home B T H) : Prop where
  refusal : env.refusal = none
  installed : ∃ m, h.install.manifest = some m ∧ m.binary.version = plan.fromVersion
  staged : env.fault h.ticks = none
  saved : env.fault (h.ticks + 1) = none

/-- The stop fails, and the daemon is gone. -/
def StopLoses (env : Env B T H) (host : Host B) (plan : Plan B T) (h : Home B T H) : Prop :=
  Reached env plan h ∧ host.stop (h.ticks + 2) = some false

/-- What an error leaves, if the daemon was running in `h`. -/
structure Errs (env : Env B T H) (host : Host B) (plan : Plan B T) (h d : Home B T H) : Prop where
  marks : Marks host d
  daemon : d.daemon = true ↔ ¬StopLoses env host plan h

section Apply

variable {h : Home B T H} {plan : Plan B T}

theorem triple_stopDaemon_up (hreached : Reached env plan h) :
    Triple (fun d => Marked host (fun daemon was => daemon = true ∧ was = false) d ∧ d.ticks = h.ticks + 2)
      (stopDaemon env host)
      (fun _ d => Stopped host d ∧ ¬StopLoses env host plan h)
      (fun _ => Errs env host plan h) (Marks host) := by
  unfold stopDaemon
  have hstops : Triple (fun d => Marked host (fun daemon was => daemon = true ∧ was = false) d ∧
        d.ticks = h.ticks + 2) (host.stops : Op B T H Bool)
      (fun was d => was = true ∧ Marked host (fun _ was => was = false) d ∧ host.stop (h.ticks + 2) = none)
      (fun _ => Marked host fun daemon _ => host.stop (h.ticks + 2) = some daemon) (Marks host) := by
    unfold Host.stops
    refine triple_read_eq (h.ticks + 2) (fun d hd => hd.2) ?_
    cases hstop : host.stop (h.ticks + 2) with
    | none =>
      refine triple_read_eq true (fun d hd => hd.1.daemon.1) ?_
      refine Triple.bind (Q := fun _ => Marked host fun _ was => was = false)
        (Triple.effect ?_ ?_) fun _ => Triple.pure fun d hd => ⟨rfl, hd, rfl⟩
      · exact fun d hd => ⟨hd.1.marks, hd.1.dead, hd.1.daemon.2⟩
      · exact fun n d hd => hd.1.marks
    | some left =>
      refine Triple.bind (Q := fun _ => Marked host fun daemon _ => some left = some daemon)
        (Triple.effect ?_ ?_) fun _ => Triple.raise fun d hd => hd
      · intro d hd
        refine ⟨hd.1.marks, hd.1.dead, ?_⟩
        show some left = some (d.daemon && left)
        rw [hd.1.daemon.1, Bool.true_and]
      · exact fun n d hd => hd.1.marks
  refine Triple.attempt_bind hstops ?_ ?_
  · intro was
    refine triple_setSt ?_
    rintro d ⟨rfl, hd, hstop⟩
    refine ⟨⟨hd.marks, hd.dead, rfl⟩, fun hloses => ?_⟩
    cases hstop.symm.trans hloses.2
  · intro e
    refine Triple.bind (triple_marked_giveUp _) fun _ => ?_
    refine Triple.bind triple_marked_removeStaging fun _ => Triple.raise fun d hd => ⟨hd.marks, ?_⟩
    constructor
    · intro hup hloses
      have hleft := hd.daemon.symm.trans hloses.2
      rw [hup] at hleft
      cases hleft
    · intro hno
      by_contra hdown
      rw [Bool.not_eq_true] at hdown
      have hstop := hd.daemon
      rw [hdown] at hstop
      exact hno ⟨hreached, hstop⟩

/-- What ends before the stop leaves the daemon alone. -/
theorem errs_of_not_reached (hmarks : ∀ d : Home B T H, d.state = h.state → Marks host d)
    (hno : ¬Reached env plan h) {d : Home B T H} (hstate : d.state = h.state) (hd : d.daemon = true) :
    Errs env host plan h d :=
  ⟨hmarks d hstate, fun _ hloses => hno hloses.1, fun _ => hd⟩

variable (hmarks : ∀ d : Home B T H, d.state = h.state → Marks host d)

include hmarks

theorem triple_checkInstalled_up (hrunning : h.daemon = true) :
    Triple (fun d => d = h) (checkInstalled plan)
      (fun _ d => d = h ∧ ∃ m, h.install.manifest = some m ∧ m.binary.version = plan.fromVersion)
      (fun _ => Errs env host plan h) (Marks host) := by
  unfold checkInstalled
  refine triple_read_eq h.install.manifest (fun d hd => by rw [hd]) ?_
  cases hmanifest : h.install.manifest with
  | none =>
    refine Triple.raise ?_
    rintro _ rfl
    refine errs_of_not_reached hmarks (fun hreached => ?_) rfl hrunning
    obtain ⟨m, hm, -⟩ := hreached.installed
    cases hmanifest.symm.trans hm
  | some m =>
    refine Triple.ite (fun hversion => Triple.raise ?_) fun hversion => Triple.pure ?_
    · rintro _ rfl
      refine errs_of_not_reached hmarks (fun hreached => ?_) rfl hrunning
      obtain ⟨m', hm', hversion'⟩ := hreached.installed
      obtain rfl : m = m' := Option.some.inj (hmanifest.symm.trans hm')
      exact hversion hversion'
    · exact fun d hd => ⟨hd, m, rfl, not_not.mp hversion⟩

theorem triple_download_up (hrunning : h.daemon = true) : Triple (fun d => d = h) (download env plan)
      (fun _ d => (d.state = h.state ∧ d.daemon = true ∧ d.ticks = h.ticks + 1) ∧
        env.refusal = none ∧ env.fault h.ticks = none)
      (fun _ => Errs env host plan h) (Marks host) := by
  unfold download
  cases hrefusal : env.refusal with
  | some reason =>
    refine Triple.raise ?_
    rintro _ rfl
    refine errs_of_not_reached hmarks (fun hreached => ?_) rfl hrunning
    cases hrefusal.symm.trans hreached.refusal
  | none =>
    refine triple_fs_or ?_ ?_ ?_ ?_ ?_
    · rintro _ rfl hfault
      exact ⟨⟨rfl, hrunning, rfl⟩, rfl, hfault⟩
    · rintro _ rfl hfault
      exact errs_of_not_reached hmarks (fun hreached => hfault hreached.staged) rfl hrunning
    · rintro _ rfl hfault
      exact errs_of_not_reached hmarks (fun hreached => hfault hreached.staged) rfl hrunning
    · rintro n _ rfl
      exact hmarks _ rfl
    · rintro _ rfl
      exact hmarks _ rfl

variable {pid : ℕ}

theorem triple_enterStopping_up {h₁ : Home B T H} (hstate : h₁.state = h.state)
    (hdaemon : h₁.daemon = true) (hticks : h₁.ticks = h.ticks + 1) (hpid : host.alive pid = false) :
    Triple (fun d => d = { h₁ with st := freshState plan pid }) (enter env .stopping)
      (fun _ d => (Marked host (fun daemon was => daemon = true ∧ was = false) d ∧
        d.ticks = h.ticks + 2) ∧ env.fault (h.ticks + 1) = none)
      (fun _ => Errs env host plan h) (Marks host) := by
  have hfresh : ∀ d : Home B T H, d.state = some (freshState plan pid) → Marks host d := by
    intro d hd st hst
    obtain rfl : freshState plan pid = st := Option.some.inj (hd.symm.trans hst)
    exact ⟨fun _ => rfl, fun hp => (by cases hp), fun _ => hpid⟩
  have hfails : env.fault h₁.ticks ≠ none → ¬Reached env plan h := by
    intro hfault hreached
    rw [hticks] at hfault
    exact hfault hreached.saved
  unfold enter save
  refine Triple.bind (Q := fun _ d => d = { h₁ with st := freshState plan pid })
    (triple_setSt ?_) fun _ => triple_fs_or ?_ ?_ ?_ ?_ ?_
  · rintro _ rfl
    rfl
  · rintro _ rfl hfault
    refine ⟨⟨⟨hfresh _ rfl, hpid, hdaemon, rfl⟩, ?_⟩, ?_⟩
    · show h₁.ticks + 1 = _
      rw [hticks]
    · rw [← hticks]
      exact hfault
  · rintro _ rfl hfault
    exact errs_of_not_reached hmarks (hfails hfault) hstate hdaemon
  · rintro _ rfl hfault
    exact ⟨hfresh _ rfl, fun _ hloses => hfails hfault hloses.1, fun _ => hdaemon⟩
  · rintro n _ rfl
    exact hmarks _ hstate
  · rintro _ rfl
    exact hmarks _ hstate

omit hmarks

/-- What `apply` leaves of a daemon that was running, however it ends. -/
theorem triple_apply_up (hidle : Idle h) (hrunning : h.daemon = true)
    (hstart : ∀ n, host.start n = true) (hpid : host.alive pid = false) :
    Triple (fun d => d = h) (apply env host plan pid)
      (fun _ d => Marks host d ∧ ¬StopLoses env host plan h)
      (fun _ => Errs env host plan h) (Marks host) := by
  have hmarks : ∀ d : Home B T H, d.state = h.state → Marks host d := by
    intro d hd st hst
    exact truthful_of_terminal (hidle.closed st (hd.symm.trans hst))
  unfold apply
  refine Triple.bind (Q := fun _ d => d = h) ?_ fun _ => ?_
  · unfold ensureIdle
    refine triple_read_eq h.state (fun d hd => by rw [hd]) ?_
    cases hstate : h.state with
    | none => exact Triple.pure fun _ => id
    | some st =>
      refine Triple.ite (fun _ => Triple.pure fun _ => id) fun hno => ?_
      exact absurd (hidle.closed st hstate) hno
  refine Triple.bind (triple_checkInstalled_up hmarks hrunning) fun _ => Triple.of_pre fun h₀ hh₀ => ?_
  obtain ⟨rfl, hinstalled⟩ := hh₀
  refine Triple.bind (triple_download_up hmarks hrunning) fun _ => Triple.of_pre fun h₁ hh₁ => ?_
  obtain ⟨⟨hstate, hdaemon, hticks⟩, hrefusal, hstaged⟩ := hh₁
  refine Triple.bind (Q := fun _ d => d = { h₁ with st := freshState plan pid })
    (triple_setSt fun d hd => hd ▸ rfl) fun _ => ?_
  refine Triple.bind (triple_enterStopping_up hmarks hstate hdaemon hticks hpid)
    fun _ => Triple.of_pre fun h₂ hh₂ => ?_
  have hreached : Reached env plan h₀ := ⟨hrefusal, hinstalled, hstaged, hh₂.2⟩
  refine Triple.bind ((triple_stopDaemon_up hreached).pre fun d hd => hd ▸ hh₂.1)
    fun _ => Triple.of_pre fun h₃ hh₃ => ?_
  obtain ⟨hstopped, hkept⟩ := hh₃
  have hup : ∀ d : Home B T H, Up host d → Errs env host plan h₀ d :=
    fun d hd => ⟨hd.marks, fun _ => hkept, fun _ => hd.daemon⟩
  refine Triple.bind (((triple_takeSnapshot_up hstart).fail fun _ d hd => hup d hd).pre
    fun d hd => hd ▸ hstopped) fun _ => ?_
  refine Triple.bind ((triple_enterSnapshotted_up hstart).fail fun _ d hd => hup d hd) fun _ => ?_
  refine Triple.bind (triple_swapOrRollback_later plan) fun _ => ?_
  exact triple_read.post fun _ _ hh => ⟨hh.2.marks, hkept⟩

end Apply

/-! ### The recovery of an attempt that had not swapped -/

/-- The daemon runs in the end if it does already or the record says that it did. -/
theorem triple_recover_up (hstart : ∀ n, host.start n = true) (hst : h.state = some st)
    (hphase : st.phase = .stopping ∨ st.phase = .snapshotted) (hdead : host.alive st.owner = false)
    (pid : ℕ) : Triple (fun d => d = h) (recover env host pid)
      (fun _ d => d.daemon = (h.daemon || st.wasRunning))
      (fun _ d => d.daemon = (h.daemon || st.wasRunning)) (fun _ => True) := by
  have hopen : st.phase.isTerminal = false := by
    obtain hp | hp := hphase <;> rw [hp] <;> rfl
  have hsettle : settle env host st.phase = closeUntouched env host := by
    obtain hp | hp := hphase <;> rw [hp] <;> rfl
  unfold recover
  refine triple_read_eq (some st) (fun d hd => hd ▸ hst) ?_
  refine Triple.ite (fun hdone => ?_) fun _ => ?_
  · rw [hopen, hdead] at hdone
    cases hdone
  rw [hsettle]
  unfold closeUntouched
  -- Until the daemon is started again it is left as it was.
  let P : Home B T H → Prop := fun d => d.daemon = h.daemon ∧ d.st.wasRunning = st.wasRunning
  refine Triple.bind (Q := fun _ => P) (triple_setSt fun d hd => ?_) fun _ => ?_
  · subst hd
    exact ⟨rfl, rfl⟩
  refine Triple.bind (Q := fun _ d => d.daemon = (h.daemon || st.wasRunning)) ?_ fun _ => ?_
  · refine Triple.bind (Q := fun _ => P) (triple_setSt fun d hd => hd) fun _ => ?_
    refine Triple.bind (Q := fun _ => P) (Triple.attempt ?_) fun closed => ?_
    · refine Triple.bind (Q := fun _ => P) (triple_setSt fun d hd => hd) fun _ => ?_
      exact triple_fs_keep (fun _ hd => hd) (fun _ hd => hd) (fun _ _ _ => trivial) fun _ _ => trivial
    refine Triple.bind (Q := fun _ => P) (triple_ignore ?_) fun _ => ?_
    · exact triple_fs_keep (fun _ hd => hd) (fun _ hd => hd) (fun _ _ _ => trivial) fun _ _ => trivial
    refine Triple.bind (Q := fun _ d => d.daemon = (h.daemon || st.wasRunning)) ?_ fun _ => ?_
    · unfold startAgain Host.starts
      refine triple_read_any fun st' => Triple.ite (fun hwas => triple_ignore ?_) fun hwas => ?_
      · refine triple_read_skip fun n => ?_
        refine Triple.bind (Q := fun _ d => d.daemon = (h.daemon || st.wasRunning))
          (Triple.effect ?_ fun _ _ _ => trivial) fun _ => ?_
        · rintro d ⟨hd, rfl⟩
          show (d.daemon || host.start n) = _
          rw [hstart n, ← hd.2, hwas, Bool.or_true, Bool.or_true]
        · exact Triple.ite (fun _ => Triple.pure fun _ => id) fun _ => Triple.raise fun _ => id
      · refine Triple.pure ?_
        rintro d ⟨hd, rfl⟩
        rw [Bool.not_eq_true] at hwas
        rw [← hd.2, hwas, Bool.or_false, hd.1]
    · cases closed with
      | ok x => exact Triple.pure fun _ => id
      | error e => exact Triple.raise fun _ => id
  · exact triple_read_skip fun _ => Triple.pure fun _ => id

/-- Where a crash before the swap leaves a daemon that was running: it runs again after the
recovery exactly if the crash left it running or the record of the snapshot was saved. And an
error leaves it running exactly if the stop did not lose it. -/
theorem running_again_iff {h : Home B T H} (hidle : Idle h) (hrunning : h.daemon = true)
    (hstart : ∀ n, host.start n = true) (plan : Plan B T) {pid : ℕ} (hpid : host.alive pid = false) :
    (∀ effects torn st, (leaves (apply env host plan pid) h effects torn).state = some st →
      st.phase = .stopping ∨ st.phase = .snapshotted → ∀ last,
        ((recover env host last { disk := leaves (apply env host plan pid) h effects torn }).2.disk.daemon =
          true ↔ (leaves (apply env host plan pid) h effects torn).daemon = true ∨
            st.phase = .snapshotted)) ∧
    ((∀ e t, apply env host plan pid { disk := h } = (.error (.thrown e), t) → t.disk.daemon = true) ↔
      ¬StopLoses env host plan h) := by
  have happly : Triple (fun d => d = h) (apply env host plan pid)
      (fun _ d => Marks host d ∧ ¬StopLoses env host plan h) (fun _ => Errs env host plan h)
      (Marks host) := triple_apply_up hidle hrunning hstart hpid
  constructor
  · intro effects torn st hst hphase last
    have hmarks : Marks host (leaves (apply env host plan pid) h effects torn) := by
      obtain hcut | ⟨_, hdone⟩ | ⟨_, herrs⟩ := happly.leaves rfl effects torn
      · exact hcut
      · exact hdone.1
      · exact herrs.marks
    have htrue := hmarks st hst
    have hopen : st.phase.isTerminal = false := by
      obtain hp | hp := hphase <;> rw [hp] <;> rfl
    have hdaemon : (recover env host last
        { disk := leaves (apply env host plan pid) h effects torn }).2.disk.daemon =
          ((leaves (apply env host plan pid) h effects torn).daemon || st.wasRunning) := by
      obtain ⟨_, t, hrun, ht⟩ | ⟨_, t, hrun, ht⟩ :=
        (triple_recover_up hstart hst hphase (htrue.dead hopen) last).ends rfl
      · rw [hrun]
        exact ht
      · rw [hrun]
        exact ht
    rw [hdaemon, Bool.or_eq_true]
    obtain hp | hp := hphase
    · simp [htrue.stopping hp, hp]
    · simp [htrue.snapshotted hp, hp]
  · constructor
    · intro hall hloses
      obtain ⟨_, _, -, hdone⟩ | ⟨e, t, hrun, herrs⟩ := happly.ends rfl
      · exact hdone.2 hloses
      · exact herrs.daemon.mp (hall e t hrun) hloses
    · intro hkept e t hrun
      obtain ⟨_, _, hrun', -⟩ | ⟨e', t', hrun', herrs⟩ := happly.ends rfl
      · cases hrun.symm.trans hrun'
      · cases hrun.symm.trans hrun'
        exact herrs.daemon.mpr hkept

/-- Cut off after the record of the snapshot: the daemon is down, and comes back. -/
theorem running_again_snapshotted :
    (leaves (apply plainEnv plainHost (plainPlan (some 2)) 1) (plainHome (some 1)) 8 0).daemon = false ∧
    (recover plainEnv plainHost 2
      { disk := leaves (apply plainEnv plainHost (plainPlan (some 2)) 1) (plainHome (some 1)) 8 0 }
      ).2.disk.daemon = true :=
  ⟨rfl, ((running_again_iff (plainHome_idle _) rfl (fun _ => rfl) (plainPlan (some 2)) rfl).1 8 0 _ rfl
    (.inr rfl) 2).mpr (.inr rfl)⟩

/-- Cut off after the stop: the record of the phase `stopping` does not know that the daemon
was running, and the recovery leaves it down. -/
theorem left_down_after_stop : (plainHome (some 1)).daemon = true ∧
    (leaves (apply plainEnv plainHost (plainPlan (some 2)) 1) (plainHome (some 1)) 3 0).state.map
      State.phase = some .stopping ∧
    ∃ r t, recover plainEnv plainHost 2
        { disk := leaves (apply plainEnv plainHost (plainPlan (some 2)) 1) (plainHome (some 1)) 3 0 } =
          (.ok r, t) ∧
      t.disk.state.map State.phase = some .rolledBack ∧ t.disk.daemon = false :=
  ⟨rfl, rfl, _, _, rfl, rfl, rfl⟩

end Plur1bus.Update
