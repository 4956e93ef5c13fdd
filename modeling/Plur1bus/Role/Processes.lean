import Plur1bus.Role.Records

/-!
Several processes of one node that share its role record. Each loads the record,
applies an event to what it loaded and saves the result; the role lock makes the
comparison and the replacement inside one save atomic, but is not held from the
load on, so the record a process applies its event to may have been replaced.

The comparison is of the node, the cluster and the two epochs. An equal-epoch
fence changes none of them, and a save that began before it passes.
-/

namespace Plur1bus.Role

open Program Function

/-- A record a process has loaded, and how many records had been stored by then. -/
structure Held where
  base : RoleRecord
  since : ℕ
  deriving DecidableEq, Repr

/-- The file and what each process holds. -/
structure World (P : Type) where
  disk : Loaded
  saves : ℕ
  held : P → Option Held

inductive Act (P : Type)
  | load (p : P) (now : ℕ) (actor : String)
  | save (p : P) (ev : Event) (now : ℕ) (actor : String)
  /-- The process ends, or its save fails before the record is replaced. -/
  | quit (p : P)
  deriving DecidableEq, Repr

section

variable {P : Type} [DecidableEq P] (fits : RoleRecord → Bool) (nodeId key : String)

/-- A missing record means a standalone node; nothing is applied to a corrupt one. -/
def loadedRecord (now : ℕ) (actor : String) : Loaded → Option RoleRecord
  | .missing => some (.standalone nodeId key now actor)
  | .valid r => some r
  | .corrupt _ => none

/-- The record that a save of `p` would store now. -/
def stores (w : World P) (p : P) (ev : Event) (now : ℕ) (actor : String) : Option RoleRecord := do
  let h ← w.held p
  let rec' ← (apply h.base ev now actor).toOption
  match Store.save fits w.disk rec' with
  | .ok _ => some rec'
  | .error _ => none

def act (w : World P) : Act P → World P
  | .load p now actor =>
    let loaded := (loadedRecord nodeId key now actor w.disk).map (Held.mk · w.saves)
    { w with held := Function.update w.held p loaded }
  | .save p ev now actor =>
    let held := Function.update w.held p none
    match stores fits w p ev now actor with
    | some rec' => { disk := .valid rec', saves := w.saves + 1, held := held }
    | none => { w with held := held }
  | .quit p => { w with held := Function.update w.held p none }

def acts (w : World P) : List (Act P) → World P
  | [] => w
  | a :: as => acts (act fits nodeId key w a) as

theorem acts_append (w : World P) (as bs : List (Act P)) :
    acts fits nodeId key w (as ++ bs) = acts fits nodeId key (acts fits nodeId key w as) bs := by
  induction as generalizing w with
  | nil => rfl
  | cons a as ih => exact ih _

/-- The record at `r` is the one the file stands for. -/
def StandsFor (disk : Loaded) (r : RoleRecord) : Prop :=
  ∃ now actor, loadedRecord nodeId key now actor disk = some r

/-- What is stored is what was there, or follows from it by one event. -/
def StoresNext (w w' : World P) : Prop := w'.disk = w.disk ∨
    ∃ r rec' ev now actor, StandsFor nodeId key w.disk r ∧ apply r ev now actor = .ok rec' ∧
      w'.disk = .valid rec'

def Loaded.role : Loaded → Option Role
  | .valid r => some r.role
  | _ => none

/-- No update of the file is lost along these acts, and a save computed from a
record loaded before a fence does not make the stored node a primary again. -/
def NothingLost (w : World P) (as : List (Act P)) : Prop := (∀ before a after, as = before ++ a :: after →
    StoresNext nodeId key (acts fits nodeId key w before) (acts fits nodeId key w (before ++ [a]))) ∧
  ∀ before fence between p ev now actor after,
    as = before ++ fence :: (between ++ .save p ev now actor :: after) →
    (acts fits nodeId key w before).saves < (acts fits nodeId key w (before ++ [fence])).saves →
    (acts fits nodeId key w (before ++ [fence])).disk.role = some .fenced →
    (∀ now' actor', .load p now' actor' ∉ between) →
    (acts fits nodeId key w (before ++ fence :: (between ++ [.save p ev now actor]))).disk.role =
      some .primary →
    (acts fits nodeId key w (before ++ fence :: between)).disk.role = some .primary

/-- Nothing was stored since the process loaded its record, if the save is one
that passes its checks. -/
def Undisturbed (w : World P) : Act P → Prop
  | .save p ev now actor => (stores fits w p ev now actor).isSome = true →
      ∀ h, w.held p = some h → h.since = w.saves
  | _ => True

/-! ### Runs in which no save is overtaken -/

/-- What a process holds was stored when it loaded it, and is still stored when
nothing has been stored since. -/
def UpToDate (w : World P) : Prop := ∀ p h, w.held p = some h → h.since ≤ w.saves ∧
    (h.since = w.saves → StandsFor nodeId key w.disk h.base)

variable {fits nodeId key} {w : World P}

theorem stores_eq_some {p : P} {ev : Event} {now : ℕ} {actor : String} {rec' : RoleRecord}
    (h : stores fits w p ev now actor = some rec') :
    ∃ held, w.held p = some held ∧ apply held.base ev now actor = .ok rec' := by
  unfold stores at h
  simp only [Option.bind_eq_bind, Option.bind_eq_some_iff] at h
  obtain ⟨held, hheld, mid, hmid, h⟩ := h
  refine ⟨held, hheld, ?_⟩
  split at h
  · cases h
    cases happly : apply held.base ev now actor with
    | error e => simp [happly, Except.toOption] at hmid
    | ok out =>
      simp only [happly, Except.toOption, Option.some.injEq] at hmid
      rw [hmid]
  · cases h

theorem act_save (fits : RoleRecord → Bool) (nodeId key : String) (w : World P) (p : P)
    (ev : Event) (now : ℕ) (actor : String) :
    (stores fits w p ev now actor = none ∧ act fits nodeId key w (.save p ev now actor) =
      { w with held := Function.update w.held p none }) ∨
    ∃ rec', stores fits w p ev now actor = some rec' ∧ act fits nodeId key w (.save p ev now actor) =
        { disk := .valid rec', saves := w.saves + 1, held := Function.update w.held p none } := by
  grind [stores, act]

/-- Dropping what one process holds. -/
theorem UpToDate.drop (h : UpToDate nodeId key w) (p : P) :
    UpToDate nodeId key { w with held := Function.update w.held p none } := by
  intro q held hq
  by_cases heq : q = p
  · simp [heq] at hq
  · simp only [update_of_ne heq] at hq
    exact h q held hq

theorem UpToDate.act (h : UpToDate nodeId key w) (a : Act P) :
    UpToDate nodeId key (act fits nodeId key w a) := by
  cases a with
  | quit p => exact h.drop p
  | load p now actor =>
    intro q held hq
    by_cases heq : q = p
    · subst heq
      simp only [Role.act, update_self, Option.map_eq_some_iff] at hq
      obtain ⟨base, hbase, rfl⟩ := hq
      exact ⟨Nat.le_refl _, fun _ => ⟨now, actor, hbase⟩⟩
    · simp only [Role.act, update_of_ne heq] at hq
      exact h q held hq
  | save p ev now actor =>
    obtain ⟨-, heq⟩ | ⟨rec', -, heq⟩ := act_save fits nodeId key w p ev now actor
    · rw [heq]
      exact h.drop p
    · rw [heq]
      intro q held hq
      have hle := (h.drop p q held hq).1
      -- Nobody holds a record loaded after this save.
      exact ⟨Nat.le_succ_of_le hle, fun hsince => absurd hle (by simp [hsince])⟩

theorem UpToDate.acts (h : UpToDate nodeId key w) (as : List (Act P)) :
    UpToDate nodeId key (acts fits nodeId key w as) := by
  induction as generalizing w with
  | nil => exact h
  | cons a as ih => exact ih (h.act a)

theorem UpToDate.storesNext (h : UpToDate nodeId key w) {a : Act P} (ha : Undisturbed fits w a) :
    StoresNext nodeId key w (Role.act fits nodeId key w a) := by
  cases a with
  | quit p => exact .inl rfl
  | load p now actor => exact .inl rfl
  | save p ev now actor =>
    obtain ⟨-, heq⟩ | ⟨rec', hs, heq⟩ := act_save fits nodeId key w p ev now actor
    · exact .inl (by rw [heq])
    · obtain ⟨held, hheld, happly⟩ := stores_eq_some hs
      have hsince := ha (by simp [hs]) held hheld
      refine .inr ⟨held.base, rec', ev, now, actor, (h p held hheld).2 hsince, happly, ?_⟩
      rw [heq]

/-- A process that loads nothing keeps what it holds or drops it, while the count
of stored records only grows. -/
theorem held_act {p : P} {a : Act P} (ha : ∀ now actor, a ≠ .load p now actor) :
    w.saves ≤ (Role.act fits nodeId key w a).saves ∧
      ∀ h, (Role.act fits nodeId key w a).held p = some h → w.held p = some h := by
  have hdrop : ∀ q h, Function.update w.held q none p = some h → w.held p = some h := by
    intro q h hp
    by_cases heq : p = q
    · simp [heq] at hp
    · rwa [update_of_ne heq] at hp
  cases a with
  | quit q => exact ⟨Nat.le_refl _, hdrop q⟩
  | load q now actor =>
    refine ⟨Nat.le_refl _, fun h hp => ?_⟩
    have hne : p ≠ q := fun heq => ha now actor (by rw [heq])
    simpa only [Role.act, update_of_ne hne] using hp
  | save q ev now actor =>
    obtain ⟨-, heq⟩ | ⟨rec', -, heq⟩ := act_save fits nodeId key w q ev now actor
    · rw [heq]
      exact ⟨Nat.le_refl _, hdrop q⟩
    · rw [heq]
      exact ⟨Nat.le_succ _, hdrop q⟩

theorem held_acts {p : P} {as : List (Act P)} (has : ∀ now actor, .load p now actor ∉ as) :
    w.saves ≤ (Role.acts fits nodeId key w as).saves ∧
      ∀ h, (Role.acts fits nodeId key w as).held p = some h → w.held p = some h := by
  induction as generalizing w with
  | nil => exact ⟨Nat.le_refl _, fun _ h => h⟩
  | cons a as ih =>
    have hhead : ∀ now actor, a ≠ .load p now actor :=
      fun now actor heq => has now actor (heq ▸ List.mem_cons_self)
    have htail : ∀ now actor, .load p now actor ∉ as :=
      fun now actor hmem => has now actor (List.mem_cons_of_mem _ hmem)
    obtain ⟨hsaves, hheld⟩ := ih (w := Role.act fits nodeId key w a) htail
    exact ⟨(held_act hhead).1.trans hsaves, fun h hp => (held_act hhead).2 h (hheld h hp)⟩

/-- An act that stores is a save, and only its own record leaves a process's hands. -/
theorem storing_act {a : Act P} (h : w.saves < (Role.act fits nodeId key w a).saves) (p : P) :
    ∀ held, (Role.act fits nodeId key w a).held p = some held → w.held p = some held := by
  refine (held_act fun now actor heq => ?_).2
  rw [heq] at h
  exact absurd h (Nat.lt_irrefl _)

/-- When no save that passes its checks was overtaken by another one, every record
that is stored follows from the one before it, and no save that began before a
fence stores anything after it. -/
theorem nothing_lost_of_undisturbed {as : List (Act P)} (hstart : ∀ p, w.held p = none)
    (hall : ∀ before a after, as = before ++ a :: after →
      Undisturbed fits (Role.acts fits nodeId key w before) a) :
    NothingLost fits nodeId key w as := by
  have hup : UpToDate nodeId key w := by
    intro p h hp
    rw [hstart p] at hp
    cases hp
  refine ⟨fun before a after heq => ?_, ?_⟩
  · rw [acts_append]
    exact (hup.acts before).storesNext (hall before a after heq)
  · intro before fence between p ev now actor after heq hstored _ hnoload
    rw [show before ++ fence :: (between ++ [Act.save p ev now actor]) =
      (before ++ fence :: between) ++ [Act.save p ev now actor] by simp, acts_append]
    have hund := hall (before ++ fence :: between) (.save p ev now actor) after (by simp [heq])
    rw [acts_append] at hund hstored ⊢
    generalize hu : Role.acts fits nodeId key w before = u at hund hstored ⊢
    simp only [Role.acts] at hund hstored ⊢
    have hbefore : UpToDate nodeId key u := hu ▸ hup.acts before
    obtain ⟨-, hsame⟩ | ⟨rec', hs, -⟩ := act_save fits nodeId key
      (Role.acts fits nodeId key (Role.act fits nodeId key u fence) between) p ev now actor
    · intro hprimary
      rw [hsame] at hprimary
      exact hprimary
    · -- A save that passes would have been made from a record older than the fence.
      obtain ⟨held, hheld, -⟩ := stores_eq_some hs
      obtain ⟨hgrown, hkept⟩ : (Role.act fits nodeId key u fence).saves ≤ _ ∧ _ := held_acts hnoload
      have hsince := hund (by simp [hs]) held hheld
      have hold := (hbefore p held (storing_act hstored p held (hkept held hheld))).1
      exact absurd (hsince ▸ hold) (by omega)

end

namespace Sample

/-- The laptop observes the server as a writer of its own epoch. -/
def contact : Event := .observed cluster 1 server true none

def untouched : World Bool := ⟨.missing, 0, fun _ => none⟩

/-- Two processes of the laptop: one loads the record of the open handover and
aborts it, the other fences the node in between. -/
def overtaken : List (Act Bool) :=
  [.load false 1000 "owner", .save false prepared.event 1000 "owner", .load false 2000 "owner",
    .load true 2000 "supervisor", .save true contact 2000 "supervisor", .save false .abort 3000 "owner"]

end Sample

/-- The first process alone is not overtaken. -/
theorem nothing_lost_alone : NothingLost (fun _ => true) Sample.laptop Sample.key Sample.untouched
      (Sample.overtaken.take 2) := by
  refine nothing_lost_of_undisturbed (fun _ => rfl) ?_
  rintro (_ | ⟨b, _ | ⟨c, before⟩⟩) a after heq
  · cases heq
    trivial
  · cases heq
    rintro - h ⟨⟩
    rfl
  · simp [Sample.overtaken] at heq

/-- The abort passes every check of the save, and the fenced node is a primary
again. -/
theorem fence_lost :
    ¬NothingLost (fun _ => true) Sample.laptop Sample.key Sample.untouched Sample.overtaken := by
  intro h
  have hlost := h.2 (Sample.overtaken.take 4) (.save true Sample.contact 2000 "supervisor") [] false
    .abort 3000 "owner" [] rfl (by decide +kernel) (by decide +kernel) (by simp) (by decide +kernel)
  exact absurd hlost (by decide +kernel)

end Plur1bus.Role
