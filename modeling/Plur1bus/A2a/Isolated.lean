import Plur1bus.A2a.TaskStore
import Mathlib.Data.List.Induction

/-!
When the shared table keeps agents and owners apart. The table's key is the id
alone, while the checks before a write look for the agent's own row and the
write never sets the owner of a row that is there. So a write is sound when the
row it meets is the agent's own and has the owner that was found; in a run of
such writes every agent's rows are those of a store in memory that only this
agent calls.
-/

namespace Plur1bus.A2a

open Program.Keyed InMemoryTaskStore SqliteTaskStore Option

variable {β J : Type} (codec : Codec β J)

/-! ### One agent's rows and its store in memory -/

def rowsOf (agentId : String) (db : Table J) : Table J := db.filter (fun r => r.agentId = agentId)

/-- A row holds a task under an id. -/
structure Stores (r : Row J) (e : String × Task β) : Prop where
  id : r.id = e.1
  task : e.2.id = e.1
  contextId : r.contextId = if e.2.contextId = "" then none else some e.2.contextId
  state : r.state = e.2.state.getD 0
  json : r.taskJson = codec.toJSON e.2

/-- The agent's rows are the tasks in memory, in order, and the owners there
are the names in its rows. -/
structure Matches (agentId : String) (db : Table J) (s : Store β) : Prop where
  rows : List.Forall₂ (Stores codec) (rowsOf agentId db) s.tasks
  owners : s.taskOwners =
    ((rowsOf agentId db).filter (fun r => r.owner ≠ "")).map (fun r => (r.id, r.owner))

/-- A save meets no row under its id, or the agent's own with the owner it
writes; a refused save writes nothing. -/
def Clean (quota : ℕ) (agentId caller : String) (call : Call β) (db : Table J) : Prop :=
  match call with
  | .save task now => ∀ row, checked codec agentId quota caller task now db = .ok row →
      ∀ r ∈ db, r.id = row.id → r.agentId = row.agentId ∧ r.owner = row.owner
  | _ => True

variable {codec} {agentId : String} {db : Table J} {s : Store β}

theorem own_eq (taskId : String) : own agentId taskId db = rowAt Row.id taskId (rowsOf agentId db) := by
  rw [own, rowAt, rowsOf, List.find?_filter]
  congr 1
  ext r
  simp only [Bool.decide_and, Bool.decide_eq_true, Bool.and_comm]

theorem mem_rowsOf {r : Row J} : r ∈ rowsOf agentId db ↔ r ∈ db ∧ r.agentId = agentId := by
  rw [rowsOf, List.mem_filter, decide_eq_true_eq]

theorem nodup_rowsOf (hn : (db.map Row.id).Nodup) : ((rowsOf agentId db).map Row.id).Nodup :=
  hn.sublist (List.filter_sublist.map Row.id)

variable {rows : Table J} {tasks : List (String × Task β)}

/-- A lookup finds the same id on both sides. -/
theorem rowAt_forall₂ (h : List.Forall₂ (Stores codec) rows tasks) (k : String) :
    (rowAt Row.id k rows = none ∧ mapGet k tasks = none) ∨
      ∃ r t, rowAt Row.id k rows = some r ∧ mapGet k tasks = some t ∧ Stores codec r (k, t) := by
  induction h with
  | nil => exact Or.inl ⟨rfl, rfl⟩
  | @cons r e rows tasks hre _ ih =>
    by_cases hk : e.1 = k
    · right
      refine ⟨r, e.2, ?_, ?_, ?_⟩
      · simp [rowAt, hre.id, hk]
      · simp [mapGet, rowAt, hk]
      · subst hk
        exact hre
    · have hr : rowAt Row.id k (r :: rows) = rowAt Row.id k rows := by simp [rowAt, hre.id, hk]
      have he : mapGet k (e :: tasks) = mapGet k tasks := by simp [mapGet, rowAt, hk]
      rwa [hr, he]

/-- The owner in memory is the name in the row. -/
theorem get_owners (hn : (rows.map Row.id).Nodup) (k : String) :
    mapGet k ((rows.filter (fun r => r.owner ≠ "")).map (fun r => (r.id, r.owner))) =
      (rowAt Row.id k rows).bind (fun r => if r.owner ≠ "" then some r.owner else none) := by
  induction rows with
  | nil => rfl
  | cons r rows ih =>
    obtain ⟨hr, hn⟩ := List.nodup_cons.mp hn
    by_cases hk : r.id = k
    · have hrow : rowAt Row.id k (r :: rows) = some r := by simp [rowAt, hk]
      rw [hrow, bind_some]
      by_cases ho : r.owner = ""
      · -- no other row has this id
        have hnone : rowAt Row.id k rows = none := by
          refine rowAt_eq_none.mpr (fun r' hr' hk' => hr ?_)
          rw [hk, ← hk']
          exact List.mem_map_of_mem hr'
        rw [List.filter_cons_of_neg (by simp [ho]), ih hn, hnone]
        simp [ho]
      · rw [List.filter_cons_of_pos (by simp [ho])]
        simp [mapGet, rowAt, hk, ho]
    · have hrow : rowAt Row.id k (r :: rows) = rowAt Row.id k rows := by simp [rowAt, hk]
      rw [hrow, ← ih hn]
      by_cases ho : r.owner = ""
      · rw [List.filter_cons_of_neg (by simp [ho])]
      · rw [List.filter_cons_of_pos (by simp [ho])]
        simp [mapGet, rowAt, hk]

/-- A name's tasks are counted alike. -/
theorem count_owners (h : Matches codec agentId db s) {owner : String} (ho : owner ≠ "") :
    (s.taskOwners.filter (fun o => o.2 = owner)).length =
      (db.filter (fun r => r.agentId = agentId ∧ r.owner = owner)).length := by
  rw [h.owners, List.filter_map, List.length_map, List.filter_filter, rowsOf, List.filter_filter]
  congr 1
  refine List.filter_congr (fun r _ => ?_)
  by_cases hr : r.owner = owner
  · simp [hr, ho]
  · simp [hr]

/-! ### One call -/

/-- The writes of a save: the table's and the two maps'. -/
def written (codec : Codec β J) (agentId owner : String) (task : Task β) (now : ℤ) (db : Table J) :
    Table J :=
  upsert Row.id onConflict (rowOf codec agentId owner (withOwner task owner) now) db

def kept (owner : String) (task : Task β) (s : Store β) : Store β :=
  { tasks := mapSet task.id (withOwner task owner) s.tasks
    taskOwners := if owner ≠ "" then mapSet task.id owner s.taskOwners else s.taskOwners }

/-- What the checks before a write have in common: the owner that is there. -/
theorem existingOwner_eq (hn : (db.map Row.id).Nodup) (h : Matches codec agentId db s) (k : String) :
    mapGet k s.taskOwners =
      (own agentId k db).bind (fun r => if r.owner ≠ "" then some r.owner else none) := by
  rw [h.owners, get_owners (nodup_rowsOf hn), own_eq]

/-- The answers to the checks: refused alike, or the row and the entry to be
written under the same owner. -/
theorem checked_matches (hn : (db.map Row.id).Nodup) (h : Matches codec agentId db s) (quota : ℕ)
    (caller : String) (task : Task β) (now : ℤ) :
    (∃ answer, checked codec agentId quota caller task now db = .error answer ∧
        InMemoryTaskStore.save quota caller task s = (s, answer)) ∨
      ∃ owner, checked codec agentId quota caller task now db =
          .ok (rowOf codec agentId owner (withOwner task owner) now) ∧
        InMemoryTaskStore.save quota caller task s = (kept owner task s, .saved) ∧
        owner = (mapGet task.id s.taskOwners).getD (callerOwner caller task) := by
  have howner := existingOwner_eq hn h task.id
  have hnone : ((own agentId task.id db).isNone = true) ↔ mapGet task.id s.tasks = none := by
    rw [own_eq, isNone_iff_eq_none]
    rcases rowAt_forall₂ h.rows task.id with ⟨hrow, htask⟩ | ⟨r, t, hrow, htask, -⟩
    · simp [hrow, htask]
    · simp [hrow, htask]
  have hrefuse : (own agentId task.id db).any (fun r => callerOwner caller task != "" &&
        r.owner != "" && r.owner != callerOwner caller task) =
      (mapGet task.id s.taskOwners).any (fun o => callerOwner caller task != "" &&
        o != callerOwner caller task) := by
    rw [howner]
    cases own agentId task.id db with
    | none => rfl
    | some r => grind
  have heffective : (if ((own agentId task.id db).map Row.owner).getD "" ≠ "" then
        ((own agentId task.id db).map Row.owner).getD "" else callerOwner caller task) =
      (mapGet task.id s.taskOwners).getD (callerOwner caller task) := by
    rw [howner]
    cases own agentId task.id db with
    | none => rfl
    | some r => by_cases ho : r.owner = "" <;> simp [ho]
  rw [checked, InMemoryTaskStore.save]
  dsimp only
  rw [hrefuse, heffective]
  split
  · exact Or.inl ⟨_, rfl, rfl⟩
  · generalize (mapGet task.id s.taskOwners).getD (callerOwner caller task) = owner
    by_cases ho : owner = ""
    · refine Or.inr ⟨owner, ?_, ?_, rfl⟩ <;> simp [ho, kept]
    · simp only [hnone, count_owners h ho]
      split
      · exact Or.inl ⟨_, rfl, rfl⟩
      · exact Or.inr ⟨owner, rfl, by rw [kept, if_pos ho], rfl⟩

@[simp] theorem withOwner_id (task : Task β) (owner : String) : (withOwner task owner).id = task.id := by
  rw [withOwner]
  split <;> rfl

section Write

variable {task : Task β} {now : ℤ} {owner : String}

theorem rowOf_id : (rowOf codec agentId owner (withOwner task owner) now).id = task.id :=
  withOwner_id task owner

/-- A new row goes behind the agent's rows, as the new entries do. -/
theorem written_new (hn : (db.map Row.id).Nodup) (h : Matches codec agentId db s)
    (hnone : rowAt Row.id task.id db = none) :
    Matches codec agentId (written codec agentId owner task now db) (kept owner task s) ∧
    ∀ other ≠ agentId, rowsOf other (written codec agentId owner task now db) = rowsOf other db := by
  have hdb : written codec agentId owner task now db =
      db ++ [rowOf codec agentId owner (withOwner task owner) now] :=
    upsert_of_new (by rw [rowOf_id]; exact hnone)
  have hown : rowAt Row.id task.id (rowsOf agentId db) = none :=
    rowAt_eq_none.mpr (fun r hr => rowAt_eq_none.mp hnone r (mem_rowsOf.mp hr).1)
  have hrows : rowsOf agentId (written codec agentId owner task now db) =
      rowsOf agentId db ++ [rowOf codec agentId owner (withOwner task owner) now] := by
    rw [hdb, rowsOf, List.filter_append, List.filter_cons_of_pos (by simp [rowOf])]
    rfl
  have htask : rowAt Prod.fst task.id s.tasks = none := by
    rcases rowAt_forall₂ h.rows task.id with ⟨-, ht⟩ | ⟨r, t, hr, -⟩
    · exact map_eq_none_iff.mp ht
    · rw [hown] at hr
      cases hr
  have howner : rowAt Prod.fst task.id s.taskOwners = none := by
    have := get_owners (nodup_rowsOf hn : ((rowsOf agentId db).map Row.id).Nodup) task.id
    rw [← h.owners, hown, bind_none] at this
    exact map_eq_none_iff.mp this
  refine ⟨⟨?_, ?_⟩, fun other hne => ?_⟩
  · rw [hrows, kept, mapSet, upsert_of_new htask]
    refine List.rel_append h.rows (.cons ⟨rowOf_id, withOwner_id _ _, rfl, rfl, rfl⟩ .nil)
  · rw [hrows, kept, List.filter_append, List.map_append, ← h.owners]
    by_cases ho : owner = ""
    · rw [List.filter_cons_of_neg (by simp [rowOf, ho])]
      simp [ho]
    · rw [List.filter_cons_of_pos (by simp [rowOf, ho])]
      dsimp only
      rw [if_pos ho, mapSet, upsert_of_new howner]
      simp [rowOf]
  · rw [hdb, rowsOf, List.filter_append, List.filter_cons_of_neg (by simp [rowOf, hne.symm])]
    simp [rowsOf]

/-- A row of the agent with the owner that was found takes the new task and
keeps its place and owner. -/
theorem written_old (hn : (db.map Row.id).Nodup) (h : Matches codec agentId db s) {r : Row J}
    (hr : rowAt Row.id task.id db = some r) (hagent : r.agentId = agentId)
    (howner : r.owner = owner) :
    Matches codec agentId (written codec agentId owner task now db) (kept owner task s) ∧
    ∀ other ≠ agentId, rowsOf other (written codec agentId owner task now db) = rowsOf other db := by
  obtain ⟨hmem, hid⟩ := rowAt_some hr
  let f : Row J → Row J := fun r' => if r'.id = task.id then
    onConflict r' (rowOf codec agentId owner (withOwner task owner) now) else r'
  have hf : ∀ r', (f r').id = r'.id ∧ (f r').agentId = r'.agentId ∧ (f r').owner = r'.owner := by
    intro r'
    dsimp only [f]
    split <;> exact ⟨rfl, rfl, rfl⟩
  have hdb : written codec agentId owner task now db = db.map f := by
    rw [written, upsert_of_old (r := r) (by rw [rowOf_id]; exact hr), rowOf_id]
  have hrows : ∀ other, rowsOf other (written codec agentId owner task now db) =
      (rowsOf other db).map f := by
    intro other
    rw [hdb, rowsOf, rowsOf, List.filter_map]
    congr 1
    refine List.filter_congr (fun r' _ => ?_)
    rw [Function.comp_apply, (hf r').2.1]
  refine ⟨⟨?_, ?_⟩, fun other hne => ?_⟩
  · have hown : rowAt Row.id task.id (rowsOf agentId db) = some r :=
      (rowAt_eq_some (nodup_rowsOf hn)).mpr ⟨mem_rowsOf.mpr ⟨hmem, hagent⟩, hid⟩
    obtain ⟨e, htask⟩ : ∃ e, rowAt Prod.fst task.id s.tasks = some e := by
      rcases rowAt_forall₂ h.rows task.id with ⟨hnone, -⟩ | ⟨r', t, -, ht, -⟩
      · rw [hown] at hnone
        cases hnone
      · obtain ⟨e, he, -⟩ := map_eq_some_iff.mp ht
        exact ⟨e, he⟩
    rw [hrows, kept, mapSet, upsert_of_old htask, List.forall₂_map_left_iff, List.forall₂_map_right_iff]
    refine h.rows.imp (fun r' e' hs => ?_)
    dsimp only [f]
    rw [← hs.id]
    split
    · rename_i hk
      exact ⟨hk, withOwner_id _ _, rfl, rfl, rfl⟩
    · exact hs
  · have hkeep : ((rowsOf agentId db).map f |>.filter (fun r => r.owner ≠ "")).map
        (fun r => (r.id, r.owner)) = s.taskOwners := by
      rw [h.owners, List.filter_map, List.map_map]
      have hsame : ((fun r : Row J => decide (r.owner ≠ "")) ∘ f) = fun r => decide (r.owner ≠ "") := by
        funext r'
        rw [Function.comp_apply, (hf r').2.2]
      rw [hsame]
      refine List.map_congr_left (fun r' _ => ?_)
      rw [Function.comp_apply, (hf r').1, (hf r').2.2]
    rw [hrows, hkeep, kept]
    dsimp only
    split
    · rename_i ho
      rw [mapSet, upsert_self]
      · rw [h.owners, List.map_map]
        exact (nodup_rowsOf hn).sublist (List.filter_sublist.map _)
      · rw [h.owners, List.mem_map]
        refine ⟨r, List.mem_filter.mpr ⟨mem_rowsOf.mpr ⟨hmem, hagent⟩, ?_⟩, ?_⟩
        · simp [howner, ho]
        · rw [hid, howner]
      · rfl
    · rfl
  · rw [hrows]
    conv_rhs => rw [← List.map_id (rowsOf other db)]
    refine List.map_congr_left (fun r' hr' => ?_)
    obtain ⟨hmem', hagent'⟩ := mem_rowsOf.mp hr'
    -- the row that is written is the agent's own, so no other agent has its id
    refine if_neg (fun hk => hne ?_)
    rw [← hagent', ← hagent, List.inj_on_of_nodup_map hn hmem' hmem (hk.trans hid.symm)]

end Write

/-! ### Answers -/

/-- Answers alike: lists may differ in their order. -/
inductive Agrees : Answer β → Answer β → Prop
  | same (answer : Answer β) : Agrees answer answer
  | listed {r m : ListTasksResponse β} : r.tasks.Perm m.tasks → r.totalSize = m.totalSize →
      r.pageSize = m.pageSize → r.nextPageToken = m.nextPageToken →
      Agrees (.listed r) (.listed m)

/-- The tasks an answer hands out. -/
def returned : Answer β → List (Task β)
  | .loaded task => task.toList
  | .listed response => response.tasks
  | _ => []

theorem load_eq (hn : (db.map Row.id).Nodup) (h : Matches codec agentId db s)
    (caller taskId : String) :
    SqliteTaskStore.load codec agentId caller taskId db = InMemoryTaskStore.load caller taskId s := by
  rw [SqliteTaskStore.load, InMemoryTaskStore.load, existingOwner_eq hn h, own_eq]
  rcases rowAt_forall₂ h.rows taskId with ⟨hr, ht⟩ | ⟨r, t, hr, ht, hs⟩
  · rw [hr, ht]
  · rw [hr, ht]
    have howner : ((some r).bind (fun r => if r.owner ≠ "" then some r.owner else none)).getD "" =
        r.owner := by
      by_cases ho : r.owner = "" <;> simp [ho]
    dsimp only
    rw [howner, hs.json, codec.decodes]

/-- The selection of a listing in memory, in one condition. -/
def chosen (caller : String) (params : ListTasksRequest) (s : Store β) (t : Task β) : Bool :=
  (caller == "" || mapGet t.id s.taskOwners == some caller) &&
    (params.contextId == "" || t.contextId == params.contextId) &&
    (match params.status with
      | some state => state == TASK_STATE_UNSPECIFIED || t.state == some state
      | none => true)

theorem list_tasks_eq (caller : String) (params : ListTasksRequest) (s : Store β) :
    (InMemoryTaskStore.list caller params s).tasks =
      (s.tasks.map Prod.snd).filter (chosen caller params s) := by
  have hall : ∀ (l : List (Task β)) (p : Task β → Bool) (c : Prop) [Decidable c],
      (if c then l.filter p else l) = l.filter (fun t => !decide c || p t) := by
    intro l p c _
    by_cases hc : c <;> simp [hc]
  rw [InMemoryTaskStore.list]
  dsimp only
  cases hstatus : params.status with
  | none =>
    dsimp only
    rw [hall, hall, List.filter_filter]
    refine List.filter_congr (fun t _ => ?_)
    rw [chosen, hstatus]
    by_cases hcaller : caller = "" <;> by_cases hcontext : params.contextId = "" <;>
      simp [hcaller, hcontext, Bool.and_comm, beq_eq_decide]
  | some state =>
    dsimp only
    rw [hall, hall, hall, List.filter_filter, List.filter_filter]
    refine List.filter_congr (fun t _ => ?_)
    rw [chosen, hstatus]
    by_cases hcaller : caller = "" <;> by_cases hcontext : params.contextId = "" <;>
      by_cases h0 : state = TASK_STATE_UNSPECIFIED <;>
      simp [hcaller, hcontext, h0, Bool.and_comm, Bool.and_left_comm, Bool.and_assoc, beq_eq_decide]

/-- Rows and tasks that are selected alike are listed alike. -/
theorem filterMap_filter_forall₂ {p : Row J → Bool} {q : Task β → Bool}
    (h : List.Forall₂ (Stores codec) rows tasks)
    (hpq : ∀ r ∈ rows, ∀ e : String × Task β, Stores codec r e → p r = q e.2) :
    (rows.filter p).filterMap (fun r => codec.fromJSON r.taskJson) = (tasks.map Prod.snd).filter q := by
  induction h with
  | nil => rfl
  | @cons r e rows tasks hre _ ih =>
    have hrest := ih (fun r' hr' => hpq r' (List.mem_cons_of_mem _ hr'))
    have hhead := hpq r List.mem_cons_self e hre
    rw [List.map_cons]
    by_cases hq : q e.2 = true
    · rw [List.filter_cons_of_pos (hhead.trans hq), List.filter_cons_of_pos hq,
        List.filterMap_cons, hre.json, codec.decodes, hrest]
    · rw [List.filter_cons_of_neg (by rw [hhead]; exact hq), List.filter_cons_of_neg hq, hrest]

theorem list_perm (hn : (db.map Row.id).Nodup) (h : Matches codec agentId db s)
    (caller : String) (params : ListTasksRequest) :
    (SqliteTaskStore.list codec agentId caller params db).tasks.Perm
      (InMemoryTaskStore.list caller params s).tasks := by
  rw [list_tasks_eq, SqliteTaskStore.list]
  dsimp only
  have hselected : db.filter (selected agentId caller params) =
      (rowsOf agentId db).filter (selected agentId caller params) := by
    rw [rowsOf, List.filter_filter]
    refine List.filter_congr (fun r _ => ?_)
    by_cases ha : r.agentId = agentId <;> simp [selected, ha]
  rw [hselected, ← filterMap_filter_forall₂ h.rows (q := chosen caller params s)]
  · exact (List.mergeSort_perm _ _).filterMap _
  · intro r hr e hs
    have howner : mapGet e.2.id s.taskOwners = if r.owner ≠ "" then some r.owner else none := by
      have hrow : rowAt Row.id e.2.id (rowsOf agentId db) = some r :=
        (rowAt_eq_some (nodup_rowsOf hn)).mpr ⟨hr, hs.id.trans hs.task.symm⟩
      rw [existingOwner_eq hn h, own_eq, hrow, bind_some]
    have hcaller : (caller == "" || r.owner == caller) =
        (caller == "" || mapGet e.2.id s.taskOwners == some caller) := by
      rw [howner]
      by_cases hc : caller = ""
      · simp [hc]
      · by_cases ho : r.owner = ""
        · simp [ho, hc, Ne.symm hc]
        · simp [ho]
    have hcontext : (params.contextId == "" || r.contextId == some params.contextId) =
        (params.contextId == "" || e.2.contextId == params.contextId) := by
      rw [hs.contextId]
      by_cases hc : params.contextId = ""
      · simp [hc]
      · by_cases ht : e.2.contextId = ""
        · simp [ht, hc, Ne.symm hc]
        · simp [ht]
    rw [selected, chosen, hcaller, hcontext, decide_eq_true (mem_rowsOf.mp hr).2, Bool.true_and]
    congr 1
    cases params.status with
    | none => rfl
    | some state =>
      dsimp only
      rw [hs.state]
      by_cases h0 : state = TASK_STATE_UNSPECIFIED
      · simp [h0]
      · cases e.2.state with
        | none =>
          have hzero : (0 : ℤ) ≠ state := fun h => h0 h.symm
          simp [h0, hzero]
        | some st => simp

/-- A clean call answers as the store in memory does and leaves the other
agents' rows alone. -/
theorem step_matches (hn : (db.map Row.id).Nodup) (h : Matches codec agentId db s) (quota : ℕ)
    (caller : String) (call : Call β) (hclean : Clean codec quota agentId caller call db) :
    let r := SqliteTaskStore.step codec agentId quota caller call db
    let m := InMemoryTaskStore.step quota caller call s
    Agrees r.2 m.2 ∧ Matches codec agentId r.1 m.1 ∧ (r.1.map Row.id).Nodup ∧
      ∀ other ≠ agentId, rowsOf other r.1 = rowsOf other db := by
  cases call with
  | load taskId =>
    refine ⟨?_, h, hn, fun _ _ => rfl⟩
    dsimp only [SqliteTaskStore.step, InMemoryTaskStore.step]
    rw [load_eq hn h]
    exact .same _
  | list params =>
    have hperm := list_perm hn h caller params
    exact ⟨.listed hperm hperm.length_eq rfl rfl, h, hn, fun _ _ => rfl⟩
  | save task now =>
    dsimp only [SqliteTaskStore.step, InMemoryTaskStore.step, SqliteTaskStore.save]
    rcases checked_matches hn h quota caller task now with ⟨answer, hsql, hmem⟩ | ⟨owner, hsql, hmem, -⟩
    · rw [hsql, hmem]
      exact ⟨.same _, h, hn, fun _ _ => rfl⟩
    · have hmeets := hclean _ hsql
      rw [rowOf_id] at hmeets
      rw [hsql, hmem]
      have hnodup : ((written codec agentId owner task now db).map Row.id).Nodup :=
        nodup_keys_upsert (fun r hr => hr) hn
      have hwritten : Matches codec agentId (written codec agentId owner task now db)
            (kept owner task s) ∧
          ∀ other ≠ agentId, rowsOf other (written codec agentId owner task now db) = rowsOf other db := by
        cases hrow : rowAt Row.id task.id db with
        | none => exact written_new hn h hrow
        | some r =>
          obtain ⟨hmem, hid⟩ := rowAt_some hrow
          obtain ⟨hagent, howner⟩ := hmeets r hmem hid
          exact written_old hn h hrow hagent howner
      exact ⟨.same _, hwritten.1, hnodup, hwritten.2⟩

/-- An agent's store in memory is not touched by a call of another. -/
theorem Matches.frame {db' : Table J} (h : Matches codec agentId db s)
    (hrows : rowsOf agentId db' = rowsOf agentId db) : Matches codec agentId db' s :=
  ⟨hrows ▸ h.rows, hrows ▸ h.owners⟩

/-! ### Owners in memory -/

/-- A call with its caller and its answer. -/
abbrev Entry (β : Type) := String × Call β × Answer β

/-- The first name a saved task was saved under. -/
def firstOwner (taskId : String) (log : List (Entry β)) : Option String := log.foldl (fun owner e =>
    match owner, e with
    | some o, _ => some o
    | none, (caller, .save task _, .saved) =>
        if task.id = taskId ∧ callerOwner caller task ≠ "" then some (callerOwner caller task)
        else none
    | none, _ => none) none

/-- What the maps in memory keep: tasks under their own ids, saved by a call of
the log, and the first owners. -/
structure Logged (log : List (Entry β)) (s : Store β) : Prop where
  owners : ∀ k, mapGet k s.taskOwners = firstOwner k log
  tasks : ∀ e ∈ s.tasks, e.2.id = e.1 ∧ ∃ caller task now owner,
    (caller, .save task now, .saved) ∈ log ∧ task.id = e.1 ∧ e.2 = withOwner task owner

variable {γ : Type}

theorem mapGet_mapSet (k k' : String) (v : γ) (m : List (String × γ)) :
    mapGet k' (mapSet k v m) = if k' = k then some v else mapGet k' m := by
  rw [mapGet, mapSet, rowAt_replace]
  split <;> rfl

variable {k : String}

theorem mem_mapSet {v : γ} {m : List (String × γ)} {e : String × γ} (h : e ∈ mapSet k v m) :
    e = (k, v) ∨ e ∈ m :=
  (mem_upsert_replace h).imp id And.left

theorem firstOwner_snoc (taskId : String) (log : List (Entry β)) (e : Entry β) :
    firstOwner taskId (log ++ [e]) = match firstOwner taskId log, e with
      | some o, _ => some o
      | none, (caller, .save task _, .saved) =>
          if task.id = taskId ∧ callerOwner caller task ≠ "" then some (callerOwner caller task)
          else none
      | none, _ => none := by
  rw [firstOwner, List.foldl_append]
  rfl

theorem save_cases (quota : ℕ) (caller : String) (task : Task β) (s : Store β) :
    (∃ answer, InMemoryTaskStore.save quota caller task s = (s, answer) ∧ answer ≠ .saved) ∨
      (InMemoryTaskStore.save quota caller task s =
          (kept ((mapGet task.id s.taskOwners).getD (callerOwner caller task)) task s, .saved) ∧
        ∀ o, mapGet task.id s.taskOwners = some o → callerOwner caller task = "" ∨
          o = callerOwner caller task) := by
  grind [kept, InMemoryTaskStore.mapGet, callerOwner, InMemoryTaskStore.save]

variable {log : List (Entry β)}

/-- The log grows by a call that the maps have taken, with its answer up to the
order of a list. -/
theorem Logged.step (h : Logged log s) (quota : ℕ) (caller : String) (call : Call β) {answer : Answer β}
    (hagrees : Agrees answer (InMemoryTaskStore.step quota caller call s).2) :
    Logged (log ++ [(caller, call, answer)]) (InMemoryTaskStore.step quota caller call s).1 := by
  have hmono : ∀ e ∈ s.tasks, e.2.id = e.1 ∧ ∃ caller' task now owner,
      (caller', .save task now, .saved) ∈ log ++ [(caller, call, answer)] ∧ task.id = e.1 ∧
        e.2 = withOwner task owner := by
    intro e he
    obtain ⟨hid, caller', task, now, owner, hlog, hrest⟩ := h.tasks e he
    exact ⟨hid, caller', task, now, owner, List.mem_append_left _ hlog, hrest⟩
  -- a call that saves nothing leaves the first owners as they were
  have hquiet : (∀ task now, call = .save task now → answer ≠ .saved) →
      ∀ k, firstOwner k (log ++ [(caller, call, answer)]) = firstOwner k log := by
    intro hno k
    rw [firstOwner_snoc]
    cases hfirst : firstOwner k log with
    | some o => rfl
    | none => grind
  cases call with
  | load taskId =>
    refine ⟨fun k => ?_, hmono⟩
    rw [hquiet (fun _ _ h => (by cases h))]
    exact h.owners k
  | list params =>
    refine ⟨fun k => ?_, hmono⟩
    rw [hquiet (fun _ _ h => (by cases h))]
    exact h.owners k
  | save task now =>
    dsimp only [InMemoryTaskStore.step] at hagrees ⊢
    rcases save_cases quota caller task s with ⟨answer', hsave, hne⟩ | ⟨hsave, hallowed⟩
    · rw [hsave] at hagrees ⊢
      refine ⟨fun k => ?_, hmono⟩
      rw [hquiet (fun task' now' _ hsaved => ?_)]
      · exact h.owners k
      · rw [hsaved] at hagrees
        cases hagrees
        exact hne rfl
    · rw [hsave] at hagrees ⊢
      obtain rfl : answer = .saved := by
        cases hagrees
        rfl
      refine ⟨fun k => ?_, fun e he => ?_⟩
      · rw [firstOwner_snoc, ← h.owners k]
        have hkept : mapGet k (kept ((mapGet task.id s.taskOwners).getD (callerOwner caller task))
            task s).taskOwners = if (mapGet task.id s.taskOwners).getD (callerOwner caller task) ≠ ""
              ∧ k = task.id then some ((mapGet task.id s.taskOwners).getD (callerOwner caller task))
              else mapGet k s.taskOwners := by
          rw [kept]
          dsimp only
          split
          · rename_i ho
            rw [mapGet_mapSet]
            simp only [ne_eq, ho, not_false_eq_true, true_and]
          · rename_i ho
            rw [if_neg (fun h => ho h.1)]
        rw [hkept]
        by_cases hk : k = task.id
        · subst hk
          cases howner : mapGet task.id s.taskOwners with
          | some o =>
            dsimp only [getD_some]
            split <;> rfl
          | none => simp
        · grind
      · rcases mem_mapSet he with rfl | he
        · exact ⟨withOwner_id _ _, caller, task, now, _,
            List.mem_append_right _ (List.mem_singleton_self _), rfl, rfl⟩
        · exact hmono e he

theorem mem_of_mapGet {v : γ} {m : List (String × γ)} (h : mapGet k m = some v) : (k, v) ∈ m := by
  obtain ⟨e, he, rfl⟩ := map_eq_some_iff.mp h
  obtain ⟨hmem, rfl⟩ := rowAt_some he
  exact hmem

theorem returned_save (quota : ℕ) (caller : String) (task : Task β) (s : Store β) :
    returned (InMemoryTaskStore.save quota caller task s).2 = [] := by
  rw [InMemoryTaskStore.save]
  dsimp only
  split
  · rfl
  · split <;> rfl

variable {caller taskId : String} {t : Task β}

theorem load_some (h : InMemoryTaskStore.load caller taskId s = some t) : mapGet taskId s.tasks = some t ∧
      (caller = "" ∨ (mapGet taskId s.taskOwners).getD "" = "" ∨
        (mapGet taskId s.taskOwners).getD "" = caller) := by
  grind [InMemoryTaskStore.mapGet, InMemoryTaskStore.load]

/-- What a call hands out was in the map. -/
theorem returned_mem {quota : ℕ} {call : Call β}
    (h : t ∈ returned (InMemoryTaskStore.step quota caller call s).2) : ∃ k, (k, t) ∈ s.tasks := by
  cases call with
  | save task now =>
    dsimp only [InMemoryTaskStore.step] at h
    rw [returned_save] at h
    cases h
  | load taskId => exact ⟨taskId, mem_of_mapGet (load_some (mem_toList.mp h)).1⟩
  | list params =>
    dsimp only [InMemoryTaskStore.step, returned] at h
    rw [list_tasks_eq] at h
    obtain ⟨e, he, rfl⟩ := List.mem_map.mp (List.mem_of_mem_filter h)
    exact ⟨e.1, he⟩

theorem firstOwner_ne {o : String} (h : firstOwner taskId log = some o) : o ≠ "" := by
  induction log using List.reverseRecOn with
  | nil => cases h
  | append_singleton log e ih =>
    rw [firstOwner_snoc] at h
    split at h
    · rename_i heq
      exact ih (heq.trans h)
    · split at h
      · rename_i hname
        exact Option.some.inj h ▸ hname.2
      · cases h
    · cases h

/-- A caller with another name than the task's first owner neither gets the task
nor changes it. -/
theorem owner_kept (h : Logged log s) (quota : ℕ) (call : Call β) {o : String} (hcaller : caller ≠ "")
    (hfirst : firstOwner taskId log = some o) (hne : o ≠ caller) :
    mapGet taskId (InMemoryTaskStore.step quota caller call s).1.tasks = mapGet taskId s.tasks ∧
    (∀ t ∈ returned (InMemoryTaskStore.step quota caller call s).2, t.id ≠ taskId) ∧
    ∀ task now, call = .save task now → task.id = taskId →
      (InMemoryTaskStore.step quota caller call s).2 ≠ .saved := by
  have howner := (h.owners taskId).trans hfirst
  have hid : ∀ k t, (k, t) ∈ s.tasks → t.id = k := fun k t ht => (h.tasks _ ht).1
  cases call with
  | save task now =>
    dsimp only [InMemoryTaskStore.step]
    rw [returned_save]
    refine ⟨?_, fun t ht => (by cases ht), fun task' now' heq hk => ?_⟩
    · rcases save_cases quota caller task s with ⟨answer, hsave, -⟩ | ⟨hsave, hallowed⟩
      · rw [hsave]
      · rw [hsave, kept]
        dsimp only
        rw [mapGet_mapSet, if_neg]
        rintro rfl
        have := hallowed o howner
        rw [callerOwner, if_pos hcaller] at this
        exact this.elim hcaller hne
    · obtain ⟨rfl, rfl⟩ := Call.save.inj heq
      rcases save_cases quota caller task s with ⟨answer, hsave, hno⟩ | ⟨-, hallowed⟩
      · rw [hsave]
        exact hno
      · have := hallowed o (hk ▸ howner)
        rw [callerOwner, if_pos hcaller] at this
        exact (this.elim hcaller hne).elim
  | load k =>
    refine ⟨rfl, fun t ht hk => ?_, fun task now heq => (by cases heq)⟩
    obtain ⟨hfound, hallowed⟩ := load_some (mem_toList.mp ht)
    obtain rfl : k = taskId := (hid k t (mem_of_mapGet hfound)).symm.trans hk
    rw [howner] at hallowed
    exact hallowed.elim hcaller (fun h => h.elim (firstOwner_ne hfirst) hne)
  | list params =>
    refine ⟨rfl, fun t ht hk => ?_, fun task now heq => (by cases heq)⟩
    dsimp only [InMemoryTaskStore.step, returned] at ht
    rw [list_tasks_eq, List.mem_filter, chosen, hk, howner] at ht
    simp [hcaller, hne] at ht

/-! ### Runs -/

/-- A call of one agent's store. -/
structure Event (β : Type) where
  agentId : String
  caller : String
  call : Call β

/-- The shared table, and what was called and answered so far. -/
structure World (β J : Type) where
  db : Table J
  log : List (Event β × Answer β)

def World.initial : World β J := ⟨[], []⟩

/-- The calls of one agent's store. -/
def logOf (agentId : String) (log : List (Event β × Answer β)) : List (Entry β) :=
  (log.filter (fun x => x.1.agentId = agentId)).map (fun x => (x.1.caller, x.1.call, x.2))

/-- The agent's store in memory, given that agent's calls alone. -/
def reference (quota : ℕ) (agentId : String) (events : List (Event β)) : Store β :=
  (events.filter (fun e => e.agentId = agentId)).foldl
    (fun s e => (InMemoryTaskStore.step quota e.caller e.call s).1) InMemoryTaskStore.empty

section Runs

variable (codec) (quota : String → ℕ)

def World.step (w : World β J) (e : Event β) : World β J :=
  let r := SqliteTaskStore.step codec e.agentId (quota e.agentId) e.caller e.call w.db
  ⟨r.1, w.log ++ [(e, r.2)]⟩

def World.run (w : World β J) (events : List (Event β)) : World β J :=
  events.foldl (World.step codec quota) w

/-- Every call of the run is clean where it comes. -/
def CleanRun : World β J → List (Event β) → Prop
  | _, [] => True
  | w, e :: events =>
      Clean codec (quota e.agentId) e.agentId e.caller e.call w.db ∧ CleanRun (w.step codec quota e) events

/-- Every agent's rows are its store in memory. -/
structure Sound (w : World β J) (events : List (Event β)) : Prop where
  nodup : (w.db.map Row.id).Nodup
  rows : ∀ agentId, Matches codec agentId w.db (reference (quota agentId) agentId events)
  logged : ∀ agentId, Logged (logOf agentId w.log) (reference (quota agentId) agentId events)

variable {codec quota} {w : World β J}

theorem Sound.initial : Sound codec quota (.initial : World β J) [] where
  nodup := .nil
  rows := fun _ => ⟨.nil, rfl⟩
  logged := fun _ => ⟨fun _ => rfl, fun _ he => (by cases he)⟩

theorem reference_snoc (quota : ℕ) (agentId : String) (past : List (Event β)) (e : Event β) :
    reference quota agentId (past ++ [e]) = if e.agentId = agentId then
        (InMemoryTaskStore.step quota e.caller e.call (reference quota agentId past)).1
      else reference quota agentId past := by
  rw [reference, List.filter_append, List.foldl_append]
  by_cases he : e.agentId = agentId
  · simp [he, reference]
  · simp [he, reference]

theorem logOf_snoc (agentId : String) (log : List (Event β × Answer β)) (e : Event β)
    (answer : Answer β) :
    logOf agentId (log ++ [(e, answer)]) =
      if e.agentId = agentId then logOf agentId log ++ [(e.caller, e.call, answer)]
      else logOf agentId log := by
  rw [logOf, List.filter_append, List.map_append]
  by_cases he : e.agentId = agentId
  · simp [he, logOf]
  · simp [he, logOf]

theorem Sound.step {past : List (Event β)} (h : Sound codec quota w past) (e : Event β)
    (hclean : Clean codec (quota e.agentId) e.agentId e.caller e.call w.db) :
    Sound codec quota (w.step codec quota e) (past ++ [e]) := by
  obtain ⟨hagrees, hmatches, hnodup, hothers⟩ :=
    step_matches h.nodup (h.rows e.agentId) (quota e.agentId) e.caller e.call hclean
  refine ⟨hnodup, fun agentId => ?_, fun agentId => ?_⟩
  · rw [reference_snoc]
    by_cases he : e.agentId = agentId
    · subst he
      rw [if_pos rfl]
      exact hmatches
    · rw [if_neg he]
      exact (h.rows agentId).frame (hothers agentId (fun heq => he heq.symm))
  · dsimp only [World.step]
    rw [reference_snoc, logOf_snoc]
    by_cases he : e.agentId = agentId
    · subst he
      rw [if_pos rfl, if_pos rfl]
      exact (h.logged e.agentId).step (quota e.agentId) e.caller e.call hagrees
    · rw [if_neg he, if_neg he]
      exact h.logged agentId

theorem cleanRun_append (past events : List (Event β)) : CleanRun codec quota w (past ++ events) ↔
      CleanRun codec quota w past ∧ CleanRun codec quota (w.run codec quota past) events := by
  induction past generalizing w with
  | nil => exact (true_and _).symm.to_iff
  | cons e past ih =>
    rw [List.cons_append, CleanRun, CleanRun, ih, and_assoc]
    rfl

theorem Sound.run {past events : List (Event β)} (h : Sound codec quota w past)
    (hclean : CleanRun codec quota w events) :
    Sound codec quota (w.run codec quota events) (past ++ events) := by
  induction events generalizing w past with
  | nil =>
    rw [List.append_nil]
    exact h
  | cons e events ih =>
    obtain ⟨hfirst, hrest⟩ := hclean
    have hstep := ih (h.step e hfirst) hrest
    rw [List.append_assoc] at hstep
    exact hstep

theorem Agrees.returned_iff {r m : Answer β} (h : Agrees r m) (t : Task β) :
    t ∈ returned r ↔ t ∈ returned m := by
  cases h with
  | same => rfl
  | listed hperm => exact hperm.mem_iff

/-- A task that the agent's store took, with the owner that was found for it. -/
def SavedBy (agentId : String) (t : Task β) (log : List (Event β × Answer β)) : Prop :=
  ∃ caller task now owner, (⟨agentId, caller, .save task now⟩, .saved) ∈ log ∧ t = withOwner task owner

theorem savedBy_of_logged {t : Task β} {k : String} {log : List (Event β × Answer β)}
    (h : Logged (logOf agentId log) s) (ht : (k, t) ∈ s.tasks) : SavedBy agentId t log := by
  obtain ⟨-, caller, task, now, owner, hlog, -, htask⟩ := h.tasks _ ht
  obtain ⟨⟨e, answer⟩, he, heq⟩ := List.mem_map.mp hlog
  obtain ⟨hmem, hagent⟩ := List.mem_filter.mp he
  obtain ⟨hcaller, hcall, hanswer⟩ := (Prod.mk.inj heq).imp id Prod.mk.inj
  refine ⟨caller, task, now, owner, ?_, htask⟩
  obtain ⟨a, c, call⟩ := e
  dsimp only at hcaller hcall hanswer hagent
  rw [← hcaller, ← hcall, ← hanswer, ← of_decide_eq_true hagent]
  exact hmem

/-- The task that an agent's row of this id holds. -/
def stored (codec : Codec β J) (agentId taskId : String) (db : Table J) : Option (Task β) :=
  (own agentId taskId db).bind (fun r => codec.fromJSON r.taskJson)

theorem stored_eq {taskId : String} {db : Table J} (h : Matches codec agentId db s) :
    stored codec agentId taskId db = mapGet taskId s.tasks := by
  rw [stored, own_eq]
  rcases rowAt_forall₂ h.rows taskId with ⟨hr, ht⟩ | ⟨r, t, hr, ht, hs⟩
  · rw [hr, ht]
    rfl
  · rw [hr, ht, bind_some, hs.json, codec.decodes]

/-- In a run of clean calls the agents' stores answer as stores in memory of
their own do, no call reaches another agent's rows or hands out what another
agent saved, and no named caller reaches a task that another name had first. -/
theorem tasks_isolated (codec : Codec β J) (quota : String → ℕ) (events : List (Event β))
    (hclean : CleanRun codec quota .initial events) :
    ∀ past e future, events = past ++ e :: future → let w := World.run codec quota .initial past
      let s := reference (quota e.agentId) e.agentId past
      let r := SqliteTaskStore.step codec e.agentId (quota e.agentId) e.caller e.call w.db
      let m := InMemoryTaskStore.step (quota e.agentId) e.caller e.call s
      Agrees r.2 m.2 ∧
      (∀ other ≠ e.agentId, rowsOf other r.1 = rowsOf other w.db) ∧
      (∀ t ∈ returned r.2, SavedBy e.agentId t w.log) ∧
      (e.caller ≠ "" → ∀ taskId o, firstOwner taskId (logOf e.agentId w.log) = some o → o ≠ e.caller →
          stored codec e.agentId taskId r.1 = stored codec e.agentId taskId w.db ∧
          mapGet taskId m.1.tasks = mapGet taskId s.tasks ∧
          (∀ t ∈ returned r.2, t.id ≠ taskId) ∧ ∀ t ∈ returned m.2, t.id ≠ taskId) := by
  intro past e future hevents
  dsimp only
  rw [hevents, cleanRun_append] at hclean
  obtain ⟨hpast, hnow, -⟩ := hclean
  have hsound : Sound codec quota (World.run codec quota .initial past) past := by
    have := Sound.initial.run hpast
    rwa [List.nil_append] at this
  have hlogged := hsound.logged e.agentId
  obtain ⟨hagrees, hmatches, -, hothers⟩ :=
    step_matches hsound.nodup (hsound.rows e.agentId) (quota e.agentId) e.caller e.call hnow
  refine ⟨hagrees, hothers, fun t ht => ?_, fun hcaller taskId o hfirst hne => ?_⟩
  · obtain ⟨k, hk⟩ := returned_mem ((hagrees.returned_iff t).mp ht)
    exact savedBy_of_logged hlogged hk
  · obtain ⟨hkept, hreturned, -⟩ := owner_kept hlogged (quota e.agentId) e.call hcaller hfirst hne
    refine ⟨?_, hkept, fun t ht => hreturned t ((hagrees.returned_iff t).mp ht), hreturned⟩
    rw [stored_eq hmatches, stored_eq (hsound.rows e.agentId), hkept]

/-- One save of one agent, and a load of another. -/
theorem tasks_isolated_two_agents : let codec : Codec Unit (Task Unit) := ⟨id, some, fun _ => rfl⟩
    let task : Task Unit := ⟨"t", "c", some 1, none, ()⟩
    let events : List (Event Unit) := [⟨"a", "ann", .save task 1⟩, ⟨"b", "bob", .load "t"⟩]
    ∀ past e future, events = past ++ e :: future → let w := World.run codec (fun _ => 10) .initial past
      let s := reference 10 e.agentId past
      let r := SqliteTaskStore.step codec e.agentId 10 e.caller e.call w.db
      let m := InMemoryTaskStore.step 10 e.caller e.call s
      Agrees r.2 m.2 ∧
      (∀ other ≠ e.agentId, rowsOf other r.1 = rowsOf other w.db) ∧
      (∀ t ∈ returned r.2, SavedBy e.agentId t w.log) ∧
      (e.caller ≠ "" → ∀ taskId o, firstOwner taskId (logOf e.agentId w.log) = some o → o ≠ e.caller →
          stored codec e.agentId taskId r.1 = stored codec e.agentId taskId w.db ∧
          mapGet taskId m.1.tasks = mapGet taskId s.tasks ∧
          (∀ t ∈ returned r.2, t.id ≠ taskId) ∧ ∀ t ∈ returned m.2, t.id ≠ taskId) :=
  tasks_isolated ⟨id, some, fun _ => rfl⟩ (fun _ => 10) _
    ⟨fun _ _ r hr => (by cases hr), trivial, trivial⟩

/-- Another agent's save of an id overwrites the task that is there and is not
found in its own store afterwards; and a task that was saved without an owner
stays free for every name after a name has saved it. -/
theorem other_saves_reach : let codec : Codec Unit (Task Unit) := ⟨id, some, fun _ => rfl⟩
    let task (owner : Option String) : Task Unit := ⟨"t", "c", some 1, owner, ()⟩
    let foreign : List (Event Unit) :=
      [⟨"a", "ann", .save (task none) 1⟩, ⟨"b", "bob", .save (task none) 2⟩]
    let unowned : List (Event Unit) := [⟨"a", "", .save (task none) 1⟩, ⟨"a", "ann", .save (task none) 2⟩]
    let after := fun events => (World.run codec (fun _ => 10) .initial events)
    stored codec "a" "t" (after (foreign.take 1)).db = some (task (some "ann")) ∧
    stored codec "a" "t" (after foreign).db = some (task (some "bob")) ∧
    SqliteTaskStore.load codec "b" "bob" "t" (after foreign).db = none ∧
    InMemoryTaskStore.load "bob" "t" (reference 10 "b" foreign) = some (task (some "bob")) ∧
    firstOwner "t" (logOf "a" (after unowned).log) = some "ann" ∧
    SqliteTaskStore.load codec "a" "bob" "t" (after unowned).db = some (task (some "ann")) ∧
    InMemoryTaskStore.load "bob" "t" (reference 10 "a" unowned) = none := by
  intro codec task foreign unowned after
  decide +kernel

/-! ### One store in memory -/

/-- A store in memory with its log of calls. -/
def memoryRun (quota : ℕ) (calls : List (String × Call β)) : Store β × List (Entry β) :=
  calls.foldl (fun x c =>
    let r := InMemoryTaskStore.step quota c.1 c.2 x.1
    (r.1, x.2 ++ [(c.1, c.2, r.2)])) (InMemoryTaskStore.empty, [])

theorem memoryRun_logged (quota : ℕ) (calls : List (String × Call β)) :
    Logged (memoryRun quota calls).2 (memoryRun quota calls).1 := by
  induction calls using List.reverseRecOn with
  | nil => exact ⟨fun _ => rfl, fun _ he => (by cases he)⟩
  | append_singleton calls c ih =>
    rw [memoryRun, List.foldl_append]
    exact ih.step quota c.1 c.2 (.same _)

/-- The store in memory keeps owners apart in every run. -/
theorem memory_owners_apart (quota : ℕ) (calls : List (String × Call β)) {caller : String}
    (call : Call β) {taskId o : String} (hcaller : caller ≠ "")
    (hfirst : firstOwner taskId (memoryRun quota calls).2 = some o) (hne : o ≠ caller) :
    let s := (memoryRun quota calls).1
    let m := InMemoryTaskStore.step quota caller call s
    mapGet taskId m.1.tasks = mapGet taskId s.tasks ∧ ∀ t ∈ returned m.2, t.id ≠ taskId := by
  obtain ⟨hkept, hreturned, -⟩ := owner_kept (memoryRun_logged quota calls) quota call hcaller hfirst hne
  exact ⟨hkept, hreturned⟩

end Runs


end Plur1bus.A2a
