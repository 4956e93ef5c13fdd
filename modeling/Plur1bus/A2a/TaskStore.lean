import Plur1bus.Program.Upsert
import Mathlib.Data.Int.Notation

/-!
The two stores of agent-to-agent tasks: one in memory, for one agent, and one
over a table that the stores of all agents share. A task belongs to the first
caller with a name that saved it, or to the owner its metadata named.

The peer's name comes with the call; a name that is absent and an empty one are
read alike, so the caller is a string. A task is what the stores read of it,
with the rest left open, and its text form is a parameter.
-/

namespace Plur1bus.A2a

open Program.Keyed

variable {β J : Type}

structure Task (β : Type) where
  id : String
  contextId : String
  state : Option ℤ
  owner : Option String
  rest : β
  deriving DecidableEq

/-- What a listing asks for. -/
structure ListTasksRequest where
  contextId : String
  status : Option ℤ
  pageSize : ℕ

structure ListTasksResponse (β : Type) where
  tasks : List (Task β)
  totalSize : ℕ
  pageSize : ℕ
  nextPageToken : String

def TASK_STATE_UNSPECIFIED : ℤ := 0

def A2A_DEFAULT_PAGE_SIZE : ℕ := 50

inductive Call (β : Type)
  | save (task : Task β) (now : ℤ)
  | load (taskId : String)
  | list (params : ListTasksRequest)

/-- What a call answers: a save that succeeds answers nothing. -/
inductive Answer (β : Type)
  | saved
  | notFound (message : String)
  | unsupported (message : String)
  | loaded (task : Option (Task β))
  | listed (response : ListTasksResponse β)

/-- `resolveOwner(context) || (task.metadata?.owner ?? "")`. -/
def callerOwner (caller : String) (task : Task β) : String :=
  if caller ≠ "" then caller else task.owner.getD ""

/-- The task with the owner that was found for it in its metadata. -/
def withOwner (task : Task β) (owner : String) : Task β :=
  if owner ≠ "" then { task with owner := some owner } else task

def notFoundMessage (taskId : String) : String := "Task not found: " ++ taskId

def quotaMessage (count quota : ℕ) : String :=
  "Task quota exceeded for owner (" ++ toString count ++ "/" ++ toString quota ++ ")"

def pageSizeOf (params : ListTasksRequest) : ℕ :=
  if params.pageSize = 0 then A2A_DEFAULT_PAGE_SIZE else params.pageSize

/-! ### In memory -/

namespace InMemoryTaskStore

/-- Two maps from ids, in the order of their keys. -/
structure Store (β : Type) where
  tasks : List (String × Task β)
  taskOwners : List (String × String)

def empty : Store β := ⟨[], []⟩

def mapSet {γ : Type} (k : String) (v : γ) (m : List (String × γ)) : List (String × γ) :=
  upsert Prod.fst (fun _ new => new) (k, v) m

def mapGet {γ : Type} (k : String) (m : List (String × γ)) : Option γ :=
  (rowAt Prod.fst k m).map Prod.snd

def save (quota : ℕ) (caller : String) (task : Task β) (s : Store β) : Store β × Answer β :=
  let callerOwner := callerOwner caller task
  let existingOwner := mapGet task.id s.taskOwners
  if existingOwner.any (fun o => callerOwner != "" && o != callerOwner) then
    (s, .notFound (notFoundMessage task.id))
  else
    let effectiveOwner := existingOwner.getD callerOwner
    let count := (s.taskOwners.filter (fun o => o.2 = effectiveOwner)).length
    if mapGet task.id s.tasks = none ∧ effectiveOwner ≠ "" ∧ count ≥ quota then
      (s, .unsupported (quotaMessage count quota))
    else
      let owners := if effectiveOwner ≠ "" then mapSet task.id effectiveOwner s.taskOwners
        else s.taskOwners
      ({ tasks := mapSet task.id (withOwner task effectiveOwner) s.tasks, taskOwners := owners },
        .saved)

def load (caller taskId : String) (s : Store β) : Option (Task β) :=
  match mapGet taskId s.tasks with
  | none => none
  | some found =>
      let taskOwner := (mapGet taskId s.taskOwners).getD ""
      if caller ≠ "" ∧ taskOwner ≠ "" ∧ taskOwner ≠ caller then none else some found

def list (caller : String) (params : ListTasksRequest) (s : Store β) : ListTasksResponse β :=
  let all := s.tasks.map Prod.snd
  let all := if caller ≠ "" then all.filter (fun t => mapGet t.id s.taskOwners = some caller) else all
  let all := if params.contextId ≠ "" then all.filter (fun t => t.contextId = params.contextId)
    else all
  let all := match params.status with
    | some state => if state ≠ TASK_STATE_UNSPECIFIED then all.filter (fun t => t.state = some state)
        else all
    | none => all
  { tasks := all, totalSize := all.length, pageSize := pageSizeOf params, nextPageToken := "" }

def step (quota : ℕ) (caller : String) (call : Call β) (s : Store β) : Store β × Answer β :=
  match call with
  | .save task _ => save quota caller task s
  | .load taskId => (s, .loaded (load caller taskId s))
  | .list params => (s, .listed (list caller params s))

end InMemoryTaskStore

/-! ### Over the shared table -/

/-- The SDK's text form of a task. -/
structure Codec (β J : Type) where
  toJSON : Task β → J
  fromJSON : J → Option (Task β)
  decodes : ∀ t, fromJSON (toJSON t) = some t

namespace SqliteTaskStore

/-- A row of `a2a_tasks`; the id alone is the primary key. -/
structure Row (J : Type) where
  id : String
  agentId : String
  owner : String
  contextId : Option String
  state : ℤ
  taskJson : J
  createdAt : ℤ
  updatedAt : ℤ

abbrev Table (J : Type) := List (Row J)

variable (codec : Codec β J)

/-- What `ON CONFLICT(id) DO UPDATE` sets. -/
def onConflict (old excluded : Row J) : Row J :=
  { old with
    contextId := excluded.contextId
    state := excluded.state
    taskJson := excluded.taskJson
    updatedAt := excluded.updatedAt }

/-- The row of an id that this agent has. -/
def own (agentId taskId : String) (db : Table J) : Option (Row J) :=
  db.find? (fun r => r.id = taskId ∧ r.agentId = agentId)

def rowOf (agentId owner : String) (task : Task β) (now : ℤ) : Row J :=
  { id := task.id
    agentId := agentId
    owner := owner
    contextId := if task.contextId = "" then none else some task.contextId
    state := task.state.getD 0
    taskJson := codec.toJSON task
    createdAt := now
    updatedAt := now }

/-- The checks before the write, and the row they let through. -/
def checked (agentId : String) (quota : ℕ) (caller : String) (task : Task β) (now : ℤ)
    (db : Table J) : Except (Answer β) (Row J) :=
  let callerOwner := callerOwner caller task
  let existing := own agentId task.id db
  if existing.any (fun r => callerOwner != "" && r.owner != "" && r.owner != callerOwner) then
    .error (.notFound (notFoundMessage task.id))
  else
    let existingOwner := (existing.map Row.owner).getD ""
    let effectiveOwner := if existingOwner ≠ "" then existingOwner else callerOwner
    let count := (db.filter (fun r => r.agentId = agentId ∧ r.owner = effectiveOwner)).length
    if existing.isNone ∧ effectiveOwner ≠ "" ∧ count ≥ quota then
      .error (.unsupported (quotaMessage count quota))
    else .ok (rowOf codec agentId effectiveOwner (withOwner task effectiveOwner) now)

def save (agentId : String) (quota : ℕ) (caller : String) (task : Task β) (now : ℤ)
    (db : Table J) : Table J × Answer β :=
  match checked codec agentId quota caller task now db with
  | .error answer => (db, answer)
  | .ok row => (upsert Row.id onConflict row db, .saved)

def load (agentId caller taskId : String) (db : Table J) : Option (Task β) :=
  match own agentId taskId db with
  | none => none
  | some row =>
      if caller ≠ "" ∧ row.owner ≠ "" ∧ row.owner ≠ caller then none
      else codec.fromJSON row.taskJson

/-- The `WHERE` clause of a listing. -/
def selected (agentId caller : String) (params : ListTasksRequest) (r : Row J) : Bool :=
  decide (r.agentId = agentId) &&
    (caller == "" || r.owner == caller) &&
    (params.contextId == "" || r.contextId == some params.contextId) &&
    (match params.status with
      | some state => state == TASK_STATE_UNSPECIFIED || r.state == state
      | none => true)

/-- Rows of one time come in the order of the table. -/
def list (agentId caller : String) (params : ListTasksRequest) (db : Table J) :
    ListTasksResponse β :=
  let rows := (db.filter (selected agentId caller params)).mergeSort
    (fun a b => a.createdAt ≤ b.createdAt)
  let tasks := rows.filterMap (fun r => codec.fromJSON r.taskJson)
  { tasks := tasks, totalSize := tasks.length, pageSize := pageSizeOf params, nextPageToken := "" }

def step (agentId : String) (quota : ℕ) (caller : String) (call : Call β) (db : Table J) :
    Table J × Answer β :=
  match call with
  | .save task now => save codec agentId quota caller task now db
  | .load taskId => (db, .loaded (load codec agentId caller taskId db))
  | .list params => (db, .listed (list codec agentId caller params db))

end SqliteTaskStore

end Plur1bus.A2a
