import Plur1bus.Approvals.Json
import Plur1bus.Language
import Plur1bus.Program.Decimal
import Plur1bus.Program.Numbering
import Plur1bus.Program.Outcome

/-!
Projects and their boards. A board is one JSON document per project: columns in
array order, cards in creation order with their column and their place in it,
and two logs, activity and comments, whose entries are numbered by their place
in the log. A mutation reads the document, works on it and writes it back in
one transaction, so a call that throws leaves the database as it was; removing
a member or an agent releases its assignments in the transaction that removes
the membership.

The source works on objects that it changes in place. Here a card is known by
its id, and a change to an object is a change to the card with that id.
-/

namespace Plur1bus.Board

open Program

/-! ### Failures -/

inductive BoardCode | invalid | notFound | conflict | wip | archived | denied
  deriving DecidableEq, Repr

inductive CollabCode | invalid | notFound | conflict | archived
  deriving DecidableEq, Repr

inductive Failure
  | board (code : BoardCode) (message : String)
  | collab (code : CollabCode) (message : String) (reason : String)
  /-- An insert that breaks a primary key. -/
  | constraint
  /-- `RangeError: Invalid array length`. -/
  | arrayLength
  deriving DecidableEq, Repr

/-- What a call does: it answers, or it throws. -/
abbrev Result := Except Failure

def bad (message : String) : Result α := .error (.board .invalid message)

/-! ### Arrays and numerals -/

/-- The length an array cannot exceed. -/
def MAX_ARRAY : ℕ := 2 ^ 32 - 1

/-- `push`. -/
def push (l : List α) (a : α) : Result (List α) :=
  if l.length < MAX_ARRAY then .ok (l ++ [a]) else .error .arrayLength

/-- `String(n).padStart(16, "0")`. -/
def seqId (n : ℕ) : String :=
  String.ofList (padded 16 n)

/-- What the language's runtime brings: locale order and the URL parser. -/
structure Platform where
  localeCompare : String → String → Ordering
  canParse : String → Bool

/-- The id and the clock readings a call gets. `clock k` is the reading taken
when the board's activity has `k` entries. -/
structure Env extends Platform where
  id : String
  now : ℤ
  clock : ℕ → ℤ

/-! ### Records -/

inductive ActorKind | person | agent
  deriving DecidableEq, Repr

def ActorKind.name : ActorKind → String
  | .person => "person"
  | .agent => "agent"

structure BoardActor where
  kind : ActorKind
  id : String
  deriving DecidableEq, Repr

structure BoardColumn where
  id : String
  title : Option String
  titleKey : Option String
  position : ℕ
  wipLimit : Option ℕ
  deriving DecidableEq, Repr

inductive LinkKind | session | job | media | url
  deriving DecidableEq, Repr

def LinkKind.ofString? : String → Option LinkKind
  | "session" => some .session
  | "job" => some .job
  | "media" => some .media
  | "url" => some .url
  | _ => none

structure BoardLink where
  kind : LinkKind
  id : String
  deriving DecidableEq, Repr

inductive Priority | none | low | normal | high | urgent
  deriving DecidableEq, Repr

def Priority.ofString? : String → Option Priority
  | "none" => some .none
  | "low" => some .low
  | "normal" => some .normal
  | "high" => some .high
  | "urgent" => some .urgent
  | _ => Option.none

structure BoardCard where
  id : String
  projectId : String
  title : String
  description : String
  columnId : String
  position : ℕ
  labels : List String
  priority : Priority
  dueAt : Option ℕ
  assignees : List BoardActor
  links : List BoardLink
  createdBy : BoardActor
  updatedBy : BoardActor
  createdAt : ℤ
  updatedAt : ℤ
  archived : Bool
  deriving DecidableEq, Repr

inductive ActivityKind
  | created | updated | moved | assigned | unassigned | commented | archived | unarchived
  deriving DecidableEq, Repr

/-- An entry's detail: a plain text, or the JSON text of a value. -/
inductive Detail
  | text (s : String)
  | json (v : Json)
  deriving DecidableEq, Repr

structure BoardActivity where
  id : String
  cardId : String
  kind : ActivityKind
  actor : BoardActor
  time : ℤ
  detail : Detail
  deriving DecidableEq, Repr

structure BoardComment where
  id : String
  cardId : String
  author : BoardActor
  text : String
  createdAt : ℤ
  deriving DecidableEq, Repr

structure Data where
  columns : List BoardColumn
  cards : List BoardCard
  activity : List BoardActivity
  comments : List BoardComment
  deriving DecidableEq, Repr

inductive ProjectRole | member | lead
  deriving DecidableEq, Repr

structure Project where
  owner : String
  members : List (String × ProjectRole)
  agents : List String
  archivedAt : Option ℤ
  deriving DecidableEq, Repr

/-- The tables of the collaboration database that a board depends on. -/
structure Db where
  projects : String → Option Project
  boards : String → Option Data

/-! ### Inputs -/

structure ColumnInput where
  title : Option String := none
  titleKey : Option String := none
  wipLimit : Option Number := none
  position : Option Number := none

/-- An absent field stays as it is; `wipLimit` may also be set to `null`. -/
structure ColumnPatch where
  title : Option String := none
  titleKey : Option String := none
  wipLimit : Option (Option Number) := none

structure LinkInput where
  kind : String
  id : String

structure CardPatch where
  title : Option String := none
  description : Option String := none
  labels : Option (List String) := none
  priority : Option String := none
  dueAt : Option (Option Number) := none
  links : Option (List LinkInput) := none

structure CardInput where
  title : String
  columnId : String
  position : Option Number := none
  description : Option String := none
  labels : Option (List String) := none
  priority : Option String := none
  dueAt : Option (Option Number) := none
  links : Option (List LinkInput) := none

def CardInput.patch (input : CardInput) : CardPatch where
  title := some input.title
  description := input.description
  labels := input.labels
  priority := input.priority
  dueAt := input.dueAt
  links := input.links

/-! ### Checks of single values -/

/-- A link that is shown as clickable: `http`, `https` or `mailto`, without
blanks or control characters. -/
def safeLinkUrl (P : Platform) (s : String) : Bool :=
  let rest := ["http://", "https://", "mailto:"].filterMap fun scheme =>
    let front := s.toList.take scheme.length
    if front.map Char.toLower = scheme.toList then some (s.toList.drop scheme.length) else none
  rest.any (fun r => !r.isEmpty &&
    r.all (fun c => !isWhite c && 0x1f < c.toNat && c.toNat ≠ 0x7f)) && P.canParse s

def title (s : String) : Result String :=
  if trim s ≠ "" ∧ unitLength s ≤ 256 then .ok (trim s) else bad "invalid title"

/-- Where a position argument points in a list of that size. -/
def index (n : Option Number) (size : ℕ) : Result ℕ :=
  match n with
  | none => .ok size
  | some n =>
    match n.safeFrom 0 with
    | some k => .ok (min k size)
    | none => bad "invalid position"

def validWip : Option Number → Result (Option ℕ)
  | none => .ok none
  | some n =>
    match n.safeFrom 1 with
    | some k => .ok (some k)
    | none => bad "invalid WIP limit"

/-! ### Reading a board -/

def column (d : Data) (id : String) : Result BoardColumn :=
  match d.columns.find? (fun c => c.id = id) with
  | some c => .ok c
  | none => .error (.board .notFound "column not found")

def card (d : Data) (id : String) : Result BoardCard :=
  match d.cards.find? (fun c => c.id = id) with
  | some c => .ok c
  | none => .error (.board .notFound "card not found")

/-- The cards of a column, archived ones included. -/
def inColumn (d : Data) (columnId : String) : List BoardCard :=
  d.cards.filter (fun c => c.columnId = columnId)

/-- The cards of a column other than `c`. -/
def others (d : Data) (k : String) (c : BoardCard) : List BoardCard :=
  (inColumn d k).filter (fun x => x.id ≠ c.id)

/-- The number of unarchived cards of a column. -/
def active (d : Data) (columnId : String) : ℕ :=
  (d.cards.filter (fun c => c.columnId = columnId ∧ c.archived = false)).length

def wip (d : Data) (columnId : String) (incoming : ℕ) (override : Bool) : Result Unit := do
  let c ← column d columnId
  ensure (¬(0 < incoming ∧ override = false ∧
      ∃ limit ∈ c.wipLimit, limit < active d columnId + incoming))
    (.board .wip "project WIP limit exceeded")

/-- Room for one card in the column, where one comes in. -/
def wipWhen (p : Prop) [Decidable p] (d : Data) (columnId : String) (override : Bool) :
    Result Unit :=
  if p then wip d columnId 1 override else .ok ()

/-! ### Changing a board -/

/-- A change to the card object with that id. -/
def setCard (d : Data) (id : String) (f : BoardCard → BoardCard) : Data :=
  { d with cards := d.cards.map (fun x => if x.id = id then f x else x) }

def history (env : Env) (d : Data) (id : String) (kind : ActivityKind) (actor : BoardActor)
    (detail : Detail) : Result Data := do
  let time := env.clock d.activity.length
  let entry : BoardActivity :=
    { id := seqId (d.activity.length + 1), cardId := id, kind, actor, time, detail }
  let activity ← push d.activity entry
  .ok { setCard d id (fun c => { c with updatedAt := time, updatedBy := actor }) with activity }

/-- `forEach((x, i) => x.position = i)` over the cards with these ids. -/
def renumber (ids : List String) (cards : List BoardCard) : List BoardCard :=
  cards.map (fun x => if x.id ∈ ids then { x with position := ids.idxOf x.id } else x)

/-- The comparison of the cards of a target column: position, then id. -/
def before (P : Platform) (a b : BoardCard) : Prop :=
  a.position < b.position ∨ a.position = b.position ∧ P.localeCompare a.id b.id ≠ .gt

instance (P : Platform) : DecidableRel (before P) :=
  fun _ _ => inferInstanceAs (Decidable (_ ∨ _))

/-- `#place`: the card goes out of its column and into the target column, at
that index; both columns are numbered anew. -/
def place (P : Platform) (d : Data) (c : BoardCard) (columnId : String)
    (position : Option Number) : Result Data := do
  let _ ← column d columnId
  let target := (others d columnId c).insertionSort (before P)
  let i ← index position target.length
  let cards := (setCard d c.id (fun x => { x with columnId })).cards
  let cards := renumber (insertAt (target.map (·.id)) i c.id) cards
  if c.columnId = columnId then .ok { d with cards }
  else
    let left := cards.filter (fun x => x.columnId = c.columnId)
    .ok { d with cards := renumber (keysInOrder (·.id) (·.position) left) cards }

/-- `forEach((x, i) => x.position = i)` over all columns. -/
def renumberColumns (columns : List BoardColumn) : List BoardColumn :=
  columns.mapIdx (fun i c => { c with position := i })

def textOrNull (s : Option String) : Result (Option String) :=
  match s with
  | none | some "" => .ok none
  | some s => return some (← title s)

def createColumn (env : Env) (input : ColumnInput) (d : Data) : Result (BoardColumn × Data) := do
  ensure (¬(input.title.getD "" = "" ∧ input.titleKey.getD "" = ""))
    (.board .invalid "title or titleKey required")
  let name ← textOrNull input.title
  let titleKey ← textOrNull input.titleKey
  let wipLimit ← validWip input.wipLimit
  let i ← index input.position d.columns.length
  let c : BoardColumn := { id := env.id, title := name, titleKey, position := 0, wipLimit }
  let columns := renumberColumns (d.columns.take i ++ c :: d.columns.drop i)
  .ok ({ c with position := i }, { d with columns })

def patchTitle (c : BoardColumn) : Option String → Result BoardColumn
  | none => .ok c
  | some s => do return { c with title := some (← title s), titleKey := none }

def patchTitleKey (c : BoardColumn) : Option String → Result BoardColumn
  | none => .ok c
  | some s => do return { c with titleKey := some (← title s), title := none }

def patchWip (c : BoardColumn) : Option (Option Number) → Result BoardColumn
  | none => .ok c
  | some n => do return { c with wipLimit := ← validWip n }

def updateColumn (id : String) (patch : ColumnPatch) (d : Data) : Result (BoardColumn × Data) := do
  let c ← column d id
  let c' ← patchTitle c patch.title
  let c' ← patchTitleKey c' patch.titleKey
  let c' ← patchWip c' patch.wipLimit
  .ok (c', { d with columns := d.columns.map (fun x => if x.id = id then c' else x) })

def moveColumn (id : String) (position : Number) (d : Data) : Result (BoardColumn × Data) := do
  let c ← column d id
  let rest := d.columns.filter (fun x => x.id ≠ id)
  let i ← index (some position) rest.length
  .ok ({ c with position := i }, { d with columns := renumberColumns (rest.take i ++ c :: rest.drop i) })

def moveDetail (source target : String) (more : List (String × Json)) (override : Bool) : Detail :=
  .json (.obj ([("from", .str source), ("to", .str target)] ++ more ++
    [("override", .bool override)]))

/-- The loop of `deleteColumn`: the cards go to the end of the target one by one. -/
def moveAll (env : Env) (id target : String) (actor : BoardActor) (override : Bool) :
    List BoardCard → Data → Result Data
  | [], d => .ok d
  | c :: cards, d => do
    let d ← place env.toPlatform d c target none
    let d ← history env d c.id .moved actor (moveDetail id target [] override)
    moveAll env id target actor override cards d

/-- What `deleteColumn` asks before it moves cards. An empty target counts as none. -/
def deletable (d : Data) (id : String) (target : Option String) (override : Bool) : Result Unit :=
  if target.getD "" = "" then
    ensure (inColumn d id = []) (.board .conflict "column must be empty or have target column")
  else wip d (target.getD "") (active d id) override

def deleteColumn (env : Env) (id : String) (target : Option String) (actor : BoardActor)
    (override : Bool) (d : Data) : Result (Unit × Data) := do
  let _ ← column d id
  ensure (target ≠ some id) (.board .invalid "target must differ from deleted column")
  deletable d id target override
  let cards := byNumber (·.position) (inColumn d id)
  let d ← moveAll env id (target.getD "") actor override cards d
  let columns := renumberColumns (d.columns.filter (fun c => c.id ≠ id))
  .ok ((), { d with columns })

/-! ### Cards -/

def setTitle (c : BoardCard) : Option String → Result BoardCard
  | none => .ok c
  | some s => do return { c with title := ← title s }

def setDescription (c : BoardCard) : Option String → Result BoardCard
  | none => .ok c
  | some s =>
    if unitLength s > 65536 then bad "invalid description"
    else .ok { c with description := s }

def setLabels (c : BoardCard) : Option (List String) → Result BoardCard
  | none => .ok c
  | some labels =>
    if labels.length > 32 || labels.any (fun s => s = "" || unitLength s > 64) then
      bad "invalid labels"
    else .ok { c with labels := labels.eraseDups }

def setPriority (c : BoardCard) : Option String → Result BoardCard
  | none => .ok c
  | some s =>
    match Priority.ofString? s with
    | some priority => .ok { c with priority }
    | none => bad "invalid priority"

def setDueAt (c : BoardCard) : Option (Option Number) → Result BoardCard
  | none => .ok c
  | some none => .ok { c with dueAt := none }
  | some (some n) =>
    match n.safeFrom 0 with
    | some k => .ok { c with dueAt := some k }
    | none => bad "invalid dueAt"

/-- A link the store accepts. -/
def linkOf (P : Platform) (l : LinkInput) : Option BoardLink := do
  let kind ← LinkKind.ofString? l.kind
  if l.id = "" || unitLength l.id > 4096 || (kind = .url && !safeLinkUrl P l.id) then none
  else some ⟨kind, l.id⟩

def setLinks (P : Platform) (c : BoardCard) : Option (List LinkInput) → Result BoardCard
  | none => .ok c
  | some links =>
    match links.mapM (linkOf P) with
    | some ls => if links.length > 64 then bad "invalid links" else .ok { c with links := ls }
    | none => bad "invalid links"

def fields (P : Platform) (c : BoardCard) (patch : CardPatch) : Result BoardCard := do
  let c ← setTitle c patch.title
  let c ← setDescription c patch.description
  let c ← setLabels c patch.labels
  let c ← setPriority c patch.priority
  let c ← setDueAt c patch.dueAt
  setLinks P c patch.links

def overrideDetail (override : Bool) : Detail := .json (.obj [("override", .bool override)])

def createCard (env : Env) (projectId : String) (input : CardInput) (actor : BoardActor)
    (override : Bool) (d : Data) : Result (BoardCard × Data) := do
  wip d input.columnId 1 override
  let name ← title input.title
  let c : BoardCard :=
    { id := env.id, projectId, title := name, description := "", columnId := input.columnId
      position := 0, labels := [], priority := .normal, dueAt := none, assignees := [], links := []
      createdBy := actor, updatedBy := actor, createdAt := env.now, updatedAt := env.now
      archived := false }
  let c ← fields env.toPlatform c input.patch
  let cards ← push d.cards c
  let d ← place env.toPlatform { d with cards } c input.columnId input.position
  let d ← history env d c.id .created actor (overrideDetail override)
  return (← card d c.id, d)

def updateCard (env : Env) (id : String) (patch : CardPatch) (actor : BoardActor) (d : Data) :
    Result (BoardCard × Data) := do
  let c ← card d id
  let c' ← fields env.toPlatform c patch
  let d ← history env (setCard d id (fun _ => c')) id .updated actor (.text "")
  return (← card d id, d)

def moveCard (env : Env) (id columnId : String) (position : Option Number) (actor : BoardActor)
    (override : Bool) (d : Data) : Result (BoardCard × Data) := do
  let c ← card d id
  ensure (c.archived = false) (.board .archived "card archived")
  wipWhen (c.columnId ≠ columnId) d columnId override
  let d ← place env.toPlatform d c columnId position
  let moved ← card d id
  let d ← history env d id .moved actor
    (moveDetail c.columnId columnId [("position", .num moved.position)] override)
  return (← card d id, d)

/-- The assignee is a member, or an agent, of the project. -/
def Project.belongs (p : Project) (a : BoardActor) : Bool :=
  match a.kind with
  | .person => p.members.any (fun m => m.1 = a.id)
  | .agent => p.agents.contains a.id

def actorJson (a : BoardActor) : List (String × Json) :=
  [("kind", .str a.kind.name), ("id", .str a.id)]

def assign (env : Env) (p : Project) (id : String) (assignee : BoardActor) (add : Bool)
    (actor : BoardActor) (d : Data) : Result (BoardCard × Data) := do
  ensure (add = true → p.belongs assignee = true) (.board .invalid "assignee must belong to project")
  let c ← card d id
  if add = c.assignees.contains assignee then
    return (c, d)
  let assignees :=
    if add then c.assignees ++ [assignee] else c.assignees.filter (fun a => a ≠ assignee)
  let d ← history env (setCard d id (fun c => { c with assignees })) id
    (if add then .assigned else .unassigned) actor (.json (.obj (actorJson assignee)))
  return (← card d id, d)

def archiveCard (env : Env) (id : String) (archived : Bool) (actor : BoardActor) (override : Bool)
    (d : Data) : Result (BoardCard × Data) := do
  let c ← card d id
  if c.archived = archived then
    return (c, d)
  wipWhen (archived = false) d c.columnId override
  let d ← history env (setCard d id (fun c => { c with archived })) id
    (if archived then .archived else .unarchived) actor (overrideDetail override)
  return (← card d id, d)

def comment (env : Env) (id text : String) (actor : BoardActor) (d : Data) :
    Result (BoardComment × Data) := do
  let _ ← card d id
  ensure (trim text ≠ "" ∧ unitLength text ≤ 65536) (.board .invalid "invalid comment")
  let entry : BoardComment :=
    { id := seqId (d.comments.length + 1), cardId := id, author := actor, text
      createdAt := env.now }
  let comments ← push d.comments entry
  let d ← history env { d with comments } id .commented actor (.text entry.id)
  return (entry, d)

/-- The loop of `releaseAssignee`. -/
def release (env : Env) (owner : String) (assignee : BoardActor) :
    List BoardCard → Data → Result Data
  | [], d => .ok d
  | c :: cards, d => do
    if c.assignees.contains assignee = false then
      release env owner assignee cards d
    else
      let d := setCard d c.id (fun c =>
        { c with assignees := c.assignees.filter (fun a => a ≠ assignee) })
      let d ← history env d c.id .unassigned ⟨.person, owner⟩
        (.json (.obj (actorJson assignee ++ [("reason", .str "membership-removed")])))
      release env owner assignee cards d

def releaseAssignee (env : Env) (p : Project) (assignee : BoardActor) (d : Data) : Result Data :=
  release env p.owner assignee d.cards d

/-! ### Transactions -/

def Db.setBoard (db : Db) (projectId : String) (d : Data) : Db :=
  { db with boards := Function.update db.boards projectId (some d) }

def Db.setProject (db : Db) (projectId : String) (p : Project) : Db :=
  { db with projects := Function.update db.projects projectId (some p) }

def read (db : Db) (projectId : String) : Result (Project × Data) :=
  match db.projects projectId, db.boards projectId with
  | none, _ => .error (.board .notFound "project not found")
  | some _, none => .error (.board .notFound "board not found")
  | some p, some d => .ok (p, d)

/-- `#write`: the board is read, worked on and written back in one transaction. -/
def write (db : Db) (projectId : String) (fn : Project → Data → Result (α × Data)) :
    Result (α × Db) := do
  let (p, d) ← read db projectId
  ensure (p.archivedAt = none) (.board .archived "project archived")
  let (result, d) ← fn p d
  .ok (result, db.setBoard projectId d)

/-- `#live`. -/
def live (db : Db) (id : String) : Result Project :=
  match db.projects id with
  | none => .error (.collab .notFound ("project " ++ id ++ " not found") "project")
  | some p => do
    ensure (p.archivedAt = none) (.collab .archived ("project " ++ id ++ " is archived") "archived")
    .ok p

/-- The board the insert trigger creates. -/
def defaultBoard (projectId : String) : Data where
  columns :=
    [⟨projectId ++ ":backlog", none, some "project.board.backlog", 0, none⟩,
      ⟨projectId ++ ":in-progress", none, some "project.board.inProgress", 1, none⟩,
      ⟨projectId ++ ":review", none, some "project.board.review", 2, none⟩,
      ⟨projectId ++ ":done", none, some "project.board.done", 3, none⟩]
  cards := []
  activity := []
  comments := []

def createProject (env : Env) (name owner : String) (db : Db) : Result Db := do
  ensure (trim name ≠ "") (.collab .invalid "project name is required" "name")
  ensure (unitLength (trim name) ≤ 256)
    (.collab .invalid "project name is too long" "name")
  ensure (owner ≠ "") (.collab .invalid "owner is required" "owner")
  ensure (db.projects env.id = none ∧ db.boards env.id = none) .constraint
  .ok ((db.setProject env.id ⟨owner, [(owner, .lead)], [], none⟩).setBoard env.id
    (defaultBoard env.id))

def archiveProject (env : Env) (id : String) (db : Db) : Result Db :=
  match db.projects id with
  | none => .error (.collab .notFound ("project " ++ id ++ " not found") "project")
  | some p => .ok (db.setProject id { p with archivedAt := p.archivedAt.or (some env.now) })

/-- The insert of `addMember`: a member already there gets the new role. -/
def upsert (userId : String) (role : ProjectRole) :
    List (String × ProjectRole) → List (String × ProjectRole)
  | [] => [(userId, role)]
  | m :: members => if m.1 = userId then (userId, role) :: members else m :: upsert userId role members

def addMember (projectId userId : String) (role : ProjectRole) (db : Db) : Result Db := do
  ensure (userId ≠ "") (.collab .invalid "userId is required" "userId")
  let p ← live db projectId
  ensure (userId = p.owner → role = .lead)
    (.collab .conflict "the project owner must remain lead" "owner")
  .ok (db.setProject projectId { p with members := upsert userId role p.members })

def removeMember (env : Env) (projectId userId : String) (db : Db) : Result Db := do
  let p ← live db projectId
  ensure (userId ≠ p.owner) (.collab .conflict "the project owner cannot be removed" "owner")
  let p' := { p with members := p.members.filter (fun m => m.1 ≠ userId) }
  let (p', d) ← read (db.setProject projectId p') projectId
  let d ← releaseAssignee env p' ⟨.person, userId⟩ d
  .ok ((db.setProject projectId p').setBoard projectId d)

def addAgent (projectId agentId : String) (db : Db) : Result Db := do
  ensure (agentId ≠ "") (.collab .invalid "agentId is required" "agentId")
  let p ← live db projectId
  .ok (db.setProject projectId
    { p with agents := if agentId ∈ p.agents then p.agents else p.agents ++ [agentId] })

def removeAgent (env : Env) (projectId agentId : String) (db : Db) : Result Db := do
  let p ← live db projectId
  let p' := { p with agents := p.agents.filter (fun a => a ≠ agentId) }
  let (p', d) ← read (db.setProject projectId p') projectId
  let d ← releaseAssignee env p' ⟨.agent, agentId⟩ d
  .ok ((db.setProject projectId p').setBoard projectId d)

/-! ### Calls -/

/-- The mutations of one board. -/
inductive BoardOp
  | createColumn (input : ColumnInput)
  | updateColumn (id : String) (patch : ColumnPatch)
  | moveColumn (id : String) (position : Number)
  | deleteColumn (id : String) (target : Option String) (actor : BoardActor) (override : Bool)
  | createCard (input : CardInput) (actor : BoardActor) (override : Bool)
  | updateCard (id : String) (patch : CardPatch) (actor : BoardActor)
  | moveCard (id columnId : String) (position : Option Number) (actor : BoardActor)
      (override : Bool)
  | assign (id : String) (assignee : BoardActor) (add : Bool) (actor : BoardActor)
  | archiveCard (id : String) (archived : Bool) (actor : BoardActor) (override : Bool)
  | comment (id text : String) (actor : BoardActor)

/-- The board a mutation leaves. -/
def BoardOp.run (env : Env) (projectId : String) (p : Project) (d : Data) : BoardOp → Result Data
  | .createColumn input => Prod.snd <$> Board.createColumn env input d
  | .updateColumn id patch => Prod.snd <$> Board.updateColumn id patch d
  | .moveColumn id position => Prod.snd <$> Board.moveColumn id position d
  | .deleteColumn id target actor override =>
    Prod.snd <$> Board.deleteColumn env id target actor override d
  | .createCard input actor override =>
    Prod.snd <$> Board.createCard env projectId input actor override d
  | .updateCard id patch actor => Prod.snd <$> Board.updateCard env id patch actor d
  | .moveCard id columnId position actor override =>
    Prod.snd <$> Board.moveCard env id columnId position actor override d
  | .assign id assignee add actor => Prod.snd <$> Board.assign env p id assignee add actor d
  | .archiveCard id archived actor override =>
    Prod.snd <$> Board.archiveCard env id archived actor override d
  | .comment id text actor => Prod.snd <$> Board.comment env id text actor d

/-- Every call that changes a project or its board. -/
inductive Op
  | board (projectId : String) (op : BoardOp)
  | releaseAssignee (projectId : String) (assignee : BoardActor)
  | createProject (name owner : String)
  | archiveProject (id : String)
  | addMember (projectId userId : String) (role : ProjectRole)
  | removeMember (projectId userId : String)
  | addAgent (projectId agentId : String)
  | removeAgent (projectId agentId : String)

def Op.run (env : Env) (db : Db) : Op → Result Db
  | .board projectId op =>
    Prod.snd <$> write db projectId (fun p d => ((), ·) <$> op.run env projectId p d)
  | .releaseAssignee projectId assignee => do
    let (p, d) ← read db projectId
    return db.setBoard projectId (← Board.releaseAssignee env p assignee d)
  | .createProject name owner => Board.createProject env name owner db
  | .archiveProject id => Board.archiveProject env id db
  | .addMember projectId userId role => Board.addMember projectId userId role db
  | .removeMember projectId userId => Board.removeMember env projectId userId db
  | .addAgent projectId agentId => Board.addAgent projectId agentId db
  | .removeAgent projectId agentId => Board.removeAgent env projectId agentId db

/-- A call ends in a commit, or it throws and is rolled back. -/
def step (db : Db) (env : Env) (op : Op) : Db :=
  match op.run env db with
  | .ok db' => db'
  | .error _ => db

end Plur1bus.Board
