import Plur1bus.Approvals.Json
import Plur1bus.Language
import Plur1bus.Program.Numbering
import Plur1bus.Program.Outcome

/-!
The session store. Sessions, their turns, messages and events are rows of one
SQLite database; a session row carries the counters its messages, events and
turns are numbered with. Rewinds are overlays: a row says which range of
message numbers is off the active path and which message is the note left in
its place, and undoing a rewind dates the row and changes nothing else.

An operation is one transaction, so it is a function from the database to an
answer and a new database, and one that throws leaves the database as it was.
The constraints of the schema are part of the inserts: an insert that breaks
one throws. Rows are kept in the order of their insertion, as `rowid` orders
them.
-/

namespace Plur1bus.Session

open Program

/-! ### Failures -/

inductive ErrorCode | invalid | notFound | conflict | immutable | storage
  deriving DecidableEq, Repr

inductive Failure
  | session (code : ErrorCode) (message : String) (reason : Option String := none)
  /-- A statement that breaks a constraint of the schema. -/
  | constraint
  /-- A property read off a row that is not there. -/
  | missingRow
  /-- What the audit callback threw. -/
  | audit
  deriving DecidableEq, Repr

abbrev Result := Except Failure

/-! ### Rows -/

inductive SessionKind | direct | card | project | channel | acp
  deriving DecidableEq, Repr

def SessionKind.ofString? : String → Option SessionKind
  | "direct" => some .direct
  | "card" => some .card
  | "project" => some .project
  | "channel" => some .channel
  | "acp" => some .acp
  | _ => none

inductive SessionOrigin | mcp | a2a | acpAgent
  deriving DecidableEq, Repr

def SessionOrigin.ofString? : String → Option SessionOrigin
  | "mcp" => some .mcp
  | "a2a" => some .a2a
  | "acp-agent" => some .acpAgent
  | _ => none

inductive MemoryMode | remember | incognito
  deriving DecidableEq, Repr

inductive TurnState | running | completed | failed
  deriving DecidableEq, Repr

inductive MessageRole | system | user | assistant | tool
  deriving DecidableEq, Repr

inductive EventType
  | turnStarted | delta | toolCall | toolResult | turnCompleted | turnFailed
  | sessionModelChanged | decisionCompleted | modelSelected | compactionPrune | skillsSelected
  | sessionRewind | sessionRewindUndone | sessionRewindProposed
  deriving DecidableEq, Repr

inductive Trigger | user | agent
  deriving DecidableEq, Repr

def Trigger.ofString? : String → Option Trigger
  | "user" => some .user
  | "agent" => some .agent
  | _ => none

def Trigger.name : Trigger → String
  | .user => "user"
  | .agent => "agent"

inductive SummaryState | prepared | applied | superseded
  deriving DecidableEq, Repr

structure SessionRow where
  id : String
  kind : SessionKind
  agentId : String
  owner : String
  scope : String
  chatKey : Option String
  origin : Option SessionOrigin
  title : String
  memoryMode : MemoryMode
  createdAt : ℤ
  updatedAt : ℤ
  lastTurnAt : Option ℤ
  archivedAt : Option ℤ
  turnCount : ℕ
  lastMessageSeq : ℕ
  lastEventSeq : ℕ
  deriving DecidableEq, Repr

structure TurnRecord where
  id : String
  sessionId : String
  seq : ℕ
  state : TurnState
  startedAt : ℤ
  endedAt : Option ℤ
  error : Option String
  incognito : Bool
  deriving DecidableEq, Repr

structure MessageRecord where
  id : String
  sessionId : String
  turnId : Option String
  seq : ℕ
  role : MessageRole
  text : String
  tokens : ℕ
  createdAt : ℤ
  deriving DecidableEq, Repr

/-- The fields of an event's data object, in insertion order. -/
abbrev Fields := List (String × Json)

structure EventRecord where
  sessionId : String
  turnId : Option String
  seq : ℕ
  type : EventType
  data : Fields
  time : ℤ
  deriving DecidableEq, Repr

structure SummaryRecord where
  id : String
  sessionId : String
  fromSeq : ℕ
  toSeq : ℕ
  text : String
  tokens : ℕ
  tier : ℕ
  state : SummaryState
  createdAt : ℤ
  deriving DecidableEq, Repr

structure RewindRecord where
  id : String
  sessionId : String
  parentSeq : ℕ
  hiddenFromSeq : ℕ
  hiddenToSeq : ℕ
  lessonMessageId : Option String
  hiddenDigest : String
  trigger : Trigger
  actor : String
  createdAt : ℤ
  undoneAt : Option ℤ
  deriving DecidableEq, Repr

structure ProfileRow where
  sessionId : String
  profile : String
  revision : ℕ
  reasoning : Option String
  deriving DecidableEq, Repr

structure ErasureRow where
  id : String
  sessionId : String
  agentId : String
  owner : String
  kind : SessionKind
  messageCount : ℕ
  erasedAt : ℤ
  actor : String
  reason : String
  deriving DecidableEq, Repr

/-- The database, and the reservations that live in the process beside it. -/
structure Db where
  sessions : List SessionRow := []
  turns : List TurnRecord := []
  messages : List MessageRecord := []
  events : List EventRecord := []
  summaries : List SummaryRecord := []
  rewinds : List RewindRecord := []
  profiles : List ProfileRow := []
  erasures : List ErasureRow := []
  reservations : String → Option ℕ := fun _ => none

structure EditCycles where
  failedCycles : ℕ
  lastCheckSeq : ℕ
  pendingEdit : Bool

/-- What a call gets from outside the store. `newId p k` is the id drawn under
prefix `p` when `k` rows with such ids exist; `now k` and `stamp k` are the
clock readings an operation and an insert take when there are `k` messages and
events. The digest of a hidden range and the reading of the tool events are
functions of what they are given. -/
structure Env where
  newId : String → ℕ → String
  now : ℕ → ℤ
  stamp : ℕ → ℤ
  hiddenDigest : List MessageRecord → String
  failedEditCycles : List EventRecord → EditCycles

variable (env : Env) (db : Db)

/-! ### Reading -/

def Db.readings : ℕ := db.messages.length + db.events.length

def Db.now : ℤ := env.now db.readings

def Db.stamp : ℤ := env.stamp db.readings

def Db.getSession (id : String) : Option SessionRow := db.sessions.find? (·.id = id)

def Db.getTurn (id : String) : Option TurnRecord := db.turns.find? (·.id = id)

def Db.runningTurn (sessionId : String) : Option TurnRecord :=
  db.turns.find? (fun t => t.sessionId = sessionId ∧ t.state = .running)

def Db.messagesOf (sessionId : String) : List MessageRecord := db.messages.filter (·.sessionId = sessionId)

def Db.eventsOf (sessionId : String) : List EventRecord := db.events.filter (·.sessionId = sessionId)

def Db.turnsOf (sessionId : String) : List TurnRecord := db.turns.filter (·.sessionId = sessionId)

def Db.rewindsOf (sessionId : String) : List RewindRecord := db.rewinds.filter (·.sessionId = sessionId)

def Db.activeForChat (chatKey : String) : Option SessionRow :=
  db.sessions.find? (fun s => s.chatKey = some chatKey ∧ s.archivedAt = none)

def Db.rewindReserved (sessionId : String) : Bool := (db.reservations sessionId).isSome

/-- `json_extract(data,'$.provider')='harness-command'`. -/
def EventRecord.fromCommand (e : EventRecord) : Bool :=
  e.data.lookup "provider" = some (.str "harness-command")

def EventRecord.ofTurnBoundary (e : EventRecord) : Bool :=
  e.type = .turnStarted ∨ e.type = .turnCompleted ∨ e.type = .turnFailed

def Db.harnessCommandTurns (sessionId : String) : List String :=
  ((db.eventsOf sessionId).filter (fun e => e.ofTurnBoundary && e.fromCommand)).filterMap (·.turnId)

/-- Active messages in their order, without the ranges of live rewinds and the
lessons of undone ones. -/
def activePath (messages : List MessageRecord) (rewinds : List RewindRecord) : List MessageRecord :=
  let ranges := rewinds.filter (·.undoneAt = none)
  let obsoleteLessons := (rewinds.filter (·.undoneAt ≠ none)).filterMap (·.lessonMessageId)
  messages.filter (fun m => ¬m.id ∈ obsoleteLessons ∧
    ¬∃ r ∈ ranges, r.hiddenFromSeq ≤ m.seq ∧ m.seq ≤ r.hiddenToSeq)

/-- Whether a message belongs to no turn or to one that is no harness command. -/
def Db.plain (sessionId : String) (m : MessageRecord) : Bool :=
  ∀ t, m.turnId = some t → t ∉ db.harnessCommandTurns sessionId

def Db.contextMessages (sessionId : String) : List MessageRecord :=
  activePath ((byNumber (·.seq) (db.messagesOf sessionId)).filter (db.plain sessionId))
    (db.rewindsOf sessionId)

/-! ### Statements -/

/-- `UPDATE sessions SET … WHERE id = ?`. -/
def Db.setSession (id : String) (f : SessionRow → SessionRow) : Db :=
  { db with sessions := db.sessions.map (fun s => if s.id = id then f s else s) }

/-- `UPDATE turns SET … WHERE id = ?`. -/
def Db.setTurn (id : String) (f : TurnRecord → TurnRecord) : Db :=
  { db with turns := db.turns.map (fun t => if t.id = id then f t else t) }

/-- The unique index over the chat keys of unarchived sessions. -/
def Db.chatFree (s : SessionRow) : Prop := s.archivedAt = none → s.chatKey ≠ none →
    ∀ o ∈ db.sessions, o.id ≠ s.id → o.archivedAt = none → o.chatKey ≠ s.chatKey

instance (s : SessionRow) : Decidable (db.chatFree s) := by unfold Db.chatFree; infer_instance

def Db.insertSession (s : SessionRow) : Result Db := do
  ensure (∀ o ∈ db.sessions, o.id ≠ s.id) .constraint
  ensure (s.kind = .channel ↔ s.chatKey.isSome) .constraint
  ensure (db.chatFree s) .constraint
  return { db with sessions := db.sessions ++ [s] }

def Db.insertTurn (t : TurnRecord) : Result Db := do
  ensure (∀ o ∈ db.turns, o.id ≠ t.id) .constraint
  ensure (∀ o ∈ db.turns, o.sessionId = t.sessionId → o.seq ≠ t.seq) .constraint
  ensure (t.state = .running → db.runningTurn t.sessionId = none) .constraint
  return { db with turns := db.turns ++ [t] }

/-- A property of the session's row, which is read without asking whether the
row is there. -/
def Db.counter (sessionId : String) (f : SessionRow → ℕ) : Result ℕ :=
  match db.getSession sessionId with
  | some s => .ok (f s)
  | none => .error .missingRow

def Db.insertMessage (sessionId : String) (turnId : Option String) (role : MessageRole)
    (text : String) (tokens : ℕ) : Result (MessageRecord × Db) := do
  let seq := (← db.counter sessionId (·.lastMessageSeq)) + 1
  let m : MessageRecord := ⟨env.newId "msg" db.messages.length, sessionId, turnId, seq, role, text,
    tokens, db.stamp env⟩
  ensure (∀ o ∈ db.messages, o.id ≠ m.id) .constraint
  ensure (∀ o ∈ db.messages, o.sessionId = sessionId → o.seq ≠ seq) .constraint
  let db := db.setSession sessionId (fun s => { s with lastMessageSeq := seq })
  return (m, { db with messages := db.messages ++ [m] })

def Db.insertEvent (sessionId : String) (turnId : Option String) (type : EventType)
    (data : Fields) : Result (EventRecord × Db) := do
  let seq := (← db.counter sessionId (·.lastEventSeq)) + 1
  let e : EventRecord := ⟨sessionId, turnId, seq, type, data, db.stamp env⟩
  ensure (∀ o ∈ db.events, o.sessionId = sessionId → o.seq ≠ seq) .constraint
  let db := db.setSession sessionId (fun s => { s with lastEventSeq := seq })
  return (e, { db with events := db.events ++ [e] })

/-! ### Values -/

/-- The first `n` units of a string, as the database stores them: half of a
surrogate pair is stored as the replacement character. -/
def takeUnits : ℕ → List Char → List Char
  | 0, _ | _, [] => []
  | n + 1, c :: cs =>
    if c.toNat < 0x10000 then c :: takeUnits n cs
    else match n with
      | 0 => [Char.ofNat 0xfffd]
      | n + 1 => c :: takeUnits n cs

def MAX_TITLE : ℕ := 200

def cutTitle (title : String) : String := String.ofList (takeUnits MAX_TITLE title.toList)

/-- `Math.ceil(text.length / 4)`. -/
def quarter (text : String) : ℕ := (unitLength text + 3) / 4

/-- `{ ...a, ...b }`: a key that is there keeps its place. -/
def spread (a b : Fields) : Fields := b.foldl (fun acc f =>
    if acc.any (·.1 = f.1) then acc.map (fun g => if g.1 = f.1 then f else g) else acc ++ [f]) a

def num (n : ℕ) : Json := .num n

/-! ### Sessions -/

structure CreateSessionInput where
  kind : String
  agentId : String
  owner : String
  scope : Option String := none
  title : Option String := none
  memoryMode : Option MemoryMode := none
  chatKey : Option String := none
  replaceActive : Bool := false
  origin : Option String := none

def parseOrigin : Option String → Result (Option SessionOrigin)
  | none => .ok none
  | some o =>
    match SessionOrigin.ofString? o with
    | some origin => .ok (some origin)
    | none => .error (.session .invalid s!"unknown session origin {o}" "origin")

def parseKind (kind : String) : Result SessionKind :=
  match SessionKind.ofString? kind with
  | some k => .ok k
  | none => .error (.session .invalid s!"unknown session kind {kind}" "kind")

def alreadyActive (chatKey : String) : Failure :=
  .session .conflict s!"chat {chatKey} already has an active session" "active-chat-session"

def turnInProgress (id : String) : Failure :=
  .session .conflict s!"session {id} has a running turn" "turn-in-progress"

def archivedRow (now : ℤ) (s : SessionRow) : SessionRow :=
  { s with archivedAt := some now, updatedAt := now }

/-- The chat's active session gives way to the new one. -/
def replaceActive (now : ℤ) (i : CreateSessionInput) : Result Db :=
  match i.chatKey with
  | none => .ok db
  | some chatKey =>
    match db.activeForChat chatKey with
    | none => .ok db
    | some active => do
      ensure (i.replaceActive ∧ active.owner = i.owner) (alreadyActive chatKey)
      ensure (db.runningTurn active.id = none) (turnInProgress active.id)
      return db.setSession active.id (archivedRow now)

def createSession (i : CreateSessionInput) : Result (SessionRow × Db) := do
  let kind ← parseKind i.kind
  let origin ← parseOrigin i.origin
  ensure (i.agentId ≠ "") (.session .invalid "agentId is required" "agent")
  ensure (i.owner ≠ "") (.session .invalid "owner is required" "owner")
  ensure (¬(kind = .channel ∧ (i.chatKey = none ∨ i.chatKey = some "")))
    (.session .invalid "a channel session needs a chatKey" "chat-key")
  ensure (¬(kind ≠ .channel ∧ i.chatKey.isSome))
    (.session .invalid "only a channel session has a chatKey" "chat-key")
  let now := db.now env
  let s : SessionRow := ⟨env.newId "ses" db.sessions.length, kind, i.agentId, i.owner,
    i.scope.getD "user", i.chatKey, origin, cutTitle (i.title.getD ""),
    i.memoryMode.getD .remember, now, now, none, none, 0, 0, 0⟩
  let db ← replaceActive db now i
  let db ← db.insertSession s
  return (s, db)

structure ContinuationInput where
  agentId : String
  owner : String
  title : String
  context : String

def createContinuation (i : ContinuationInput) : Result (SessionRow × Db) := do
  ensure (unitLength i.context ≤ 8000) (.session .invalid "invalid continuation" "context")
  let (session, db) ← createSession env db
    { kind := "direct", agentId := i.agentId, owner := i.owner, title := some i.title }
  let (_, db) ← db.insertMessage env session.id none .user i.context (quarter i.context)
  return (session, db)

def requireSession (id : String) (message : String) (reason : Option String := none) : Result SessionRow :=
  match db.getSession id with
  | some s => .ok s
  | none => .error (.session .notFound message reason)

def archiveSession (id : String) : Result Db := do
  let s ← requireSession db id s!"session {id} not found" "session"
  if s.archivedAt.isSome then
    return db
  ensure (db.runningTurn id = none) (turnInProgress id)
  return db.setSession id (archivedRow (db.now env))

def restoreSession (id : String) : Result Db := do
  let session ← requireSession db id "session not found"
  ensure (session.kind = .direct) (.session .invalid "only direct chats can be restored")
  ensure (db.chatFree { session with archivedAt := none }) .constraint
  return db.setSession id (fun s => { s with archivedAt := none, updatedAt := db.now env })

/-- The messages of a fork, one after the other. A lesson becomes a user message. -/
def forkMessages (next : String) (lessons : List (Option String)) : List MessageRecord → Db → Result Db
  | [], db => .ok db
  | m :: ms, db => do
    let role := if some m.id ∈ lessons then .user else m.role
    let (_, db) ← db.insertMessage env next none role m.text m.tokens
    forkMessages next lessons ms db

def forkSession (id : String) (title : Option String) (beforeSeq : Option ℤ) :
    Result (SessionRow × Db) := do
  let source ← requireSession db id "session not found"
  ensure (source.kind = .direct) (.session .invalid "only direct chats can be forked")
  let (next, created) ← createSession env db
    { kind := "direct", agentId := source.agentId, owner := source.owner,
      title := some (title.getD source.title), memoryMode := some source.memoryMode }
  let lessons := (created.rewindsOf id).map (·.lessonMessageId)
  let copied := (created.contextMessages id).filter (fun m => beforeSeq.all ((m.seq : ℤ) ≤ ·))
  let db ← forkMessages env next.id lessons copied created
  return (next, db)

/-- The rows that go with a session; its model profile goes by cascade. -/
def Db.deleteSession (id : String) : Db := { db with
    rewinds := db.rewinds.filter (·.sessionId ≠ id)
    summaries := db.summaries.filter (·.sessionId ≠ id)
    events := db.events.filter (·.sessionId ≠ id)
    messages := db.messages.filter (·.sessionId ≠ id)
    turns := db.turns.filter (·.sessionId ≠ id)
    sessions := db.sessions.filter (·.id ≠ id)
    profiles := db.profiles.filter (·.sessionId ≠ id) }

def eraseSession (id actor reason : String) : Result Db := do
  ensure (actor ≠ "" ∧ reason ≠ "")
    (.session .invalid "an erasure needs an actor and a reason" "erasure-audit")
  let s ← requireSession db id s!"session {id} not found" "session"
  ensure s.archivedAt.isSome
    (.session .conflict "erasure requires the session to be archived first (archive-first)"
      "not-archived")
  let tombstone : ErasureRow := ⟨env.newId "era" db.erasures.length, id, s.agentId, s.owner, s.kind,
    (db.messagesOf id).length, db.now env, actor, reason⟩
  ensure (∀ o ∈ db.erasures, o.id ≠ tombstone.id) .constraint
  return { db.deleteSession id with erasures := db.erasures ++ [tombstone] }

structure ModelDetails where
  model : String
  displayName : Option String
  effectiveReasoning : Option String

/-- `...(value ? { key: value } : {})`. -/
def optionalField (key : String) : Option String → Fields
  | none | some "" => []
  | some value => [(key, .str value)]

def Db.modelProfile (sessionId : String) : Option ProfileRow := db.profiles.find? (·.sessionId = sessionId)

/-- `INSERT … ON CONFLICT(session_id) DO UPDATE`. -/
def Db.setProfile (row : ProfileRow) : Db :=
  { db with profiles := db.profiles.filter (·.sessionId ≠ row.sessionId) ++ [row] }

def modelChanged (row : ProfileRow) (person : String) (modelDetails : Option ModelDetails)
    (afterMessageSeq : ℕ) : Fields :=
  [("profile", .str row.profile), ("model", .str ((modelDetails.map (·.model)).getD row.profile))]
    ++ optionalField "displayName" (modelDetails.bind (·.displayName))
    ++ optionalField "effectiveReasoning" (modelDetails.bind (·.effectiveReasoning))
    ++ [("reasoning", .str (row.reasoning.getD "default")), ("person", .str person),
      ("revision", num row.revision), ("afterMessageSeq", num afterMessageSeq)]

def sessionBusy : Failure :=
  .session .conflict "model switch requires an idle direct session" "session-busy"

/-- The session whose model may be switched now. -/
def switchable (sessionId : String) : Result SessionRow :=
  match db.getSession sessionId with
  | none => .error sessionBusy
  | some session => do
    ensure (session.kind = .direct ∧ session.archivedAt = none ∧ db.runningTurn sessionId = none)
      sessionBusy
    return session

def setModelProfile (sessionId profile : String) (expectedRevision : ℕ)
    (reasoning : Option (Option String)) (person : Option String)
    (modelDetails : Option ModelDetails) : Result (ℕ × Db) := do
  let session ← switchable db sessionId
  let current := ((db.modelProfile sessionId).map (·.revision)).getD 0
  ensure (current = expectedRevision)
    (.session .conflict "model switch preview is stale" "stale-model-preview")
  let row : ProfileRow := ⟨sessionId, profile, current + 1,
    reasoning.getD ((db.modelProfile sessionId).bind (·.reasoning))⟩
  let db := db.setProfile row
  let afterMessageSeq ← db.counter sessionId (·.lastMessageSeq)
  let (_, db) ← db.insertEvent env sessionId none .sessionModelChanged
    (modelChanged row (person.getD session.owner) modelDetails afterMessageSeq)
  return (row.revision, db)

/-! ### Turns -/

def turnStarted (turnId : String) (seq : ℕ) (messageId : String) (harnessCommand : Bool)
    (channelOrigin : Option Json) : Fields :=
  [("turnId", .str turnId), ("turnSeq", num seq), ("messageId", .str messageId)]
    ++ (if harnessCommand then [("provider", .str "harness-command")] else [])
    ++ (match channelOrigin with
      | none => []
      | some origin => [("channelOrigin", origin)])

/-- The running turn, the user's message and `turn.started`, in one transaction. -/
def beginTurn (sessionId text : String) (tokens : ℕ) (harnessCommand : Bool)
    (channelOrigin : Option Json) : Result (String × Db) := do
  let s ← requireSession db sessionId s!"session {sessionId} not found" "session"
  ensure (s.archivedAt = none)
    (.session .conflict s!"session {sessionId} is archived" "archived")
  ensure (db.rewindReserved sessionId = false)
    (.session .conflict "file rewind is awaiting or applying approval" "rewind-in-progress")
  ensure (db.runningTurn sessionId = none)
    (.session .conflict s!"session {sessionId} already has a running turn" "turn-in-progress")
  let now := db.now env
  let t : TurnRecord := ⟨env.newId "trn" db.turns.length, sessionId, s.turnCount + 1, .running, now,
    none, none, s.memoryMode = .incognito⟩
  let db ← db.insertTurn t
  let db := db.setSession sessionId
    (fun s => { s with turnCount := t.seq, lastTurnAt := some now, updatedAt := now })
  let (m, db) ← db.insertMessage env sessionId (some t.id) .user text tokens
  let (_, db) ← db.insertEvent env sessionId (some t.id) .turnStarted
    (turnStarted t.id t.seq m.id harnessCommand channelOrigin)
  return (t.id, db)

def Db.touch (sessionId : String) (now : ℤ) : Db :=
  db.setSession sessionId (fun s => { s with updatedAt := now })

/-- The turn, where it is still running. -/
def Db.running? (turnId : String) : Option TurnRecord := (db.getTurn turnId).filter (·.state = .running)

/-- `none` when the turn was not running. -/
def completeTurn (turnId text : String) (tokens : ℕ) (data : Fields) : Result (Option MessageRecord × Db) :=
  match db.running? turnId with
  | none => .ok (none, db)
  | some t => do
    let now := db.now env
    let (m, db) ← db.insertMessage env t.sessionId (some turnId) .assistant text tokens
    let db := db.setTurn turnId (fun t => { t with state := .completed, endedAt := some now })
    let db := db.touch t.sessionId now
    let (_, db) ← db.insertEvent env t.sessionId (some turnId) .turnCompleted
      (spread [("turnId", .str turnId), ("messageId", .str m.id)] data)
    return (some m, db)

def failTurn (turnId error : String) (data : Fields) : Result (Option EventRecord × Db) :=
  match db.running? turnId with
  | none => .ok (none, db)
  | some t => do
    let now := db.now env
    let db := db.setTurn turnId
      (fun t => { t with state := .failed, endedAt := some now, error := some error })
    let db := db.touch t.sessionId now
    let (e, db) ← db.insertEvent env t.sessionId (some turnId) .turnFailed
      (spread [("turnId", .str turnId), ("error", .str error)] data)
    return (some e, db)

/-- The turns left running, each failed in a transaction of its own: where one
throws, those before it stay failed. -/
def recoverTurns : List String → Db → Db × Result Unit
  | [], db => (db, .ok ())
  | id :: ids, db =>
    match failTurn env db id "core-restarted" [("recovered", .bool true)] with
    | .ok (_, db) => recoverTurns ids db
    | .error e => (db, .error e)

def recoverRunningTurns : Db × Result Unit :=
  let running := db.turns.filter (·.state = .running)
  let sorted := running.insertionSort (fun a b =>
    a.startedAt < b.startedAt ∨ a.startedAt = b.startedAt ∧ a.id ≤ b.id)
  recoverTurns env (sorted.map (·.id)) db

def appendEvent (turnId : String) (type : EventType) (data : Fields) : Result (EventRecord × Db) :=
  match db.getTurn turnId with
  | none => .error (.session .notFound s!"turn {turnId} not found" "turn")
  | some t => do
    ensure (t.state = .running)
      (.session .conflict s!"turn {turnId} is not running" "turn-not-running")
    db.insertEvent env t.sessionId (some turnId) type data

/-! ### Rewinds -/

def rewindIdle (sessionId : String) (commandTurnId : Option String) (reservation : Option ℕ) :
    Result Unit := do
  let session ← requireSession db sessionId "session not found" "session"
  ensure (session.archivedAt = none) (.session .conflict "session is archived" "archived")
  ensure (∀ token, db.reservations sessionId = some token → reservation = some token)
    (.session .conflict "file rewind is awaiting or applying approval" "rewind-in-progress")
  ensure (∀ t, db.runningTurn sessionId = some t → some t.id = commandTurnId)
    (.session .conflict "rewind requires an idle session" "turn-running")

/-- A turn none of whose messages is off the active path. -/
def Db.turnActive (t : TurnRecord) : Bool :=
  ¬∃ m ∈ db.messages, m.turnId = some t.id ∧ m.sessionId = t.sessionId ∧
    ∃ r ∈ db.rewinds, r.sessionId = m.sessionId ∧
      ((r.undoneAt = none ∧ r.hiddenFromSeq ≤ m.seq ∧ m.seq ≤ r.hiddenToSeq) ∨
        (r.undoneAt ≠ none ∧ r.lessonMessageId = some m.id))

def Db.contextToolEvents (sessionId : String) : List EventRecord :=
  byNumber (·.seq) ((db.eventsOf sessionId).filter (fun e =>
    (e.type = .toolCall ∨ e.type = .toolResult) ∧
      ∃ t ∈ db.turns, e.turnId = some t.id ∧ t.sessionId = e.sessionId ∧ db.turnActive t))

def EventRecord.ofRewind (e : EventRecord) : Bool :=
  e.type = .sessionRewindProposed ∨ e.type = .sessionRewind ∨ e.type = .sessionRewindUndone

def asNum? : Option Json → Option ℤ
  | some (.num n) => some n
  | _ => none

def asText? : Option Json → Option String
  | some (.str s) => some s
  | _ => none

/-- The check the newest proposal that still stands was made after. -/
def rewindProposal (sessionId : String) : Option ℤ := do
  let newest ← (byNumber (·.seq) ((db.eventsOf sessionId).filter (·.ofRewind))).getLast?
  let cycles := env.failedEditCycles (db.contextToolEvents sessionId)
  let lastCheckSeq ← asNum? (newest.data.lookup "lastCheckSeq")
  guard (lastCheckSeq = cycles.lastCheckSeq)
  guard (3 ≤ cycles.failedCycles)
  guard (cycles.pendingEdit = false)
  let _ ← asNum? (newest.data.lookup "parentSeq")
  let _ ← asNum? (newest.data.lookup "failedCycles")
  let _ ← asText? (newest.data.lookup "agentId")
  return lastCheckSeq

structure Proposal where
  parentSeq : ℕ
  failedCycles : ℕ
  lastCheckSeq : ℕ
  agentId : String

def proposeRewind (sessionId : String) (p : Proposal) : Result Db := do
  rewindIdle db sessionId none none
  if rewindProposal env db sessionId = some (p.lastCheckSeq : ℤ) then
    return db
  let (_, db) ← db.insertEvent env sessionId none .sessionRewindProposed
    [("parentSeq", num p.parentSeq), ("failedCycles", num p.failedCycles),
      ("lastCheckSeq", num p.lastCheckSeq), ("agentId", .str p.agentId)]
  return db

inductive Target
  | last
  | seq (n : Number)

structure Plan where
  parentSeq : ℕ
  hiddenFromSeq : ℕ
  hiddenToSeq : ℕ
  messages : List MessageRecord
  eventSeq : ℕ

/-- The message before the newest turn's first one: `0` where there is none,
nothing where no turn is on the path. -/
def lastTarget (active : List MessageRecord) : Option ℕ := do
  let newest ← active.reverse.find? (·.turnId.isSome)
  let first ← active.find? (·.turnId = newest.turnId)
  return ((active.reverse.find? (·.seq < first.seq)).map (·.seq)).getD 0

def Target.seq? (active : List MessageRecord) : Target → Option ℕ
  | .last => lastTarget active
  | .seq n => n.safeFrom 0

def badTarget : Failure := .session .invalid "rewind target must be on the active path" "rewind-target"

def targetSeq (active : List MessageRecord) (toSeq : Target) : Result ℕ :=
  match toSeq.seq? active with
  | none => .error badTarget
  | some p => do
    ensure (p = 0 ∨ ∃ m ∈ active, m.seq = p) badTarget
    return p

def lastSeq (active : List MessageRecord) (from' : ℕ) : Result ℕ :=
  match active.getLast? with
  | none => .error (.session .invalid "rewind range is empty" "rewind-empty")
  | some m => do
    ensure (from' ≤ m.seq) (.session .invalid "rewind range is empty" "rewind-empty")
    return m.seq

def planRewind (sessionId : String) (toSeq : Target) (commandTurnId : Option String)
    (reservation : Option ℕ) : Result Plan := do
  rewindIdle db sessionId commandTurnId reservation
  let active := (db.contextMessages sessionId).filter
    (fun m => ∀ t, commandTurnId = some t → m.turnId ≠ some t)
  let parentSeq ← targetSeq active toSeq
  let hiddenFromSeq := parentSeq + 1
  let hiddenToSeq ← lastSeq active hiddenFromSeq
  let messages := byNumber (·.seq) ((db.messagesOf sessionId).filter
    (fun m => hiddenFromSeq ≤ m.seq ∧ m.seq ≤ hiddenToSeq))
  let eventSeq ← db.counter sessionId (·.lastEventSeq)
  return ⟨parentSeq, hiddenFromSeq, hiddenToSeq, messages, eventSeq⟩

/-- `audit` is `some false` where the callback throws. -/
structure RewindInput where
  toSeq : Target
  lesson : String
  actor : String
  trigger : String
  expectedEventSeq : Option ℕ := none
  audit : Option Bool := none
  commandTurnId : Option String := none
  reservation : Option ℕ := none

def badLesson : Failure :=
  .session .invalid "rewind needs an actor and a lesson of at most 400 estimated tokens"
    "rewind-lesson"

def parseTrigger (trigger : String) : Result Trigger :=
  match Trigger.ofString? trigger with
  | some t => .ok t
  | none => .error badLesson

def Db.insertRewind (r : RewindRecord) : Result Db := do
  ensure (∀ o ∈ db.rewinds, o.id ≠ r.id) .constraint
  return { db with rewinds := db.rewinds ++ [r] }

def rewindDetail (r : RewindRecord) : Fields :=
  [("sessionId", .str r.sessionId), ("rewindId", .str r.id), ("parentSeq", num r.parentSeq),
    ("hiddenFrom", num r.hiddenFromSeq), ("hiddenTo", num r.hiddenToSeq),
    ("trigger", .str r.trigger.name), ("actor", .str r.actor), ("hiddenDigest", .str r.hiddenDigest)]

def rewindPath (sessionId : String) (input : RewindInput) : Result (RewindRecord × Db) := do
  ensure (input.actor ≠ "") badLesson
  let trigger ← parseTrigger input.trigger
  ensure (trim input.lesson ≠ "" ∧ unitLength input.lesson ≤ 1600) badLesson
  let plan ← planRewind db sessionId input.toSeq input.commandTurnId input.reservation
  ensure (∀ n, input.expectedEventSeq = some n → plan.eventSeq = n)
    (.session .conflict "session changed during rewind; retry on the current path" "rewind-stale")
  let at' := db.now env
  let id := env.newId "rew" db.rewinds.length
  let digest := env.hiddenDigest plan.messages
  ensure (input.audit ≠ some false) .audit
  let (lesson, db) ← db.insertMessage env sessionId none .system input.lesson (quarter input.lesson)
  let r : RewindRecord := ⟨id, sessionId, plan.parentSeq, plan.hiddenFromSeq, plan.hiddenToSeq,
    some lesson.id, digest, trigger, input.actor, at', none⟩
  let db ← db.insertRewind r
  let db := db.touch sessionId at'
  let (_, db) ← db.insertEvent env sessionId none .sessionRewind
    (rewindDetail r ++ [("lessonMessageId", .str lesson.id)])
  return (r, db)

def Db.findRewind (sessionId rewindId : String) : Result RewindRecord :=
  match db.rewinds.find? (fun r => r.sessionId = sessionId ∧ r.id = rewindId) with
  | some r => .ok r
  | none => .error (.session .notFound "rewind not found" "rewind")

/-- `UPDATE path_rewinds SET undone_at = ? WHERE id = ?`. -/
def Db.setUndone (id : String) (at' : ℤ) : Db :=
  { db with rewinds := db.rewinds.map (fun r => if r.id = id then { r with undoneAt := some at' } else r) }

def undoRewind (sessionId rewindId actor : String) (audit : Option Bool)
    (commandTurnId : Option String) : Result Db := do
  rewindIdle db sessionId commandTurnId none
  let rewind ← db.findRewind sessionId rewindId
  ensure (actor ≠ "") (.session .invalid "undo needs an actor" "rewind-actor")
  if rewind.undoneAt.isSome then
    return db
  ensure (audit ≠ some false) .audit
  let at' := db.now env
  let db := (db.setUndone rewindId at').touch sessionId at'
  let (_, db) ← db.insertEvent env sessionId none .sessionRewindUndone
    [("sessionId", .str sessionId), ("rewindId", .str rewindId), ("actor", .str actor),
      ("hiddenDigest", .str rewind.hiddenDigest)]
  return db

def reserveRewind (sessionId : String) (commandTurnId : Option String) (token : ℕ) : Result Db := do
  rewindIdle db sessionId commandTurnId none
  return { db with reservations := Function.update db.reservations sessionId (some token) }

/-- Releasing a token that no longer holds the reservation does nothing. -/
def releaseRewind (sessionId : String) (token : ℕ) : Db := if db.reservations sessionId = some token then
    { db with reservations := Function.update db.reservations sessionId none }
  else db

end Plur1bus.Session
