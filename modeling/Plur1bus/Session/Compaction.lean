import Plur1bus.Session.Store
import Plur1bus.Program.Value
import Plur1bus.Engine.Tombstone
import Mathlib.Algebra.Order.Ring.Rat
import Mathlib.Data.Rat.Floor

/-!
The context of a model call. A view of a session holds the applied summaries and
the messages they do not cover, each cut to a size, with its count of tokens; a
view above the hard limit is brought down by a new summary, then by leaving out
its oldest messages, and last by cutting the newest message alone.

A text of a view is its UTF-16 units, a stored one a string. Numbers of the
configuration and the token factors are rationals. What the pruner shows of the
tool calls is a parameter, as is the text of a call without a result; while a
call awaits its checkpoint, and when it comes back, the store may be any other.
-/

namespace Plur1bus.Session

open Program (Units)

/-! ### Texts -/

/-- What the database keeps of a text. -/
def storedText (text : Units) : String := String.ofList (Engine.toUtf8Lossy text)

/-- `Math.ceil(text.length / 4)`. -/
def estimateTokens (text : Units) : ℕ := (text.length + 3) / 4

structure Truncated where
  text : Units
  truncated : Bool

def truncateWithPointer (text : Units) (maxTokens : ℕ) (pointer : String) : Truncated :=
  if estimateTokens text ≤ maxTokens then ⟨text, false⟩
  else
    let note := Program.units
      ("\n[truncated " ++ toString text.length ++ " chars; " ++ pointer ++ "]")
    let room := maxTokens * 4 - note.length
    ⟨(text.take room ++ note).take (maxTokens * 4), true⟩

def newline : UInt16 := 10

def joinLines (lines : List Units) : Units := [newline].intercalate lines

def elided (dropped : ℕ) : Units := Program.units ("[… " ++ toString dropped ++ " earlier lines elided]")

/-- Leaves out lines from the front until the rest fits with its marker. -/
def fitLines (maxTokens : ℕ) : List Units → ℕ → List Units × ℕ
  | [], dropped => ([], dropped)
  | line :: lines, dropped =>
      if estimateTokens (joinLines (elided dropped :: line :: lines)) > maxTokens then
        fitLines maxTokens lines (dropped + 1)
      else (line :: lines, dropped)

def fitTail (text : Units) (maxTokens : ℕ) : Units :=
  if estimateTokens text ≤ maxTokens then text
  else
    let fitted := fitLines maxTokens (text.splitOn newline) 0
    let out := joinLines (elided fitted.2 :: fitted.1)
    if estimateTokens out ≤ maxTokens then out else out.take (maxTokens * 4)

def LINE_CHARS : ℕ := 160

def isWhiteUnit (u : UInt16) : Bool := isWhite (Char.ofNat u.toNat)

/-- Runs of white space become one blank. -/
def oneLine (text : Units) : Units := [0x20].intercalate ((text.splitOnP isWhiteUnit).filter (· ≠ []))

def roleName : MessageRole → String
  | .system => "system"
  | .user => "user"
  | .assistant => "assistant"
  | .tool => "tool"

/-! ### Configuration -/

/-- A configuration that the constructor takes. -/
structure CompactionConfig where
  windowTokens : ℕ
  softRatio : ℚ
  hardRatio : ℚ
  summaryMaxTokens : ℕ
  maxMessageTokens : ℕ
  windowTokens_pos : 0 < windowTokens
  softRatio_pos : 0 < softRatio
  soft_lt_hard : softRatio < hardRatio
  hardRatio_lt_one : hardRatio < 1

/-- The configuration with the window of a model. -/
def CompactionConfig.withWindow (cfg : CompactionConfig) (window : ℕ) (h : 0 < window) : CompactionConfig :=
  { cfg with
    windowTokens := window
    windowTokens_pos := h
    summaryMaxTokens := min cfg.summaryMaxTokens ⌊(window : ℚ) * (15 / 100)⌋₊
    maxMessageTokens := min cfg.maxMessageTokens ⌊(window : ℚ) * (1 / 10)⌋₊ }

def CompactionConfig.hardLimit (cfg : CompactionConfig) : ℕ := ⌊cfg.windowTokens * cfg.hardRatio⌋₊

/-! ### Stores and views -/

structure Usage where
  messageId : String
  model : String
  tokens : ℤ

/-- The session store with what was measured: tokens of messages, and a factor
for each model. -/
structure Store where
  db : Db
  messageUsage : List Usage
  tokenCalibration : String → Option {q : ℚ // 0 < q}

def Store.tokenFactor (s : Store) (model : String) : ℚ :=
  ((s.tokenCalibration model).map Subtype.val).getD 1

/-- The tokens of a message that were measured for the model, if the message
has this text. -/
def Store.measured (s : Store) (id model : String) (text : Units) : Option ℤ :=
  (s.messageUsage.find? (fun u => u.messageId = id ∧ u.model = model ∧
    ∃ m ∈ s.db.messages, m.id = id ∧ m.text = storedText text)).map Usage.tokens

/-- A tool call with its result, as the pruner shows it. -/
structure ToolPair where
  ref : String
  turnId : String
  callId : String
  callName : String
  resultSeq : ℕ
  resultIsError : Bool
  text : Units
  hidden : Bool
  restored : Bool
  reason : Option String

structure ToolCall where
  id : String
  name : String
  whole : Bool

structure ViewMessage where
  id : String
  role : MessageRole
  text : Units
  seq : ℕ
  turnId : Option String
  toolCall : Option ToolCall := none

inductive Checkpoint | done | failed | skipped
  deriving DecidableEq

structure Swap where
  swapped : Bool
  range : Option (ℕ × ℕ) := none
  checkpoint : Option Checkpoint := none

structure ContextView where
  summaries : List SummaryRecord
  messages : List ViewMessage
  tokens : ℤ
  hidden : List (String × Option String)
  clipped : ℕ
  swap : Swap := ⟨false, none, none⟩
  tokensBefore : Option ℤ := none
  tokensAfter : Option ℤ := none

/-- What a compactor is made of and was told of the sessions' models. -/
structure Compactor where
  cfg : CompactionConfig
  models : String → Option (String × Option {n : ℕ // 0 < n})
  env : Env
  pruned : Store → String → List ToolPair
  pendingText : EventRecord → Units
  /-- The checkpoint before a swap, and the store that is found after it. -/
  beforeSwap : Option (Store → Checkpoint × Store)
  resumed : Store → Store

namespace Compactor

variable (c : Compactor)

def modelOf (sessionId : String) : String := ((c.models sessionId).map Prod.fst).getD ""

def configFor (sessionId : String) : CompactionConfig :=
  match c.models sessionId with
  | some (_, some window) => c.cfg.withWindow window.1 window.2
  | _ => c.cfg

def hardLimit (sessionId : String) : ℕ := (c.configFor sessionId).hardLimit

/-- `TokenMeter.count`. -/
def meterCount (s : Store) (model : String) (text : Units) (measured : Option ℤ) : ℕ :=
  match measured with
  | some tokens =>
      if 0 ≤ tokens ∧ tokens ≤ MAX_SAFE_INTEGER then tokens.toNat
      else ⌈(estimateTokens text : ℚ) * s.tokenFactor model⌉₊
  | none => ⌈(estimateTokens text : ℚ) * s.tokenFactor model⌉₊

def count (s : Store) (sessionId : String) (text : Units) (id : Option String := none) : ℕ :=
  let model := c.modelOf sessionId
  meterCount s model text (id.bind (fun id => s.measured id model text))

/-! ### Summaries of a session -/

/-- `ORDER BY from_seq, tier`. -/
def listSummaries (s : Store) (sessionId : String) (state : SummaryState) : List SummaryRecord :=
  Program.byNumber (·.fromSeq) (Program.byNumber (·.tier)
    (s.db.summaries.filter (fun m => m.sessionId = sessionId ∧ m.state = state)))

/-- The ranges that no summary may touch: live rewinds, and the lessons of
undone ones. -/
def summaryRewinds (s : Store) (sessionId : String) : List (ℕ × ℕ) :=
  (s.db.rewindsOf sessionId).flatMap (fun r =>
    if r.undoneAt = none then [(r.hiddenFromSeq, r.hiddenToSeq)]
    else ((s.db.messages.find? (fun m => some m.id = r.lessonMessageId)).map
      (fun m => (m.seq, m.seq))).toList)

def rangeActive (ranges : List (ℕ × ℕ)) (fromSeq toSeq : ℕ) : Bool :=
  !ranges.any (fun r => fromSeq ≤ r.2 && r.1 ≤ toSeq)

def activeSummaries (summaries : List SummaryRecord) (ranges : List (ℕ × ℕ)) : List SummaryRecord :=
  summaries.filter (fun m => rangeActive ranges m.fromSeq m.toSeq)

def applied (s : Store) (sessionId : String) : List SummaryRecord :=
  let summaries := activeSummaries (listSummaries s sessionId .applied) (summaryRewinds s sessionId)
  summaries.filter (fun m => !summaries.any (fun other =>
    other.id ≠ m.id && other.fromSeq ≤ m.fromSeq && m.toSeq ≤ other.toSeq &&
      (other.fromSeq < m.fromSeq || m.toSeq < other.toSeq)))

def prepared (s : Store) (sessionId : String) : List SummaryRecord :=
  activeSummaries (listSummaries s sessionId .prepared) (summaryRewinds s sessionId)

def covered (summaries : List SummaryRecord) (seq : ℕ) : Bool :=
  summaries.any (fun m => m.fromSeq ≤ seq && seq ≤ m.toSeq)

/-- The end of the prefix that the sorted summaries cover without a gap. -/
def coveredPrefix : List SummaryRecord → ℕ → ℕ
  | [], afterSeq => afterSeq
  | m :: rest, afterSeq =>
      if m.fromSeq > afterSeq + 1 then afterSeq else coveredPrefix rest (max afterSeq m.toSeq)

/-! ### The view -/

def SKILL_LOAD : String := "skill.load"

def MAX_WHOLE_SKILL_PAIR_CHARS : ℕ := 256 * 1024

def messageView (cfg : CompactionConfig) (lessons : List (Option String)) (m : MessageRecord) :
    ViewMessage × Bool :=
  let t := truncateWithPointer (Program.units m.text) cfg.maxMessageTokens
    ("full text is message " ++ m.id ++ " in the session transcript")
  (⟨m.id, if lessons.any (· = some m.id) then .user else m.role, t.text, m.seq, m.turnId, none⟩, t.truncated)

def pairView (cfg : CompactionConfig) (first : MessageRecord) (pair : ToolPair) : ViewMessage × Bool :=
  let keepWhole := pair.callName = SKILL_LOAD ∧ pair.hidden = false ∧ pair.resultIsError = false ∧
    pair.text.length ≤ MAX_WHOLE_SKILL_PAIR_CHARS
  let t := if keepWhole then ⟨pair.text, false⟩
    else truncateWithPointer pair.text cfg.maxMessageTokens
      ("originals " ++ pair.ref ++ ", event:" ++ toString pair.resultSeq)
  (⟨pair.ref, .tool, t.text, first.seq, some pair.turnId,
    some ⟨pair.callId, pair.callName, !pair.hidden && !t.truncated⟩⟩, t.truncated)

def callView (cfg : CompactionConfig) (first : MessageRecord) (call : EventRecord) : ViewMessage × Bool :=
  let ref := "event:" ++ toString call.seq
  let t := truncateWithPointer (c.pendingText call) cfg.maxMessageTokens ("original call " ++ ref)
  (⟨ref, .tool, t.text, first.seq, call.turnId, none⟩, t.truncated)

def tokensOf (s : Store) (sessionId : String) (summaries : List SummaryRecord)
    (messages : List ViewMessage) : ℕ :=
  (summaries.map (fun m => c.count s sessionId (Program.units m.text))).sum +
    (messages.map (fun m => c.count s sessionId m.text (some m.id))).sum

def view (s : Store) (sessionId : String) : ContextView :=
  let cfg := c.configFor sessionId
  let summaries := applied s sessionId
  let pairs := c.pruned s sessionId
  let afterSeq := if pairs.any (·.restored) then 0
    else coveredPrefix (Program.byNumber (·.fromSeq) summaries) 0
  let source := (s.db.contextMessages sessionId).filter (fun m => m.seq > afterSeq)
  let lessons := (s.db.rewindsOf sessionId).map (·.lessonMessageId)
  let plain := (source.filter (fun m => !covered summaries m.seq)).map (messageView cfg lessons)
  let shown := pairs.filterMap (fun pair =>
    match source.find? (fun m => m.turnId = some pair.turnId) with
    | some first => if covered summaries first.seq && !pair.restored then none
        else some (pairView cfg first pair)
    | none => none)
  let refs := pairs.map (·.ref)
  let pending := (s.db.contextToolEvents sessionId).filterMap (fun call =>
    if call.type ≠ .toolCall ∨ ("event:" ++ toString call.seq) ∈ refs then none
    else match source.find? (fun m => m.turnId = call.turnId) with
      | some first => if covered summaries first.seq then none else some (c.callView cfg first call)
      | none => none)
  let all := plain ++ shown ++ pending
  let messages := Program.byNumber (·.seq) (all.map Prod.fst)
  { summaries := summaries
    messages := messages
    tokens := c.tokensOf s sessionId summaries messages
    hidden := (pairs.filter (·.hidden)).map (fun p => (p.ref, p.reason))
    clipped := (all.filter (fun m => m.2)).length }

/-! ### The swap -/

/-- `digest`: one capped line for each message. -/
def digest (messages : List ViewMessage) : Units := joinLines (messages.map (fun m =>
    Program.units (roleName m.role ++ "#" ++ toString m.seq ++ ": ") ++ (oneLine m.text).take LINE_CHARS))

/-- Messages in groups of one turn; a message of no turn stands alone. -/
def groupsOf (messages : List ViewMessage) : List (List ViewMessage) := messages.foldl (fun groups m =>
    match groups.getLast? with
    | some (first :: rest) =>
        if first.turnId = m.turnId ∧ m.turnId ≠ none then
          groups.dropLast ++ [first :: rest ++ [m]]
        else groups ++ [[m]]
    | _ => groups ++ [[m]]) []

/-- Whole groups from the front, until the rest is small enough or a range that
is off the path would be crossed. -/
def cutGroups (s : Store) (sessionId : String) (target : ℤ) (ranges : List (ℕ × ℕ)) :
    List (List ViewMessage) → ℤ → List ViewMessage → List ViewMessage
  | [], _, cut => cut
  | group :: groups, tokens, cut =>
      if tokens ≤ target then cut
      else
        let start := ((cut.head?.or group.head?).map ViewMessage.seq).getD 0
        let stop := (group.getLast?.map ViewMessage.seq).getD 0
        if rangeActive ranges start stop then
          let counted := (group.map (fun m => c.count s sessionId m.text (some m.id))).sum
          cutGroups s sessionId target ranges groups (tokens - counted) (cut ++ group)
        else cut

structure Segment where
  messages : List ViewMessage
  fromSeq : ℕ
  toSeq : ℕ

def segment (s : Store) (sessionId : String) (v : ContextView) : Option Segment :=
  let cfg := c.configFor sessionId
  let groups := groupsOf v.messages
  if groups.length < 2 then none
  else
    let target : ℤ := ⌊cfg.windowTokens * cfg.softRatio * (1 / 2)⌋
    let cut := c.cutGroups s sessionId target (summaryRewinds s sessionId) groups.dropLast v.tokens []
    match cut.head?, cut.getLast? with
    | some first, some last => some ⟨cut, first.seq, last.seq⟩
    | _, _ => none

def mergeable (s : Store) (sessionId : String) (summaries : List SummaryRecord) (seg : Segment) :
    List SummaryRecord :=
  summaries.filter (fun m => m.toSeq < seg.fromSeq &&
    rangeActive (summaryRewinds s sessionId) m.fromSeq seg.toSeq)

def marked (body : Units) (fromSeq toSeq max : ℕ) : Units :=
  let marker := Program.units ("[summary; originals messages " ++ toString fromSeq ++ "-" ++
    toString toSeq ++ " in transcript]\n")
  (marker ++ fitTail body (max - estimateTokens marker)).take (max * 4)

def lastEventSeq (s : Store) (sessionId : String) : Option ℕ :=
  (s.db.getSession sessionId).map (·.lastEventSeq)

/-- `replaceSummaries`: one summary for those it supersedes. -/
def replaceSummaries (s : Store) (supersede : List String) (next : SummaryRecord) : Store :=
  let summaries := s.db.summaries.map (fun m =>
    if m.id ∈ supersede then { m with state := .superseded } else m)
  { s with db := { s.db with summaries := summaries ++
      [{ next with id := c.env.newId "sum" s.db.summaries.length, createdAt := c.env.now s.db.readings }] } }

/-- The summary a swap puts in, with what it takes the place of. -/
def swapIn (s : Store) (sessionId : String) (v : ContextView) (seg : Segment) : Store :=
  let older := mergeable s sessionId v.summaries seg
  let fromSeq := ((older.map (·.fromSeq)).min?).getD seg.fromSeq
  let prepared := prepared s sessionId
  let adopted := prepared.find? (fun p => p.toSeq ≤ seg.toSeq ∧ p.fromSeq = fromSeq)
  let newText := match adopted with
    | some p => joinLines [Program.units p.text, digest (seg.messages.filter (fun m => m.seq > p.toSeq))]
    | none => joinLines (older.map (fun m => Program.units m.text) ++ [digest seg.messages])
  let max := ⌊((c.configFor sessionId).summaryMaxTokens : ℚ) / s.tokenFactor (c.modelOf sessionId)⌋₊
  let merged := marked newText fromSeq seg.toSeq max
  let tier := (older.map (fun m => m.tier + 1)).foldl Nat.max 1
  let supersede := older.map (·.id) ++
    (prepared.filter (fun m => fromSeq ≤ m.fromSeq ∧ m.toSeq ≤ seg.toSeq)).map (·.id)
  c.replaceSummaries s supersede
    { id := "", sessionId := sessionId, fromSeq := fromSeq, toSeq := seg.toSeq,
      text := storedText merged, tokens := c.count s sessionId merged, tier := tier,
      state := .applied, createdAt := 0 }

/-- Nothing is swapped if the session got an event while the checkpoint was
awaited. -/
def swap (s : Store) (sessionId : String) (v : ContextView) : Swap × Store :=
  match c.segment s sessionId v with
  | none => (⟨false, none, none⟩, s)
  | some seg =>
      let awaited := match c.beforeSwap with
        | some checkpoint => checkpoint s
        | none => (.skipped, s)
      if lastEventSeq awaited.2 sessionId ≠ lastEventSeq s sessionId then
        (⟨false, none, none⟩, awaited.2)
      else
        (⟨true, some (seg.fromSeq, seg.toSeq), some awaited.1⟩, c.swapIn awaited.2 sessionId v seg)

/-! ### Keeping the bound -/

/-- The oldest messages leave the view until it fits or one is left. -/
def dropOldest (s : Store) (sessionId : String) (limit : ℤ) :
    List ViewMessage → ℤ → ℕ → List ViewMessage × ℤ × ℕ
  | dropped :: next :: rest, tokens, clipped =>
      if tokens > limit then
        dropOldest s sessionId limit (next :: rest)
          (tokens - c.count s sessionId dropped.text (some dropped.id)) (clipped + 1)
      else (dropped :: next :: rest, tokens, clipped)
  | messages, tokens, clipped => (messages, tokens, clipped)

/-- The size that the newest message is cut to when it stands alone. -/
def lastRoom (s : Store) (sessionId : String) : ℕ :=
  ⌊(c.hardLimit sessionId : ℚ) / s.tokenFactor (c.modelOf sessionId)⌋₊

/-- The newest message alone, cut and counted by its estimate. -/
def collapse (s : Store) (sessionId : String) (v : ContextView) : ContextView :=
  let messages := (v.messages.getLast?.map (fun newest =>
    { newest with text := fitTail newest.text (c.lastRoom s sessionId) })).toList
  { v with
    summaries := []
    messages := messages
    tokens := ((messages.map (fun m => c.count s sessionId m.text)).sum : ℕ)
    clipped := v.clipped + 1 }

/-- What `prepare` does to the view after the swap. -/
def fit (s : Store) (sessionId : String) (v : ContextView) : ContextView :=
  let limit : ℤ := c.hardLimit sessionId
  let dropped := c.dropOldest s sessionId limit v.messages v.tokens v.clipped
  let v := { v with messages := dropped.1, tokens := dropped.2.1, clipped := dropped.2.2 }
  if v.tokens > limit then c.collapse s sessionId v else v

/-- The view for the next call, and the store it is a view of. -/
def prepare (s : Store) (sessionId : String) : ContextView × Store :=
  let v := c.view s sessionId
  if v.tokens ≤ c.hardLimit sessionId then (v, s)
  else
    let swapped := c.swap s sessionId v
    let s' := c.resumed swapped.2
    let fitted := c.fit s' sessionId (c.view s' sessionId)
    ({ fitted with swap := swapped.1, tokensBefore := some v.tokens, tokensAfter := some fitted.tokens },
      s')

end Compactor

end Plur1bus.Session
