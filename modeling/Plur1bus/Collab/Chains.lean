import Mathlib.Data.Nat.Notation
import Mathlib.Data.Int.Notation
import Mathlib.Tactic.Common

/-!
Chains of consults and delegations. A trace is the stored record of a chain;
the process keeps a chain beside it with the abort signal and the runs in
flight. A delegation inserts a task and a span, starts the target agent and
records what came of it; cancelling a chain, aborting a caller's signal and
shutting down may come at any moment in between.

The source is asynchronous: what it does between two suspensions is one step
here, and a run that is suspended is an entry of `runs`. Where a step calls out
(an event listener, a callback) it is cut in two, so that whatever the callee
does is an interleaving. Whether a call is admitted (authorization, agents,
guardrails, budget, writer slots) is an input of the step.
-/

namespace Plur1bus.Collab

/-! ### Rows -/

inductive TaskStatus | queued | running | succeeded | failed | cancelled
  deriving DecidableEq, Repr

inductive SpanStatus | partially | running | succeeded | failed | cancelled | refused
  deriving DecidableEq, Repr

inductive SpanKind | consult | delegate | guardrail
  deriving DecidableEq, Repr

structure TraceRow where
  traceId : String
  projectId : String
  rootAgent : String
  rootSpanId : String
  createdAt : ℤ
  endedAt : Option ℤ
  status : SpanStatus
  deriving DecidableEq, Repr

structure SpanRow where
  spanId : String
  traceId : String
  parentSpanId : Option String
  agentId : String
  kind : SpanKind
  startedAt : ℤ
  endedAt : Option ℤ
  status : SpanStatus
  error : Option String
  guardrail : Option String
  inputTokens : ℕ
  outputTokens : ℕ
  deriving DecidableEq, Repr

structure TaskRow where
  id : String
  projectId : String
  traceId : String
  spanId : String
  parentTaskId : Option String
  fromAgent : String
  toAgent : String
  status : TaskStatus
  task : String
  acceptance : String
  path : List String
  createdAt : ℤ
  startedAt : Option ℤ
  endedAt : Option ℤ
  result : Option String
  truncated : Bool
  artifactId : Option String
  error : Option String
  inputTokens : Option ℕ
  outputTokens : Option ℕ
  deriving DecidableEq, Repr

/-- What the process keeps of a trace. A caller's signal that is attached
aborts the chain when it is aborted; runs in flight are known by the
controller each of them owns. -/
structure Chain where
  traceId : String
  projectId : String
  rootAgent : String
  rootSpanId : String
  fanout : ℕ
  attached : List ℕ
  aborted : Bool
  inflight : List ℕ
  ended : Bool
  deriving DecidableEq, Repr

/-- A suspended call. A delegation has its task, a consult has none and is
started at once. -/
structure Run where
  controller : ℕ
  traceId : String
  spanId : String
  task : Option String
  signal : Option ℕ
  started : Bool
  deriving DecidableEq, Repr

structure World where
  traces : List TraceRow
  spans : List SpanRow
  tasks : List TaskRow
  chains : List Chain := []
  runs : List Run := []
  /-- The callers' signals that were aborted. -/
  signals : List ℕ := []
  storeClosed : Bool := false
  /-- The next controller. -/
  next : ℕ := 0
  deriving DecidableEq, Repr

/-- The ids and the clock reading a step gets. -/
structure Env where
  traceId : String
  rootSpanId : String
  spanId : String
  taskId : String
  now : ℤ

variable (env : Env) (w : World)

/-! ### The store -/

structure TaskPatch where
  status : TaskStatus
  result : Option String := none
  truncated : Bool := false
  artifactId : Option String := none
  error : Option String := none
  inputTokens : Option ℕ := none
  outputTokens : Option ℕ := none

/-- Whatever the patch leaves out is cleared. -/
def TaskPatch.apply (p : TaskPatch) (now : ℤ) (t : TaskRow) : TaskRow := { t with
    status := p.status
    result := p.result
    truncated := p.truncated
    artifactId := p.artifactId
    error := p.error
    endedAt := if p.status = .running then none else some now
    inputTokens := p.inputTokens
    outputTokens := p.outputTokens
    startedAt := if p.status = .running then some now else t.startedAt }

def World.updateTask (id : String) (p : TaskPatch) : World :=
  { w with tasks := w.tasks.map (fun t => if t.id = id then p.apply env.now t else t) }

/-- Queued or running. -/
def TaskRow.isOpen (t : TaskRow) : Bool := t.status = .queued ∨ t.status = .running

def World.cancelOpenTasks (traceId : String) : World := { w with tasks := w.tasks.map (fun t =>
      if t.traceId = traceId ∧ t.isOpen then
        { t with status := .cancelled, error := some "aborted", endedAt := some env.now }
      else t) }

structure SpanPatch where
  status : SpanStatus
  error : Option String := none
  guardrail : Option String := none
  inputTokens : ℕ := 0
  outputTokens : ℕ := 0

def SpanPatch.apply (p : SpanPatch) (now : ℤ) (s : SpanRow) : SpanRow := { s with
    endedAt := some now
    status := p.status
    error := p.error
    guardrail := p.guardrail
    inputTokens := p.inputTokens
    outputTokens := p.outputTokens }

def World.finishSpan (spanId : String) (p : SpanPatch) : World :=
  { w with spans := w.spans.map (fun s => if s.spanId = spanId then p.apply env.now s else s) }

/-- Every span of the trace that still runs is cancelled. -/
def World.cancelSpans (traceId error : String) : World := { w with spans := w.spans.map (fun s =>
      if s.traceId = traceId ∧ s.status = .running then
        ({ status := .cancelled, error := some error } : SpanPatch).apply env.now s
      else s) }

def World.finishTrace (traceId : String) (status : SpanStatus) : World :=
  { w with traces := w.traces.map (fun t =>
      if t.traceId = traceId then { t with endedAt := some env.now, status := status } else t) }

def World.trace? (traceId : String) : Option TraceRow := w.traces.find? (·.traceId = traceId)

/-! ### Chains -/

def World.chain? (traceId : String) : Option Chain := w.chains.find? (·.traceId = traceId)

def World.setChain (traceId : String) (f : Chain → Chain) : World :=
  { w with chains := w.chains.map (fun c => if c.traceId = traceId then f c else c) }

/-- `chains.set`. -/
def World.putChain (c : Chain) : World :=
  { w with chains := w.chains.filter (·.traceId ≠ c.traceId) ++ [c] }

def Chain.abort (c : Chain) : Chain := { c with aborted := true }

def World.signalAborted (signal : Option ℕ) : Bool := ∃ k, signal = some k ∧ k ∈ w.signals

/-- A new trace and its chain; nothing where the trace id is taken. -/
def World.beginChain (projectId rootAgent : String) (signal : Option ℕ) : World × Option String :=
  if ∃ t ∈ w.traces, t.traceId = env.traceId then (w, none)
  else
    let trace : TraceRow := ⟨env.traceId, projectId, rootAgent, env.rootSpanId, env.now, none, .running⟩
    let chain : Chain := ⟨env.traceId, projectId, rootAgent, env.rootSpanId, 0, signal.toList,
      w.signalAborted signal, [], false⟩
    (World.putChain { w with traces := w.traces ++ [trace] } chain, some env.traceId)

/-- The chain of a stored trace that this process has none for yet. -/
def World.revive (t : TraceRow) (signal : Option ℕ) : World :=
  w.putChain ⟨t.traceId, t.projectId, t.rootAgent, t.rootSpanId,
    (w.spans.filter (fun s => s.traceId = t.traceId ∧ s.kind ≠ .guardrail)).length,
    signal.toList, w.signalAborted signal, [], t.endedAt.isSome⟩

/-- The trace of the chain a call joins; nothing where it throws. -/
def World.getChain (traceId : Option String) (projectId rootAgent : String)
    (signal : Option ℕ) : World × Option String :=
  match traceId with
  | none | some "" => w.beginChain env projectId rootAgent signal
  | some traceId =>
    match w.chain? traceId with
    | some existing => (w, if existing.projectId = projectId then some traceId else none)
    | none =>
      match w.trace? traceId with
      | some persisted =>
        if persisted.projectId = projectId then (w.revive persisted signal, some traceId)
        else (w, none)
      | none => (w, none)

def World.endChainIfIdle (traceId : String) (status : SpanStatus) : World :=
  match w.chain? traceId with
  | none => w
  | some chain =>
    if w.storeClosed ∨ chain.inflight ≠ [] ∨ chain.ended then w
    else (w.setChain traceId (fun c => { c with ended := true })).finishTrace env traceId status

def World.cancelChainInner (traceId : String) : World :=
  let w := w.setChain traceId Chain.abort
  if w.storeClosed then w
  else ((w.cancelOpenTasks env traceId).cancelSpans env traceId "aborted").endChainIfIdle env traceId
    .cancelled

/-! ### Calls -/

/-- What the checks of a call decide: refused before a chain is looked for,
refused by a guardrail, refused without one, or let in. -/
inductive Admission
  | denied
  | guardrail (reason : String)
  | thrown
  | admitted
  deriving DecidableEq, Repr

structure CallInput where
  projectId : String
  fromAgent : String
  toAgent : String
  question : String
  acceptanceCriteria : String := ""
  path : Option (List String) := none
  traceId : Option String := none
  parentSpanId : Option String := none
  parentTaskId : Option String := none
  signal : Option ℕ := none
  admission : Admission := .admitted

def World.refuse (traceId : String) (i : CallInput) (reason : String) : World :=
  if ∃ s ∈ w.spans, s.spanId = env.spanId then w
  else
    { w with spans := w.spans ++ [⟨env.spanId, traceId, i.parentSpanId, i.toAgent, .guardrail,
        env.now, some env.now, .refused, some reason, some reason, 0, 0⟩] }

/-- The span of an admitted call: the root span where it is the chain's first. -/
def World.admitSpan (traceId : String) (i : CallInput) (kind : SpanKind) : World × Option String :=
  match w.chain? traceId with
  | none => (w, none)
  | some chain =>
    let w := w.setChain traceId (fun c => { c with fanout := c.fanout + 1 })
    let spanId := if chain.fanout = 0 then chain.rootSpanId else env.spanId
    if ∃ s ∈ w.spans, s.spanId = spanId then (w, none)
    else
      ({ w with spans := w.spans ++ [⟨spanId, traceId, i.parentSpanId, i.toAgent, kind, env.now,
          none, .running, none, none, 0, 0⟩] }, some spanId)

/-- A controller of its own puts the call in flight. -/
def World.launch (traceId spanId : String) (task : Option String) (signal : Option ℕ) : World :=
  let w := w.setChain traceId (fun c => { c with inflight := c.inflight ++ [w.next] })
  { w with runs := w.runs ++ [⟨w.next, traceId, spanId, task, signal, task.isNone⟩], next := w.next + 1 }

def World.admitConsult (traceId : String) (i : CallInput) : World :=
  match w.admitSpan env traceId i .consult with
  | (w, none) => w
  | (w, some spanId) => w.launch traceId spanId none i.signal

/-- The task is queued; where its id is taken the span fails. -/
def World.admitTask (traceId : String) (i : CallInput) : World :=
  match w.admitSpan env traceId i .delegate with
  | (w, none) => w
  | (w, some spanId) =>
    if ∃ t ∈ w.tasks, t.id = env.taskId then
      w.finishSpan env spanId { status := .failed, error := some "run-failed" }
    else
      let task : TaskRow := ⟨env.taskId, i.projectId, traceId, spanId, i.parentTaskId, i.fromAgent,
        i.toAgent, .queued, i.question, i.acceptanceCriteria,
        i.path.getD [i.fromAgent] ++ [i.toAgent], env.now, none, none, none, false, none, none,
        none, none⟩
      World.launch { w with tasks := w.tasks ++ [task] } traceId spanId (some env.taskId) i.signal

/-- A call up to its first suspension; `enter` is what it inserts once it is
let in. -/
def World.call (i : CallInput) (enter : World → String → World) : World :=
  if w.storeClosed ∨ i.admission = .denied then w
  else
    match w.getChain env i.traceId i.projectId i.fromAgent i.signal with
    | (w, none) => w
    | (w, some traceId) =>
      match i.admission with
      | .denied | .thrown => w
      | .guardrail reason => w.refuse env traceId i reason
      | .admitted => enter w traceId

/-! ### Runs -/

def World.run? (controller : ℕ) : Option Run := w.runs.find? (·.controller = controller)

def World.chainAborted (traceId : String) : Bool := ∃ c ∈ w.chains, c.traceId = traceId ∧ c.aborted

/-- The run's signal: its chain's, or the one its caller gave. -/
def World.aborted (r : Run) : Bool := w.chainAborted r.traceId || w.signalAborted r.signal

/-- The `finally` of a call. -/
def World.settle (r : Run) : World :=
  let w := { w with runs := w.runs.filter (·.controller ≠ r.controller) }
  let w := w.setChain r.traceId (fun c => { c with inflight := c.inflight.filter (· ≠ r.controller) })
  if w.chainAborted r.traceId then w.endChainIfIdle env r.traceId .cancelled else w

/-- What a call writes of its end: a delegation to its task, and both kinds to
the span. -/
def World.recordEnd (r : Run) (p : TaskPatch) (sp : SpanPatch) : World :=
  match r.task with
  | some id => (w.updateTask env id p).finishSpan env r.spanId sp
  | none => w.finishSpan env r.spanId sp

/-- A call that ends by throwing. -/
def World.fail (r : Run) (message : String) : World :=
  if w.storeClosed then w.settle env r
  else
    let aborted := w.aborted r
    let error := if aborted then "aborted" else message
    let w := w.recordEnd env r
      { status := if aborted then .cancelled else .failed, error := some error }
      { status := if aborted then .cancelled else .failed, error := some error }
    let w := if w.chainAborted r.traceId then w.cancelChainInner env r.traceId else w
    w.settle env r

def World.markStarted (controller : ℕ) : World := { w with runs := w.runs.map (fun r =>
      if r.controller = controller then { r with started := true } else r) }

/-- A delegation begins to run, unless it was aborted meanwhile. -/
def World.start (r : Run) : World :=
  if r.started then w
  else if w.storeClosed ∨ w.aborted r then w.fail env r "aborted"
  else
    let w := w.markStarted r.controller
    match r.task with
    | some id => w.updateTask env id { status := .running }
    | none => w

/-- What the target agent answered, with the capped text of it. A part of an
answer is all an interrupted agent has. -/
structure Answer where
  partly : Bool
  result : String
  truncated : Bool
  artifactId : String
  inputTokens : ℕ
  outputTokens : ℕ

/-- A call whose target answered. On a closed store nothing can be recorded. -/
def World.answer (r : Run) (a : Answer) : World :=
  if r.started = false then w
  else if w.storeClosed then w.settle env r
  else
    let w := w.recordEnd env r
      { status := if a.partly then .cancelled else .succeeded
        error := if a.partly then some "partial" else none
        result := some a.result
        truncated := a.truncated
        artifactId := some a.artifactId
        inputTokens := some a.inputTokens
        outputTokens := some a.outputTokens }
      { status := if a.partly then .partially else .succeeded
        inputTokens := a.inputTokens
        outputTokens := a.outputTokens }
    w.settle env r

/-! ### The chain as a whole -/

def World.cancelChain (traceId : String) : World :=
  if w.storeClosed ∨ w.trace? traceId = none then w
  else
    match w.chain? traceId with
    | some _ => w.cancelChainInner env traceId
    | none => w.cancelOpenTasks env traceId

/-- How a trace ends, by its spans. -/
def World.traceStatus (traceId : String) : SpanStatus :=
  let spans := w.spans.filter (·.traceId = traceId)
  if ∃ s ∈ spans, s.status = .failed ∨ s.status = .refused then .failed
  else if ∃ s ∈ spans, s.status = .partially then .partially
  else if ∃ s ∈ spans, s.status = .cancelled then .cancelled
  else .succeeded

def World.finishChain (traceId : String) : World :=
  if w.storeClosed ∨ w.trace? traceId = none then w
  else w.endChainIfIdle env traceId (w.traceStatus traceId)

/-- A caller's signal is aborted, and with it the chains it is attached to. -/
def World.abortSignal (k : ℕ) : World := { w with
    signals := k :: w.signals
    chains := w.chains.map (fun c => if k ∈ c.attached then c.abort else c) }

def World.abortAll : World := { w with chains := w.chains.map Chain.abort }

def World.close : World :=
  if w.storeClosed then w
  else { w.abortAll with storeClosed := true }

/-- A chain that did not end within the budget of a shutdown. -/
def World.abandonChain (traceId : String) : World :=
  let w := (w.cancelOpenTasks env traceId).cancelSpans env traceId "abandoned at shutdown"
  let w := match w.chain? traceId with
    | some chain =>
      if chain.ended then w
      else (w.setChain traceId (fun c => { c with ended := true })).finishTrace env traceId .cancelled
    | none => w
  w.setChain traceId (fun c => { c with inflight := [] })

/-- The end of a shutdown: what is still busy is abandoned and the store closes.
The store may have been closed before, and then nothing is written. -/
def World.abandon : World := if w.storeClosed then
    { w with chains := w.chains.map (fun c =>
        if c.inflight ≠ [] then { c with inflight := [] } else c) }
  else
    let busy := (w.chains.filter (·.inflight ≠ [])).map (·.traceId)
    (busy.foldl (fun w traceId => w.abandonChain env traceId) w).close

/-! ### Steps -/

inductive Step
  | openChain (projectId fromAgent : String) (signal : Option ℕ)
  | delegate (input : CallInput)
  | consult (input : CallInput)
  | start (controller : ℕ)
  | answer (controller : ℕ) (answer : Answer)
  | fail (controller : ℕ) (message : String)
  | cancelChain (traceId : String)
  | finishChain (traceId : String)
  | abortSignal (signal : ℕ)
  | stop
  | abandon
  | close

def World.step : Step → World
  | .openChain projectId fromAgent signal =>
    if w.storeClosed then w else (w.beginChain env projectId fromAgent signal).1
  | .delegate i => w.call env i (fun w traceId => w.admitTask env traceId i)
  | .consult i => w.call env i (fun w traceId => w.admitConsult env traceId i)
  | .start controller => (w.run? controller).elim w (fun r => w.start env r)
  | .answer controller a => (w.run? controller).elim w (fun r => w.answer env r a)
  | .fail controller message => (w.run? controller).elim w (fun r => w.fail env r message)
  | .cancelChain traceId => w.cancelChain env traceId
  | .finishChain traceId => w.finishChain env traceId
  | .abortSignal k => w.abortSignal k
  | .stop => w.abortAll
  | .abandon => w.abandon env
  | .close => w.close

end Plur1bus.Collab
