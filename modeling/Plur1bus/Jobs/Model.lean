import Plur1bus.Language

/-!
Recurring jobs of users. A process scans its table of jobs for those that are
due and runs them one after the other; people create, edit, delete and run jobs
meanwhile. A run claims the slot of its job in one transaction, which moves the
job on and inserts a row for the run, then looks up whom it is for and whether
they may, and then waits for the turn it submits.

The clock only goes forward. What the code does between two waits is one step; a
scan that goes on without a wait is cut after every job, and whatever comes
between is one more interleaving. A restart may come at any moment: what was in
memory is gone, and the rows of interrupted runs are marked as abandoned. Ids
are drawn one after the other.
-/

namespace Plur1bus.Jobs

/-! ### Schedules -/

structure ParsedCron where
  minutes : List ℤ
  hours : List ℤ
  doms : List ℤ
  months : List ℤ
  dows : List ℤ
  domRestricted : Bool
  dowRestricted : Bool
  deriving DecidableEq, Repr

/-- A wall clock reading. -/
structure Wall where
  y : ℤ
  mo : ℤ
  d : ℤ
  h : ℤ
  mi : ℤ
  deriving DecidableEq, Repr

/-- Days since 1 January 1970, of a date of the Gregorian calendar. -/
def daysOfDate (y mo d : ℤ) : ℤ :=
  let y := if mo ≤ 2 then y - 1 else y
  let yearOfEra := y % 400
  let dayOfYear := (153 * ((mo + 9) % 12) + 2) / 5 + d - 1
  y / 400 * 146097 + (yearOfEra * 365 + yearOfEra / 4 - yearOfEra / 100 + dayOfYear) - 719468

/-- The date of a day: year, month and day of the month. -/
def dateOfDays (days : ℤ) : ℤ × ℤ × ℤ :=
  let days := days + 719468
  let dayOfEra := days % 146097
  let yearOfEra := (dayOfEra - dayOfEra / 1460 + dayOfEra / 36524 - dayOfEra / 146096) / 365
  let dayOfYear := dayOfEra - (365 * yearOfEra + yearOfEra / 4 - yearOfEra / 100)
  let mp := (5 * dayOfYear + 2) / 153
  let mo := if mp < 10 then mp + 3 else mp - 9
  let y := yearOfEra + days / 146097 * 400
  (if mo ≤ 2 then y + 1 else y, mo, dayOfYear - (153 * mp + 2) / 5 + 1)

/-- `Date.UTC`. -/
def utc (w : Wall) : ℤ := daysOfDate w.y w.mo w.d * 86400000 + w.h * 3600000 + w.mi * 60000

section

-- What the clock on the wall reads in a time zone.
variable (wallOf : ℤ → String → Wall)

def offsetMs (ms : ℤ) (tz : String) : ℤ := utc (wallOf ms tz) - ms / 60000 * 60000

/-- The earliest instant whose wall clock reads `w`, if there is one. -/
def wallToUtc (w : Wall) (tz : String) : Option ℤ :=
  let guess := utc w
  [guess - 86400000, guess + 86400000].foldl (fun best probe =>
    let t := guess - offsetMs wallOf probe tz
    if wallOf t tz = w ∧ best.all (t < ·) then some t else best) none

def dayMatches (c : ParsedCron) (domOk dowOk : Bool) : Bool :=
  if c.domRestricted && c.dowRestricted then domOk || dowOk else domOk && dowOk

/-- The first firing strictly after `fromMs`. -/
def nextAfter (c : ParsedCron) (tz : String) (fromMs : ℤ) : Option ℤ :=
  let start := wallOf fromMs tz
  (List.range (366 * 8)).findSome? fun (day : ℕ) =>
    let cursor := daysOfDate start.y start.mo start.d + day
    let (y, mo, d) := dateOfDays cursor
    if c.months.contains mo && dayMatches c (c.doms.contains d) (c.dows.contains ((cursor + 4) % 7)) then
      c.hours.findSome? fun h => c.minutes.findSome? fun mi =>
        (wallToUtc wallOf ⟨y, mo, d, h, mi⟩ tz).filter (fromMs < ·)
    else none

end

/-! ### Jobs and runs -/

inductive Outcome
  | running
  | completed
  | failed
  | abandoned
  | skippedOwnerInactive
  | skippedNoRights
  | skippedAgentMissing
  | skippedAgentInactive
  | skippedBudget
  | approvalTimeout
  deriving DecidableEq, Repr

/-- What comes of a turn. -/
inductive TurnOutcome | completed | failed | skippedAgentInactive | skippedBudget | approvalTimeout
  deriving DecidableEq, Repr

def TurnOutcome.outcome : TurnOutcome → Outcome
  | .completed => .completed
  | .failed => .failed
  | .skippedAgentInactive => .skippedAgentInactive
  | .skippedBudget => .skippedBudget
  | .approvalTimeout => .approvalTimeout

/-- The job is switched off after a run that came to this. -/
def Outcome.disables : Outcome → Bool
  | .skippedOwnerInactive | .skippedNoRights | .skippedAgentMissing => true
  | _ => false

structure Principal where
  userId : String
  isPerson : Bool
  deriving DecidableEq, Repr

structure Job where
  id : ℕ
  agentId : String
  runAs : String
  deliveryTarget : Option String
  cron : ParsedCron
  timezone : String
  enabled : Bool
  nextRunAt : Option ℤ
  disabledReason : Option Outcome
  deriving DecidableEq, Repr

structure UserJobRun where
  runId : ℕ
  jobId : ℕ
  agentId : String
  runAs : String
  requestedBy : Option String
  startedAt : ℤ
  finishedAt : ℤ
  durationMs : ℤ
  outcome : Outcome
  deriving DecidableEq, Repr

/-- A scan: the jobs that were due when it began and are still to be looked at,
and the run that it waits for. -/
structure Scan where
  due : List Job
  waitsFor : Option ℕ
  deriving DecidableEq, Repr

structure State where
  jobs : List Job := []
  runs : List UserJobRun := []
  clock : ℤ := 0
  /-- The next id. -/
  fresh : ℕ := 0
  -- Of the process.
  running : List ℕ := []
  /-- The runs that wait for their turn. -/
  turns : List UserJobRun := []
  scans : List Scan := []
  closed : Bool := false
  /-- The runs that this process has begun. -/
  own : List ℕ := []

/-- What a step reads: how far the clock goes before it, before it reads the
clock again and before it is over, and what the others answer. -/
structure Env where
  wait : ℕ
  delay : ℕ
  after : ℕ
  stopping : Bool
  /-- The transaction of the claim goes through. -/
  commits : Bool
  /-- Whoever is asked throws. -/
  throws : Bool
  resolve : String → Option Principal
  agentExists : String → Bool
  /-- The decision on `agent.use`. -/
  authorize : Principal → String → Bool
  /-- The target may be delivered to. -/
  delivers : String → String → String → Bool
  budgetBlocked : String → Bool

/-- A run that begins: for which slot, if a scan begins it, and the person for
whom a turn is submitted. -/
structure Event where
  jobId : ℕ
  slot : Option ℤ
  startedAt : ℤ
  submitted : Option Principal
  deriving DecidableEq, Repr

namespace State

variable (wallOf : ℤ → String → Wall) (env : Env) (s : State)

def pass (ms : ℕ) : State := { s with clock := s.clock + ms }

def job? (id : ℕ) : Option Job := s.jobs.find? (·.id = id)

/-- `#save`. -/
def save (j : Job) : State :=
  { s with
    jobs := if s.jobs.any (·.id = j.id) then s.jobs.map fun k => if k.id = j.id then j else k else s.jobs ++ [j] }

/-- `#next`. -/
def nextOf (j : Job) (time : ℤ) : Option ℤ := if j.enabled then nextAfter wallOf j.cron j.timezone time else none

/-! ### Runs -/

/-- The job moves on to its next slot, and the run has its row. -/
def claim (j : Job) (requestedBy : Option String) : Option (State × UserJobRun) :=
  let startedAt := s.clock
  let run : UserJobRun :=
    ⟨s.fresh, j.id, j.agentId, j.runAs, requestedBy, startedAt, startedAt, 0, .abandoned⟩
  match s.job? j.id with
  | none => none
  | some latest =>
    let s := s.save { latest with nextRunAt := nextOf wallOf latest startedAt }
    some ({ s with runs := s.runs ++ [{ run with outcome := .running }], fresh := s.fresh + 1, own := run.runId :: s.own }, run)

/-- A run is over: its row says so, and its job is switched off where nobody
could run it. -/
def finish (run : UserJobRun) (outcome : Outcome) : State :=
  let run : UserJobRun := { run with
    outcome := outcome, finishedAt := s.clock, durationMs := max 0 (s.clock - run.startedAt) }
  let s := { s with runs := s.runs.map fun (r : UserJobRun) => if r.runId = run.runId then run else r }
  let s := if outcome.disables then
      match s.job? run.jobId with
      | none => s
      | some latest => s.save { latest with enabled := false, nextRunAt := none, disabledReason := some outcome }
    else s
  { s with running := s.running.filter (· ≠ run.jobId) }

/-- What a run comes to before it submits a turn, or the person it submits one for. -/
def admitRun (j : Job) : Outcome ⊕ Principal :=
  if env.throws then .inl .failed
  else if !env.agentExists j.agentId then .inl .skippedAgentMissing
  else
    match env.resolve j.runAs with
    | none => .inl .skippedOwnerInactive
    | some person =>
      if !person.isPerson || person.userId ≠ j.runAs then .inl .skippedOwnerInactive
      else if !env.authorize person j.agentId then .inl .skippedNoRights
      else if j.deliveryTarget.any fun target => target ≠ "" && !env.delivers target person.userId j.agentId then
        .inl .failed
      else if env.budgetBlocked j.agentId then .inl .skippedBudget
      else .inr person

/-- `#executeRun` up to the turn; with the run it began, unless it threw. -/
def executeRun (j : Job) (requestedBy : Option String) (slot : Option ℤ) : State × Option (ℕ × Event) :=
  if j.id ∈ s.running then (s, none)
  else
    let s := s.pass env.delay
    if env.commits = false then (s, none)
    else
      match s.claim wallOf j requestedBy with
      | none => (s, none)
      | some (s, run) =>
        let s := { s with running := j.id :: s.running }
        match admitRun env j with
        | .inl outcome => ((s.pass env.after).finish run outcome, some (run.runId, ⟨j.id, slot, run.startedAt, none⟩))
        | .inr person =>
          ({ s with turns := s.turns ++ [run] }, some (run.runId, ⟨j.id, slot, run.startedAt, some person⟩))

/-- The turn of a run is over. On a closed store nothing is written. -/
def complete (runId : ℕ) (outcome : TurnOutcome) : State :=
  match s.turns.find? (·.runId = runId) with
  | none => s
  | some run =>
    let s := { s with turns := s.turns.filter (·.runId ≠ runId) }
    if s.closed then { s with running := s.running.filter (· ≠ run.jobId) }
    else s.finish run outcome.outcome

/-! ### Scans -/

/-- `tick`, up to its first job. -/
def tick : State :=
  if s.closed || env.stopping then s
  else { s with scans := s.scans ++ [⟨s.jobs.filter fun j => j.enabled && j.nextRunAt.any (· ≤ s.clock), none⟩] }

/-- The scan goes on with its next job. -/
def scanNext (k : ℕ) : State × Option Event :=
  match s.scans[k]? with
  | none => (s, none)
  | some scan =>
    if scan.waitsFor.any fun runId => s.turns.any (·.runId = runId) then (s, none)
    else
      match scan.due with
      | [] => ({ s with scans := s.scans.eraseIdx k }, none)
      | snapshot :: due =>
        if s.closed || env.stopping then ({ s with scans := s.scans.eraseIdx k }, none)
        else if snapshot.id ∈ s.running then ({ s with scans := s.scans.set k ⟨due, none⟩ }, none)
        else
          match s.job? snapshot.id with
          | none => ({ s with scans := s.scans.set k ⟨due, none⟩ }, none)
          | some current =>
            if current.enabled ∧ current.nextRunAt ≠ none ∧ current.nextRunAt = snapshot.nextRunAt ∧
                current.nextRunAt.any (· ≤ s.clock) then
              match s.executeRun wallOf env current none current.nextRunAt with
              | (s, none) => ({ s with scans := s.scans.eraseIdx k }, none)
              | (s, some (runId, event)) => ({ s with scans := s.scans.set k ⟨due, some runId⟩ }, some event)
            else ({ s with scans := s.scans.set k ⟨due, none⟩ }, none)

/-- `run`; `allowed` is that the caller may use the agent. -/
def run (id : ℕ) (caller : String) (allowed : Bool) : State × Option Event :=
  if s.closed then (s, none)
  else
    match s.job? id with
    | none => (s, none)
    | some j =>
      if env.stopping || !allowed || !j.enabled then (s, none)
      else
        match s.executeRun wallOf env j (some caller) none with
        | (s, started) => (s, started.map Prod.snd)

/-! ### Edits -/

/-- What is given of a job. -/
structure Given where
  agentId : String
  deliveryTarget : Option String
  cron : ParsedCron
  timezone : String
  enabled : Bool

/-- `create`, for the person who calls; `accepted` is that the definition is valid and the person
may. -/
def create (given : Given) (caller : String) (accepted : Bool) : State :=
  if s.closed || env.stopping || !accepted then s
  else
    let s := s.pass env.delay
    let job : Job := ⟨s.fresh, given.agentId, caller, given.deliveryTarget, given.cron, given.timezone, given.enabled,
      none, none⟩
    State.save { s with fresh := s.fresh + 1 } { job with nextRunAt := nextOf wallOf job s.clock }

/-- `update`; the job is the caller's from then on. -/
def update (id : ℕ) (given : Given) (caller : String) (accepted : Bool) : State :=
  if s.closed || env.stopping || !accepted then s
  else
    match s.job? id with
    | none => s
    | some old =>
      let s := s.pass env.delay
      let job : Job := { old with
        agentId := given.agentId
        runAs := caller
        deliveryTarget := given.deliveryTarget
        cron := given.cron
        timezone := given.timezone
        enabled := given.enabled
        disabledReason := if given.enabled then none else old.disabledReason }
      s.save { job with nextRunAt := nextOf wallOf job s.clock }

def delete (id : ℕ) (accepted : Bool) : State :=
  if s.closed || env.stopping || !accepted || decide (id ∈ s.running) then s
  else { s with jobs := s.jobs.filter (·.id ≠ id) }

/-! ### Processes -/

def close : State := { s with closed := true }

/-- A process starts: nothing runs, and what was running is abandoned. -/
def restart : State :=
  { jobs := s.jobs
    runs := s.runs.map fun r =>
      if r.outcome = .running then
        { r with outcome := .abandoned, finishedAt := s.clock, durationMs := s.clock - r.startedAt }
      else r
    clock := s.clock
    fresh := s.fresh }

end State

inductive Step
  | create (given : State.Given) (caller : String) (accepted : Bool)
  | update (id : ℕ) (given : State.Given) (caller : String) (accepted : Bool)
  | delete (id : ℕ) (accepted : Bool)
  | tick
  | scanNext (k : ℕ)
  | run (id : ℕ) (caller : String) (allowed : Bool)
  | complete (runId : ℕ) (outcome : TurnOutcome)
  | close
  | restart

def State.step (wallOf : ℤ → String → Wall) (s : State) (env : Env) (step : Step) : State × Option Event :=
  let s := s.pass env.wait
  match step with
  | .create given caller accepted => (s.create wallOf env given caller accepted, none)
  | .update id given caller accepted => (s.update wallOf env id given caller accepted, none)
  | .delete id accepted => (s.delete env id accepted, none)
  | .tick => (s.tick env, none)
  | .scanNext k => s.scanNext wallOf env k
  | .run id caller allowed => s.run wallOf env id caller allowed
  | .complete runId outcome => (s.complete runId outcome, none)
  | .close => (s.close, none)
  | .restart => (s.restart, none)

/-- What is reached, with the runs that began. -/
def State.after (wallOf : ℤ → String → Wall) (s : State) (steps : List (Env × Step)) : State × List Event :=
  steps.foldl (fun (s, events) (env, step) =>
    match s.step wallOf env step with
    | (s, event) => (s, events ++ event.toList)) (s, [])

end Plur1bus.Jobs
