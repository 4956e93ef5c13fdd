import Mathlib.Logic.Function.Basic
import Plur1bus.Collab.Chains

/-!
Writer slots. A delegation that writes holds a reservation of a slot of its
project, one it takes itself or one it is handed, from before its task is
inserted until its run is over. The service counts the reservations of each
project, the local ones, and the local ones that are in use.

A delegation is cut in two where it calls out: after its task is queued an
event goes out and the caller is told that it was admitted, and either may call
the service again. When the caller returns, the run begins.
-/

namespace Plur1bus.Collab

inductive PrincipalKind | person | agent
  deriving DecidableEq, Repr

inductive CallClass | read | write | review
  deriving DecidableEq, Repr

/-- For whom a slot is reserved. -/
structure WriterIdentity where
  userId : String
  kind : Option PrincipalKind
  projectId : String
  fromAgent : String
  toAgent : String
  traceId : Option String := none
  parentSpanId : Option String := none
  deriving DecidableEq, Repr

/-- A reservation; it is known by its number. -/
structure Reservation where
  identity : WriterIdentity
  isLocal : Bool
  running : Bool
  released : Bool
  deriving DecidableEq, Repr

structure Desk where
  world : World
  writers : String → Option ℤ := fun _ => none
  reservations : List Reservation := []
  localReserved : ℤ := 0
  localRunning : ℤ := 0
  /-- The reservation that a run releases when it is over. -/
  booked : ℕ → Option ℕ := fun _ => none
  /-- The delegations whose caller was not yet told that they are admitted. -/
  waiting : List ℕ := []

/-- What a reservation reads: whether the owner, the principal, the project and
the agents pass, the limit of the project, and the slots of the machine, which
depend on the local writers that run, where they are measured. -/
structure SlotFacts where
  allowed : Bool
  perProject : ℤ
  isLocal : Bool
  capacity : ℤ → Option ℤ

variable (env : Env) (d : Desk)

/-! ### Reservations -/

/-- `reservation.release()`. -/
def Desk.release (r : ℕ) : Desk :=
  match d.reservations[r]? with
  | none => d
  | some slot =>
    if slot.released then d
    else
      { d with
        reservations := d.reservations.set r { slot with released := true }
        writers := Function.update d.writers slot.identity.projectId
          (some ((d.writers slot.identity.projectId).getD 1 - 1))
        localReserved := if slot.isLocal then d.localReserved - 1 else d.localReserved
        localRunning := if slot.isLocal ∧ slot.running then d.localRunning - 1 else d.localRunning }

/-- `reservation?.release()`. -/
def Desk.releaseAny : Option ℕ → Desk
  | none => d
  | some r => d.release r

/-- What the refusal of a slot says of the call. -/
def WriterIdentity.call (identity : WriterIdentity) : CallInput :=
  { projectId := identity.projectId
    fromAgent := identity.fromAgent
    toAgent := identity.toAgent
    question := ""
    parentSpanId := identity.parentSpanId }

/-- The slots of the project, or of the machine, are full. -/
def Desk.full (identity : WriterIdentity) (facts : SlotFacts) : Bool :=
  facts.perProject ≤ (d.writers identity.projectId).getD 0 ||
    (facts.isLocal && (facts.capacity d.localRunning).any (· ≤ d.localReserved))

/-- The number of the new reservation; nothing where it throws. -/
def Desk.reserveWriter (identity : WriterIdentity) (facts : SlotFacts) : Desk × Option ℕ :=
  if d.world.storeClosed ∨ facts.allowed = false then (d, none)
  else if d.full identity facts then
    match d.world.getChain env identity.traceId identity.projectId identity.fromAgent none with
    | (w, none) => ({ d with world := w }, none)
    | (w, some traceId) => ({ d with world := w.refuse env traceId identity.call "fanout" }, none)
  else
    ({ d with
        reservations := d.reservations ++ [⟨identity, facts.isLocal, false, false⟩]
        writers := Function.update d.writers identity.projectId (some ((d.writers identity.projectId).getD 0 + 1))
        localReserved := if facts.isLocal then d.localReserved + 1 else d.localReserved },
      some d.reservations.length)

/-- The reservation is for the same project, the same agents and the same principal. -/
def WriterIdentity.fits (identity input : WriterIdentity) : Bool :=
  identity.projectId = input.projectId ∧ identity.fromAgent = input.fromAgent ∧ identity.toAgent = input.toAgent ∧
    identity.userId = input.userId ∧ identity.kind = input.kind

/-- Nothing where it throws. -/
def Desk.useReservation (r : ℕ) (input : WriterIdentity) : Option Desk :=
  match d.reservations[r]? with
  | none => none
  | some slot =>
    if slot.released ∨ slot.running ∨ slot.identity.fits input = false then none
    else
      some { d with
        reservations := d.reservations.set r { slot with running := true }
        localRunning := if slot.isLocal then d.localRunning + 1 else d.localRunning }

/-! ### Delegations -/

/-- What comes of the insertions of a call: both go through, the span is not
stored, or the task is not, and then the span is finished or stays. -/
inductive Insertion | both | noSpan | noTask (finished : Bool)
  deriving DecidableEq, Repr

structure DelegateInput where
  call : CallInput
  userId : String
  kind : Option PrincipalKind
  callClass : CallClass := .write
  writerReservation : Option ℕ := none
  facts : SlotFacts
  insertion : Insertion := .both

def DelegateInput.identity (i : DelegateInput) (traceId : Option String) : WriterIdentity :=
  ⟨i.userId, i.kind, i.call.projectId, i.call.fromAgent, i.call.toAgent, traceId, i.call.parentSpanId⟩

/-- What a call came to: it threw, or its task is queued under a controller; and
the reservation that it has used. -/
structure Outcome where
  threw : Bool
  queued : Option ℕ := none
  used : Option ℕ := none
  deriving DecidableEq, Repr

/-- The reservation of a call that writes, once it is in use; nothing where it
throws. -/
def Desk.hold (i : DelegateInput) (traceId : String) : Desk × Option (Option ℕ) :=
  if i.callClass ≠ .write then (d, some none)
  else
    match i.writerReservation with
    | some r =>
      match d.useReservation r (i.identity i.call.traceId) with
      | none => (d, none)
      | some d => (d, some (some r))
    | none =>
      match d.reserveWriter env (i.identity (some traceId)) i.facts with
      | (d, none) => (d, none)
      | (d, some r) =>
        match d.useReservation r (i.identity i.call.traceId) with
        | none => (d.release r, none)
        | some d => (d, some (some r))

/-- A call that has its reservation, up to the queued task. Whatever throws
releases the reservation. -/
def Desk.insert (i : DelegateInput) (traceId : String) (reservation : Option ℕ) : Desk × Outcome :=
  if i.insertion = .noSpan then
    (({ d with world := d.world.setChain traceId (fun c => { c with fanout := c.fanout + 1 }) } : Desk).releaseAny
      reservation, { threw := true, used := reservation })
  else
    match d.world.admitSpan env traceId i.call .delegate with
    | (w, none) => (({ d with world := w } : Desk).releaseAny reservation, { threw := true, used := reservation })
    | (w, some spanId) =>
      if i.insertion ≠ .both ∨ ∃ t ∈ w.tasks, t.id = env.taskId then
        let w := if i.insertion = .noTask false then w
          else w.finishSpan env spanId { status := .failed, error := some "run-failed" }
        (({ d with world := w } : Desk).releaseAny reservation, { threw := true, used := reservation })
      else
        let task : TaskRow := ⟨env.taskId, i.call.projectId, traceId, spanId, i.call.parentTaskId, i.call.fromAgent,
          i.call.toAgent, .queued, i.call.question, i.call.acceptanceCriteria,
          i.call.path.getD [i.call.fromAgent] ++ [i.call.toAgent], env.now, none, none, none, false, none, none,
          none, none⟩
        ({ d with
            world := World.launch { w with tasks := w.tasks ++ [task] } traceId spanId (some env.taskId) i.call.signal
            booked := Function.update d.booked w.next reservation
            waiting := d.waiting ++ [w.next] },
          { threw := false, queued := some w.next, used := reservation })

def Desk.delegate (i : DelegateInput) : Desk × Outcome :=
  if d.world.storeClosed ∨ i.call.admission = .denied then (d, { threw := true })
  else
    match d.world.getChain env i.call.traceId i.call.projectId i.call.fromAgent i.call.signal with
    | (w, none) => ({ d with world := w }, { threw := true })
    | (w, some traceId) =>
      match i.call.admission with
      | .denied | .thrown => ({ d with world := w }, { threw := true })
      | .guardrail reason => ({ d with world := w.refuse env traceId i.call reason }, { threw := true })
      | .admitted =>
        match ({ d with world := w } : Desk).hold env i traceId with
        | (d, none) => (d, { threw := true })
        | (d, some reservation) => d.insert env i traceId reservation

/-! ### Runs -/

/-- The world after a step of run `controller`; a run that is over releases its
reservation. -/
def Desk.follow (w : World) (controller : ℕ) : Desk :=
  if w.run? controller = none then ({ d with world := w } : Desk).releaseAny (d.booked controller)
  else { d with world := w }

/-- The caller was told that its call is admitted: it returns and the run
begins, or it throws and the call with it. -/
def Desk.admitted (controller : ℕ) (returns : Bool) : Desk × Outcome :=
  if controller ∉ d.waiting then (d, { threw := false })
  else
    let d := { d with waiting := d.waiting.filter (· ≠ controller) }
    if returns then
      (d.follow ((d.world.run? controller).elim d.world (fun r => d.world.start env r)) controller, { threw := false })
    else
      (({ d with world := { d.world with runs := d.world.runs.filter (·.controller ≠ controller) } } : Desk).releaseAny
        (d.booked controller), { threw := true, queued := some controller })

def Desk.answer (controller : ℕ) (a : Answer) : Desk :=
  if controller ∈ d.waiting then d
  else d.follow ((d.world.run? controller).elim d.world (fun r => d.world.answer env r a)) controller

def Desk.fail (controller : ℕ) (message : String) : Desk :=
  if controller ∈ d.waiting then d
  else d.follow ((d.world.run? controller).elim d.world (fun r => d.world.fail env r message)) controller

/-! ### Steps -/

/-- What else the service does, that no delegation takes part in. -/
def Step.aside : Step → Bool
  | .delegate _ | .start _ | .answer _ _ | .fail _ _ => false
  | _ => true

inductive DeskStep
  | reserveWriter (identity : WriterIdentity) (facts : SlotFacts)
  | release (r : ℕ)
  | delegate (input : DelegateInput)
  | admitted (controller : ℕ) (returns : Bool)
  | answer (controller : ℕ) (a : Answer)
  | fail (controller : ℕ) (message : String)
  | aside (step : Step)

def Desk.step : DeskStep → Desk × Outcome
  | .reserveWriter identity facts => ((d.reserveWriter env identity facts).1, { threw := false })
  | .release r => (d.release r, { threw := false })
  | .delegate i => d.delegate env i
  | .admitted controller returns => d.admitted env controller returns
  | .answer controller a => (d.answer env controller a, { threw := false })
  | .fail controller message => (d.fail env controller message, { threw := false })
  | .aside step => (if step.aside then { d with world := d.world.step env step } else d, { threw := false })

/-- What is reached from `d`, with what every step came to. -/
def Desk.run : Desk → List (Env × DeskStep) → Desk × List Outcome
  | d, [] => (d, [])
  | d, (env, step) :: steps =>
    let (d', outcome) := d.step env step
    let (d'', outcomes) := Desk.run d' steps
    (d'', outcome :: outcomes)

end Plur1bus.Collab
