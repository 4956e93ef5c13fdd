import Mathlib.Algebra.Order.Ring.Int
import Plur1bus.Program.Exec
import Mathlib.Data.List.Basic
import Mathlib.Data.Int.Notation
import Mathlib.Logic.Function.Basic

/-!
The retry budget of a turn. `consume` reserves tokens for one more attempt of
a failure class and answers a ticket; `settle` replaces a ticket's reservation
by what the attempt really took; `endTurn` forgets the turn and its tickets.

Numbers are checked to be safe integers wherever they come in, so a number is
`none` if it is no integer at all, and an integer otherwise. A turn's failure
classes are a partial record, and the turns and tickets are maps of which only
the tickets are ever listed.
-/

namespace Plur1bus.Budget

open Program

inductive RetryClass
  | rateLimit | overloaded | network | timeout | toolCallInvalid
  deriving DecidableEq, Repr

def RetryClass.all : List RetryClass := [.rateLimit, .overloaded, .network, .timeout, .toolCallInvalid]

def RetryClass.name : RetryClass → String
  | .rateLimit => "rate_limit"
  | .overloaded => "overloaded"
  | .network => "network"
  | .timeout => "timeout"
  | .toolCallInvalid => "tool_call_invalid"

structure RetryRule where
  maxAttempts : ℕ
  maxTokens : ℤ
  deriving DecidableEq, Repr

def MAX_SAFE_INTEGER : ℤ := 2 ^ 53 - 1

def isSafeInteger (n : ℤ) : Bool := -MAX_SAFE_INTEGER ≤ n && n ≤ MAX_SAFE_INTEGER

/-- A number that passes `Number.isSafeInteger` and is not negative. -/
def safeCount (n : Option ℤ) : Option ℤ := n.filter (fun n => isSafeInteger n && 0 ≤ n)

/-- What the constructor accepts: its checks are the fields. -/
structure RetryLimits where
  policy : RetryClass → RetryRule
  maxTurnTokens : ℤ
  policy_safe : ∀ c, ((policy c).maxAttempts : ℤ) ≤ MAX_SAFE_INTEGER ∧
    0 ≤ (policy c).maxTokens ∧ (policy c).maxTokens ≤ MAX_SAFE_INTEGER
  turn_safe : 0 ≤ maxTurnTokens ∧ maxTurnTokens ≤ MAX_SAFE_INTEGER

def DEFAULT_RETRY_POLICY : RetryClass → RetryRule
  | .rateLimit => ⟨3, 200000⟩
  | .overloaded => ⟨2, 200000⟩
  | .network => ⟨2, 100000⟩
  | .timeout => ⟨1, 200000⟩
  | .toolCallInvalid => ⟨1, 100000⟩

def DEFAULT_RETRY_TURN_TOKENS : ℤ := 400000

/-- What the constructor takes by default. -/
def RetryLimits.standard : RetryLimits where
  policy := DEFAULT_RETRY_POLICY
  maxTurnTokens := DEFAULT_RETRY_TURN_TOKENS
  policy_safe := fun c => (by cases c <;> decide)
  turn_safe := (by decide)

structure Usage where
  attempts : ℕ
  tokens : ℤ
  deriving DecidableEq, Repr

structure Turn where
  total : ℤ
  classes : RetryClass → Option Usage

structure Ticket where
  id : ℕ
  turnId : String
  failureClass : RetryClass
  reserved : ℤ
  settled : Bool
  deriving DecidableEq, Repr

structure RetryBudget where
  turns : String → Option Turn := fun _ => none
  tickets : List Ticket := []
  nextTicket : ℕ := 0

inductive ExceededReason | attempts | tokens
  deriving DecidableEq, Repr

/-- `undefinedTurn` is what reading a turn or class that is not there would throw. -/
inductive RetryError
  | range (message : String)
  | exceeded (failureClass : RetryClass) (reason : ExceededReason)
  | undefinedTurn
  deriving DecidableEq, Repr

namespace RetryBudget

def turnOr (s : RetryBudget) (turnId : String) : Turn := (s.turns turnId).getD ⟨0, fun _ => none⟩

def usageOr (turn : Turn) (c : RetryClass) : Usage := (turn.classes c).getD ⟨0, 0⟩

def setTurn (s : RetryBudget) (turnId : String) (turn : Turn) : RetryBudget :=
  { s with turns := Function.update s.turns turnId (some turn) }

/-- The assignments of `consume` once nothing throws before them. -/
def reserve (s : RetryBudget) (turnId : String) (c : RetryClass) (estimated : ℤ) : RetryBudget :=
  let turn := s.turnOr turnId
  let prev := usageOr turn c
  { s.setTurn turnId ⟨turn.total + estimated,
      Function.update turn.classes c (some ⟨prev.attempts + 1, prev.tokens + estimated⟩)⟩ with
    nextTicket := s.nextTicket + 1
    tickets := s.tickets ++ [⟨s.nextTicket + 1, turnId, c, estimated, false⟩] }

def consume (limits : RetryLimits) (turnId failureClass : String) (estimatedTokens : Option ℤ) :
    Prog RetryError RetryBudget ℕ := fun s =>
  match safeCount estimatedTokens with
  | none => (.error (.range "invalid retry reservation"), s)
  | some estimated =>
    if turnId = "" then (.error (.range "invalid retry reservation"), s)
    else match RetryClass.all.find? (fun c => c.name = failureClass) with
    | none => (.error (.range "unknown failure class"), s)
    | some c =>
      let rule := limits.policy c
      let turn := s.turnOr turnId
      let prev := usageOr turn c
      if prev.attempts ≥ rule.maxAttempts then (.error (.exceeded c .attempts), s)
      else if estimated > rule.maxTokens - prev.tokens ∨ estimated > limits.maxTurnTokens - turn.total then
        (.error (.exceeded c .tokens), s)
      else (.ok (s.nextTicket + 1), s.reserve turnId c estimated)

/-- The assignments of `settle` once nothing throws before them. -/
def adopt (s : RetryBudget) (entry : Ticket) (turn : Turn) (usage : Usage) (delta : ℤ) : RetryBudget :=
  { s.setTurn entry.turnId ⟨turn.total + delta,
      Function.update turn.classes entry.failureClass (some ⟨usage.attempts, usage.tokens + delta⟩)⟩ with
    tickets := s.tickets.map (fun e => if e.id = entry.id then { e with settled := true } else e) }

def settle (limits : RetryLimits) (ticket : ℕ) (actualTokens : Option ℤ) :
    Prog RetryError RetryBudget Bool := fun s =>
  match safeCount actualTokens with
  | none => (.error (.range "invalid actual retry tokens"), s)
  | some actual =>
    match s.tickets.find? (fun e => e.id = ticket) with
    | none => (.error (.range "unknown retry ticket"), s)
    | some entry =>
      if entry.settled then (.ok false, s)
      else match s.turns entry.turnId with
      | none => (.error .undefinedTurn, s)
      | some turn =>
        match turn.classes entry.failureClass with
        | none => (.error .undefinedTurn, s)
        | some usage =>
          let delta := actual - entry.reserved
          if !isSafeInteger (turn.total + delta) || !isSafeInteger (usage.tokens + delta) then
            (.error (.range "retry token overflow"), s)
          else if turn.total + delta > limits.maxTurnTokens ∨
              usage.tokens + delta > (limits.policy entry.failureClass).maxTokens then
            (.error (.exceeded entry.failureClass .tokens), s.adopt entry turn usage delta)
          else (.ok true, s.adopt entry turn usage delta)

def endTurn (turnId : String) (s : RetryBudget) : RetryBudget := { s with
    turns := Function.update s.turns turnId none
    tickets := s.tickets.filter (fun e => e.turnId ≠ turnId) }

end RetryBudget

/-! ### Runs -/

inductive RetryAct
  | consume (turnId failureClass : String) (estimatedTokens : Option ℤ)
  | settle (ticket : ℕ) (actualTokens : Option ℤ)
  | endTurn (turnId : String)
  deriving DecidableEq, Repr

/-- What a call answered or threw. -/
inductive RetryAnswer
  | consumed (r : Except RetryError ℕ)
  | settled (r : Except RetryError Bool)
  | ended
  deriving DecidableEq

/-- A budget with the calls made so far and what they answered. -/
structure RetryRun where
  budget : RetryBudget := {}
  log : List (RetryAct × RetryAnswer) := []

def RetryRun.act (limits : RetryLimits) (r : RetryRun) : RetryAct → RetryRun
  | .consume turnId c n =>
    let (answer, s) := RetryBudget.consume limits turnId c n r.budget
    ⟨s, r.log ++ [(.consume turnId c n, .consumed answer)]⟩
  | .settle ticket n =>
    let (answer, s) := RetryBudget.settle limits ticket n r.budget
    ⟨s, r.log ++ [(.settle ticket n, .settled answer)]⟩
  | .endTurn turnId => ⟨r.budget.endTurn turnId, r.log ++ [(.endTurn turnId, .ended)]⟩

def RetryRun.of (limits : RetryLimits) (acts : List RetryAct) : RetryRun :=
  acts.foldl (RetryRun.act limits) {}

/-- The tokens a call settled a ticket with: it answered `true`, or threw for
an overage that stays counted. -/
def settledWith (ticket : ℕ) : RetryAct × RetryAnswer → Option ℤ
  | (.settle k n, .settled (.ok true)) => if k = ticket then n else none
  | (.settle k n, .settled (.error (.exceeded _ _))) => if k = ticket then n else none
  | _ => none

/-- What the calls so far settled a ticket with. -/
def actualTokens (log : List (RetryAct × RetryAnswer)) (ticket : ℕ) : Option ℤ :=
  log.findSome? (settledWith ticket)

/-- What a ticket counts for: actual tokens if settled and reserved tokens otherwise. -/
def counted (log : List (RetryAct × RetryAnswer)) (e : Ticket) : ℤ :=
  (actualTokens log e.id).getD e.reserved

end Plur1bus.Budget
