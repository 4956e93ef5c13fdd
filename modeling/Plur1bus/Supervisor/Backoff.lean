import Mathlib.Algebra.GroupWithZero.Nat
import Mathlib.Data.List.Basic
import Mathlib.Tactic.Common

/-!
The restart backoff of the supervisor: how long a child that exited waits before
it is started again, and when it is not started again at all.

An instant is a number of nanoseconds since some fixed moment. Durations are
nanoseconds too; the time scale is a whole number here (1 in production), so that
every delay is a whole number of seconds.

A history is the list of what the supervisor told its backoff so far, the newest
first. Everything the specification speaks of is read off it.
-/

namespace Plur1bus.Supervisor

/-- Nanoseconds of a second. -/
def SECOND : ℕ := 1000000000

/-- The delay sequence in seconds: 1, 2, 4, 8, 16, 32, 60, 60, ... -/
def base_delay_secs (index : ℕ) : ℕ :=
  let capped := min index 6
  if capped ≥ 6 then 60 else 2 ^ capped

inductive RestartDecision where
  | after (delay : ℕ)
  | giveUp
  deriving DecidableEq, Repr

structure Backoff where
  scale : ℕ
  window : ℕ
  delay_index : ℕ
  ready_since : Option ℕ
  exits : List ℕ
  given_up : Bool
  deriving DecidableEq, Repr

namespace Backoff

def new (scale : ℕ) : Backoff where
  scale
  window := 600 * scale * SECOND
  delay_index := 0
  ready_since := none
  exits := []
  given_up := false

def on_ready (b : Backoff) (now : ℕ) : Backoff := { b with ready_since := some now }

/-- What both kinds of exits do to the delay counter before the delay is read:
a readiness of a full window starts the sequence again, and the child is no
longer ready. The subtraction stops at zero, as `saturating_duration_since` does. -/
def leaveReady (b : Backoff) (now : ℕ) : Backoff := { b with
    delay_index := match b.ready_since with
      | some ready_since => if now - ready_since ≥ b.window then 0 else b.delay_index
      | none => b.delay_index
    ready_since := none }

/-- The delay of this exit; the next one waits longer. -/
def nextDelay (b : Backoff) : Backoff × RestartDecision := ({ b with delay_index := b.delay_index + 1 },
    .after (base_delay_secs b.delay_index * b.scale * SECOND))

def on_exit (b : Backoff) (now : ℕ) : Backoff × RestartDecision :=
  if b.given_up then (b, .giveUp)
  else
    let b := b.leaveReady now
    let b := { b with exits := b.exits.filter (fun t => now - t ≤ b.window) ++ [now] }
    if b.exits.length ≥ 5 then ({ b with given_up := true }, .giveUp)
    else b.nextDelay

def on_lock_held_exit (b : Backoff) (now : ℕ) : Backoff × RestartDecision :=
  if b.given_up then (b, .giveUp)
  else (b.leaveReady now).nextDelay

def reset (b : Backoff) : Backoff :=
  { b with delay_index := 0, ready_since := none, exits := [], given_up := false }

end Backoff

/-! ### Histories -/

inductive Event where
  | ready (now : ℕ)
  | exit (now : ℕ)
  | lockHeldExit (now : ℕ)
  | reset
  deriving DecidableEq, Repr

namespace Event

def instant? : Event → Option ℕ
  | ready now | exit now | lockHeldExit now => some now
  | reset => none

end Event

namespace Backoff

/-- One call: the state after it and, for the two kinds of exits, its answer. -/
def call (b : Backoff) : Event → Backoff × Option RestartDecision
  | .ready now => (b.on_ready now, none)
  | .exit now => ((b.on_exit now).1, some (b.on_exit now).2)
  | .lockHeldExit now => ((b.on_lock_held_exit now).1, some (b.on_lock_held_exit now).2)
  | .reset => (b.reset, none)

/-- The backoff after a history, the newest event first. -/
def run (scale : ℕ) : List Event → Backoff
  | [] => new scale
  | e :: past => ((run scale past).call e).1

end Backoff

/-- What the backoff answers to an event that comes after a history. -/
def answer (scale : ℕ) (past : List Event) (e : Event) : Option RestartDecision :=
  ((Backoff.run scale past).call e).2

/-! ### The specification -/

/-- The instants of a history never go back. -/
def Nondecreasing (past : List Event) : Prop :=
  (past.filterMap Event.instant?).Pairwise (fun newer older => older ≤ newer)

instance Nondecreasing.instDecidable (past : List Event) : Decidable (Nondecreasing past) :=
  inferInstanceAs (Decidable (List.Pairwise _ _))

/-- The part of the history after its last reset. -/
def sinceReset (past : List Event) : List Event := past.takeWhile (· ≠ .reset)

/-- The instants of the exits since the last reset that count toward giving up,
the newest first. -/
def countedExits (past : List Event) : List ℕ := (sinceReset past).filterMap fun
    | .exit now => some now
    | _ => none

/-- An exit at `now`, itself counted, is at least the fifth one since the last
reset in the window that ends at `now`. -/
def Fifth (scale : ℕ) (past : List Event) (now : ℕ) : Prop := 5 ≤ ((countedExits (.exit now :: past)).filter
    (fun t => now - t ≤ 600 * scale * SECOND)).length

instance Fifth.instDecidable (scale : ℕ) (past : List Event) (now : ℕ) :
    Decidable (Fifth scale past now) := inferInstanceAs (Decidable (_ ≤ _))

/-- Some event since the last reset was answered by giving up. -/
def GaveUp (scale : ℕ) (past : List Event) : Prop :=
  ∃ before e after, past = after ++ e :: before ∧ Event.reset ∉ after ∧ answer scale before e = some .giveUp

/-- An exit at `now` after this history ends a readiness that lasted a full
window: the child became ready, nothing came in between, and a window has passed. -/
def Renews (scale : ℕ) (past : List Event) (now : ℕ) : Prop :=
  ∃ ready, past.head? = some (.ready ready) ∧ 600 * scale * SECOND ≤ now - ready

instance Renews.instDecidable (scale : ℕ) (now : ℕ) :
    (past : List Event) → Decidable (Renews scale past now)
  | .ready ready :: past =>
    decidable_of_iff (600 * scale * SECOND ≤ now - ready)
      ⟨fun h => ⟨ready, rfl, h⟩, fun ⟨_, he, h⟩ => by
        cases he
        exact h⟩
  | [] => .isFalse (fun ⟨_, he, _⟩ => by cases he)
  | .exit _ :: _ | .lockHeldExit _ :: _ | .reset :: _ => .isFalse (fun ⟨_, he, _⟩ => by cases he)

/-- The exits of both kinds in the history since its last reset, or from the last
exit on that ended a readiness of a full window. -/
def exitsSince (scale : ℕ) : List Event → ℕ
  | [] => 0
  | .reset :: _ => 0
  | .ready _ :: past => exitsSince scale past
  | .exit now :: past | .lockHeldExit now :: past =>
    if Renews scale past now then 1 else exitsSince scale past + 1

/-- The same for an exit at `now` that comes after the history and is not counted
itself: where it ends a readiness of a full window, none came since. -/
def exitsBefore (scale : ℕ) (past : List Event) (now : ℕ) : ℕ :=
  if Renews scale past now then 0 else exitsSince scale past

/-- `min (2 ^ n) 60` seconds, and 60 from the sixth exit on. -/
def delayAfter (n : ℕ) : ℕ := (if n < 6 then min (2 ^ n) 60 else 60) * SECOND

end Plur1bus.Supervisor
