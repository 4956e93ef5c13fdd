import Mathlib.Data.Fintype.Basic
import Mathlib.Data.Int.Notation
import Mathlib.Logic.Function.Basic
import Plur1bus.Program.Runs

/-!
The circuit breaker of one provider and model, and the requests that go through
it. A request asks to be admitted and, once admitted, reports exactly one of
success, failure or release, as `ProviderRouter.stream` does; the clock only
moves forward.

A report carries no identity. One that arrives while a half-open probe is still
out clears the flag the probe set, whoever it comes from.
-/

namespace Plur1bus.Providers

open Program Function

inductive BreakerState
  | closed | open | halfOpen
  deriving DecidableEq, Repr

structure BreakerPolicy where
  failureThreshold : ℕ
  openMs : ℤ
  deriving DecidableEq, Repr

structure CircuitBreaker where
  state : BreakerState := .closed
  failures : ℕ := 0
  openedAt : ℤ := 0
  probing : Bool := false
  deriving DecidableEq, Repr

inductive Admission
  | allowed | breakerOpen | halfOpenBusy
  deriving DecidableEq, Repr

namespace CircuitBreaker

variable (policy : BreakerPolicy) (now : ℤ) (b : CircuitBreaker)

def tick : CircuitBreaker :=
  if b.state = .open ∧ now - b.openedAt ≥ policy.openMs then { b with state := .halfOpen } else b

def admitCall : Admission × CircuitBreaker :=
  let b := b.tick policy now
  match b.state with
  | .closed => (.allowed, b)
  | .open => (.breakerOpen, b)
  | .halfOpen => if b.probing then (.halfOpenBusy, b) else (.allowed, { b with probing := true })

def success : CircuitBreaker := { b with failures := 0, probing := false, state := .closed }

/-- `#open`. -/
def reopen : CircuitBreaker := { b with openedAt := now, state := .open }

def failure : CircuitBreaker :=
  let b := { b with probing := false }
  if b.state = .halfOpen then b.reopen now
  else
    let b := { b with failures := b.failures + 1 }
    if b.state = .closed ∧ b.failures ≥ policy.failureThreshold then b.reopen now else b

def release : CircuitBreaker := { b with probing := false }

end CircuitBreaker

/-! ### Requests -/

inductive Report
  | success | failure | release
  deriving DecidableEq, Repr

/-- The breaker, the clock, and the state each request was admitted in that has
not reported yet. -/
structure Traffic (R : Type) where
  breaker : CircuitBreaker
  clock : ℤ
  pending : R → Option BreakerState

inductive Act (R : Type)
  | wait (ms : ℕ)
  /-- Someone reads the breaker's state. -/
  | look
  | admitCall (r : R)
  | report (r : R) (what : Report)
  deriving DecidableEq, Repr

section

variable {R : Type} [DecidableEq R] (policy : BreakerPolicy)

/-- A request that is pending does not ask again, and one that is not pending has
nothing to report. -/
def Traffic.act (w : Traffic R) : Act R → Traffic R
  | .wait ms => { w with clock := w.clock + ms }
  | .look => { w with breaker := w.breaker.tick policy w.clock }
  | .admitCall r =>
    match w.pending r with
    | some _ => w
    | none =>
      match w.breaker.admitCall policy w.clock with
      | (.allowed, b) =>
        { w with breaker := b, pending := Function.update w.pending r (some b.state) }
      | (_, b) => { w with breaker := b }
  | .report r what =>
    match w.pending r with
    | none => w
    | some _ =>
      let b :=
        match what with
        | .success => w.breaker.success
        | .failure => w.breaker.failure policy w.clock
        | .release => w.breaker.release
      { w with breaker := b, pending := Function.update w.pending r none }

/-- A request that was admitted half-open and has not reported. -/
def Traffic.Probe (w : Traffic R) (r : R) : Prop := w.pending r = some .halfOpen

instance (w : Traffic R) (r : R) : Decidable (w.Probe r) := inferInstanceAs (Decidable (_ = _))

/-- At most one probe is out while the breaker is half-open, and an act that lets a
probe in finds no other one out. -/
def OneProbe (w : Traffic R) (a : Act R) : Prop := ((w.act policy a).breaker.state = .halfOpen →
    ∀ p q, (w.act policy a).Probe p → (w.act policy a).Probe q → p = q) ∧
  ∀ p q, w.Probe p → ¬w.Probe q → ¬(w.act policy a).Probe q

/-- Whoever reports while a probe is out is the probe. -/
def OwnReport (w : Traffic R) : Act R → Prop
  | .report r _ => ∀ p, w.Probe p → w.pending r ≠ none → p = r
  | _ => True

instance [Fintype R] (w : Traffic R) : ∀ a, Decidable (OwnReport w a)
  | .report r _ => inferInstanceAs (Decidable (∀ p, w.Probe p → w.pending r ≠ none → p = r))
  | .wait _ | .look | .admitCall _ => .isTrue trivial

/-! ### Runs in which only the probe reports -/

variable {policy} {w : Traffic R}

/-- A probe that is out holds the breaker half-open, and is the only one. -/
def Traffic.Held (w : Traffic R) : Prop :=
  ∀ p, w.Probe p → w.breaker.state = .halfOpen ∧ w.breaker.probing = true ∧ ∀ q, w.Probe q → q = p

theorem CircuitBreaker.tick_of_halfOpen (policy : BreakerPolicy) {b : CircuitBreaker} (now : ℤ) (h : b.state = .halfOpen) :
    b.tick policy now = b := by
  simp [CircuitBreaker.tick, h]

/-- While a probe is out, nobody else is admitted. -/
theorem CircuitBreaker.admitCall_busy (policy : BreakerPolicy) {b : CircuitBreaker} (now : ℤ)
    (h : b.state = .halfOpen) (hprobing : b.probing = true) : b.admitCall policy now = (.halfOpenBusy, b) := by
  simp [CircuitBreaker.admitCall, tick_of_halfOpen policy now h, h, hprobing]

/-- An admission that is allowed while no probe is out either is not half-open, or
sets the flag. -/
theorem CircuitBreaker.admitCall_allowed {b b' : CircuitBreaker} {now : ℤ}
    (h : b.admitCall policy now = (.allowed, b')) :
    b'.state = .closed ∨ (b'.state = .halfOpen ∧ b'.probing = true) := by
  grind [CircuitBreaker.admitCall]

/-- A change of the breaker that a probe does not see, or that happens when none is
out. -/
theorem Traffic.Held.breaker (h : w.Held) {b : CircuitBreaker}
    (hb : ∀ p, w.Probe p → b = w.breaker) : Held { w with breaker := b } := by
  intro p hp
  have hsame : b = w.breaker := hb p hp
  obtain ⟨hstate, hprobing, hall⟩ := h p hp
  exact ⟨hsame ▸ hstate, hsame ▸ hprobing, hall⟩

/-- Admitting: the requests that are out are those before, or the new one. -/
theorem Traffic.Held.admitCall (h : w.Held) (r : R) : (w.act policy (.admitCall r)).Held ∧
      ∀ p q, w.Probe p → ¬w.Probe q → ¬(w.act policy (.admitCall r)).Probe q := by
  cases hr : w.pending r with
  | some st =>
    simp only [Traffic.act, hr]
    exact ⟨h, fun p q _ hq => hq⟩
  | none =>
    by_cases hprobe : ∃ p, w.Probe p
    · obtain ⟨p, hp⟩ := hprobe
      obtain ⟨hstate, hprobing, -⟩ := h p hp
      have hbusy := CircuitBreaker.admitCall_busy policy w.clock hstate hprobing
      simp only [Traffic.act, hr, hbusy]
      exact ⟨h, fun p q _ hq => hq⟩
    · refine ⟨?_, fun p q hp => absurd ⟨p, hp⟩ hprobe⟩
      have hnone : ∀ p, ¬w.Probe p := fun p hp => hprobe ⟨p, hp⟩
      simp only [Traffic.act, hr]
      split
      · rename_i b hcall
        intro p hp
        by_cases hpr : p = r
        · subst hpr
          simp only [Traffic.Probe, update_self, Option.some.injEq] at hp
          obtain hclosed | ⟨hhalf, hprobing⟩ := CircuitBreaker.admitCall_allowed hcall
          · rw [hclosed] at hp
            cases hp
          · refine ⟨hhalf, hprobing, fun q hq => ?_⟩
            by_contra hne
            simp only [Traffic.Probe, update_of_ne hne] at hq
            exact hnone q hq
        · simp only [Traffic.Probe, update_of_ne hpr] at hp
          exact absurd hp (hnone p)
      · exact h.breaker fun p hp => absurd hp (hnone p)

theorem Traffic.Held.act (h : w.Held) {a : Act R} (ha : OwnReport w a) :
    (w.act policy a).Held ∧ ∀ p q, w.Probe p → ¬w.Probe q → ¬(w.act policy a).Probe q := by
  cases a with
  | wait ms => exact ⟨h, fun p q _ hq => hq⟩
  | look =>
    refine ⟨h.breaker fun p hp => ?_, fun p q _ hq => hq⟩
    exact CircuitBreaker.tick_of_halfOpen policy w.clock (h p hp).1
  | admitCall r => exact h.admitCall r
  | report r what =>
    cases hr : w.pending r with
    | none =>
      simp only [Traffic.act, hr]
      exact ⟨h, fun p q _ hq => hq⟩
    | some st =>
      simp only [Traffic.act, hr]
      -- After the report nobody is out: a probe that was is the one that reported.
      have hnone : ∀ p, Function.update w.pending r none p ≠ some .halfOpen := by
        intro p hp
        by_cases hpr : p = r
        · simp [hpr] at hp
        · rw [update_of_ne hpr] at hp
          exact hpr (ha p hp (by simp [hr]))
      exact ⟨fun p hp => absurd hp (hnone p), fun p q _ _ hq => hnone q hq⟩

variable (policy) in
/-- As long as no one but the probe itself reports while it is out, a half-open
breaker has at most one probe out and lets no second one in. -/
theorem one_probe_of_own_reports {as : List (Act R)} (hstart : ∀ r, w.pending r = none)
    (hall : Along (Traffic.act policy) OwnReport w as) :
    Along (Traffic.act policy) (OneProbe policy) w as := by
  refine Along.mono (I := Traffic.Held) (fun w a h ha => (h.act ha).1) (fun w a h ha => ?_) ?_ hall
  · obtain ⟨hheld, hlone⟩ : (w.act policy a).Held ∧ _ := h.act ha
    exact ⟨fun _ p q hp hq => (hheld q hq).2.2 p hp, hlone⟩
  · intro p hp
    rw [Traffic.Probe, hstart p] at hp
    cases hp

end

namespace Sample

def policy : BreakerPolicy := ⟨3, 30000⟩

def idle : Traffic (Fin 6) := ⟨{}, 0, fun _ => none⟩

/-- Request 0 is admitted and takes long; three others fail, the circuit opens and
turns half-open, and request 4 is its probe. -/
def slow : List (Act (Fin 6)) :=
  [.admitCall 0, .admitCall 1, .report 1 .failure, .admitCall 2, .report 2 .failure, .admitCall 3,
    .report 3 .failure, .wait 30000, .admitCall 4]

end Sample

/-- The caller of request 0 stops, and request 5 is let in beside the probe. -/
theorem second_probe : ¬Along (Traffic.act Sample.policy) (OneProbe Sample.policy) Sample.idle
      (Sample.slow ++ [.report 0 .release, .admitCall 5]) := by
  intro h
  have hstep := Along.middle (show Along _ _ _
    ((Sample.slow ++ [.report 0 .release]) ++ .admitCall 5 :: []) from h)
  exact hstep.2 4 5 (by decide) (by decide) (by decide)

/-- The probe's own report is awaited. -/
theorem one_probe_reported : Along (Traffic.act Sample.policy) (OneProbe Sample.policy) Sample.idle
      (Sample.slow ++ [.report 4 .success, .report 0 .release, .admitCall 5]) :=
  one_probe_of_own_reports Sample.policy (fun _ => rfl) (by decide)

end Plur1bus.Providers
