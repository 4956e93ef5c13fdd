import Plur1bus.Budget.Tickets
import Mathlib.Data.List.Induction

/-!
Runs of the retry budget: any calls in any order, with any arguments, thrown
ones included. The invariant of the tickets holds after each of them, and says
what the aggregates are, when `consume` succeeds, and what a ticket is worth
after it was settled.
-/

namespace Plur1bus.Budget

open Program Keyed List

variable {limits : RetryLimits} {s : RetryBudget} {log : List (RetryAct × RetryAnswer)}

theorem Accounted.act {r : RetryRun} (h : Accounted limits r.budget r.log) (a : RetryAct) :
    Accounted limits (r.act limits a).budget (r.act limits a).log := by
  cases a with
  | consume turnId name n =>
      have hquiet : ∀ answer, Quiet (.consume turnId name n, .consumed answer) := fun _ _ => rfl
      obtain ⟨e, he⟩ | ⟨c, estimated, hn, -, hattempts, -, hturn, hok⟩ := consume_cases limits turnId name n r.budget
      · simp only [RetryRun.act, he]
        exact h.quiet (hquiet _)
      · simp only [RetryRun.act, hok]
        exact h.reserve (hquiet _) (safeCount_bounds hn).1 hattempts hturn
  | settle k n =>
      obtain ⟨answer, hanswer, he⟩ | ⟨entry, turn, usage, actual, answer, rfl, hnonneg, hentry, hid, hopen, hturn,
        husage, hsafe, hanswer, hok⟩ := settle_cases limits k n r.budget
      · simp only [RetryRun.act, he]
        exact h.quiet (quiet_of_unsettled hanswer)
      · simp only [RetryRun.act, hok]
        simp only [isSafeInteger, Bool.and_eq_true, decide_eq_true_eq] at hsafe
        refine h.adopt hnonneg hentry hopen hturn husage hsafe.2 fun k' => ?_
        rw [settledWith_of_settled hanswer, hid]
  | endTurn turnId => exact h.endTurn.quiet fun _ => rfl

theorem accounted (limits : RetryLimits) (acts : List RetryAct) :
    Accounted limits (RetryRun.of limits acts).budget (RetryRun.of limits acts).log := by
  induction acts using List.reverseRecOn with
  | nil => exact Accounted.start limits
  | append_singleton acts a ih =>
      rw [RetryRun.of, foldl_append]
      exact ih.act a

/-- Every ticket of a turn has one class. -/
theorem sum_classes {w : Ticket → ℤ} {t : String} {tickets : List Ticket} :
    (RetryClass.all.map fun c => sumOf (ofClass t c) w tickets).sum = sumOf (ofTurn t) w tickets := by
  induction tickets with
  | nil => rfl
  | cons e tickets ih =>
      rw [sumOf_cons, ← ih]
      simp only [RetryClass.all, map_cons, map_nil, sum_cons, sum_nil, sumOf_cons]
      obtain ⟨id, turnId, c, reserved, settled⟩ := e
      by_cases ht : turnId = t
      · cases c <;> simp [ofClass, ofTurn, ht] <;> omega
      · simp [ofClass, ofTurn, ht]

/-- A settled ticket stays as it is: a call on it changes nothing, and answers
`false` if the count is one and the budget still has the ticket. -/
theorem Accounted.settle_settled {k : ℕ} (h : Accounted limits s log) (hk : (actualTokens log k).isSome = true)
    (n : Option ℤ) :
    RetryBudget.settle limits k n s =
      (if (safeCount n).isNone then .error (.range "invalid actual retry tokens")
        else if s.tickets.any (fun e => e.id = k) then .ok false
        else .error (.range "unknown retry ticket"), s) := by
  unfold RetryBudget.settle
  cases hn : safeCount n with
  | none => rfl
  | some actual =>
      cases hfind : s.tickets.find? (fun e => e.id = k) with
      | none => simp_all
      | some entry =>
          have hfound := List.find?_some hfind
          have hid : entry.id = k := of_decide_eq_true hfound
          have hmem := mem_of_find?_eq_some hfind
          have hany : s.tickets.any (fun e => e.id = k) = true :=
            List.any_eq_true.mpr ⟨entry, hmem, decide_eq_true hid⟩
          have hsettled : entry.settled = true := by rw [h.settled entry hmem, hid, hk]
          simp [hany, hsettled]

/-- A successful reservation is within both caps. -/
theorem consume_within {turnId name : String} {n : Option ℤ} {k : ℕ} {s' : RetryBudget}
    (h : RetryBudget.consume limits turnId name n s = (.ok k, s')) :
    ∃ c turn, c.name = name ∧ s'.turns turnId = some turn ∧
      (RetryBudget.usageOr turn c).tokens ≤ (limits.policy c).maxTokens ∧ turn.total ≤ limits.maxTurnTokens := by
  obtain ⟨e, he⟩ | ⟨c, estimated, -, hname, -, htokens, hturn, hok⟩ := consume_cases limits turnId name n s
  · rw [he] at h
    cases h
  · rw [hok] at h
    cases h
    refine ⟨c, _, hname, Function.update_self .., ?_, ?_⟩
    · rw [usageOr_update, if_pos rfl]
      show _ + _ ≤ _
      omega
    · show (s.turnOr turnId).total + estimated ≤ _
      omega

theorem consume_throws {turnId name : String} {n : Option ℤ} {e : RetryError} {s' : RetryBudget}
    (h : RetryBudget.consume limits turnId name n s = (.error e, s')) : s' = s := by
  obtain ⟨e', he⟩ | ⟨c, estimated, -, -, -, -, -, hok⟩ := consume_cases limits turnId name n s
  · rw [he] at h
    cases h
    rfl
  · rw [hok] at h
    cases h

/-- The accounts of the retry budget after any calls. -/
theorem retry_accounts (limits : RetryLimits) (acts : List RetryAct) : let r := RetryRun.of limits acts
    (∀ t turn, r.budget.turns t = some turn →
      turn.total = (RetryClass.all.map fun c => (RetryBudget.usageOr turn c).tokens).sum ∧
      turn.total = ((r.budget.tickets.filter fun e => e.turnId = t).map (counted r.log)).sum ∧
      ∀ c, (RetryBudget.usageOr turn c).attempts ≤ (limits.policy c).maxAttempts) ∧
    (∀ turnId name n k s', RetryBudget.consume limits turnId name n r.budget = (.ok k, s') →
      ∃ c turn, c.name = name ∧ s'.turns turnId = some turn ∧
        (RetryBudget.usageOr turn c).tokens ≤ (limits.policy c).maxTokens ∧ turn.total ≤ limits.maxTurnTokens) ∧
    (∀ turnId name n e s', RetryBudget.consume limits turnId name n r.budget = (.error e, s') → s' = r.budget) ∧
    (∀ e ∈ r.budget.tickets, e.settled = (actualTokens r.log e.id).isSome) ∧
    (∀ k, settlements r.log k ≤ 1) ∧
    ∀ k n, (actualTokens r.log k).isSome = true → RetryBudget.settle limits k n r.budget =
      (if (safeCount n).isNone then .error (.range "invalid actual retry tokens")
        else if r.budget.tickets.any (fun e => e.id = k) then .ok false
        else .error (.range "unknown retry ticket"), r.budget) := by
  intro r
  have h := accounted limits acts
  refine ⟨fun t turn hturn => ?_, fun _ _ _ _ _ => consume_within, fun _ _ _ _ _ => consume_throws, h.settled, h.once,
    fun k n hk => h.settle_settled hk n⟩
  obtain ⟨htokens, htotal, hattempts, -⟩ := h.balanced t turn hturn
  refine ⟨?_, htotal, hattempts⟩
  simp only [htokens]
  rw [sum_classes, htotal]

/-- Once its turn has ended, a ticket that was settled is unknown: settling it
again throws. -/
theorem settle_after_end :
    ¬ ∀ (limits : RetryLimits) (acts : List RetryAct) (k : ℕ) (n : Option ℤ), safeCount n ≠ none →
      (actualTokens (RetryRun.of limits acts).log k).isSome = true →
      (RetryBudget.settle limits k n (RetryRun.of limits acts).budget).1 = .ok false := by
  intro h
  have hfalse := h .standard [.consume "turn" "network" (some 5), .settle 1 (some 7), .endTurn "turn"] 1 (some 7)
    (by decide) (by decide)
  exact absurd hfalse (by decide)

end Plur1bus.Budget
