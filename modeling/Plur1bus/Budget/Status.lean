import Plur1bus.Budget.CacheReads
import Plur1bus.Program.Upsert
import Plur1bus.Program.Sums
import Mathlib.Data.List.Dedup

/-!
Usage as limits and the status report count it. A store is the list of its
usage events; a query sums the events it selects, and `totals` and `USED` round
the sum once. The status report asks for one sum for each agent and model and
adds the sums of an agent up before it rounds, so each number it reports is the
count of a set of events, and the sets of one level are a partition of the set
above them.
-/

namespace Plur1bus.Budget

open Program Keyed List

/-- One row of `usage_event`. -/
structure UsageRow where
  ts : ℕ
  agent : String
  provider : String
  model : String
  inputTokens : ℕ
  outputTokens : ℕ
  cacheReadTokens : ℕ
  cacheWriteTokens : ℕ
  images : ℕ
  videoSeconds : ℕ
  deriving DecidableEq, Repr

/-- The sums of a query. -/
@[ext] structure Row where
  n : ℕ
  i : ℕ
  o : ℕ
  cr : ℕ
  cw : ℕ
  im : ℕ
  vs : ℕ
  ri : ℕ
  fresh : ℕ
  deriving DecidableEq, Repr

def ZERO_ROW : Row := ⟨0, 0, 0, 0, 0, 0, 0, 0, 0⟩

/-- The loop over the keys of a row. -/
def Row.add (a b : Row) : Row :=
  ⟨a.n + b.n, a.i + b.i, a.o + b.o, a.cr + b.cr, a.cw + b.cw, a.im + b.im, a.vs + b.vs, a.ri + b.ri,
    a.fresh + b.fresh⟩

/-- `SUMS`. -/
def sums (events : List UsageRow) : Row where
  n := events.length
  i := (events.map (·.inputTokens)).sum
  o := (events.map (·.outputTokens)).sum
  cr := (events.map (·.cacheReadTokens)).sum
  cw := (events.map (·.cacheWriteTokens)).sum
  im := (events.map (·.images)).sum
  vs := (events.map (·.videoSeconds)).sum
  ri := (events.map fun e => weighableReads e.cacheReadTokens e.inputTokens).sum
  fresh := (events.map fun e => e.inputTokens - e.cacheReadTokens - e.cacheWriteTokens).sum

structure UsageTotals where
  events : ℕ
  inputTokens : ℕ
  outputTokens : ℕ
  cacheReadTokens : ℕ
  cacheWriteTokens : ℕ
  freshInputTokens : ℕ
  countedTokens : ℤ
  images : ℕ
  videoSeconds : ℕ
  deriving DecidableEq, Repr

def totals (r : Row) (weight : ℚ) : UsageTotals :=
  ⟨r.n, r.i, r.o, r.cr, r.cw, r.fresh, countedTokens (r.i + r.o) r.ri weight, r.im, r.vs⟩

inductive Metric | tokens | images | videoSeconds
  deriving DecidableEq, Repr

/-- `USED`: the use a limit counts. -/
def used (metric : Metric) (r : Row) (weight : ℚ) : ℤ :=
  match metric with
  | .tokens => countedTokens (r.i + r.o) r.ri weight
  | .images => r.im
  | .videoSeconds => r.vs

/-- The `WHERE` clause of the queries: a span of time, and one agent if asked for. -/
def selectEvents (start stop : ℕ) (agent : Option String) (store : List UsageRow) : List UsageRow :=
  store.filter fun e => start ≤ e.ts && e.ts < stop && (agent.isNone || agent = some e.agent)

/-! ### The status report -/

def UsageRow.group (e : UsageRow) : String × String := (e.agent, e.model)

/-- `GROUP BY agent, model ORDER BY agent, model`. -/
def groupRows (events : List UsageRow) : List ((String × String) × Row) :=
  let keys := (events.map UsageRow.group).dedup.mergeSort
    fun a b => decide (a.1 < b.1 ∨ (a.1 = b.1 ∧ a.2 ≤ b.2))
  keys.map fun k => (k, sums (events.filter fun e => e.group = k))

/-- An entry of the map `agents`. -/
structure AgentUsage where
  agentId : String
  row : Row
  models : List (String × UsageTotals)
  deriving DecidableEq, Repr

/-- One round of the loop over the rows of a period. -/
def addModel (weight : ℚ) (agents : List AgentUsage) (r : (String × String) × Row) : List AgentUsage :=
  upsert AgentUsage.agentId (fun a new => ⟨a.agentId, a.row.add r.2, a.models ++ new.models⟩)
    ⟨r.1.1, ZERO_ROW.add r.2, [(r.1.2, totals r.2 weight)]⟩ agents

def agentUsage (weight : ℚ) (events : List UsageRow) : List AgentUsage :=
  (groupRows events).foldl (addModel weight) []

structure StatusAgent where
  agentId : String
  total : UsageTotals
  models : List (String × UsageTotals)
  deriving DecidableEq, Repr

structure StatusPeriod where
  total : UsageTotals
  agents : List StatusAgent
  deriving DecidableEq, Repr

/-- A period of the report, from the events the period selects. -/
def statusPeriod (weight : ℚ) (events : List UsageRow) : StatusPeriod where
  total := totals (sums events) weight
  agents := (agentUsage weight events).map fun a => ⟨a.agentId, totals a.row weight, a.models⟩

/-! ### Sums over parts -/

theorem sums_append (es fs : List UsageRow) : sums (es ++ fs) = (sums es).add (sums fs) := by
  ext <;> simp [sums, Row.add]

theorem sums_perm {es fs : List UsageRow} (h : es.Perm fs) : sums es = sums fs := by
  unfold sums
  rw [h.length_eq]
  congr 1 <;> exact (h.map _).sum_eq

/-- What a limit counts of some events. -/
def countOf (weight : ℚ) (events : List UsageRow) : ℤ := (totals (sums events) weight).countedTokens

/-- The exact count of some events. -/
def exactOf (m : ℕ) (events : List UsageRow) : ℤ := exact ((sums events).i + (sums events).o) (sums events).ri m

theorem exactOf_append (m : ℕ) (es fs : List UsageRow) : exactOf m (es ++ fs) = exactOf m es + exactOf m fs := by
  unfold exactOf exact
  rw [sums_append]
  simp only [Row.add]
  push_cast
  ring

theorem exactOf_flatten (m : ℕ) (parts : List (List UsageRow)) :
    exactOf m parts.flatten = (parts.map (exactOf m)).sum := by
  induction parts with
  | nil => simp [exactOf, exact, sums]
  | cons part parts ih =>
      rw [flatten_cons, exactOf_append, ih, map_cons, sum_cons]

/-- Rounding each part adds less than a token for each. -/
theorem sum_counts_bounds (m : ℕ) (parts : List (List UsageRow)) :
    exactOf m parts.flatten ≤ (parts.map (countOf (millionths m))).sum * MICROS ∧
      (parts.map (countOf (millionths m))).sum * MICROS ≤ exactOf m parts.flatten + parts.length * (MICROS - 1) := by
  rw [exactOf_flatten]
  induction parts with
  | nil => simp
  | cons part parts ih =>
      have hlow : exactOf m part ≤ countOf (millionths m) part * MICROS := le_countedTokens
      have hhigh : countOf (millionths m) part * MICROS < exactOf m part + MICROS := countedTokens_lt
      simp only [map_cons, sum_cons, length_cons, add_mul]
      push_cast
      constructor
      · linarith [ih.1]
      · linarith [ih.2]

variable {parts : List (List UsageRow)}

theorem countOf_partition {m : ℕ} {whole part : List UsageRow} (h : whole.Perm (part :: parts).flatten) :
    countOf (millionths m) whole ≤ ((part :: parts).map (countOf (millionths m))).sum ∧
      ((part :: parts).map (countOf (millionths m))).sum <
        countOf (millionths m) whole + (part :: parts).length := by
  obtain ⟨hlow, hhigh⟩ := sum_counts_bounds m (part :: parts)
  have hwhole : exactOf m whole = exactOf m (part :: parts).flatten := by
    unfold exactOf
    rw [sums_perm h]
  rw [← hwhole] at hlow hhigh
  constructor
  · exact countedTokens_le_iff.mpr hlow
  · have hle : exactOf m whole ≤ countOf (millionths m) whole * MICROS := le_countedTokens
    have hlength : (0 : ℤ) < ((part :: parts).length : ℤ) := by simp
    generalize ((part :: parts).length : ℤ) = k at hhigh hlength ⊢
    have hM : (0 : ℤ) < MICROS := by decide
    nlinarith

/-! ### The count -/

theorem countedTokens_exact (io r m : ℕ) (hm : m ≤ MICROS) :
    IsLeast {z : ℤ | (io : ℚ) - r * (1 - millionths m) ≤ z} (countedTokens io r (millionths m)) ∧
      ((io : ℤ) - r ≤ countedTokens io r (millionths m) ∧ countedTokens io r (millionths m) ≤ io) ∧
      countedTokens io r 1 = io ∧
      (∀ io', io ≤ io' → countedTokens io r (millionths m) ≤ countedTokens io' r (millionths m)) ∧
      (∀ m', m ≤ m' → countedTokens io r (millionths m) ≤ countedTokens io r (millionths m')) ∧
      (∀ io' r', r' ≤ io' →
        countedTokens io r (millionths m) ≤ countedTokens (io + io') (r + r') (millionths m)) ∧
      ∀ (whole part : List UsageRow) (parts : List (List UsageRow)), whole.Perm (part :: parts).flatten →
        countOf (millionths m) whole ≤ ((part :: parts).map (countOf (millionths m))).sum ∧
          ((part :: parts).map (countOf (millionths m))).sum <
            countOf (millionths m) whole + (part :: parts).length := by
  refine ⟨countedTokens_isLeast io r m, countedTokens_bounds hm, ?_, fun io' hio => ?_, fun m' hm' => ?_,
    fun io' r' hr' => ?_, fun whole part parts => countOf_partition⟩
  · have hone : (1 : ℚ) = millionths MICROS := by norm_num [millionths, MICROS]
    rw [hone]
    refine le_antisymm (countedTokens_bounds le_rfl).2 ?_
    have hle : exact io r MICROS ≤ _ := le_countedTokens
    unfold exact at hle
    have hM : (0 : ℤ) < MICROS := by decide
    nlinarith
  · refine countedTokens_mono ?_
    unfold exact
    have hle : (io : ℤ) ≤ io' := by exact_mod_cast hio
    have hM : (0 : ℤ) ≤ MICROS := by decide
    nlinarith
  · refine countedTokens_mono ?_
    unfold exact
    have hle : (r : ℤ) * m ≤ r * m' := by exact_mod_cast Nat.mul_le_mul_left r hm'
    omega
  · refine countedTokens_mono ?_
    unfold exact
    have hle : (0 : ℤ) ≤ ((io' : ℤ) - r') * MICROS := mul_nonneg (by omega) (by decide)
    have hshare : (0 : ℤ) ≤ r' * m := by positivity
    push_cast
    nlinarith

theorem countedTokens_exact_sample :
    countedTokens 10 7 (millionths 500000) ≤ countedTokens (10 + 3) (7 + 2) (millionths 500000) :=
  (countedTokens_exact 10 7 500000 (by decide)).2.2.2.2.2.1 3 2 (by decide)

end Plur1bus.Budget
