import Mathlib.Algebra.Order.BigOperators.Group.List
import Mathlib.Algebra.Order.Floor.Ring
import Mathlib.Data.Rat.Floor
import Mathlib.Order.Bounds.Basic
import Mathlib.Tactic.FieldSimp
import Mathlib.Tactic.Linarith
import Mathlib.Tactic.Positivity
import Mathlib.Tactic.Push
import Mathlib.Tactic.Ring

/-!
Cache reads in token limits. A limit counts input and output, less a share of
the cache reads; the share that stays is rounded up to a whole token once for
each sum. The weight of a read is kept in millionths.

Numbers are exact here: counts are natural numbers, a weight is rational. The
rounding that recovers the millionths from a weight is `Math.round`; the rest
is integer division.
-/

namespace Plur1bus.Budget

def MICROS : ℕ := 1000000

def DEFAULT_CACHE_READ_WEIGHT : ℚ := 1

/-- `Math.round`. -/
def mathRound (x : ℚ) : ℤ := ⌊x + 1 / 2⌋

/-- A weight as stored and applied, `none` for a `RangeError`. The argument is
`none` if it is no finite number. -/
def validateCacheReadWeight (w : Option ℚ) : Option ℚ :=
  match w with
  | none => none
  | some w => if w < 0 ∨ w > 1 then none else some (mathRound (w * MICROS) / MICROS)

/-- `CACHE_READS_SQL`. -/
def weighableReads (cacheReadTokens inputTokens : ℕ) : ℕ := min cacheReadTokens inputTokens

/-- Division of `BigInt`s rounds towards zero. -/
def countedTokens (inputOutput cacheReads : ℕ) (weight : ℚ) : ℤ :=
  let micros := mathRound (weight * MICROS)
  let kept := Int.tdiv (cacheReads * micros + (MICROS - 1 : ℕ)) MICROS
  inputOutput - cacheReads + kept

/-- A weight of so many millionths. -/
def millionths (m : ℕ) : ℚ := m / MICROS

theorem mathRound_millionths (m : ℕ) : mathRound (millionths m * MICROS) = m := by
  have hback : millionths m * MICROS = m := by
    unfold millionths MICROS
    field_simp
  rw [mathRound, hback, Int.floor_eq_iff]
  constructor
  · push_cast
    linarith
  · push_cast
    linarith

/-! ### The least integer above the exact count -/

/-- The exact count, in millionths of a token. -/
def exact (io r m : ℕ) : ℤ := ((io : ℤ) - r) * MICROS + r * m

theorem countedTokens_le_iff {io r m : ℕ} {z : ℤ} :
    countedTokens io r (millionths m) ≤ z ↔ exact io r m ≤ z * MICROS := by
  have hkept : 0 ≤ (r : ℤ) * m + (MICROS - 1 : ℕ) := by positivity
  show (io : ℤ) - r + Int.tdiv (r * mathRound (millionths m * MICROS) + (MICROS - 1 : ℕ)) MICROS ≤ z ↔ _
  rw [mathRound_millionths, Int.tdiv_eq_ediv_of_nonneg hkept, exact]
  generalize (r : ℤ) * m = share
  simp only [MICROS]
  omega

/-- Counting adds less than one token. -/
theorem countedTokens_lt {io r m : ℕ} : countedTokens io r (millionths m) * MICROS < exact io r m + MICROS := by
  have hnot : ¬ countedTokens io r (millionths m) ≤ countedTokens io r (millionths m) - 1 := by omega
  rw [countedTokens_le_iff, sub_one_mul] at hnot
  omega

theorem le_countedTokens {io r m : ℕ} : exact io r m ≤ countedTokens io r (millionths m) * MICROS :=
  countedTokens_le_iff.mp le_rfl

theorem exact_cast {io r m : ℕ} : (io : ℚ) - r * (1 - millionths m) = (exact io r m : ℚ) / MICROS := by
  unfold exact millionths MICROS
  push_cast
  field_simp
  ring

theorem countedTokens_isLeast (io r m : ℕ) :
    IsLeast {z : ℤ | (io : ℚ) - r * (1 - millionths m) ≤ z} (countedTokens io r (millionths m)) := by
  have hM : (0 : ℚ) < MICROS := by norm_num [MICROS]
  have hiff : ∀ z : ℤ, (io : ℚ) - r * (1 - millionths m) ≤ z ↔ exact io r m ≤ z * MICROS := by
    intro z
    rw [exact_cast, div_le_iff₀ hM]
    exact_mod_cast Iff.rfl
  constructor
  · exact (hiff _).mpr le_countedTokens
  · intro z hz
    exact countedTokens_le_iff.mpr ((hiff z).mp hz)

theorem countedTokens_bounds {io r m : ℕ} (hm : m ≤ MICROS) :
    (io : ℤ) - r ≤ countedTokens io r (millionths m) ∧ countedTokens io r (millionths m) ≤ io := by
  constructor
  · have hle : exact io r m ≤ _ := le_countedTokens
    have hshare : 0 ≤ (r : ℤ) * m := by positivity
    unfold exact MICROS at hle
    push_cast at hle
    omega
  · rw [countedTokens_le_iff]
    have hshare : (r : ℤ) * m ≤ r * MICROS := by
      exact_mod_cast Nat.mul_le_mul_left r hm
    unfold exact
    rw [sub_mul]
    omega

/-- More exact tokens, more counted ones. -/
theorem countedTokens_mono {io r m io' r' m' : ℕ} (h : exact io r m ≤ exact io' r' m') :
    countedTokens io r (millionths m) ≤ countedTokens io' r' (millionths m') :=
  countedTokens_le_iff.mpr (h.trans le_countedTokens)

end Plur1bus.Budget
