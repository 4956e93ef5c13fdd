import Mathlib.Algebra.Order.Field.Basic
import Mathlib.Algebra.Order.Group.MinMax
import Mathlib.Tactic.Linarith

/-!
A token bucket that is filled when it is looked at. It holds `tokens` as of the
instant `since`; at a later instant it has gained `rate` for each unit of time in
between, and never holds more than its capacity. The level is what one finds in it.
-/

namespace Program.TokenBucket

variable {K : Type} [Field K] [LinearOrder K]

/-- What the bucket holds at an instant. -/
def level (capacity rate tokens since now : K) : K := min capacity (tokens + max 0 (now - since) * rate)

variable {capacity rate tokens since now later : K}

theorem level_le_capacity : level capacity rate tokens since now ≤ capacity := min_le_left _ _

theorem level_now (ht : tokens ≤ capacity) : level capacity rate tokens now now = tokens := by
  simp [level, ht]

/-- The bucket is full. -/
theorem level_eq_capacity : level capacity rate tokens since now = capacity ↔
      capacity ≤ tokens + max 0 (now - since) * rate := min_eq_left_iff

variable [IsStrictOrderedRing K]

theorem level_nonneg (hc : 0 ≤ capacity) (hr : 0 ≤ rate) (ht : 0 ≤ tokens) :
    0 ≤ level capacity rate tokens since now := by
  apply le_min hc
  have := mul_nonneg (le_max_left 0 (now - since)) hr
  linarith

/-- In a span of time the level grows by at most what flows in. -/
theorem level_later (hr : 0 ≤ rate) (h : now ≤ later) : level capacity rate tokens since later ≤
      level capacity rate tokens since now + rate * (later - now) := by
  have hflow : 0 ≤ rate * (later - now) := mul_nonneg hr (by linarith)
  have hwait : max 0 (later - since) ≤ max 0 (now - since) + (later - now) := by grind
  have hgain := mul_le_mul_of_nonneg_right hwait hr
  unfold level
  rw [← min_add_add_right]
  apply min_le_min
  · linarith
  · linarith

/-- What flows in meanwhile is not lost while there is room. -/
theorem le_level {need : K} (hn : need ≤ capacity) (hs : since ≤ later)
    (h : need ≤ tokens + rate * (later - since)) :
    need ≤ level capacity rate tokens since later := by
  apply le_min hn
  rw [max_eq_right (by linarith)]
  linarith

/-- A bucket that is full stays so. -/
theorem full_later (hr : 0 ≤ rate) (h : now ≤ later)
    (hfull : level capacity rate tokens since now = capacity) :
    level capacity rate tokens since later = capacity := by
  rw [level_eq_capacity] at hfull ⊢
  have hwait : max 0 (now - since) ≤ max 0 (later - since) := max_le_max (le_refl 0) (by linarith)
  have := mul_le_mul_of_nonneg_right hwait hr
  linarith

end Program.TokenBucket
