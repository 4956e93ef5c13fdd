import Mathlib.Data.Int.ConditionallyCompleteOrder
import Mathlib.Algebra.Order.Group.Int
import Mathlib.Data.Int.Notation
import Mathlib.Data.Nat.Find
import Mathlib.Data.Nat.Notation
import Mathlib.Order.Monotone.Basic
import Mathlib.Order.SuccPred.IntervalSucc
import Mathlib.Tactic.Common
import Mathlib.Tactic.IntervalCases
import Mathlib.Tactic.SplitIfs

/-!
The calendar of years, months and days over a count of days, where day 0 is
the first of January 1970. Months are counted from 0, days of a month from 1;
a month or a day beyond its year or month carries over.
-/

namespace Program.Calendar

/-! ### From dates to days -/

/-- The day a year begins on. -/
def dayFromYear (y : ℤ) : ℤ := 365 * (y - 1970) + (y - 1969) / 4 - (y - 1901) / 100 + (y - 1601) / 400

/-- The 29th of February. -/
def leapDay (y : ℤ) : ℤ := if (y % 4 = 0 ∧ y % 100 ≠ 0) ∨ y % 400 = 0 then 1 else 0

/-- The days before a month in a year with so many leap days; the twelfth
month, counted from 0, would begin when the year is over. -/
def daysBefore (leap : ℤ) : ℕ → ℤ
  | 0 => 0
  | 1 => 31
  | 2 => 59 + leap
  | 3 => 90 + leap
  | 4 => 120 + leap
  | 5 => 151 + leap
  | 6 => 181 + leap
  | 7 => 212 + leap
  | 8 => 243 + leap
  | 9 => 273 + leap
  | 10 => 304 + leap
  | 11 => 334 + leap
  | _ => 365 + leap

def makeDay (y m d : ℤ) : ℤ :=
  dayFromYear (y + m / 12) + daysBefore (leapDay (y + m / 12)) (m % 12).toNat + (d - 1)

@[simp] theorem daysBefore_zero (leap : ℤ) : daysBefore leap 0 = 0 := rfl

@[simp] theorem daysBefore_twelve (leap : ℤ) : daysBefore leap 12 = 365 + leap := rfl

theorem leapDay_range (y : ℤ) : 0 ≤ leapDay y ∧ leapDay y ≤ 1 := by
  unfold leapDay
  split <;> decide

theorem dayFromYear_succ (y : ℤ) : dayFromYear (y + 1) = dayFromYear y + 365 + leapDay y := by
  unfold dayFromYear leapDay
  split <;> omega

theorem dayFromYear_strictMono : StrictMono dayFromYear := by
  refine strictMono_int_of_lt_succ fun y => ?_
  have := leapDay_range y
  rw [dayFromYear_succ]
  omega

theorem makeDay_days (y m d more : ℤ) : makeDay y m (d + more) = makeDay y m d + more := by
  unfold makeDay
  omega

/-! ### From days to dates -/

/-- The year of a day: a guess from the mean length of a year, off by one at most. -/
def yearFromDay (n : ℤ) : ℤ :=
  let guess := 1970 + 400 * n / 146097
  if n < dayFromYear guess then guess - 1
  else if dayFromYear (guess + 1) ≤ n then guess + 1
  else guess

/-- The last month that has begun. -/
def monthOf (leap day : ℤ) : ℕ := Nat.findGreatest (fun m => daysBefore leap m ≤ day) 11

def monthFromDay (n : ℤ) : ℤ := monthOf (leapDay (yearFromDay n)) (n - dayFromYear (yearFromDay n))

def dateFromDay (n : ℤ) : ℤ := n - dayFromYear (yearFromDay n) -
    daysBefore (leapDay (yearFromDay n)) (monthOf (leapDay (yearFromDay n)) (n - dayFromYear (yearFromDay n))) + 1

/-- 1 January 1970 was a Thursday; Sunday is day 0. -/
def weekDay (n : ℤ) : ℤ := (n + 4) % 7

theorem yearFromDay_spec (n : ℤ) :
    dayFromYear (yearFromDay n) ≤ n ∧ n < dayFromYear (yearFromDay n + 1) := by
  grind [yearFromDay, dayFromYear]

theorem yearFromDay_eq {y n : ℤ} (hl : dayFromYear y ≤ n) (hu : n < dayFromYear (y + 1)) :
    yearFromDay n = y := by
  obtain ⟨hl', hu'⟩ := yearFromDay_spec n
  have hle : y < yearFromDay n + 1 := dayFromYear_strictMono.lt_iff_lt.mp (Int.lt_of_le_of_lt hl hu')
  have hge : yearFromDay n < y + 1 := dayFromYear_strictMono.lt_iff_lt.mp (Int.lt_of_le_of_lt hl' hu)
  omega

section Months

variable {leap day : ℤ} {m : ℕ}

theorem daysBefore_succ (hl : 0 ≤ leap ∧ leap ≤ 1) (hm : m < 12) :
    daysBefore leap m + 28 ≤ daysBefore leap (m + 1) ∧ daysBefore leap (m + 1) ≤ daysBefore leap m + 31 := by
  interval_cases m <;> simp only [daysBefore] <;> omega

theorem daysBefore_le (hl : 0 ≤ leap ∧ leap ≤ 1) {k : ℕ} (hk : m + k ≤ 12) :
    daysBefore leap m ≤ daysBefore leap (m + k) := by
  induction k with
  | zero => exact Int.le_refl _
  | succ k ih =>
      have hprev := ih (by omega)
      have hstep := (daysBefore_succ hl (show m + k < 12 by omega)).1
      rw [← Nat.add_assoc]
      omega

theorem monthOf_lt : monthOf leap day < 12 := Nat.lt_succ_of_le (Nat.findGreatest_le 11)

theorem monthOf_spec (hday : 0 ≤ day) (hlast : day < 365 + leap) :
    daysBefore leap (monthOf leap day) ≤ day ∧ day < daysBefore leap (monthOf leap day + 1) := by
  constructor
  · exact Nat.findGreatest_spec (P := fun m => daysBefore leap m ≤ day) (Nat.zero_le 11) hday
  · by_cases hm : monthOf leap day = 11
    · rw [hm]
      exact hlast
    · have hlt := @monthOf_lt leap day
      by_contra hle
      exact absurd (Int.not_lt.mp hle)
        (Nat.findGreatest_is_greatest (Nat.lt_succ_self _) (show monthOf leap day + 1 ≤ 11 by omega))

theorem monthOf_eq (hl : 0 ≤ leap ∧ leap ≤ 1) (hm : m < 12) (hlow : daysBefore leap m ≤ day)
    (hhigh : day < daysBefore leap (m + 1)) : monthOf leap day = m := by
  refine Nat.findGreatest_eq_iff.mpr ⟨by omega, fun _ => hlow, fun k hk hk11 hbegun => ?_⟩
  obtain ⟨j, rfl⟩ : ∃ j, k = m + 1 + j := ⟨k - (m + 1), by omega⟩
  have hmono := @daysBefore_le leap (m + 1) hl j (by omega)
  omega

end Months

/-! ### Back and forth -/

/-- A day inside a month of a year. -/
theorem fromDay_of_mem {y n : ℤ} {m : ℕ} (hm : m < 12)
    (hl : dayFromYear y + daysBefore (leapDay y) m ≤ n) (hu : n < dayFromYear y + daysBefore (leapDay y) (m + 1)) :
    yearFromDay n = y ∧ monthFromDay n = m := by
  have hleap := leapDay_range y
  have hbegin := @daysBefore_le (leapDay y) 0 hleap m (by omega)
  have hend := @daysBefore_le (leapDay y) (m + 1) hleap (12 - (m + 1)) (by omega)
  rw [Nat.zero_add, daysBefore_zero] at hbegin
  rw [show m + 1 + (12 - (m + 1)) = 12 by omega, daysBefore_twelve] at hend
  have hy : yearFromDay n = y := by
    refine yearFromDay_eq (by omega) ?_
    rw [dayFromYear_succ]
    omega
  refine ⟨hy, ?_⟩
  rw [monthFromDay, hy, monthOf_eq hleap hm (by omega) (by omega)]

/-- The day of a day of the month, in a month that does not carry over. -/
theorem makeDay_eq (y : ℤ) {m : ℕ} (hm : m < 12) (d : ℤ) :
    makeDay y m d = dayFromYear y + daysBefore (leapDay y) m + (d - 1) := by
  have hdiv : (m : ℤ) / 12 = 0 := by omega
  have hmod : ((m : ℤ) % 12).toNat = m := by omega
  rw [makeDay, hdiv, hmod, Int.add_zero]

/-- The first of the month after, at the end of the year as well. -/
theorem makeDay_succ (y : ℤ) {m : ℕ} (hm : m < 12) :
    makeDay y (m + 1) 1 = dayFromYear y + daysBefore (leapDay y) (m + 1) := by
  by_cases hlast : m = 11
  · subst hlast
    have h := dayFromYear_succ y
    simp only [makeDay, daysBefore, Nat.reduceAdd, Nat.cast_ofNat, Int.reduceAdd, Int.reduceDiv, Int.reduceMod,
      Int.toNat_zero]
    omega
  · have h := makeDay_eq y (show m + 1 < 12 by omega) 1
    push_cast at h
    rw [h]
    omega

theorem monthFromDay_range (n : ℤ) : 0 ≤ monthFromDay n ∧ monthFromDay n < 12 := by
  have := @monthOf_lt (leapDay (yearFromDay n)) (n - dayFromYear (yearFromDay n))
  unfold monthFromDay
  omega

/-- A day is in its month. -/
theorem monthFromDay_spec (n : ℤ) : ∃ m : ℕ, m < 12 ∧ monthFromDay n = m ∧
    dayFromYear (yearFromDay n) + daysBefore (leapDay (yearFromDay n)) m ≤ n ∧
      n < dayFromYear (yearFromDay n) + daysBefore (leapDay (yearFromDay n)) (m + 1) ∧
      dateFromDay n = n - dayFromYear (yearFromDay n) - daysBefore (leapDay (yearFromDay n)) m + 1 := by
  obtain ⟨hl, hu⟩ := yearFromDay_spec n
  rw [dayFromYear_succ] at hu
  obtain ⟨hlow, hhigh⟩ := @monthOf_spec (leapDay (yearFromDay n)) (n - dayFromYear (yearFromDay n))
    (by omega) (by omega)
  exact ⟨_, monthOf_lt, rfl, by omega, by omega, rfl⟩

/-- The date of a day is the date it is made from. -/
theorem makeDay_fromDay (n : ℤ) : makeDay (yearFromDay n) (monthFromDay n) (dateFromDay n) = n := by
  obtain ⟨m, hm, hmonth, -, -, hdate⟩ := monthFromDay_spec n
  rw [hmonth, makeDay_eq _ hm, hdate]
  omega

theorem dateFromDay_range (n : ℤ) : 1 ≤ dateFromDay n ∧ dateFromDay n ≤ 31 := by
  obtain ⟨m, hm, -, hl, hu, hdate⟩ := monthFromDay_spec n
  have hstep := (daysBefore_succ (leapDay_range (yearFromDay n)) hm).2
  omega

theorem yearFromDay_mono {n n' : ℤ} (h : n ≤ n') : yearFromDay n ≤ yearFromDay n' := by
  grind [yearFromDay]

/-- Later days have later dates: the years first, then the months, then the days. -/
theorem date_lt {n n' : ℤ} (h : n < n') : yearFromDay n < yearFromDay n' ∨ (yearFromDay n = yearFromDay n' ∧
      (monthFromDay n < monthFromDay n' ∨
        (monthFromDay n = monthFromDay n' ∧ dateFromDay n < dateFromDay n'))) := by
  have hle := yearFromDay_mono (Int.le_of_lt h)
  by_cases hy : yearFromDay n < yearFromDay n'
  · exact Or.inl hy
  · have hyear : yearFromDay n = yearFromDay n' := by omega
    refine Or.inr ⟨hyear, ?_⟩
    obtain ⟨m, hm, hmonth, hl, hu, hdate⟩ := monthFromDay_spec n
    obtain ⟨m', hm', hmonth', hl', hu', hdate'⟩ := monthFromDay_spec n'
    rw [hyear] at hl hu hdate
    rw [hmonth, hmonth', hdate, hdate']
    by_cases hmm : m = m'
    · subst hmm
      exact Or.inr ⟨rfl, by omega⟩
    · refine Or.inl (by_contra fun hge => ?_)
      -- The later day would be in an earlier month.
      obtain ⟨k, rfl⟩ : ∃ k, m = m' + 1 + k := ⟨m - (m' + 1), by omega⟩
      have hmono := @daysBefore_le (leapDay (yearFromDay n')) (m' + 1) (leapDay_range _) k (by omega)
      omega

end Program.Calendar
