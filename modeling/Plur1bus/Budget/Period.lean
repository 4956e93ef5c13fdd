import Plur1bus.Program.Blocks
import Plur1bus.Program.Calendar

/-!
Budget periods: the local day, week or month of an instant. What the zone's
own date function says is taken as it comes, and the instant a local date
begins at is found by searching it.

Instants are whole milliseconds. The numbers of a `Date` are `none` where the
source has `NaN`, which is what a date beyond the range of `Date` gives.
-/

namespace Plur1bus.Budget.Period

open Program Program.Calendar

inductive CallPeriod
  | day | week | month
  deriving DecidableEq, Repr

structure PeriodBounds where
  period : CallPeriod
  key : String
  start : Option ℤ
  stop : Option ℤ
  deriving DecidableEq, Repr

inductive PeriodError
  | invalidTimestamp
  | invalidZone (timeZone : String)
  /-- A formatter is given a date that is out of range. -/
  | invalidTime
  deriving DecidableEq, Repr

def PeriodError.message : PeriodError → String
  | .invalidTimestamp => "invalid timestamp"
  | .invalidZone timeZone => "invalid time zone: " ++ timeZone
  | .invalidTime => "Invalid time value"

structure LocalDate where
  y : ℤ
  m : ℤ
  d : ℤ
  deriving DecidableEq, Repr

/-- The date a formatter of a zone shows for an instant. -/
abbrev Zone := ℤ → LocalDate

/-! ### `Date` -/

def HOUR : ℤ := 3600000

def DAY : ℤ := 24 * HOUR

/-- The last instant of a `Date`; the first is as far on the other side. -/
def MAX_TIME : ℤ := 8640000000000000

def timeClip (t : ℤ) : Option ℤ := if -MAX_TIME ≤ t ∧ t ≤ MAX_TIME then some t else none

/-- `Date.UTC`; a year of two digits is one of the twentieth century. -/
def dateUTC (y m d : Option ℤ) : Option ℤ := do
  let y ← y
  let m ← m
  let d ← d
  timeClip (makeDay (if 0 ≤ y ∧ y ≤ 99 then 1900 + y else y) m d * DAY)

def getUTCFullYear (t : Option ℤ) : Option ℤ := t.map fun t => yearFromDay (t / DAY)

def getUTCMonth (t : Option ℤ) : Option ℤ := t.map fun t => monthFromDay (t / DAY)

def getUTCDate (t : Option ℤ) : Option ℤ := t.map fun t => dateFromDay (t / DAY)

def getUTCDay (t : Option ℤ) : Option ℤ := t.map fun t => weekDay (t / DAY)

/-! ### Periods -/

def localDate (zone : Zone) (ts : ℤ) : Except PeriodError LocalDate :=
  if -MAX_TIME ≤ ts ∧ ts ≤ MAX_TIME then .ok (zone ts) else .error .invalidTime

def dateKey (l : LocalDate) : ℤ := l.y * 10000 + l.m * 100 + l.d

/-- The first instant whose local date is `y`-`m`-`d` or later. With `NaN` the
loop is not entered, and its end is the answer. -/
def startOfLocalDate (zone : Zone) (y m d : Option ℤ) : Except PeriodError (Option ℤ) :=
  match dateUTC y (m.map (· - 1)) d with
  | none => .ok none
  | some base =>
      let target := dateKey ⟨yearFromDay (base / DAY), monthFromDay (base / DAY) + 1, dateFromDay (base / DAY)⟩
      some <$> bisect (fun mid => (fun l => decide (target ≤ dateKey l)) <$> localDate zone mid)
        (base - 36 * HOUR) (base + 36 * HOUR)

/-- `String(n).padStart(w, "0")` -/
def pad (n : Option ℤ) (w : ℕ) : String := let text := match n with
    | none => "NaN"
    | some n => toString n
  String.ofList (List.replicate (w - text.toList.length) '0') ++ text

def dateText (y m d : Option ℤ) : String := pad y 4 ++ "-" ++ pad m 2 ++ "-" ++ pad d 2

def monthText (y m : Option ℤ) : String := pad y 4 ++ "-" ++ pad m 2

/-- The bounds in a zone, of an instant that is finite. -/
def boundsIn (zone : Zone) (ts : ℤ) (period : CallPeriod) : Except PeriodError PeriodBounds := do
  let l ← localDate zone ts
  match period with
  | .week =>
      let weekday := getUTCDay (dateUTC (some l.y) (some (l.m - 1)) (some l.d))
      let monday := dateUTC (some l.y) (some (l.m - 1)) (weekday.map fun weekday => l.d - (weekday + 6) % 7)
      let y := getUTCFullYear monday
      let m := (getUTCMonth monday).map (· + 1)
      let d := getUTCDate monday
      return {
        period, key := dateText y m d
        start := ← startOfLocalDate zone y m d
        stop := ← startOfLocalDate zone y m (d.map (· + 7)) }
  | .day =>
      return {
        period, key := dateText (some l.y) (some l.m) (some l.d)
        start := ← startOfLocalDate zone (some l.y) (some l.m) (some l.d)
        stop := ← startOfLocalDate zone (some l.y) (some l.m) (some (l.d + 1)) }
  | .month =>
      return {
        period, key := monthText (some l.y) (some l.m)
        start := ← startOfLocalDate zone (some l.y) (some l.m) (some 1)
        stop := ← startOfLocalDate zone (some l.y) (some (l.m + 1)) (some 1) }

/-- `intl` knows the zones; the timestamp is `none` if it is not finite. -/
def periodBounds (intl : String → Option Zone) (ts : Option ℤ) (timeZone : String) (period : CallPeriod) :
    Except PeriodError PeriodBounds :=
  match ts with
  | none => .error .invalidTimestamp
  | some ts =>
      match intl timeZone with
      | none => .error (.invalidZone timeZone)
      | some zone => boundsIn zone ts period

/-! ### What is assumed of a zone -/

/-- From here on every zone has a year after 100; years of two digits are not
what they seem to `Date.UTC`. -/
def YEAR_101 : ℤ := dayFromYear 101 * DAY + 12 * HOUR

/-- The date at an offset from universal time. -/
def dateAt (t : ℤ) : LocalDate := ⟨yearFromDay (t / DAY), monthFromDay (t / DAY) + 1, dateFromDay (t / DAY)⟩

/-- From `low` on the local date never goes back, and it is the date at an
offset between twelve hours behind and fourteen hours ahead. -/
structure Zone.Regular (zone : Zone) (low : ℤ) : Prop where
  offset : ∀ t, low ≤ t → t ≤ MAX_TIME → ∃ o, -12 * HOUR ≤ o ∧ o ≤ 14 * HOUR ∧ zone t = dateAt (t + o)
  forward : ∀ t t', low ≤ t → t ≤ t' → t' ≤ MAX_TIME → dateKey (zone t) ≤ dateKey (zone t')

end Plur1bus.Budget.Period
