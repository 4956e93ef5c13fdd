import Plur1bus.Budget.Period
import Plur1bus.Program.Outcome
import Plur1bus.Program.Decimal

/-!
Budget periods tile time. The local day of an instant is a number that never
goes back; a period is a block of days, and its bounds are the first instants
of its first day and of the first day of the next block.
-/

namespace Plur1bus.Budget.Period

open Program Program.Calendar Option

/-! ### Local days -/

/-- The date of a day. -/
def ofDay (n : ℤ) : LocalDate := ⟨yearFromDay n, monthFromDay n + 1, dateFromDay n⟩

/-- The number of the day a zone shows. -/
def localDay (zone : Zone) (t : ℤ) : ℤ := makeDay (zone t).y ((zone t).m - 1) (zone t).d

def times (low : ℤ) : Set ℤ := {t | low ≤ t ∧ t ≤ MAX_TIME}

variable {n' : ℤ}

theorem dateKey_lt (h : n < n') : dateKey (ofDay n) < dateKey (ofDay n') := by
  have hm := monthFromDay_range n
  have hm' := monthFromDay_range n'
  have hd := dateFromDay_range n
  have hd' := dateFromDay_range n'
  have hlex := date_lt h
  unfold dateKey ofDay
  dsimp only
  omega

/-- Date keys are ordered as the days are. -/
theorem dateKey_le : dateKey (ofDay n) ≤ dateKey (ofDay n') ↔ n ≤ n' := by
  constructor
  · intro h
    by_contra hlt
    have := dateKey_lt (Int.not_le.mp hlt)
    omega
  · intro h
    obtain hlt | rfl := Int.lt_or_eq_of_le h
    · exact Int.le_of_lt (dateKey_lt hlt)
    · exact Int.le_refl _

namespace Zone.Regular

variable {zone : Zone} {low t : ℤ}

/-- What a zone shows is the date of its local day, which is near. -/
theorem shows (hr : zone.Regular low) (ht : t ∈ times low) :
    zone t = ofDay (localDay zone t) ∧ localDay zone t * DAY ≤ t + 14 * HOUR ∧
      t - 12 * HOUR < (localDay zone t + 1) * DAY := by
  obtain ⟨o, hlo, hhi, hz⟩ := hr.offset t ht.1 ht.2
  have hday : localDay zone t = (t + o) / DAY := by
    rw [localDay, hz]
    show makeDay (yearFromDay ((t + o) / DAY)) (monthFromDay ((t + o) / DAY) + 1 - 1) (dateFromDay ((t + o) / DAY)) = _
    rw [Int.add_sub_cancel, makeDay_fromDay]
  refine ⟨hday ▸ hz, ?_⟩
  rw [hday]
  unfold DAY HOUR at *
  omega

/-- A zone is fourteen hours ahead at most. -/
theorem day_lt (hr : zone.Regular low) (ht : t ∈ times low) (h : t + 14 * HOUR < n * DAY) :
    localDay zone t < n := by
  have := (hr.shows ht).2.1
  unfold DAY HOUR at *
  omega

/-- A zone is twelve hours behind at most. -/
theorem le_day (hr : zone.Regular low) (ht : t ∈ times low) (h : n * DAY ≤ t - 12 * HOUR) :
    n ≤ localDay zone t := by
  have := (hr.shows ht).2.2
  unfold DAY HOUR at *
  omega

theorem monotone (hr : zone.Regular low) : MonotoneOn (localDay zone) (times low) := by
  intro t ht t' ht' hle
  have hkey := hr.forward t t' ht.1 hle ht'.2
  rw [(hr.shows ht).1, (hr.shows ht').1] at hkey
  exact dateKey_le.mp hkey

end Zone.Regular

/-! ### Where a day begins -/

variable {zone : Zone} {low n t : ℤ}

/-- `startOfLocalDate`, of the date of a day. -/
def startOfDay (zone : Zone) (n : ℤ) : Except PeriodError (Option ℤ) :=
  match timeClip (n * DAY) with
  | none => .ok none
  | some base =>
      some <$> bisect (fun mid => (fun l => decide (dateKey (ofDay n) ≤ dateKey l)) <$> localDate zone mid)
        (base - 36 * HOUR) (base + 36 * HOUR)

theorem day_cancel (n : ℤ) : n * DAY / DAY = n := Int.mul_ediv_cancel n (by decide)

variable {y : ℤ}

theorem dateUTC_eq (hy : 100 ≤ y) (m d : ℤ) :
    dateUTC (some y) (some m) (some d) = timeClip (makeDay y m d * DAY) := by
  show timeClip (makeDay (if 0 ≤ y ∧ y ≤ 99 then 1900 + y else y) m d * DAY) = _
  rw [if_neg (by omega)]

theorem startOfLocalDate_eq (hy : 100 ≤ y) (m d : ℤ) :
    startOfLocalDate zone (some y) (some m) (some d) = startOfDay zone (makeDay y (m - 1) d) := by
  unfold startOfLocalDate startOfDay
  rw [map_some, dateUTC_eq hy]
  unfold timeClip
  by_cases h : -MAX_TIME ≤ makeDay y (m - 1) d * DAY ∧ makeDay y (m - 1) d * DAY ≤ MAX_TIME
  · simp only [if_pos h, day_cancel]
    rfl
  · simp only [if_neg h]

/-- The search finds the first instant of a day, if all it looks at is in range. -/
theorem startOfDay_finds (hr : zone.Regular low) (hlow : -MAX_TIME ≤ low) (hl : low ≤ n * DAY - 36 * HOUR)
    (hh : n * DAY + 36 * HOUR ≤ MAX_TIME) :
    ∃ s, startOfDay zone n = .ok (some s) ∧ FirstAt (localDay zone) (times low) n s ∧
      n * DAY - 36 * HOUR < s ∧ s ≤ n * DAY + 36 * HOUR := by
  have hin : ∀ t, n * DAY - 36 * HOUR ≤ t → t ≤ n * DAY + 36 * HOUR → t ∈ times low :=
    fun t hlt hht => ⟨Int.le_trans hl hlt, Int.le_trans hht hh⟩
  have hHOUR : HOUR = 3600000 := rfl
  have hbefore : localDay zone (n * DAY - 36 * HOUR) < n := hr.day_lt (hin _ (Int.le_refl _) (by omega)) (by omega)
  have hafter : n ≤ localDay zone (n * DAY + 36 * HOUR) := hr.le_day (hin _ (by omega) (Int.le_refl _)) (by omega)
  have htest : ∀ t, n * DAY - 36 * HOUR < t → t < n * DAY + 36 * HOUR →
      ((fun l => decide (dateKey (ofDay n) ≤ dateKey l)) <$> localDate zone t) =
        .ok (decide (n ≤ localDay zone t)) := by
    intro t hlt hht
    have ht := hin t (Int.le_of_lt hlt) (Int.le_of_lt hht)
    rw [localDate, if_pos ⟨Int.le_trans hlow ht.1, ht.2⟩, (hr.shows ht).1]
    exact congrArg Except.ok (decide_eq_decide.mpr dateKey_le)
  obtain ⟨s, hs, hls, hsh, hat, hnot⟩ := bisect_finds htest (by omega) (Int.not_le.mpr hbefore) hafter
  have hclip : timeClip (n * DAY) = some (n * DAY) := if_pos ⟨by omega, by omega⟩
  refine ⟨s, ?_, ?_, hls, hsh⟩
  · rw [startOfDay, hclip]
    dsimp only
    rw [hs]
    rfl
  · exact FirstAt.of_step hr.monotone (hin s (by omega) hsh) (hin _ (by omega) (by omega)) hat (Int.not_le.mp hnot)

/-! ### Periods are blocks of days -/

def monday (n : ℤ) : ℤ := n - (weekDay n + 6) % 7

/-- The first day of the period a day is in. -/
def firstDay : CallPeriod → ℤ → ℤ
  | .day, n => n
  | .week, n => monday n
  | .month, n => makeDay (yearFromDay n) (monthFromDay n) 1

/-- The first day of the period after. -/
def nextDay : CallPeriod → ℤ → ℤ
  | .day, n => n + 1
  | .week, n => monday n + 7
  | .month, n => makeDay (yearFromDay n) (monthFromDay n + 1) 1

/-- The month of a day, in days. -/
theorem month_spec (n : ℤ) :
    firstDay .month n ≤ n ∧ n < nextDay .month n ∧ n - 30 ≤ firstDay .month n ∧ nextDay .month n ≤ n + 31 ∧
      ∀ k, firstDay .month n ≤ k → k < nextDay .month n →
        yearFromDay k = yearFromDay n ∧ monthFromDay k = monthFromDay n := by
  obtain ⟨m, hm, hmonth, hl, hu, -⟩ := monthFromDay_spec n
  have hfirst : firstDay .month n = dayFromYear (yearFromDay n) + daysBefore (leapDay (yearFromDay n)) m := by
    rw [firstDay, hmonth, makeDay_eq _ hm]
    omega
  have hnext : nextDay .month n = dayFromYear (yearFromDay n) + daysBefore (leapDay (yearFromDay n)) (m + 1) := by
    rw [nextDay, hmonth, makeDay_succ _ hm]
  have hlength := (daysBefore_succ (leapDay_range (yearFromDay n)) hm).2
  rw [hfirst, hnext, hmonth]
  exact ⟨hl, hu, by omega, by omega, fun k hk hk' => fromDay_of_mem hm hk hk'⟩

theorem blocks (kind : CallPeriod) : Blocks (firstDay kind) (nextDay kind) := by
  cases kind with
  | day =>
      refine ⟨fun n => Int.le_refl n, fun n => Int.lt_succ n, fun n m hl hu => ?_⟩
      simp only [firstDay, nextDay] at hl hu ⊢
      omega
  | week =>
      refine ⟨fun n => ?_, fun n => ?_, fun n m hl hu => ?_⟩
      · simp only [firstDay, monday, weekDay]
        omega
      · simp only [nextDay, monday, weekDay]
        omega
      · simp only [firstDay, nextDay, monday, weekDay] at hl hu ⊢
        omega
  | month =>
      refine ⟨fun n => (month_spec n).1, fun n => (month_spec n).2.1, fun n m hl hu => ?_⟩
      obtain ⟨hy, hm⟩ := (month_spec n).2.2.2.2 m hl hu
      show makeDay _ _ 1 = makeDay _ _ 1 ∧ makeDay _ _ 1 = makeDay _ _ 1
      rw [hy, hm]
      exact ⟨rfl, rfl⟩

/-- A period is a month long at most. -/
theorem near (kind : CallPeriod) (n : ℤ) : n - 30 ≤ firstDay kind n ∧ nextDay kind n ≤ n + 31 := by
  cases kind with
  | day =>
      simp only [firstDay, nextDay]
      omega
  | week =>
      simp only [firstDay, nextDay, monday, weekDay]
      omega
  | month => exact ⟨(month_spec n).2.2.1, (month_spec n).2.2.2.1⟩

/-! ### Keys -/

def dayText (n : ℤ) : String := dateText (some (yearFromDay n)) (some (monthFromDay n + 1)) (some (dateFromDay n))

/-- The key of the period a day is in. -/
def keyOf : CallPeriod → ℤ → String
  | .day, n => dayText n
  | .week, n => dayText (monday n)
  | .month, n => monthText (some (yearFromDay n)) (some (monthFromDay n + 1))

theorem toList_toString (n : ℕ) : (toString (n : ℤ)).toList = Nat.toDigits 10 n := by
  rw [Int.toString_eq_repr, Int.repr_eq_if, if_pos (Int.natCast_nonneg n), Int.toNat_natCast, Nat.toList_repr]

theorem toList_pad (n w : ℕ) : (pad (some (n : ℤ)) w).toList = padded w n := by
  unfold pad padded
  dsimp only
  rw [String.toList_append, String.toList_ofList, toList_toString]

theorem pad_inj {a b : ℤ} (ha : 0 ≤ a) (hb : 0 ≤ b) {w : ℕ} (hw : 0 < w)
    (h : (pad (some a) w).toList = (pad (some b) w).toList) : a = b := by
  obtain ⟨a, rfl⟩ := Int.eq_ofNat_of_zero_le ha
  obtain ⟨b, rfl⟩ := Int.eq_ofNat_of_zero_le hb
  rw [toList_pad, toList_pad] at h
  rw [padded_injective hw h]

theorem length_pad {a : ℤ} (ha : 0 ≤ a) (hlt : a < 100) : (pad (some a) 2).toList.length = 2 := by
  obtain ⟨a, rfl⟩ := Int.eq_ofNat_of_zero_le ha
  rw [toList_pad, length_padded (by omega) (by omega)]

theorem monthText_inj {y' m m' : ℤ} (hy : 0 ≤ y) (hy' : 0 ≤ y') (hm : 0 ≤ m ∧ m < 100)
    (hm' : 0 ≤ m' ∧ m' < 100)
    (h : (monthText (some y) (some m)).toList = (monthText (some y') (some m')).toList) :
    y = y' ∧ m = m' := by
  simp only [monthText, String.toList_append] at h
  -- The month takes two places at the end, and the dash one before them.
  obtain ⟨hfront, hmonth⟩ := List.append_inj' h ((length_pad hm.1 hm.2).trans (length_pad hm'.1 hm'.2).symm)
  obtain ⟨hyear, -⟩ := List.append_inj' hfront rfl
  exact ⟨pad_inj hy hy' (by omega) hyear, pad_inj hm.1 hm'.1 (by omega) hmonth⟩

theorem dateText_inj {y' m m' d d' : ℤ} (hy : 0 ≤ y) (hy' : 0 ≤ y') (hm : 0 ≤ m ∧ m < 100)
    (hm' : 0 ≤ m' ∧ m' < 100) (hd : 0 ≤ d ∧ d < 100) (hd' : 0 ≤ d' ∧ d' < 100)
    (h : dateText (some y) (some m) (some d) = dateText (some y') (some m') (some d')) :
    y = y' ∧ m = m' ∧ d = d' := by
  have hlist : (monthText (some y) (some m) ++ "-" ++ pad (some d) 2).toList =
    (monthText (some y') (some m') ++ "-" ++ pad (some d') 2).toList := congrArg String.toList h
  simp only [String.toList_append] at hlist
  obtain ⟨hfront, hday⟩ := List.append_inj' hlist ((length_pad hd.1 hd.2).trans (length_pad hd'.1 hd'.2).symm)
  obtain ⟨hmonth, -⟩ := List.append_inj' hfront rfl
  obtain ⟨hyear, hmonth⟩ := monthText_inj hy hy' hm hm' hmonth
  exact ⟨hyear, hmonth, pad_inj hd.1 hd'.1 (by omega) hday⟩

theorem dayText_inj (hy : 0 ≤ yearFromDay n) (hy' : 0 ≤ yearFromDay n') (h : dayText n = dayText n') :
    n = n' := by
  have hm := monthFromDay_range n
  have hm' := monthFromDay_range n'
  have hd := dateFromDay_range n
  have hd' := dateFromDay_range n'
  obtain ⟨hyear, hmonth, hdate⟩ := dateText_inj hy hy' (by omega) (by omega) (by omega) (by omega) h
  rw [← makeDay_fromDay n, ← makeDay_fromDay n', hyear, hdate, show monthFromDay n = monthFromDay n' by omega]

variable {kind : CallPeriod}

/-- From the year 0 on, days have one key if they are of one period. -/
theorem keyOf_inj (hy : 0 ≤ yearFromDay (firstDay kind n)) (hy' : 0 ≤ yearFromDay (firstDay kind n'))
    (h : keyOf kind n = keyOf kind n') : firstDay kind n = firstDay kind n' := by
  cases kind with
  | day => exact dayText_inj hy hy' h
  | week => exact dayText_inj hy hy' h
  | month =>
      have hm := monthFromDay_range n
      have hm' := monthFromDay_range n'
      have hyear := yearFromDay_mono (month_spec n).1
      have hyear' := yearFromDay_mono (month_spec n').1
      obtain ⟨hyy, hmm⟩ := monthText_inj (by omega) (by omega) (by omega) (by omega) (congrArg String.toList h)
      simp only [firstDay]
      rw [hyy, show monthFromDay n = monthFromDay n' by omega]

/-- Days of one period have one key. -/
theorem keyOf_congr (h : firstDay kind n = firstDay kind n') : keyOf kind n = keyOf kind n' := by
  cases kind with
  | day => exact congrArg dayText h
  | week => exact congrArg dayText h
  | month =>
      obtain ⟨hl, hu⟩ := (blocks .month).mem_iff.mp h
      obtain ⟨hy, hm⟩ := (month_spec n').2.2.2.2 n hl hu
      simp only [keyOf]
      rw [hy, hm]

/-! ### Bounds in terms of days -/

theorem year_ge (h : dayFromYear y ≤ n) : y ≤ yearFromDay n := by
  have hy : yearFromDay (dayFromYear y) = y :=
    yearFromDay_eq (Int.le_refl _) (dayFromYear_strictMono (by omega))
  exact hy ▸ yearFromDay_mono h

theorem makeDay_of_parts (n : ℤ) : makeDay (yearFromDay n) (monthFromDay n + 1 - 1) (dateFromDay n) = n := by
  rw [Int.add_sub_cancel, makeDay_fromDay]

section Bounds

variable (hr : zone.Regular low) (hlow : YEAR_101 ≤ low) (ht : t ∈ times low)

include hr hlow ht

/-- Days in range are of a year past 100, with all of the period before them. -/
theorem early : dayFromYear 101 ≤ localDay zone t := by
  refine hr.le_day ht ?_
  have := ht.1
  unfold YEAR_101 at hlow
  omega

theorem year_first (kind : CallPeriod) : 100 ≤ yearFromDay (firstDay kind (localDay zone t)) := by
  have hearly := early hr hlow ht
  have hnear := (near kind (localDay zone t)).1
  refine year_ge ?_
  have hyears : dayFromYear 100 + 30 ≤ dayFromYear 101 := by decide
  omega

theorem localDate_eq : localDate zone t = .ok (ofDay (localDay zone t)) := by
  have hmin : -MAX_TIME ≤ YEAR_101 := by decide
  rw [localDate, if_pos ⟨Int.le_trans (Int.le_trans hmin hlow) ht.1, ht.2⟩, ← (hr.shows ht).1]

/-- A local day in range is a day of `Date`. -/
theorem timeClip_day {n : ℤ} (hl : localDay zone t - 6 ≤ n) (hu : n ≤ localDay zone t) :
    timeClip (n * DAY) = some (n * DAY) := by
  have hearly := early hr hlow ht
  have hshows := (hr.shows ht).2.1
  have hmax := ht.2
  have hmin : -100000000 + 6 ≤ dayFromYear 101 := by decide
  unfold DAY HOUR MAX_TIME at *
  exact if_pos ⟨by unfold MAX_TIME; omega, by unfold MAX_TIME; omega⟩

/-- The bounds begin where the days of the period and of the next begin. -/
theorem boundsIn_eq (kind : CallPeriod) : boundsIn zone t kind = (do
      let start ← startOfDay zone (firstDay kind (localDay zone t))
      let stop ← startOfDay zone (nextDay kind (localDay zone t))
      return ⟨kind, keyOf kind (localDay zone t), start, stop⟩) := by
  have hyear : 100 ≤ yearFromDay (localDay zone t) :=
    Int.le_trans (year_first hr hlow ht .day) (Int.le_refl _)
  have hmonday := year_first hr hlow ht .week
  have hday := timeClip_day hr hlow ht (by omega : localDay zone t - 6 ≤ localDay zone t) (Int.le_refl _)
  have hclip := timeClip_day hr hlow ht (show localDay zone t - 6 ≤ monday (localDay zone t) by unfold monday weekDay; omega)
    (by unfold monday weekDay; omega)
  unfold boundsIn
  rw [localDate_eq hr hlow ht]
  generalize localDay zone t = n at *
  cases kind with
  | day =>
      show (do
        let start ← startOfLocalDate zone (some (yearFromDay n)) (some (monthFromDay n + 1)) (some (dateFromDay n))
        let stop ← startOfLocalDate zone (some (yearFromDay n)) (some (monthFromDay n + 1)) (some (dateFromDay n + 1))
        return (⟨.day, dayText n, start, stop⟩ : PeriodBounds)) = _
      rw [startOfLocalDate_eq hyear, startOfLocalDate_eq hyear, makeDay_days, makeDay_of_parts]
      rfl
  | week =>
      have hof : 100 ≤ (ofDay n).y := hyear
      have hmonday : 100 ≤ yearFromDay (monday n) := hmonday
      have hdate : dateUTC (some (ofDay n).y) (some ((ofDay n).m - 1)) (some (ofDay n).d) = some (n * DAY) := by
        rw [dateUTC_eq hof, ← hday]
        exact congrArg (fun k => timeClip (k * DAY)) (makeDay_of_parts n)
      have hback : makeDay (ofDay n).y ((ofDay n).m - 1) ((ofDay n).d - (weekDay n + 6) % 7) = monday n := by
        have hdays := makeDay_days (yearFromDay n) (monthFromDay n + 1 - 1) (dateFromDay n) (-((weekDay n + 6) % 7))
        rw [makeDay_of_parts] at hdays
        exact hdays
      have hmon : dateUTC (some (ofDay n).y) (some ((ofDay n).m - 1))
          ((getUTCDay (dateUTC (some (ofDay n).y) (some ((ofDay n).m - 1)) (some (ofDay n).d))).map
            fun weekday => (ofDay n).d - (weekday + 6) % 7) = some (monday n * DAY) := by
        rw [hdate, getUTCDay, map_some, day_cancel, map_some, dateUTC_eq hof, hback, hclip]
      have hy : getUTCFullYear (some (monday n * DAY)) = some (yearFromDay (monday n)) := by
        rw [getUTCFullYear, map_some, day_cancel]
      have hm : (getUTCMonth (some (monday n * DAY))).map (· + 1) = some (monthFromDay (monday n) + 1) := by
        rw [getUTCMonth, map_some, map_some, day_cancel]
      have hd : getUTCDate (some (monday n * DAY)) = some (dateFromDay (monday n)) := by
        rw [getUTCDate, map_some, day_cancel]
      show (do
        let start ← startOfLocalDate zone (getUTCFullYear (dateUTC _ _ _)) ((getUTCMonth (dateUTC _ _ _)).map (· + 1))
          (getUTCDate (dateUTC _ _ _))
        let stop ← startOfLocalDate zone (getUTCFullYear (dateUTC _ _ _)) ((getUTCMonth (dateUTC _ _ _)).map (· + 1))
          ((getUTCDate (dateUTC _ _ _)).map (· + 7))
        return (⟨.week, dateText (getUTCFullYear (dateUTC _ _ _)) ((getUTCMonth (dateUTC _ _ _)).map (· + 1))
          (getUTCDate (dateUTC _ _ _)), start, stop⟩ : PeriodBounds)) = _
      rw [hmon, hy, hm, hd, map_some, startOfLocalDate_eq hmonday, startOfLocalDate_eq hmonday, makeDay_days,
        makeDay_of_parts]
      rfl
  | month =>
      show (do
        let start ← startOfLocalDate zone (some (yearFromDay n)) (some (monthFromDay n + 1)) (some 1)
        let stop ← startOfLocalDate zone (some (yearFromDay n)) (some (monthFromDay n + 1 + 1)) (some 1)
        return (⟨.month, keyOf .month n, start, stop⟩ : PeriodBounds)) = _
      rw [startOfLocalDate_eq hyear, startOfLocalDate_eq hyear, Int.add_sub_cancel, Int.add_sub_cancel]
      rfl

end Bounds

/-! ### Tiles -/

theorem low_ge (hlow : YEAR_101 ≤ low) : -MAX_TIME ≤ low :=
  Int.le_trans (show -MAX_TIME ≤ YEAR_101 by decide) hlow

/-- The days around an instant of the claimed range begin in range. -/
theorem starts_near (hr : zone.Regular low) (hlow : YEAR_101 ≤ low) (hneg : low ≤ -40 * DAY) {ts : ℤ}
    (h0 : 0 ≤ ts) (hmax : ts ≤ MAX_TIME - 40 * DAY) (hl : localDay zone ts - 30 ≤ n)
    (hu : n ≤ localDay zone ts + 33) :
    ∃ s, startOfDay zone n = .ok (some s) ∧ FirstAt (localDay zone) (times low) n s ∧ s ≤ n * DAY + 36 * HOUR := by
  have ht : ts ∈ times low := ⟨by unfold DAY HOUR at hneg; omega, by unfold DAY HOUR at hmax; omega⟩
  obtain ⟨-, hahead, hbehind⟩ := hr.shows ht
  obtain ⟨s, hs, hfirst, -, hle⟩ := startOfDay_finds hr (low_ge hlow)
    (show low ≤ n * DAY - 36 * HOUR by unfold DAY HOUR at *; omega) (by unfold DAY HOUR at *; omega)
  exact ⟨s, hs, hfirst, hle⟩

/-- No month begins in the last days of `Date`. -/
theorem month_room (h : nextDay .month n * DAY ≤ MAX_TIME) :
    nextDay .month n * DAY + 36 * HOUR ≤ MAX_TIME := by
  have hblock := blocks .month
  have hlast : firstDay .month 100000000 = 99999988 := by decide
  have hle : nextDay .month n ≤ 100000000 := by
    unfold DAY HOUR MAX_TIME at h
    omega
  have hmono := hblock.monotone hle
  rw [hblock.first_next, hlast] at hmono
  unfold DAY HOUR MAX_TIME
  omega

/-- The period after one in range has an end, or one that is not a number. -/
theorem next_stop (hr : zone.Regular low) (hlow : YEAR_101 ≤ low) (hneg : low ≤ -40 * DAY) {ts stop : ℤ}
    (h0 : 0 ≤ ts) (hmax : ts ≤ MAX_TIME - 40 * DAY) (kind : CallPeriod)
    (hstop : FirstAt (localDay zone) (times low) (nextDay kind (localDay zone ts)) stop)
    (hle : stop ≤ nextDay kind (localDay zone ts) * DAY + 36 * HOUR) :
    ∃ o, startOfDay zone (nextDay kind (localDay zone stop)) = .ok o := by
  have ht : ts ∈ times low := ⟨by unfold DAY HOUR at hneg; omega, by unfold DAY HOUR at hmax; omega⟩
  obtain ⟨-, hahead, hbehind⟩ := hr.shows ht
  obtain ⟨-, hstopAhead, -⟩ := hr.shows hstop.1
  have hpast : nextDay kind (localDay zone ts) ≤ localDay zone stop := (hstop.2 stop hstop.1).mpr (Int.le_refl _)
  have hup := (blocks kind).upper (localDay zone stop)
  have hupper := (blocks kind).upper (localDay zone ts)
  by_cases hend : MAX_TIME < nextDay kind (localDay zone stop) * DAY
  · refine ⟨none, ?_⟩
    rw [startOfDay, timeClip, if_neg (by omega)]
  · -- Days and weeks are short, and no month ends this late.
    have hroom : nextDay kind (localDay zone stop) * DAY + 36 * HOUR ≤ MAX_TIME := by
      cases kind with
      | month => exact month_room (Int.not_lt.mp hend)
      | day =>
          simp only [nextDay] at hle ⊢
          unfold DAY HOUR at *
          omega
      | week =>
          simp only [nextDay, monday, weekDay] at hle ⊢
          unfold DAY HOUR at *
          omega
    obtain ⟨s, hs, -⟩ := startOfDay_finds hr (low_ge hlow) (by unfold DAY HOUR at *; omega) hroom
    exact ⟨some s, hs⟩

/-- Periods tile time. In a zone that knows its way from `low` on, the bounds
of an instant are around it; the instants between them have the same bounds,
no other has the key, and the period that follows begins where this one ends. -/
theorem periods_tile (intl : String → Option Zone) (timeZone : String) (zone : Zone) (low : ℤ)
    (hzone : intl timeZone = some zone) (hr : zone.Regular low) (hlow : YEAR_101 ≤ low) (hneg : low ≤ -40 * DAY)
    (kind : CallPeriod) (ts : ℤ) (h0 : 0 ≤ ts) (hmax : ts ≤ MAX_TIME - 40 * DAY) :
    ∃ key start stop, periodBounds intl (some ts) timeZone kind = .ok ⟨kind, key, some start, some stop⟩ ∧
      start ≤ ts ∧ ts < stop ∧
      (∀ t, start ≤ t → t < stop →
        periodBounds intl (some t) timeZone kind = .ok ⟨kind, key, some start, some stop⟩) ∧
      (∀ t, low ≤ t → t ≤ MAX_TIME → ¬(start ≤ t ∧ t < stop) →
        ∀ b, periodBounds intl (some t) timeZone kind = .ok b → b.key ≠ key) ∧
      ∃ b, periodBounds intl (some stop) timeZone kind = .ok b ∧ b.start = some stop := by
  have hbounds : ∀ t, periodBounds intl (some t) timeZone kind = boundsIn zone t kind := fun t => by
    rw [periodBounds, hzone]
  have ht : ts ∈ times low := ⟨by unfold DAY HOUR at hneg; omega, by unfold DAY HOUR at hmax; omega⟩
  have hblock := blocks kind
  have hnear := near kind (localDay zone ts)
  have hlower := hblock.lower (localDay zone ts)
  have hupper := hblock.upper (localDay zone ts)
  obtain ⟨start, hstart, hfirst, -⟩ := starts_near hr hlow hneg h0 hmax hnear.1 (by omega)
  obtain ⟨stop, hstop, hnext, hstople⟩ := starts_near hr hlow hneg h0 hmax
    (show localDay zone ts - 30 ≤ nextDay kind (localDay zone ts) by omega) (by omega)
  have hin : ∀ t ∈ times low, firstDay kind (localDay zone t) = firstDay kind (localDay zone ts) ↔
      start ≤ t ∧ t < stop := fun t ht => hblock.mem_iff.trans (hfirst.mem_Ico hnext ht)
  have hsame : ∀ t ∈ times low, firstDay kind (localDay zone t) = firstDay kind (localDay zone ts) →
      boundsIn zone t kind = .ok ⟨kind, keyOf kind (localDay zone ts), some start, some stop⟩ := by
    intro t ht heq
    rw [boundsIn_eq hr hlow ht, keyOf_congr heq, heq, hblock.next_eq heq, hstart, hstop]
    rfl
  refine ⟨keyOf kind (localDay zone ts), start, stop, ?_, ?_, ?_, ?_, ?_, ?_⟩
  · rw [hbounds]
    exact hsame ts ht rfl
  · exact ((hin ts ht).mp rfl).1
  · exact ((hin ts ht).mp rfl).2
  · intro t hl hu
    rw [hbounds]
    have htimes : t ∈ times low := ⟨Int.le_trans hfirst.1.1 hl, Int.le_trans (Int.le_of_lt hu) hnext.1.2⟩
    exact hsame t htimes ((hin t htimes).mpr ⟨hl, hu⟩)
  · intro t hl hu hout b hb hkey
    have htimes : t ∈ times low := ⟨hl, hu⟩
    rw [hbounds, boundsIn_eq hr hlow htimes] at hb
    have hbkey : b.key = keyOf kind (localDay zone t) := by
      obtain ⟨s, -, hb⟩ := bind_ok.mp hb
      obtain ⟨s', -, hb⟩ := bind_ok.mp hb
      cases hb
      rfl
    have hyear := year_first hr hlow htimes kind
    have hyear' := year_first hr hlow ht kind
    exact hout ((hin t htimes).mp (keyOf_inj (by omega) (by omega) (hbkey.symm.trans hkey)))
  · obtain ⟨o, ho⟩ := next_stop hr hlow hneg h0 hmax kind hnext hstople
    have hagain := hblock.first_at_next hr.monotone hnext
    -- The local day at the end may lie past whole periods, by two days at most.
    have hpast : nextDay kind (localDay zone ts) ≤ firstDay kind (localDay zone stop) := by
      have hmono := hblock.monotone ((hnext.2 stop hnext.1).mpr (Int.le_refl _))
      rwa [hblock.first_next] at hmono
    have hday := (hr.shows hnext.1).2.1
    have hbegin := hblock.lower (localDay zone stop)
    obtain ⟨s, hs, hsfirst, -⟩ := starts_near hr hlow hneg h0 hmax
      (show localDay zone ts - 30 ≤ firstDay kind (localDay zone stop) by omega) (by unfold DAY HOUR at *; omega)
    rw [hsfirst.unique hagain] at hs
    refine ⟨⟨kind, keyOf kind (localDay zone stop), some stop, o⟩, ?_, rfl⟩
    rw [hbounds, boundsIn_eq hr hlow hnext.1, hs, ho]
    rfl

/-! ### A day that is left out -/

/-- 1993-08-21T12:00Z -/
def crossing : ℤ := 745934400000

/-- A zone twelve hours behind, which crosses the date line to twelve hours ahead. -/
def crossingZone : Zone := fun t => dateAt (t + if t < crossing then -12 * HOUR else 12 * HOUR)

def crossingIntl (timeZone : String) : Option Zone := if timeZone = "Pacific/Kwajalein" then some crossingZone else none

theorem crossingZone_regular (low : ℤ) : crossingZone.Regular low where
  offset := fun t _ _ => ⟨_, (by split <;> decide), (by split <;> decide), rfl⟩
  forward := fun t t' _ hle _ => dateKey_le.mpr (by
    unfold DAY HOUR
    split_ifs <;> omega)

theorem periods_tile_crossing : ∃ key start stop,
      periodBounds crossingIntl (some (crossing - 1)) "Pacific/Kwajalein" .day = .ok ⟨.day, key, some start, some stop⟩ ∧
      start ≤ crossing - 1 ∧ crossing - 1 < stop ∧
      ∃ b, periodBounds crossingIntl (some stop) "Pacific/Kwajalein" .day = .ok b ∧ b.start = some stop := by
  obtain ⟨key, start, stop, hbounds, hl, hu, -, -, hnext⟩ :=
    periods_tile crossingIntl "Pacific/Kwajalein" crossingZone (-40 * DAY) (if_pos rfl) (crossingZone_regular _)
      (by decide) (Int.le_refl _) .day (crossing - 1) (by decide) (by decide)
  exact ⟨key, start, stop, hbounds, hl, hu, hnext⟩

end Plur1bus.Budget.Period
