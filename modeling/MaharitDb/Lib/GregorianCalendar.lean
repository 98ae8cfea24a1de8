import Mathlib.Tactic

/-!
# The Gregorian calendar

Days are counted from 1970-01-01, in both directions and without a first year.  Years are counted from March,
so that the day that is sometimes there is the last one of a year.
-/

namespace Gregorian

/-- Every fourth year, of the centuries every fourth one. -/
def IsLeap (year : ℤ) : Prop := year % 4 = 0 ∧ (year % 100 = 0 → year % 400 = 0)

instance (year : ℤ) : Decidable (IsLeap year) := inferInstanceAs (Decidable (_ ∧ _))

/-- The days of a month. -/
def daysInMonth (year month : ℤ) : ℤ :=
  if month = 2 then if IsLeap year then 29 else 28
  else if month = 4 ∨ month = 6 ∨ month = 9 ∨ month = 11 then 30 else 31

/-- The month and the day exist. -/
structure IsDate (year month day : ℤ) : Prop where
  month_pos : 1 ≤ month
  month_le : month ≤ 12
  day_pos : 1 ≤ day
  day_le : day ≤ daysInMonth year month

instance (year month day : ℤ) : Decidable (IsDate year month day) :=
  decidable_of_iff (1 ≤ month ∧ month ≤ 12 ∧ 1 ≤ day ∧ day ≤ daysInMonth year month)
    ⟨fun ⟨h, h', h'', h'''⟩ => ⟨h, h', h'', h'''⟩, fun h => ⟨h.1, h.2, h.3, h.4⟩⟩

/-- The year that starts in March. -/
def marchYear (year month : ℤ) : ℤ := if month ≤ 2 then year - 1 else year

/-- The month counted from March on. -/
def marchMonth (month : ℤ) : ℤ := if month ≤ 2 then month + 9 else month - 3

/-- The number of a day. -/
def dayNumber (year month day : ℤ) : ℤ :=
  let y := marchYear year month
  365 * y + y / 4 - y / 100 + y / 400 + (153 * marchMonth month + 2) / 5 + day - 719469

/-- A month starts when the one before it is over. -/
theorem dayNumber_next_month {year month : ℤ} (h : 1 ≤ month) (h' : month ≤ 11) :
    dayNumber year (month + 1) 1 = dayNumber year month 1 + daysInMonth year month := by
  by_cases hmonth : month = 2
  · -- February depends on the year
    subst hmonth
    by_cases hleap : IsLeap year
    · simp only [dayNumber, daysInMonth, marchYear, marchMonth, hleap, if_true]
      unfold IsLeap at hleap
      norm_num
      omega
    · simp only [dayNumber, daysInMonth, marchYear, marchMonth, hleap, if_true, if_false]
      unfold IsLeap at hleap
      norm_num
      omega
  · simp only [dayNumber, daysInMonth, marchYear, marchMonth, hmonth, if_false]
    interval_cases month <;> norm_num <;> omega

/-- A year starts when the one before it is over. -/
theorem dayNumber_next_year (year : ℤ) : dayNumber (year + 1) 1 1 = dayNumber year 12 31 + 1 := by
  simp only [dayNumber, marchYear, marchMonth]
  norm_num
  omega

/-- Year, month and day of the day with the given number. -/
def civilDate (n : ℤ) : ℤ × ℤ × ℤ :=
  let a := n + 2472632
  let b := (4 * a + 3) / 146097
  let c := a - 146097 * b / 4
  let d := (4 * c + 3) / 1461
  let e := c - 1461 * d / 4
  let m := (5 * e + 2) / 153
  (100 * b + d - 4800 + m / 10, m + 3 - 12 * (m / 10), e - (153 * m + 2) / 5 + 1)

/-- The parts of a day number: centuries, years, months and days, counted from March. -/
lemma civilDate_parts (n : ℤ) : ∃ b d m day : ℤ, 0 ≤ d ∧ d ≤ 99 ∧ 0 ≤ m ∧ m ≤ 11 ∧ 1 ≤ day ∧
    n + 2472633 = 146097 * b / 4 + 1461 * d / 4 + (153 * m + 2) / 5 + day ∧
    (153 * m + 2) / 5 + day ≤ (153 * (m + 1) + 2) / 5 ∧
    (m = 11 → 1461 * d / 4 + (153 * m + 2) / 5 + day ≤ 1461 * (d + 1) / 4) ∧
    (d = 99 → m = 11 → 146097 * b / 4 + 1461 * d / 4 + (153 * m + 2) / 5 + day ≤ 146097 * (b + 1) / 4) ∧
    civilDate n = (100 * b + d - 4800 + m / 10, m + 3 - 12 * (m / 10), day) := by
  unfold civilDate
  extract_lets a b c d e m
  have hb : b = (4 * a + 3) / 146097 := rfl
  have hc : c = a - 146097 * b / 4 := rfl
  have hc' : 0 ≤ c ∧ c ≤ 36524 := by omega
  have hd : d = (4 * c + 3) / 1461 := rfl
  have he : e = c - 1461 * d / 4 := rfl
  have he' : 0 ≤ e ∧ e ≤ 365 := by omega
  have hm : m = (5 * e + 2) / 153 := rfl
  clear_value b c d e m
  refine ⟨b, d, m, e - (153 * m + 2) / 5 + 1, ?_⟩
  refine ⟨?_, ?_, ?_, ?_, ?_, ?_, ?_, ?_, ?_, rfl⟩ <;> omega

/-- The days of the years before year `100 b + d - 4800`. -/
lemma days_of_centuries (b : ℤ) {d : ℤ} (hd : 0 ≤ d) (hd' : d ≤ 99) :
    365 * (100 * b + d - 4800) + (100 * b + d - 4800) / 4 - (100 * b + d - 4800) / 100 +
      (100 * b + d - 4800) / 400 = 146097 * b / 4 + 1461 * d / 4 - 1753164 := by
  have hfour : (100 * b + d - 4800) / 4 = 25 * b + d / 4 - 1200 := by omega
  have hhundred : (100 * b + d - 4800) / 100 = b - 48 := by omega
  have hcycle : (100 * b + d - 4800) / 400 = b / 4 - 12 := by omega
  have hcentury : 146097 * b / 4 = 36524 * b + b / 4 := by omega
  have hyear : 1461 * d / 4 = 365 * d + d / 4 := by omega
  rw [hfour, hhundred, hcycle, hcentury, hyear]
  ring

/-- The number of the date of a day is that of the day. -/
theorem dayNumber_civilDate (n : ℤ) :
    dayNumber (civilDate n).1 (civilDate n).2.1 (civilDate n).2.2 = n := by
  obtain ⟨b, d, m, day, hd, hd', hm, hm', -, hn, -, -, -, hcivil⟩ := civilDate_parts n
  rw [hcivil]
  have hmarch : marchYear (100 * b + d - 4800 + m / 10) (m + 3 - 12 * (m / 10)) = 100 * b + d - 4800 ∧
      marchMonth (m + 3 - 12 * (m / 10)) = m := by
    simp only [marchYear, marchMonth]
    split <;> omega
  have hyear := days_of_centuries b hd hd'
  simp only [dayNumber, hmarch.1, hmarch.2]
  omega

/-- A day has a date. -/
theorem isDate_civilDate (n : ℤ) :
    IsDate (civilDate n).1 (civilDate n).2.1 (civilDate n).2.2 := by
  obtain ⟨b, d, m, day, hd, hd', hm, hm', hday, hn, hmonth, hyear, hcentury, hcivil⟩ := civilDate_parts n
  rw [hcivil]
  refine ⟨by dsimp only; omega, by dsimp only; omega, hday, ?_⟩
  simp only [daysInMonth]
  by_cases hlast : m = 11
  · -- the last month is as long as its year is
    subst hlast
    have hstart : (153 * 11 + 2) / 5 = (337 : ℤ) := by norm_num
    have hmonth' : (11 : ℤ) + 3 - 12 * (11 / 10) = 2 := by norm_num
    rw [hstart] at hyear hcentury hmonth
    rw [if_pos hmonth']
    have hfour : 1461 * d / 4 = 365 * d + d / 4 := by omega
    have hfour' : 1461 * (d + 1) / 4 = 365 * d + 365 + (d + 1) / 4 := by omega
    have hyear' := hyear rfl
    by_cases hleap : IsLeap (100 * b + d - 4800 + 11 / 10)
    · rw [if_pos hleap]
      omega
    · rw [if_neg hleap]
      unfold IsLeap at hleap
      by_cases hd99 : d = 99
      · have hfour : 146097 * b / 4 = 36524 * b + b / 4 := by omega
        have hfour' : 146097 * (b + 1) / 4 = 36524 * b + 36524 + (b + 1) / 4 := by omega
        have hcentury' := hcentury hd99 rfl
        have hnot : (b + 1) % 4 ≠ 0 := by omega
        omega
      · have hnot : (d + 1) % 4 ≠ 0 := by omega
        omega
  · have hm10 : m ≤ 10 := by omega
    clear hyear hcentury hn hlast
    interval_cases m <;> norm_num at hmonth ⊢ <;> omega

/-! ## One day after another -/

/-- The day after a date. -/
def nextDate (year month day : ℤ) : ℤ × ℤ × ℤ :=
  if day < daysInMonth year month then (year, month, day + 1)
  else if month < 12 then (year, month + 1, 1)
  else (year + 1, 1, 1)

/-- The months in a row, counted from January of year 0 on: the number of their first day. -/
def monthStart (k : ℤ) : ℤ := dayNumber (k / 12) (k % 12 + 1) 1

lemma dayNumber_add (year month day : ℤ) : dayNumber year month day = dayNumber year month 1 + (day - 1) := by
  simp only [dayNumber]
  ring

lemma monthStart_succ (k : ℤ) : monthStart (k + 1) = monthStart k + daysInMonth (k / 12) (k % 12 + 1) := by
  unfold monthStart
  by_cases hlast : k % 12 = 11
  · have hyear : (k + 1) / 12 = k / 12 + 1 := by omega
    have hmonth : (k + 1) % 12 = 0 := by omega
    have hnext := dayNumber_next_year (k / 12)
    have hadd := dayNumber_add (k / 12) 12 31
    have hlength : daysInMonth (k / 12) 12 = 31 := rfl
    rw [hyear, hmonth, hlast]
    norm_num
    omega
  · have hyear : (k + 1) / 12 = k / 12 := by omega
    have hmonth : (k + 1) % 12 + 1 = k % 12 + 1 + 1 := by omega
    rw [hyear, hmonth]
    exact dayNumber_next_month (by omega) (by omega)

lemma daysInMonth_pos (year month : ℤ) : 0 < daysInMonth year month := by
  unfold daysInMonth
  split_ifs <;> norm_num

lemma monthStart_strictMono : StrictMono monthStart := by
  refine strictMono_int_of_lt_succ fun k => ?_
  have hpos := daysInMonth_pos (k / 12) (k % 12 + 1)
  have hsucc := monthStart_succ k
  omega

/-- A date lies in its month. -/
lemma IsDate.dayNumber_eq {year month day : ℤ} (h : IsDate year month day) :
    dayNumber year month day = monthStart (12 * year + (month - 1)) + (day - 1) := by
  have hpos := h.month_pos
  have hle := h.month_le
  have hyear : (12 * year + (month - 1)) / 12 = year := by omega
  have hmonth : (12 * year + (month - 1)) % 12 + 1 = month := by omega
  rw [monthStart, hyear, hmonth]
  exact dayNumber_add year month day

/-- The dates of a month come before those of a later one. -/
lemma IsDate.dayNumber_lt {year month day year' month' day' : ℤ} (h : IsDate year month day)
    (h' : IsDate year' month' day') (hlt : 12 * year + (month - 1) < 12 * year' + (month' - 1)) :
    dayNumber year month day < dayNumber year' month' day' := by
  have hpos := h.month_pos
  have hle := h.month_le
  have hnext := monthStart_succ (12 * year + (month - 1))
  have hyear : (12 * year + (month - 1)) / 12 = year := by omega
  have hmonth : (12 * year + (month - 1)) % 12 + 1 = month := by omega
  rw [hyear, hmonth] at hnext
  have hmono := monthStart_strictMono.monotone (Int.add_one_le_iff.mpr hlt)
  have hlast := h.day_le
  have hfirst := h'.day_pos
  rw [h.dayNumber_eq, h'.dayNumber_eq]
  omega

/-- Different dates have different numbers. -/
theorem dayNumber_injOn {year month day year' month' day' : ℤ} (h : IsDate year month day)
    (h' : IsDate year' month' day') (heq : dayNumber year month day = dayNumber year' month' day') :
    (year, month, day) = (year', month', day') := by
  have hpos := h.month_pos
  have hle := h.month_le
  have hpos' := h'.month_pos
  have hle' := h'.month_le
  have hday := h.day_pos
  have hday' := h'.day_pos
  have hindex : 12 * year + (month - 1) = 12 * year' + (month' - 1) := by
    rcases lt_trichotomy (12 * year + (month - 1)) (12 * year' + (month' - 1)) with hlt | hindex | hlt
    · exact absurd heq (h.dayNumber_lt h' hlt).ne
    · exact hindex
    · exact absurd heq (h'.dayNumber_lt h hlt).ne'
  have hnumber := h.dayNumber_eq
  have hnumber' := h'.dayNumber_eq
  rw [hindex] at hnumber
  have hyear : year = year' := by omega
  have hmonth : month = month' := by omega
  have hday'' : day = day' := by omega
  rw [hyear, hmonth, hday'']

/-- The date of the number of a date. -/
theorem civilDate_dayNumber {year month day : ℤ} (h : IsDate year month day) :
    civilDate (dayNumber year month day) = (year, month, day) :=
  dayNumber_injOn (isDate_civilDate _) h (dayNumber_civilDate _)

theorem isDate_nextDate {year month day : ℤ} (h : IsDate year month day) :
    IsDate (nextDate year month day).1 (nextDate year month day).2.1 (nextDate year month day).2.2 := by
  have hpos := h.month_pos
  have hle := h.month_le
  have hday := h.day_pos
  unfold nextDate
  by_cases hin : day < daysInMonth year month
  · rw [if_pos hin]
    exact ⟨hpos, hle, by dsimp only; omega, hin⟩
  · rw [if_neg hin]
    by_cases hmonth : month < 12
    · rw [if_pos hmonth]
      exact ⟨by dsimp only; omega, by dsimp only; omega, le_rfl, daysInMonth_pos _ _⟩
    · rw [if_neg hmonth]
      exact ⟨le_rfl, by norm_num, le_rfl, daysInMonth_pos _ _⟩

/-- Consecutive dates have consecutive numbers. -/
theorem dayNumber_nextDate {year month day : ℤ} (h : IsDate year month day) :
    dayNumber (nextDate year month day).1 (nextDate year month day).2.1 (nextDate year month day).2.2 =
      dayNumber year month day + 1 := by
  have hpos := h.month_pos
  have hle := h.month_le
  have hlast := h.day_le
  unfold nextDate
  by_cases hin : day < daysInMonth year month
  · rw [if_pos hin]
    have hadd := dayNumber_add year month (day + 1)
    have hadd' := dayNumber_add year month day
    dsimp only
    omega
  · rw [if_neg hin]
    have hadd := dayNumber_add year month day
    by_cases hmonth : month < 12
    · rw [if_pos hmonth]
      have hnext : dayNumber year (month + 1) 1 = _ := dayNumber_next_month hpos (by omega)
      dsimp only
      omega
    · rw [if_neg hmonth]
      obtain rfl : month = 12 := by omega
      have hlength : daysInMonth year 12 = 31 := rfl
      have hnext := dayNumber_next_year year
      have hadd' := dayNumber_add year 12 31
      dsimp only
      omega

end Gregorian
