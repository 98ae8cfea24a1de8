import MaharitDb.Core.CalendarText
import MaharitDb.Core.FloatRounding
import MaharitDb.Lib.GregorianCalendar

/-!
# Where the calendar functions are exact

`days_to_ymd`, `ymd_to_days` and `days_in_month` of `maharit-core/src/property.rs` against the Gregorian
calendar.  Both conversions divide with truncation, and `ymd_to_days` multiplies floats: they are exact for the
years from 0 on, and not for all years before.
-/

namespace Maharit.Temporal

open Gregorian

/-! ## The source's functions -/

/-- The float nearest to a natural number, as a number. -/
def roundToFloat (n : ℕ) : ℕ :=
  if n.log2 ≤ 52 then n else F64.roundedFraction n * 2 ^ (n.log2 - 52)

/-- `(30.6001 * n as f64) as i64`: the fraction of the literal is `8613162434843745 / 2 ^ 48`. -/
def monthTerm (n : ℤ) : ℤ := n.sign * (roundToFloat (8613162434843745 * n.natAbs) / 2 ^ 48 : ℕ)

/-- `ymd_to_days`.  The product with 365.25 is exact in a float for every year of 32 bits. -/
def ymdToDays (year month day : Int32) : Int32 :=
  let (y, m) :=
    if month.toInt ≤ 2 then (year.toInt - 1, month.toInt + 12) else (year.toInt, month.toInt)
  let a := y.tdiv 100
  let b := 2 - a + a.tdiv 4
  let jdn := (1461 * (y + 4716)).tdiv 4 + monthTerm (m + 1) + day.toInt + b - 1524
  Int32.ofInt (jdn - 2440588)

/-- `days_in_month`. -/
def daysInMonth (year month : ℤ) : ℤ :=
  if month = 1 ∨ month = 3 ∨ month = 5 ∨ month = 7 ∨ month = 8 ∨ month = 10 ∨ month = 12 then 31
  else if month = 4 ∨ month = 6 ∨ month = 9 ∨ month = 11 then 30
  else if month = 2 then
    if (year.tmod 4 = 0 ∧ year.tmod 100 ≠ 0) ∨ year.tmod 400 = 0 then 29 else 28
  else 30

/-! ## The length of a month -/

lemma tmod_eq_zero_iff (x k : ℤ) : x.tmod k = 0 ↔ x % k = 0 := by
  rw [← Int.dvd_iff_tmod_eq_zero, Int.dvd_iff_emod_eq_zero]

lemma daysInMonth_eq (year : ℤ) {month : ℤ} (h : 1 ≤ month) (h' : month ≤ 12) :
    daysInMonth year month = Gregorian.daysInMonth year month := by
  have hleap : ((year.tmod 4 = 0 ∧ year.tmod 100 ≠ 0) ∨ year.tmod 400 = 0) ↔ IsLeap year := by
    simp only [ne_eq, tmod_eq_zero_iff, IsLeap]
    omega
  simp only [daysInMonth, Gregorian.daysInMonth, hleap]
  interval_cases month <;> norm_num

/-! ## From days to dates -/

/-- The formula is the calendar's from 4801 BC on. -/
lemma civil_eq_civilDate {days : ℤ} (h : -2472632 ≤ days) : civil days = civilDate days := by
  unfold civil civilDate
  extract_lets jdn a b c d e m a' b' c' d' e' m'
  have ha : a = a' := by omega
  have hb : b = b' := by
    simp only [b, b', ha]
    exact tdiv_of_nonneg (by omega) _
  have hb0 : 0 ≤ b' ∧ 146097 * b' ≤ 4 * a' + 3 := by omega
  have hc : c = c' := by
    simp only [c, c', ha, hb]
    rw [tdiv_of_nonneg (by omega)]
  have hc0 : 0 ≤ c' := by omega
  have hd : d = d' := by
    simp only [d, d', hc]
    exact tdiv_of_nonneg (by omega) _
  have hd0 : 0 ≤ d' ∧ 1461 * d' ≤ 4 * c' + 3 := by omega
  have he : e = e' := by
    simp only [e, e', hc, hd]
    rw [tdiv_of_nonneg (by omega)]
  have he0 : 0 ≤ e' := by omega
  have hm : m = m' := by
    simp only [m, m', he]
    exact tdiv_of_nonneg (by omega) _
  have hm0 : 0 ≤ m' := by omega
  rw [hb, hd, he, hm, tdiv_of_nonneg (x := m') hm0, tdiv_of_nonneg (x := 153 * m' + 2) (by omega)]

/-- Before, no day of the month is positive. -/
lemma civil_day_nonpos {days : ℤ} (h : days < -2472632) : (civil days).2.2 ≤ 0 := by
  unfold civil
  extract_lets jdn a b c d e m
  have hb : b = -(-(4 * a + 3) / 146097) := tdiv_of_nonpos (by omega) _
  have hc : c = a + 146097 * (-b) / 4 := by
    have := tdiv_of_nonpos (x := 146097 * b) (by omega) 4
    omega
  have hc' : c ≤ -1 := by omega
  have hd : d = -(-(4 * c + 3) / 1461) := tdiv_of_nonpos (by omega) _
  have he : e = c + 1461 * (-d) / 4 := by
    have := tdiv_of_nonpos (x := 1461 * d) (by omega) 4
    omega
  have he' : e ≤ -1 := by omega
  have hm : m = -(-(5 * e + 2) / 153) := tdiv_of_nonpos (by omega) _
  have hday := tdiv_bounds (153 * m + 2) (k := 5) (by decide)
  clear_value b c d e m
  by_cases hm0 : m = 0
  · subst hm0
    have hzero : (153 * 0 + 2 : ℤ).tdiv 5 = 0 := by decide
    dsimp only
    rw [hzero]
    omega
  · have hday' := tdiv_of_nonpos (x := 153 * m + 2) (by omega) 5
    dsimp only
    omega

/-- The date of a day number of 32 bits. -/
def exactDate (days : Int32) : Int32 × Int32 × Int32 :=
  (Int32.ofInt (civilDate days.toInt).1, Int32.ofInt (civilDate days.toInt).2.1,
    Int32.ofInt (civilDate days.toInt).2.2)

/-- A date of 32 bits keeps its day of the month. -/
lemma toInt_ofInt_day {n : ℤ} (h : -4000 ≤ n) (h' : n ≤ 4000) : (Int32.ofInt n).toInt = n :=
  Int32.toInt_ofInt_of_le (by omega) (by omega)

/-- `days_to_ymd` is exact from 4801 BC on, and not before. -/
theorem daysToYmd_eq_exactDate_iff (days : Int32) :
    daysToYmd days = exactDate days ↔ -2472632 ≤ days.toInt := by
  constructor
  · intro h
    by_contra hlt
    have hday := congrArg (fun p => p.2.2.toInt) h
    obtain ⟨-, -, hbound, -⟩ := civil_bounds days.le_toInt days.toInt_lt
    have hnonpos := civil_day_nonpos (not_le.mp hlt)
    have hdate := isDate_civilDate days.toInt
    have hle : Gregorian.daysInMonth (civilDate days.toInt).1 (civilDate days.toInt).2.1 ≤ 31 := by
      unfold Gregorian.daysInMonth
      split
      · split <;> decide
      · split <;> decide
    have hpos := hdate.day_pos
    have hday_le := hdate.day_le
    simp only [daysToYmd_eq, exactDate] at hday
    rw [toInt_ofInt_day hbound (by omega), toInt_ofInt_day (by omega) (by omega)] at hday
    omega
  · intro h
    rw [daysToYmd_eq, exactDate, civil_eq_civilDate h]

/-! ## From dates to days -/

/-- The years counted from March for which `ymd_to_days` is exact: all from 0 on; before, those whose
century is a leap year if they start one, and before -4716 only multiples of four. -/
def SupportedYear (y : ℤ) : Prop :=
  0 ≤ y ∨ ((-4716 ≤ y ∨ y % 4 = 0) ∧ (y % 100 = 0 → y % 400 = 0))

instance (y : ℤ) : Decidable (SupportedYear y) := inferInstanceAs (Decidable (_ ∨ _))

/-- The product of floats is exact enough for the months. -/
lemma monthTerm_eq {month : ℤ} (h : 1 ≤ month) (h' : month ≤ 12) :
    monthTerm ((if month ≤ 2 then month + 12 else month) + 1) = (153 * marchMonth month + 2) / 5 + 122 := by
  unfold marchMonth
  interval_cases month <;> decide

/-- The day number `ymd_to_days` computes before it is stored in 32 bits. -/
def julianDays (year month day : ℤ) : ℤ :=
  let y := marchYear year month
  (1461 * (y + 4716)).tdiv 4 + ((153 * marchMonth month + 2) / 5 + 122) + day +
    (2 - y.tdiv 100 + (y.tdiv 100).tdiv 4) - 1524 - 2440588

lemma ymdToDays_eq {year month day : Int32} (h : IsDate year.toInt month.toInt day.toInt) :
    ymdToDays year month day = Int32.ofInt (julianDays year.toInt month.toInt day.toInt) := by
  have hterm := monthTerm_eq h.month_pos h.month_le
  unfold ymdToDays julianDays marchYear
  by_cases hm : month.toInt ≤ 2
  · simp only [hm, if_true] at hterm ⊢
    rw [hterm]
  · simp only [hm, if_false] at hterm ⊢
    rw [hterm]

/-- The truncating divisions give the day number or the one after it. -/
lemma julianDays_eq (year month day : ℤ) : julianDays year month day =
    Gregorian.dayNumber year month day + if SupportedYear (marchYear year month) then 0 else 1 := by
  have hsupported : SupportedYear (marchYear year month) ↔ 0 ≤ marchYear year month ∨
      ((-4716 ≤ marchYear year month ∨ marchYear year month % 4 = 0) ∧
        (marchYear year month % 100 = 0 → marchYear year month % 400 = 0)) := Iff.rfl
  simp only [julianDays, Gregorian.dayNumber]
  generalize marchYear year month = y at hsupported ⊢
  have hfloor : 1461 * (y + 4716) / 4 = 365 * y + y / 4 + 1722519 := by omega
  by_cases hy : 0 ≤ y
  · have hfour : (1461 * (y + 4716)).tdiv 4 = 1461 * (y + 4716) / 4 := tdiv_of_nonneg (by omega) _
    have hhundred : y.tdiv 100 = y / 100 := tdiv_of_nonneg hy _
    have hcycle : (y / 100).tdiv 4 = y / 400 := by
      rw [tdiv_of_nonneg (by omega)]
      omega
    rw [hfour, hfloor, hhundred, hcycle, if_pos (hsupported.mpr (Or.inl hy))]
    ring
  · have hhundred : y.tdiv 100 = y / 100 + if y % 100 = 0 then 0 else 1 := by
      rw [tdiv_of_nonpos (by omega)]
      split <;> omega
    have hcycle : (y.tdiv 100).tdiv 4 = y / 400 + if y % 400 = 0 then 0 else 1 := by
      rw [tdiv_of_nonpos (x := y) (by omega), tdiv_of_nonpos (by omega)]
      split <;> omega
    have hfour : (1461 * (y + 4716)).tdiv 4 =
        1461 * (y + 4716) / 4 + if -4716 ≤ y ∨ y % 4 = 0 then 0 else 1 := by
      by_cases hy' : -4716 ≤ y
      · rw [if_pos (Or.inl hy'), tdiv_of_nonneg (by omega), add_zero]
      · rw [tdiv_of_nonpos (by omega)]
        split <;> omega
    have hiff : SupportedYear y ↔
        (-4716 ≤ y ∨ y % 4 = 0) ∧ (y % 100 = 0 → y % 400 = 0) := by
      rw [hsupported, or_iff_right hy]
    rw [hfour, hfloor, hcycle, hhundred, if_congr hiff rfl rfl]
    by_cases h4 : -4716 ≤ y ∨ y % 4 = 0 <;> by_cases h100 : y % 100 = 0 <;>
      by_cases h400 : y % 400 = 0 <;> simp only [h4, h100, h400, if_true, if_false, and_true, and_false,
        forall_const, imp_false, not_false_eq_true, IsEmpty.forall_iff] <;> omega

/-- The day number of a date of 32 bits, if the date exists and its day number fits. -/
def exactDays (year month day : Int32) : Option Int32 :=
  let n := Gregorian.dayNumber year.toInt month.toInt day.toInt
  if IsDate year.toInt month.toInt day.toInt ∧ -2 ^ 31 ≤ n ∧ n < 2 ^ 31 then some (Int32.ofInt n) else none

/-- `ymd_to_days` is exact for the existing dates of the supported years whose day number fits. -/
theorem exactDays_eq_some_iff (year month day : Int32) :
    exactDays year month day = some (ymdToDays year month day) ↔
      (exactDays year month day).isSome ∧ SupportedYear (marchYear year.toInt month.toInt) := by
  unfold exactDays
  extract_lets n
  by_cases hdate : IsDate year.toInt month.toInt day.toInt ∧ -2 ^ 31 ≤ n ∧ n < 2 ^ 31
  · rw [if_pos hdate, Option.some.injEq, Option.isSome_some, ymdToDays_eq hdate.1, julianDays_eq,
      ofInt_eq_ofInt_iff]
    split
    · rename_i hyear
      simp [n, hyear]
    · rename_i hyear
      simp only [n, hyear, and_false, iff_false]
      omega
  · rw [if_neg hdate]
    simp

end Maharit.Temporal
