import MaharitDb.Core.CalendarSteps

/-!
# From dates to days and back

`ymd_to_days` and `days_to_ymd` of `maharit-core/src/property.rs` are inverse to each other on the dates of the years
from 0 to 9999, and count the days since 1970-01-01.
-/

namespace Maharit.Temporal

open Gregorian

/-- The days of a year from 0 to 9999 are far from the ends of 32 bits. -/
lemma dayNumber_bounds {year month day : ℤ} (h : IsDate year month day) (hyear : 0 ≤ year) (hyear' : year ≤ 9999) :
    -1000000 ≤ Gregorian.dayNumber year month day ∧ Gregorian.dayNumber year month day ≤ 4000000 := by
  have hpos := h.month_pos
  have hle := h.month_le
  have hday := h.day_pos
  have hday' := h.day_le
  have hlength : Gregorian.daysInMonth year month ≤ 31 := by
    unfold Gregorian.daysInMonth
    split_ifs <;> norm_num
  simp only [Gregorian.dayNumber, marchYear, marchMonth]
  split_ifs <;> omega

/-- `ymd_to_days` counts the days of the dates from the year 0 on. -/
lemma toInt_ymdToDays {year month day : Int32} (h : IsDate year.toInt month.toInt day.toInt) (hyear : 0 ≤ year.toInt)
    (hfits : Gregorian.dayNumber year.toInt month.toInt day.toInt < 2 ^ 31) :
    (ymdToDays year month day).toInt = Gregorian.dayNumber year.toInt month.toInt day.toInt := by
  have hpos := h.month_pos
  have hday := h.day_pos
  have hsupported : SupportedYear (marchYear year.toInt month.toInt) := by
    unfold SupportedYear marchYear
    split_ifs
    · omega
    · exact Or.inl hyear
  have hlow : -2 ^ 31 ≤ Gregorian.dayNumber year.toInt month.toInt day.toInt := by
    have hle := h.month_le
    simp only [Gregorian.dayNumber, marchYear, marchMonth]
    split_ifs <;> omega
  rw [ymdToDays_eq h, julianDays_eq, if_pos hsupported, add_zero]
  exact Int32.toInt_ofInt_of_le hlow hfits

/-- `days_to_ymd` gives the date with the number. -/
lemma daysToYmd_of_dayNumber {year month day days : Int32} (h : IsDate year.toInt month.toInt day.toInt)
    (hyear : 0 ≤ year.toInt) (hdays : days.toInt = Gregorian.dayNumber year.toInt month.toInt day.toInt) :
    daysToYmd days = (year, month, day) := by
  have hlow : -2472632 ≤ days.toInt := by
    have hpos := h.month_pos
    have hle := h.month_le
    have hday := h.day_pos
    rw [hdays]
    simp only [Gregorian.dayNumber, marchYear, marchMonth]
    split_ifs <;> omega
  rw [(daysToYmd_eq_exactDate_iff days).mpr hlow, exactDate, hdays, civilDate_dayNumber h]
  simp only [Int32.ofInt_toInt]

/-- On the dates of the years from 0 to 9999 the two conversions are inverse to each other, 1970-01-01 has number 0
and consecutive dates have consecutive numbers. -/
theorem civil_round_trip :
    (∀ year month day : Int32, IsDate year.toInt month.toInt day.toInt → 0 ≤ year.toInt → year.toInt ≤ 9999 →
      daysToYmd (ymdToDays year month day) = (year, month, day) ∧
      ∀ year' month' day' : Int32,
        (year'.toInt, month'.toInt, day'.toInt) = nextDate year.toInt month.toInt day.toInt →
        (ymdToDays year' month' day').toInt = (ymdToDays year month day).toInt + 1) ∧
    ymdToDays 1970 1 1 = 0 ∧
    ∀ days : Int32, (ymdToDays 0 1 1).toInt ≤ days.toInt → days.toInt ≤ (ymdToDays 9999 12 31).toInt →
      ymdToDays (daysToYmd days).1 (daysToYmd days).2.1 (daysToYmd days).2.2 = days := by
  refine ⟨fun year month day h hyear hyear' => ?_, by decide, fun days hfirst hlast => ?_⟩
  · have hbounds := dayNumber_bounds h hyear hyear'
    have hnumber := toInt_ymdToDays h hyear (by omega)
    refine ⟨daysToYmd_of_dayNumber h hyear hnumber, fun year' month' day' hnext => ?_⟩
    have hdate := isDate_nextDate h
    have hconsecutive := dayNumber_nextDate h
    rw [← hnext] at hdate hconsecutive
    have hyear'' : 0 ≤ year'.toInt := by
      have hfst := congrArg Prod.fst hnext
      unfold nextDate at hfst
      dsimp only at hfst
      rw [hfst]
      split_ifs <;> dsimp only <;> omega
    dsimp only at hdate hconsecutive
    rw [toInt_ymdToDays hdate hyear'' (by omega), hconsecutive, hnumber]
  · have hfirst' : (ymdToDays 0 1 1).toInt = -719528 := by decide
    have hlast' : (ymdToDays 9999 12 31).toInt = 2932896 := by decide
    rw [hfirst'] at hfirst
    rw [hlast'] at hlast
    -- the date of the number, and the number of that date
    have hdate := isDate_civilDate days.toInt
    have hnumber := dayNumber_civilDate days.toInt
    have hyear : 0 ≤ (civilDate days.toInt).1 := by
      by_contra hneg
      have hle := hdate.month_le
      have hnewYear : IsDate 0 1 1 := by decide
      have hbefore := hdate.dayNumber_lt hnewYear (by omega)
      have hzero : Gregorian.dayNumber 0 1 1 = -719528 := by decide
      omega
    obtain ⟨⟨hy, hy'⟩, ⟨hm, hm'⟩, hd, hd'⟩ := civil_bounds days.le_toInt days.toInt_lt
    rw [civil_eq_civilDate (by omega)] at hy hy' hm hm' hd hd'
    have hround : ∀ n : ℤ, -6000000 ≤ n → n ≤ 6000000 → (Int32.ofInt n).toInt = n := fun n hn hn' =>
      Int32.toInt_ofInt_of_le (by omega) (by omega)
    rw [(daysToYmd_eq_exactDate_iff days).mpr (by omega), exactDate]
    refine Int32.toInt_inj.mp ?_
    rw [toInt_ymdToDays, hround _ hy hy', hround _ (by omega) (by omega), hround _ (by omega) (by omega), hnumber]
    · rw [hround _ hy hy', hround _ (by omega) (by omega), hround _ (by omega) (by omega)]
      exact hdate
    · rw [hround _ hy hy']
      exact hyear
    · rw [hround _ hy hy', hround _ (by omega) (by omega), hround _ (by omega) (by omega), hnumber]
      omega

theorem civil_round_trip_leapDay :
    (daysToYmd (ymdToDays 2024 2 29) = (2024, 2, 29) ∧
      (ymdToDays 2024 3 1).toInt = (ymdToDays 2024 2 29).toInt + 1) ∧
    ymdToDays (daysToYmd 19782).1 (daysToYmd 19782).2.1 (daysToYmd 19782).2.2 = 19782 := by
  obtain ⟨hback, hnext⟩ := civil_round_trip.1 2024 2 29 (by decide) (by decide) (by decide)
  exact ⟨⟨hback, hnext 2024 3 1 (by decide)⟩, civil_round_trip.2.2 19782 (by decide) (by decide)⟩

end Maharit.Temporal
