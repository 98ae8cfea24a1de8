import MaharitDb.Query.ArithmeticExact

/-!
# The numbers of `range`

What `range` (`maharit-query/src/executor.rs`) returns, for all bounds and steps that are not zero: the numbers
from the first one on, as long as they do not pass the last one, or an error when they are too many.  The number
of elements is computed in 128 bits before the loop, and is right also when the loop ends because the next number
has more than 64 bits.
-/

namespace Maharit

open ExactRun Temporal

/-- The `k`-th number does not pass the last one, in the direction of the step. -/
def WithinRange (start stop step : ℤ) (k : ℕ) : Prop :=
  0 < step ∧ start + k * step ≤ stop ∨ step < 0 ∧ stop ≤ start + k * step

/-- The value has at most 128 bits. -/
def Fits128 (z : ℤ) : Prop := -2 ^ 127 ≤ z ∧ z < 2 ^ 127

/-- The count of elements is that of the numbers which do not pass the last one. -/
lemma lt_rangeCount_iff {start stop step : ℤ} (hstep : step ≠ 0) (k : ℕ) :
    (k : ℤ) < rangeCount start stop step ↔ WithinRange start stop step k := by
  unfold rangeCount WithinRange
  rcases lt_or_gt_of_ne hstep with hneg | hpos
  · have hcond : ¬ 0 < step := by omega
    simp only [hcond, if_false, false_and, false_or, hneg, true_and]
    split
    · rename_i hlt
      have hmul : (k : ℤ) * step ≤ 0 := mul_nonpos_of_nonneg_of_nonpos (by omega) (by omega)
      omega
    · rename_i hle
      have hquot := Int.le_ediv_iff_mul_le (a := (k : ℤ)) (b := start - stop) (c := -step) (by omega)
      have hneg' : (k : ℤ) * -step = -(k * step) := by ring
      rw [tdiv_of_nonneg (by omega), Int.lt_add_one_iff, hquot, hneg']
      omega
  · have hcond : ¬ step < 0 := by omega
    simp only [hpos, if_true, true_and, hcond, false_and, or_false]
    split
    · rename_i hlt
      have hmul : 0 ≤ (k : ℤ) * step := mul_nonneg (by omega) (by omega)
      omega
    · rename_i hle
      have hquot := Int.le_ediv_iff_mul_le (a := (k : ℤ)) (b := stop - start) (c := step) (by omega)
      rw [tdiv_of_nonneg (by omega), Int.lt_add_one_iff, hquot]
      omega

lemma rangeCount_nonneg (start stop step : ℤ) : 0 ≤ rangeCount start stop step := by
  unfold rangeCount
  split
  · split
    · exact le_rfl
    · have hquot : 0 ≤ (stop - start).tdiv step := Int.tdiv_nonneg (by omega) (by omega)
      omega
  · split
    · exact le_rfl
    · have hquot : 0 ≤ (start - stop).tdiv (-step) := Int.tdiv_nonneg (by omega) (by omega)
      omega

/-- There are no more numbers than 64-bit integers. -/
lemma rangeCount_le (start stop step : Int64) :
    rangeCount start.toInt stop.toInt step.toInt ≤ 2 ^ 64 := by
  have hstart := start.le_toInt
  have hstart' := start.toInt_lt
  have hstop := stop.le_toInt
  have hstop' := stop.toInt_lt
  unfold rangeCount
  split
  · split
    · omega
    · have hquot : (stop.toInt - start.toInt).tdiv step.toInt ≤ stop.toInt - start.toInt :=
        Int.tdiv_le_self _ (by omega)
      omega
  · split
    · omega
    · have hquot : (start.toInt - stop.toInt).tdiv (-step.toInt) ≤ start.toInt - stop.toInt :=
        Int.tdiv_le_self _ (by omega)
      omega

/-- `range` is exact: the count computed before the loop is that of the numbers which do not pass the last one and
that of the elements the loop pushes; no step overflows; and the result is the list of these numbers, or an error
exactly when they are more than the limit. -/
structure RangeExact (checks : Bool) (start stop step : Int64) : Prop where
  count : ∀ k : ℕ, (k : ℤ) < rangeCount start.toInt stop.toInt step.toInt ↔
    WithinRange start.toInt stop.toInt step.toInt k
  pushed : ((rangeFrom step stop start).length : ℤ) = rangeCount start.toInt stop.toInt step.toInt
  /-- The numbers themselves fit. -/
  numbers : ∀ k : ℕ, WithinRange start.toInt stop.toInt step.toInt k →
    (Int64.ofInt (start.toInt + k * step.toInt)).toInt = start.toInt + k * step.toInt
  /-- So do the values on the way to the count. -/
  wide : Fits128 (stop.toInt - start.toInt) ∧ Fits128 (start.toInt - stop.toInt) ∧ Fits128 (-step.toInt) ∧
    Fits128 (rangeCount start.toInt stop.toInt step.toInt)
  returns : rangeCount start.toInt stop.toInt step.toInt ≤ maxRangeLen →
    rangeValue (machineSteps checks) (.int start) (.int stop) (some (.int step)) =
      ⟨false, .value (.list ((List.range (rangeCount start.toInt stop.toInt step.toInt).toNat).map fun k : ℕ =>
        .int (Int64.ofInt (start.toInt + k * step.toInt))))⟩
  fails : maxRangeLen < rangeCount start.toInt stop.toInt step.toInt →
    ∃ message, rangeValue (machineSteps checks) (.int start) (.int stop) (some (.int step)) =
      ⟨false, .raised (.typeError message)⟩
  /-- Without a step the numbers are consecutive. -/
  byDefault : rangeValue (machineSteps checks) (.int start) (.int stop) none =
    rangeValue (machineSteps checks) (.int start) (.int stop) (some (.int 1))

theorem rangeValue_exact (checks : Bool) (start stop : Int64) {step : Int64} (hstep : step ≠ 0) :
    RangeExact checks start stop step := by
  have hstep' : step.toInt ≠ 0 := fun h => hstep (Int64.toInt_inj.mp h)
  have hstart := start.le_toInt
  have hstart' := start.toInt_lt
  have hstop := stop.le_toInt
  have hstop' := stop.toInt_lt
  have hlow := step.le_toInt
  have hhigh := step.toInt_lt
  have hnonneg := rangeCount_nonneg start.toInt stop.toInt step.toInt
  have hbound := rangeCount_le start stop step
  refine ⟨lt_rangeCount_iff hstep', ?_, ?_, ?_, ?_, ?_, rfl⟩
  · rw [rangeFrom_eq hstep, rangeNumbers, List.length_map, List.length_range]
    omega
  · intro k hk
    -- Between the first and the last number everything fits.
    have hbetween : -2 ^ 63 ≤ start.toInt + k * step.toInt ∧ start.toInt + k * step.toInt < 2 ^ 63 := by
      rcases hk with ⟨hpos, hle⟩ | ⟨hneg, hle⟩
      · have hmul : 0 ≤ (k : ℤ) * step.toInt := mul_nonneg (by omega) (by omega)
        omega
      · have hmul : (k : ℤ) * step.toInt ≤ 0 := mul_nonpos_of_nonneg_of_nonpos (by omega) (by omega)
        omega
    exact Int64.toInt_ofInt_of_le hbetween.1 hbetween.2
  · unfold Fits128
    omega
  · intro hfew
    unfold rangeValue rangeList
    simp only [if_neg hstep, if_neg (not_lt.mpr hfew)]
    have hnumbers : (rangeFrom step stop start).map Value.int =
        (List.range (rangeCount start.toInt stop.toInt step.toInt).toNat).map fun k : ℕ =>
          Value.int (Int64.ofInt (start.toInt + k * step.toInt)) := by
      rw [rangeFrom_eq hstep, rangeNumbers, List.map_map]
      rfl
    rw [← hnumbers]
    rfl
  · intro hmany
    unfold rangeValue rangeList
    simp only [if_neg hstep, if_pos hmany]
    exact ⟨_, rfl⟩

/-- From the least to the greatest integer, down by the least one. -/
theorem rangeValue_exact_extremes : RangeExact true Int64.maxValue Int64.minValue Int64.minValue :=
  rangeValue_exact true Int64.maxValue Int64.minValue (by decide)

end Maharit
