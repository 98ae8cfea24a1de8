import MaharitDb.Query.Arithmetic
import MaharitDb.Query.LimitPrefix

/-!
# Where arithmetic is exact

The machine's arithmetic follows the exact steps as long as these stay within their bounds, step by step and so
for every expression.  An expression is evaluated exactly, or to an error, without a panic and without a step
that wraps, if and only if no exact step leaves its bounds.
-/

namespace Maharit

open ExactRun Temporal

/-! ## `range` -/

/-- The number of elements left while the loop goes on. -/
lemma rangeCount_of_continues {i stop step : ℤ}
    (h : 0 < step ∧ i ≤ stop ∨ step < 0 ∧ stop ≤ i) :
    rangeCount i stop step = rangeCount (i + step) stop step + 1 ∧ 0 ≤ rangeCount (i + step) stop step := by
  unfold rangeCount
  rcases h with ⟨hstep, hi⟩ | ⟨hstep, hi⟩
  · rw [if_pos hstep, if_pos hstep, if_neg (not_lt.mpr hi), tdiv_of_nonneg (by omega)]
    by_cases hnext : stop < i + step
    · rw [if_pos hnext, Int.ediv_eq_zero_of_lt (by omega) (by omega)]
      exact ⟨rfl, le_refl 0⟩
    · have hsplit : stop - i = stop - (i + step) + 1 * step := by ring
      have hdiv : (stop - i) / step = (stop - (i + step)) / step + 1 := by
        rw [hsplit, Int.add_mul_ediv_right _ _ (by omega)]
      have hnonneg : 0 ≤ (stop - (i + step)) / step := Int.ediv_nonneg (by omega) (by omega)
      rw [if_neg hnext, tdiv_of_nonneg (by omega), hdiv]
      exact ⟨rfl, by omega⟩
  · have hneg : ¬0 < step := by omega
    rw [if_neg hneg, if_neg hneg, if_neg (not_lt.mpr hi), tdiv_of_nonneg (by omega)]
    by_cases hnext : i + step < stop
    · rw [if_pos hnext, Int.ediv_eq_zero_of_lt (by omega) (by omega)]
      exact ⟨rfl, le_refl 0⟩
    · have hsplit : i - stop = i + step - stop + 1 * (-step) := by ring
      have hdiv : (i - stop) / (-step) = (i + step - stop) / (-step) + 1 := by
        rw [hsplit, Int.add_mul_ediv_right _ _ (by omega)]
      have hnonneg : 0 ≤ (i + step - stop) / (-step) := Int.ediv_nonneg (by omega) (by omega)
      rw [if_neg hnext, tdiv_of_nonneg (by omega), hdiv]
      exact ⟨rfl, by omega⟩

lemma rangeCount_of_stops {i stop step : ℤ} (hstep : step ≠ 0)
    (h : ¬(0 < step ∧ i ≤ stop ∨ step < 0 ∧ stop ≤ i)) : rangeCount i stop step = 0 := by
  unfold rangeCount
  by_cases hpos : 0 < step
  · rw [if_pos hpos, if_pos (by omega)]
  · rw [if_neg hpos, if_pos (by omega)]

/-- The numbers of a range. -/
def rangeNumbers (start step : ℤ) (count : ℕ) : List Int64 :=
  (List.range count).map fun k : ℕ => Int64.ofInt (start + k * step)

lemma rangeNumbers_succ (start step : ℤ) (count : ℕ) :
    rangeNumbers start step (count + 1) = Int64.ofInt start :: rangeNumbers (start + step) step count := by
  unfold rangeNumbers
  rw [List.range_succ_eq_map, List.map_cons, List.map_map]
  congr 1
  · simp
  · refine List.map_congr_left fun k _ => ?_
    rw [Function.comp_apply]
    congr 1
    push_cast
    ring

/-- The loop stops early only behind the last number. -/
lemma rangeCount_of_checkedAdd {i stop step : Int64} (hstep : step.toInt ≠ 0) (hnext : checkedAdd i step = none) :
    rangeCount (i.toInt + step.toInt) stop.toInt step.toInt = 0 := by
  have hfits : ¬(-2 ^ 63 ≤ i.toInt + step.toInt ∧ i.toInt + step.toInt < 2 ^ 63) := by
    intro hfits
    rw [checkedAdd, fits64, decide_eq_true hfits] at hnext
    exact absurd hnext (by simp)
  have hlow := stop.le_toInt
  have hhigh := stop.toInt_lt
  have hlow' := i.le_toInt
  have hhigh' := i.toInt_lt
  exact rangeCount_of_stops hstep (by omega)

/-- The loops give the numbers of the range. -/
theorem rangeFrom_eq {step stop : Int64} (hstep : step ≠ 0) (i : Int64) :
    rangeFrom step stop i =
      rangeNumbers i.toInt step.toInt (rangeCount i.toInt stop.toInt step.toInt).toNat := by
  have hstep' : step.toInt ≠ 0 := fun h => hstep (Int64.toInt_inj.mp h)
  induction i using rangeFrom.induct step stop with
  | case1 i h ih =>
    obtain ⟨hcount, hnonneg⟩ := rangeCount_of_continues h
    have hsucc : (rangeCount i.toInt stop.toInt step.toInt).toNat =
        (rangeCount (i.toInt + step.toInt) stop.toInt step.toInt).toNat + 1 := by omega
    rw [rangeFrom, if_pos h, hsucc, rangeNumbers_succ, Int64.ofInt_toInt]
    congr 1
    split
    · rename_i next hnext
      rw [ih next hnext, toInt_of_checkedAdd hnext]
    · rename_i hnext
      rw [rangeCount_of_checkedAdd hstep' hnext]
      rfl
  | case2 i h =>
    rw [rangeFrom, if_neg h, rangeCount_of_stops hstep' h]
    rfl

/-! ## Steps -/

/-- The steps of a run follow exact ones. -/
structure Arithmetic.Follow (A : Arithmetic (Run ExecuteError)) (B C : Arithmetic (Guarded ExecuteError)) :
    Prop where
  int64 : ∀ z, Follows (A.int64 z) (B.int64 z) (C.int64 z)
  int32 : ∀ z, Follows (A.int32 z) (B.int32 z) (C.int32 z)
  asInt32 : ∀ z, Follows (A.asInt32 z) (B.asInt32 z) (C.asInt32 z)
  quotient : ∀ a b, Follows (A.quotient a b) (B.quotient a b) (C.quotient a b)
  toYmd : ∀ days, Follows (A.toYmd days) (B.toYmd days) (C.toYmd days)
  toDays : ∀ y mo d, Follows (A.toDays y mo d) (B.toDays y mo d) (C.toDays y mo d)
  range : ∀ start stop step, step ≠ 0 →
    Follows (A.range start stop step) (B.range start stop step) (C.range start stop step)
  raise : ∀ {α : Type} (e : ExecuteError),
    Follows (A.raise e : Run ExecuteError α) (B.raise e) (C.raise e)

/-- A quotient does not fit only for the smallest integer and minus one. -/
lemma fits64_tdiv (a b : Int64) (hb : b ≠ 0) :
    fits64 (a.toInt.tdiv b.toInt) = true ↔ ¬(a = Int64.minValue ∧ b = -1) := by
  have hb' : b.toInt ≠ 0 := fun h => hb (Int64.toInt_inj.mp h)
  have hlow := a.le_toInt
  have hhigh := a.toInt_lt
  rw [fits64, decide_eq_true_iff]
  by_cases hone : b = -1
  · have htdiv : a.toInt.tdiv b.toInt = -a.toInt := by
      rw [hone]
      change a.toInt.tdiv (-1) = _
      rw [Int.tdiv_neg, Int.tdiv_one]
    have hmin : a = Int64.minValue ↔ a.toInt = -2 ^ 63 := by
      rw [← Int64.toInt_inj]
      rfl
    rw [htdiv, hmin]
    simp only [hone, and_true]
    omega
  · have hone' : b.toInt ≠ -1 := fun h => hone (Int64.toInt_inj.mp h)
    have habs : (a.toInt.tdiv b.toInt).natAbs ≤ a.toInt.natAbs := Int.natAbs_tdiv_le_natAbs _ _
    simp only [hone, and_false, not_false_eq_true, iff_true]
    by_cases hlarge : a.toInt = -2 ^ 63
    · by_cases hunit : b.toInt = 1
      · rw [hunit, Int.tdiv_one]
        omega
      · have hhalf : (a.toInt.tdiv b.toInt).natAbs ≤ a.toInt.natAbs / 2 := by
          rw [Int.natAbs_tdiv]
          exact Nat.div_le_div_left (by omega) (by decide)
        omega
    · omega

/-- A step that is exact when it fits. -/
lemma follows_checked {α : Type} (checks fits : Bool) (a : α) :
    Follows (if fits then .report true a else if checks then .panic else .wrapped a : Run ExecuteError α)
      (Guarded.within fits a) (Guarded.within fits a) := by
  refine Follows.step (fun h => ?_) (fun h => ?_) id
  · rw [h]
    rfl
  · rw [h]
    cases checks
    · exact Or.inl rfl
    · exact Or.inr rfl

/-- The machine's steps follow the exact ones. -/
theorem machineSteps_follow (checks : Bool) : (machineSteps checks).Follow exactSteps boundedSteps where
  int64 z := follows_checked checks (fits64 z) (Int64.ofInt z)
  int32 z := follows_checked checks (fits32 z) (Int32.ofInt z)
  asInt32 z := by
    refine Follows.step (fun h => ?_) (fun h => ?_) id
    · simp only [machineSteps, Run.report, h]
      rfl
    · exact Or.inl (by simp only [machineSteps, Run.report, h]; rfl)
  quotient a b := by
    have hiff : (b != 0 && fits64 (a.toInt.tdiv b.toInt)) = true ↔
        ¬(b = 0 ∨ (a = Int64.minValue ∧ b = -1)) := by
      rw [Bool.and_eq_true, bne_iff_ne, not_or]
      exact and_congr_right fun hb => fits64_tdiv a b hb
    refine Follows.step (fun h => ?_) (fun h => ?_) id
    · simp only [machineSteps]
      rw [if_neg (hiff.mp h)]
      rfl
    · have hpanic : b = 0 ∨ (a = Int64.minValue ∧ b = -1) := by
        by_contra hnot
        rw [hiff.mpr hnot] at h
        exact absurd h (by decide)
      simp only [machineSteps]
      rw [if_pos hpanic]
      exact Or.inr rfl
  toYmd days := by
    have hiff := daysToYmd_eq_exactDate_iff days
    by_cases h : -2472632 ≤ days.toInt
    · simp only [machineSteps, exactSteps, boundedSteps, hiff.mpr h, h, decide_true]
      exact Follows.value _
    · have hne : ¬daysToYmd days = exactDate days := fun heq => h (hiff.mp heq)
      simp only [machineSteps, boundedSteps, h, hne, decide_false]
      exact Follows.outOfBounds _ _ (Or.inl rfl)
  toDays y mo d := by
    have hiff := exactDays_eq_some_iff y mo d
    refine Follows.step (fun h => ?_) (fun h => ?_) (fun h => (of_decide_eq_true h).1)
    · have heq := hiff.mpr (of_decide_eq_true h)
      simp only [machineSteps, Run.report, heq, decide_true, Option.getD_some]
      rfl
    · have hne : ¬exactDays y mo d = some (ymdToDays y mo d) :=
        fun heq => (of_decide_eq_false h) (hiff.mp heq)
      simp only [machineSteps, Run.report, hne, decide_false]
      exact Or.inl rfl
  range start stop step hstep := by
    simp only [machineSteps, exactSteps, boundedSteps, rangeFrom_eq hstep]
    exact Follows.value _
  raise e := Follows.raised e

/-! ## Functions -/

section Functions

variable {A : Arithmetic (Run ExecuteError)} {B C : Arithmetic (Guarded ExecuteError)} (h : A.Follow B C)

include h

lemma addDurationToDate_follows (days months durDays : Int32) (millis : Int64) :
    Follows (addDurationToDate A days months durDays millis) (addDurationToDate B days months durDays millis)
      (addDurationToDate C days months durDays millis) := by
  unfold addDurationToDate
  refine (h.toYmd days).bind ?_
  rintro ⟨y, mo, d⟩
  refine (h.int32 _).bind fun years => (h.int32 _).bind fun yearMonths => (h.int32 _).bind fun yearMonths =>
    (h.int32 _).bind fun totalMonths => ?_
  exact (h.toDays _ _ _).bind fun newDays => (h.int32 _).bind fun sum =>
    (h.asInt32 _).bind fun millisDays => h.int32 _

lemma datetimeToMillis_follows (y mo d : Int32) (hour mi s frac : ℤ) :
    Follows (datetimeToMillis A y mo d hour mi s frac) (datetimeToMillis B y mo d hour mi s frac)
      (datetimeToMillis C y mo d hour mi s frac) := by
  unfold datetimeToMillis
  exact (h.toDays y mo d).bind fun days => (h.int64 _).bind fun t => (h.int64 _).bind fun t =>
    (h.int64 _).bind fun t => (h.int64 _).bind fun t => h.int64 _

lemma moveDateTime_follows (ms : Int64) (months days : Int32) (millis : ℤ) :
    Follows (moveDateTime A ms months days millis) (moveDateTime B ms months days millis)
      (moveDateTime C ms months days millis) := by
  unfold moveDateTime
  refine (h.asInt32 _).bind fun dayNumber => (h.toYmd dayNumber).bind ?_
  rintro ⟨y, mo, d⟩
  refine (h.toDays y mo d).bind fun baseDays =>
    (addDurationToDate_follows h baseDays months days 0).bind fun newDays => (h.toYmd newDays).bind ?_
  rintro ⟨ny, nmo, nd⟩
  exact (datetimeToMillis_follows h ny nmo nd _ _ _ _).bind fun t => h.int64 _

lemma integerOp_follows (op : ArithmeticOp) (a b : Int64) :
    Follows (integerOp A op a b) (integerOp B op a b) (integerOp C op a b) := by
  cases op with
  | add => exact h.int64 _
  | sub => exact h.int64 _
  | mul => exact h.int64 _
  | div => exact h.quotient a b

lemma lift_follows {α : Type} (r : Except ExecuteError α) : Follows (A.lift r) (B.lift r) (C.lift r) := by
  cases r with
  | ok a => exact Follows.value a
  | error e => exact h.raise e

lemma arithmeticOp_follows {σ : Type} (I : Interpretation σ) (op : ArithmeticOp) (left right : Value) :
    Follows (arithmeticOp A I op left right) (arithmeticOp B I op left right)
      (arithmeticOp C I op left right) := by
  unfold arithmeticOp
  split
  · exact Follows.pure _
  · exact (addDurationToDate_follows h _ _ _ _).map _
  · exact (moveDateTime_follows h _ _ _ _).map _
  · exact (h.int32 _).bind fun days => Follows.pure _
  · exact (h.int64 _).bind fun millis => Follows.pure _
  · exact (h.int32 _).bind fun months => (h.int32 _).bind fun days => (h.int64 _).bind fun millis =>
      (addDurationToDate_follows h _ months days millis).map _
  · exact (h.int32 _).bind fun months => (h.int32 _).bind fun days =>
      (moveDateTime_follows h _ months days _).map _
  · exact (integerOp_follows h _ _ _).map _
  · split
    · exact lift_follows h _
    · exact h.raise _

lemma negate_follows (v : Value) : Follows (negate A v) (negate B v) (negate C v) := by
  unfold negate
  split
  · exact (h.int64 _).map _
  · exact Follows.pure _
  · exact h.raise _

lemma absolute_follows (v : Value) : Follows (absolute A v) (absolute B v) (absolute C v) := by
  unfold absolute
  split
  · exact (h.int64 _).map _
  · exact Follows.pure _
  · exact Follows.pure _
  · exact h.raise _

lemma rangeList_follows (start stop step : Int64) :
    Follows (rangeList A start stop step) (rangeList B start stop step) (rangeList C start stop step) := by
  unfold rangeList
  split
  · exact h.raise _
  · rename_i hstep
    dsimp only
    split
    · exact h.raise _
    · exact (h.range start stop step hstep).bind fun numbers => Follows.pure _

lemma rangeValue_follows (start stop : Value) (step : Option Value) :
    Follows (rangeValue A start stop step) (rangeValue B start stop step) (rangeValue C start stop step) := by
  unfold rangeValue
  split
  · split
    · exact rangeList_follows h _ _ _
    · exact rangeList_follows h _ _ _
    · exact Follows.pure _
    · exact h.raise _
  · exact Follows.pure _
  · exact Follows.pure _
  · exact h.raise _

lemma entryInt32_follows (entries : List (String × Value)) (key : String) (default : Int32) :
    Follows (entryInt32 A entries key default) (entryInt32 B entries key default)
      (entryInt32 C entries key default) := by
  unfold entryInt32
  split
  · exact h.asInt32 _
  · exact Follows.pure _

lemma dateOfMap_follows (entries : List (String × Value)) :
    Follows (dateOfMap A entries) (dateOfMap B entries) (dateOfMap C entries) := by
  unfold dateOfMap
  exact (entryInt32_follows h entries _ _).bind fun year => (entryInt32_follows h entries _ _).bind
    fun month => (entryInt32_follows h entries _ _).bind fun day => (h.toDays year month day).map _

lemma durationOfMap_follows (entries : List (String × Value)) :
    Follows (durationOfMap A entries) (durationOfMap B entries) (durationOfMap C entries) := by
  unfold durationOfMap
  refine (h.int64 _).bind fun years => (h.int64 _).bind fun months => (h.asInt32 _).bind fun totalMonths => ?_
  refine (h.int64 _).bind fun weeks => (h.int64 _).bind fun days => (h.asInt32 _).bind fun totalDays => ?_
  refine (h.int64 _).bind fun hours => (h.int64 _).bind fun minutes => (h.int64 _).bind fun millis => ?_
  exact (h.int64 _).bind fun seconds => (h.int64 _).bind fun millis => (h.int64 _).bind fun totalMillis =>
    Follows.pure _

end Functions

/-! ## Expressions -/

section Evaluate

variable {A : Arithmetic (Run ExecuteError)} {B C : Arithmetic (Guarded ExecuteError)} {σ : Type}
  [GraphBackend σ] (I : Interpretation σ) (x : Executor σ) (b : Bindings)

mutual

/-- A run of the evaluator follows the exact evaluation, whatever the expression. -/
theorem evaluateArithmetic_follows (h : A.Follow B C) : ∀ e : ArithmeticExpr,
    Follows (evaluateArithmetic A I x b e) (evaluateArithmetic B I x b e) (evaluateArithmetic C I x b e)
  | .literal lit => by
    simp only [evaluateArithmetic]
    exact Follows.pure _
  | .variable name => by
    simp only [evaluateArithmetic]
    exact lift_follows h _
  | .property name property => by
    simp only [evaluateArithmetic]
    exact lift_follows h _
  | .parameter name => by
    simp only [evaluateArithmetic]
    split
    · exact Follows.pure _
    · exact h.raise _
  | .binary op left right => by
    simp only [evaluateArithmetic]
    exact (evaluateArithmetic_follows h left).bind fun l => (evaluateArithmetic_follows h right).bind fun r =>
      arithmeticOp_follows h I op l r
  | .neg operand => by
    simp only [evaluateArithmetic]
    exact (evaluateArithmetic_follows h operand).bind fun v => negate_follows h v
  | .abs operand => by
    simp only [evaluateArithmetic]
    exact (evaluateArithmetic_follows h operand).bind fun v => absolute_follows h v
  | .range start stop step => by
    simp only [evaluateArithmetic]
    exact (evaluateArithmetic_follows h start).bind fun s => (evaluateArithmetic_follows h stop).bind fun e =>
      (evaluateStep_follows h step).bind fun k => rangeValue_follows h s e k
  | .date entries => by
    simp only [evaluateArithmetic]
    exact (evaluateArithmeticEntries_follows h entries).bind fun values => dateOfMap_follows h values
  | .duration entries => by
    simp only [evaluateArithmetic]
    exact (evaluateArithmeticEntries_follows h entries).bind fun values => durationOfMap_follows h values

theorem evaluateStep_follows (h : A.Follow B C) : ∀ step : Option ArithmeticExpr,
    Follows (evaluateStep A I x b step) (evaluateStep B I x b step) (evaluateStep C I x b step)
  | none => by
    simp only [evaluateStep]
    exact Follows.pure _
  | some e => by
    simp only [evaluateStep]
    exact (evaluateArithmetic_follows h e).bind fun v => Follows.pure _

theorem evaluateArithmeticEntries_follows (h : A.Follow B C) :
    ∀ entries : List (String × ArithmeticExpr),
    Follows (evaluateArithmeticEntries A I x b entries) (evaluateArithmeticEntries B I x b entries)
      (evaluateArithmeticEntries C I x b entries)
  | [] => by
    simp only [evaluateArithmeticEntries]
    exact Follows.pure _
  | (k, e) :: es => by
    simp only [evaluateArithmeticEntries]
    exact (evaluateArithmetic_follows h e).bind fun v =>
      (evaluateArithmeticEntries_follows h es).bind fun vs => Follows.pure _

end

end Evaluate

/-- Evaluation ends with the exact result or an error, without a panic and without a step that wraps, if and
only if the exact steps stay within their bounds. -/
theorem evaluateArithmetic_exactly_iff (checks : Bool) {σ : Type} [GraphBackend σ] (I : Interpretation σ)
    (x : Executor σ) (b : Bindings) (e : ArithmeticExpr) :
    (evaluateArithmetic (machineSteps checks) I x b e).Exactly (evaluateArithmetic exactSteps I x b e) ↔
      evaluateArithmetic boundedSteps I x b e ≠ .outOfBounds :=
  (evaluateArithmetic_follows I x b (machineSteps_follow checks) e).exactly_iff

/-! ## Results that are not exact -/

/-- No operator on floats or strings. -/
def noOthers : Interpretation ConcurrentGraph where
  binary _ _ _ := .error (.typeError "no such operator")
  unary _ _ := .error (.typeError "no such operator")
  temporalField _ _ := .null
  scalar _ _ _ := .error (.typeError "no such function")
  reduce _ _ _ _ _ _ := .error (.typeError "no such function")

/-- A sample run in a release build. -/
def released (e : ArithmeticExpr) : Run ExecuteError Value :=
  evaluateArithmetic (machineSteps false) noOthers (.plain ConcurrentGraph.new) ∅ e

/-- `1 / 0` panics, the largest integer plus one is the smallest one, 178956971 years are a negative number of
months, and 31 February 2023 is a day in March. -/
theorem not_evaluateArithmetic_exactly :
    ¬ (released (.binary .div (.literal (.int 1)) (.literal (.int 0)))).Exactly
        (evaluateArithmetic exactSteps noOthers (.plain ConcurrentGraph.new) ∅
          (.binary .div (.literal (.int 1)) (.literal (.int 0)))) ∧
      (released (.binary .div (.literal (.int 1)) (.literal (.int 0)))).outcome = .panicked ∧
      (released (.binary .add (.literal (.int 9223372036854775807)) (.literal (.int 1)))).outcome =
        .value (.int (-9223372036854775808)) ∧
      (released (.duration [("years", .literal (.int 178956971))])).outcome =
        .value (.duration (-2147483644) 0 0) ∧
      (released (.date [("year", .literal (.int 2023)), ("month", .literal (.int 2)),
        ("day", .literal (.int 31))])).outcome = .value (.date 19419) := by
  have hpanic : (released (.binary .div (.literal (.int 1)) (.literal (.int 0)))).outcome = .panicked := by
    simp only [released, evaluateArithmetic]
    rfl
  refine ⟨fun h => h.returns hpanic, hpanic, ?_, ?_, ?_⟩
  · simp only [released, evaluateArithmetic]
    rfl
  · simp only [released, evaluateArithmetic, evaluateArithmeticEntries]
    rfl
  · simp only [released, evaluateArithmetic, evaluateArithmeticEntries]
    rfl

end Maharit
