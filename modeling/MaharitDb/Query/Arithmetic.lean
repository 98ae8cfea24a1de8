import MaharitDb.Core.CalendarSteps
import MaharitDb.Lib.ExactRun
import MaharitDb.Query.Evaluate

/-!
# Integer and temporal arithmetic

The arithmetic of `apply_binary_op`, `apply_unary_op`, `abs`, `range`, `date({..})` and `duration({..})`
(`maharit-query/src/executor.rs`, and `add_duration_to_date` of `maharit-core/src/property.rs`).  The functions
are written over the steps they are made of, an `Arithmetic`: the machine's steps panic or wrap where the
result does not fit, and the exact steps say that there is no such result.
-/

namespace Maharit

open ExactRun Temporal

/-! ## Steps -/

/-- The steps of integer and calendar arithmetic. -/
structure Arithmetic (m : Type → Type) where
  /-- An operation on `i64`, given its exact result. -/
  int64 : ℤ → m Int64
  /-- An operation on `i32`, given its exact result. -/
  int32 : ℤ → m Int32
  /-- `as i32`. -/
  asInt32 : ℤ → m Int32
  /-- `/` on `i64`. -/
  quotient : Int64 → Int64 → m Int64
  /-- `days_to_ymd`. -/
  toYmd : Int32 → m (Int32 × Int32 × Int32)
  /-- `ymd_to_days`. -/
  toDays : Int32 → Int32 → Int32 → m Int32
  /-- The loop of `range`, from the first number to the last one by a step that is not zero. -/
  range : Int64 → Int64 → Int64 → m (List Int64)
  /-- An error of the program. -/
  raise : {α : Type} → ExecuteError → m α

def fits64 (z : ℤ) : Bool := decide (-2 ^ 63 ≤ z ∧ z < 2 ^ 63)

def fits32 (z : ℤ) : Bool := decide (-2 ^ 31 ≤ z ∧ z < 2 ^ 31)

/-- `checked_add`. -/
def checkedAdd (a b : Int64) : Option Int64 :=
  if fits64 (a.toInt + b.toInt) then some (Int64.ofInt (a.toInt + b.toInt)) else none

lemma toInt_of_checkedAdd {a b c : Int64} (h : checkedAdd a b = some c) : c.toInt = a.toInt + b.toInt := by
  unfold checkedAdd at h
  split at h
  · rename_i hfits
    rw [← Option.some.inj h]
    obtain ⟨hlow, hhigh⟩ := of_decide_eq_true hfits
    exact Int64.toInt_ofInt_of_le hlow hhigh
  · cases h

/-- The loops of `range`: upwards for a positive step, downwards for a negative one. -/
def rangeFrom (step stop i : Int64) : List Int64 :=
  if 0 < step.toInt ∧ i.toInt ≤ stop.toInt ∨ step.toInt < 0 ∧ stop.toInt ≤ i.toInt then
    i :: match _hnext : checkedAdd i step with
      | some next => rangeFrom step stop next
      | none => []
  else []
termination_by (if 0 < step.toInt then stop.toInt - i.toInt + 1 else i.toInt - stop.toInt + 1).toNat
decreasing_by
  have hnext := toInt_of_checkedAdd _hnext
  split <;> omega

/-- The number of elements, as it is computed before the loop. -/
def rangeCount (start stop step : ℤ) : ℤ :=
  if 0 < step then if stop < start then 0 else (stop - start).tdiv step + 1
  else if start < stop then 0 else (start - stop).tdiv (-step) + 1

/-- The steps of the machine.  Without overflow checks a result that does not fit is wrapped; a division by
zero and the quotient that does not fit panic in any case.  A step is marked as inexact when its result is not
the integer or the date it stands for. -/
def machineSteps (checks : Bool) : Arithmetic (Run ExecuteError) where
  int64 z :=
    if fits64 z then .report true (Int64.ofInt z) else if checks then .panic else .wrapped (Int64.ofInt z)
  int32 z :=
    if fits32 z then .report true (Int32.ofInt z) else if checks then .panic else .wrapped (Int32.ofInt z)
  asInt32 z := .report (fits32 z) (Int32.ofInt z)
  quotient a b :=
    if b = 0 ∨ (a = Int64.minValue ∧ b = -1) then .panic
    else .report true (Int64.ofInt (a.toInt.tdiv b.toInt))
  toYmd days := .report (decide (daysToYmd days = exactDate days)) (daysToYmd days)
  toDays y mo d := .report (decide (exactDays y mo d = some (ymdToDays y mo d))) (ymdToDays y mo d)
  range start stop step := pure (rangeFrom step stop start)
  raise e := ⟨false, .raised e⟩

/-- The exact steps. -/
def exactSteps : Arithmetic (Guarded ExecuteError) where
  int64 z := .within (fits64 z) (Int64.ofInt z)
  int32 z := .within (fits32 z) (Int32.ofInt z)
  asInt32 z := .within (fits32 z) (Int32.ofInt z)
  quotient a b := .within (b != 0 && fits64 (a.toInt.tdiv b.toInt)) (Int64.ofInt (a.toInt.tdiv b.toInt))
  toYmd days := .value (exactDate days)
  toDays y mo d := .within (exactDays y mo d).isSome ((exactDays y mo d).getD 0)
  range start stop step :=
    .value ((List.range (rangeCount start.toInt stop.toInt step.toInt).toNat).map fun k : ℕ =>
      Int64.ofInt (start.toInt + k * step.toInt))
  raise e := .raised e

/-- The exact steps within the years for which the calendar functions are exact. -/
def boundedSteps : Arithmetic (Guarded ExecuteError) :=
  { exactSteps with
    toYmd := fun days => .within (decide (-2472632 ≤ days.toInt)) (exactDate days)
    toDays := fun y mo d =>
      .within (decide ((exactDays y mo d).isSome ∧ SupportedYear (Gregorian.marchYear y.toInt mo.toInt)))
        ((exactDays y mo d).getD 0) }

/-! ## Dates and durations -/

section Functions

variable {m : Type → Type} [Monad m] (A : Arithmetic m)

/-- `add_duration_to_date`. -/
def addDurationToDate (days months durDays : Int32) (millis : Int64) : m Int32 := do
  let (y, mo, d) ← A.toYmd days
  let years ← A.int32 (y.toInt * 12)
  let yearMonths ← A.int32 (years.toInt + mo.toInt)
  let yearMonths ← A.int32 (yearMonths.toInt - 1)
  let totalMonths ← A.int32 (yearMonths.toInt + months.toInt)
  let newYear := totalMonths.toInt / 12
  let newMonth := totalMonths.toInt % 12 + 1
  let maxDay := daysInMonth newYear newMonth
  let newDays ← A.toDays (Int32.ofInt newYear) (Int32.ofInt newMonth) (Int32.ofInt (min d.toInt maxDay))
  let sum ← A.int32 (newDays.toInt + durDays.toInt)
  let millisDays ← A.asInt32 (millis.toInt.tdiv 86400000)
  A.int32 (sum.toInt + millisDays.toInt)

/-- `datetime_to_millis`; the parts of the day are small. -/
def datetimeToMillis (y mo d : Int32) (h mi s frac : ℤ) : m Int64 := do
  let days ← A.toDays y mo d
  let t ← A.int64 (days.toInt * 86400000)
  let t ← A.int64 (t.toInt + h * 3600000)
  let t ← A.int64 (t.toInt + mi * 60000)
  let t ← A.int64 (t.toInt + s * 1000)
  A.int64 (t.toInt + frac)

/-- A date and time moved by months and days, and then by milliseconds. -/
def moveDateTime (ms : Int64) (months days : Int32) (millis : ℤ) : m Int64 := do
  let totalSecs := ms.toInt / 1000
  let (y, mo, d) ← A.toYmd (← A.asInt32 (totalSecs / 86400))
  let secsInDay := totalSecs % 86400
  let baseDays ← A.toDays y mo d
  let newDays ← addDurationToDate A baseDays months days 0
  let (ny, nmo, nd) ← A.toYmd newDays
  let t ← datetimeToMillis A ny nmo nd (secsInDay / 3600) (secsInDay % 3600 / 60) (secsInDay % 60)
    (ms.toInt % 1000)
  A.int64 (t.toInt + millis)

/-! ## Operators -/

/-- The operators of arithmetic. -/
inductive ArithmeticOp where
  | add | sub | mul | div
  deriving DecidableEq, Repr

def ArithmeticOp.toBinaryOp : ArithmeticOp → BinaryOp
  | .add => .add
  | .sub => .sub
  | .mul => .mul
  | .div => .div

/-- The operators on integers. -/
def integerOp : ArithmeticOp → Int64 → Int64 → m Int64
  | .add, a, b => A.int64 (a.toInt + b.toInt)
  | .sub, a, b => A.int64 (a.toInt - b.toInt)
  | .mul, a, b => A.int64 (a.toInt * b.toInt)
  | .div, a, b => A.quotient a b

/-- `Float` and `String`, with which `+`, `-`, `*` and `/` are not integer arithmetic. -/
def Value.isFloatOrString : Value → Bool
  | .float _ | .string _ => true
  | _ => false

/-- A result of functions that do no arithmetic. -/
def Arithmetic.lift {α : Type} : Except ExecuteError α → m α
  | .ok a => pure a
  | .error e => A.raise e

variable {σ : Type} (I : Interpretation σ)

/-- The arithmetic of `apply_binary_op`. -/
def arithmeticOp (op : ArithmeticOp) (left right : Value) : m Value :=
  match op, left, right with
  | .add, .list a, .list b => pure (.list (a ++ b))
  | .add, .date d, .duration months days millis =>
      .date <$> addDurationToDate A d months days millis
  | .add, .dateTime ms, .duration months days millis =>
      .dateTime <$> moveDateTime A ms months days millis.toInt
  | .sub, .date a, .date b => do return .duration 0 (← A.int32 (a.toInt - b.toInt)) 0
  | .sub, .dateTime a, .dateTime b => do return .duration 0 0 (← A.int64 (a.toInt - b.toInt))
  | .sub, .date d, .duration months days millis => do
      let months ← A.int32 (-months.toInt)
      let days ← A.int32 (-days.toInt)
      let millis ← A.int64 (-millis.toInt)
      .date <$> addDurationToDate A d months days millis
  | .sub, .dateTime ms, .duration months days millis => do
      let months ← A.int32 (-months.toInt)
      let days ← A.int32 (-days.toInt)
      .dateTime <$> moveDateTime A ms months days (-millis.toInt)
  | op, .int a, .int b => .int <$> integerOp A op a b
  | op, left, right =>
      if left.isFloatOrString || right.isFloatOrString then A.lift (I.binary op.toBinaryOp left right)
      else A.raise (.typeError "arithmetic requires numbers")

/-- Negation, of `apply_unary_op`. -/
def negate : Value → m Value
  | .int n => .int <$> A.int64 (-n.toInt)
  | .float x => pure (.float ⟨x.bits ^^^ 0x8000000000000000⟩)
  | _ => A.raise (.typeError "negation requires number")

/-- `abs`. -/
def absolute : Value → m Value
  | .int n => .int <$> A.int64 n.toInt.natAbs
  | .float x => pure (.float ⟨x.bits &&& 0x7FFFFFFFFFFFFFFF⟩)
  | .null => pure .null
  | _ => A.raise (.typeError "abs() requires a numeric value")

/-- `MAX_RANGE_LEN`. -/
def maxRangeLen : ℤ := 10000000

/-- The numbers of `range`, unless they are too many. -/
def rangeList (start stop step : Int64) : m Value :=
  if step = 0 then A.raise (.typeError "range() step cannot be zero")
  else
    let count := rangeCount start.toInt stop.toInt step.toInt
    if maxRangeLen < count then
      A.raise (.typeError ("range() would produce " ++ toString count ++
        " elements, exceeding the limit of " ++ toString maxRangeLen))
    else do
      let numbers ← A.range start stop step
      return .list (numbers.map .int)

/-- `range`. -/
def rangeValue (start stop : Value) (step : Option Value) : m Value :=
  match start, stop with
  | .int start, .int stop =>
      match step with
      | some (.int step) => rangeList A start stop step
      | none => rangeList A start stop 1
      | some .null => pure .null
      | some _ => A.raise (.typeError "range() step must be an integer")
  | .null, _ => pure .null
  | _, .null => pure .null
  | _, _ => A.raise (.typeError "range() requires integer arguments")

/-- `get_i32` with its default. -/
def entryInt32 (entries : List (String × Value)) (key : String) (default : Int32) : m Int32 :=
  match entries.lookup key with
  | some (.int n) => A.asInt32 n.toInt
  | _ => pure default

/-- `date({..})`. -/
def dateOfMap (entries : List (String × Value)) : m Value := do
  let year ← entryInt32 A entries "year" 1970
  let month ← entryInt32 A entries "month" 1
  let day ← entryInt32 A entries "day" 1
  .date <$> A.toDays year month day

/-- `get_i64`. -/
def entryInt64 (entries : List (String × Value)) (key : String) : ℤ :=
  match entries.lookup key with
  | some (.int n) => n.toInt
  | _ => 0

/-- `duration({..})`. -/
def durationOfMap (entries : List (String × Value)) : m Value := do
  let years ← A.int64 (entryInt64 entries "years" * 12)
  let months ← A.int64 (years.toInt + entryInt64 entries "months")
  let totalMonths ← A.asInt32 months.toInt
  let weeks ← A.int64 (entryInt64 entries "weeks" * 7)
  let days ← A.int64 (weeks.toInt + entryInt64 entries "days")
  let totalDays ← A.asInt32 days.toInt
  let hours ← A.int64 (entryInt64 entries "hours" * 3600000)
  let minutes ← A.int64 (entryInt64 entries "minutes" * 60000)
  let millis ← A.int64 (hours.toInt + minutes.toInt)
  let seconds ← A.int64 (entryInt64 entries "seconds" * 1000)
  let millis ← A.int64 (millis.toInt + seconds.toInt)
  let totalMillis ← A.int64 (millis.toInt + entryInt64 entries "milliseconds")
  return .duration totalMonths totalDays totalMillis

end Functions

/-! ## Expressions -/

/-- The expressions of arithmetic. -/
inductive ArithmeticExpr where
  | literal (lit : Literal)
  | variable (name : String)
  | property (name property : String)
  | parameter (name : String)
  | binary (op : ArithmeticOp) (left right : ArithmeticExpr)
  | neg (operand : ArithmeticExpr)
  | abs (operand : ArithmeticExpr)
  | range (start stop : ArithmeticExpr) (step : Option ArithmeticExpr)
  | date (entries : List (String × ArithmeticExpr))
  | duration (entries : List (String × ArithmeticExpr))

section Evaluate

variable {m : Type → Type} [Monad m] (A : Arithmetic m) {σ : Type} [GraphBackend σ] (I : Interpretation σ)
  (x : Executor σ) (b : Bindings)

mutual

/-- `evaluate_expression` on the expressions of arithmetic. -/
def evaluateArithmetic : ArithmeticExpr → m Value
  | .literal lit => pure (.ofLiteral lit)
  | .variable name => A.lift (evaluateVariable b name)
  | .property name property => A.lift (evaluateProperty I x b name property)
  | .parameter name =>
      match x.params.lookup name with
      | some value => pure value
      | none => A.raise (.undefinedVariable ("$" ++ name))
  | .binary op left right => do
      let l ← evaluateArithmetic left
      let r ← evaluateArithmetic right
      arithmeticOp A I op l r
  | .neg operand => do negate A (← evaluateArithmetic operand)
  | .abs operand => do absolute A (← evaluateArithmetic operand)
  | .range start stop step => do
      let s ← evaluateArithmetic start
      let e ← evaluateArithmetic stop
      let k ← evaluateStep step
      rangeValue A s e k
  | .date entries => do dateOfMap A (← evaluateArithmeticEntries entries)
  | .duration entries => do durationOfMap A (← evaluateArithmeticEntries entries)

/-- The step of a range. -/
def evaluateStep : Option ArithmeticExpr → m (Option Value)
  | none => pure none
  | some e => do return some (← evaluateArithmetic e)

/-- The entries of a map. -/
def evaluateArithmeticEntries : List (String × ArithmeticExpr) → m (List (String × Value))
  | [] => pure []
  | (k, e) :: es => do
      let v ← evaluateArithmetic e
      return (k, v) :: (← evaluateArithmeticEntries es)

end

end Evaluate

end Maharit
