import Mathlib.Tactic

/-!
# Property values

The values nodes and edges store (`maharit-core/src/property.rs`), with their textual form.

A 64-bit float is its bit pattern, which is also how the store compares floats
(`a.to_bits() == b.to_bits()`).  The decimal text of a finite float is produced by the standard
library; it enters through the parameter `FloatText`.
-/

namespace Maharit

/-- A 64-bit float, given by its bits. -/
structure F64 where
  /-- The bit pattern, `f64::to_bits`. -/
  bits : UInt64
  deriving DecidableEq, Repr, Inhabited

namespace F64

/-- `f64::is_finite`: the exponent field is not all ones. -/
def isFinite (x : F64) : Bool := (x.bits >>> 52) &&& 0x7FF != 0x7FF

/-- `f64::is_nan`: the exponent field is all ones and the fraction is not zero. -/
def isNan (x : F64) : Bool :=
  (x.bits >>> 52) &&& 0x7FF == 0x7FF && x.bits &&& 0xFFFFFFFFFFFFF != 0

/-- The sign bit. -/
def isSignNegative (x : F64) : Bool := x.bits >>> 63 == 1

/-- The float nearest to a natural number below `2 ^ 64`, ties to the even fraction.  A fraction that
rounds up to `2 ^ 53` carries into the exponent field. -/
def ofNat (n : ℕ) : F64 :=
  if n = 0 then ⟨0⟩
  else
    let e := n.log2
    let fraction :=
      if e ≤ 52 then n <<< (52 - e)
      else
        let shift := e - 52
        let q := n >>> shift
        let r := n % 2 ^ shift
        if 2 ^ shift < 2 * r ∨ (2 * r = 2 ^ shift ∧ q % 2 = 1) then q + 1 else q
    ⟨UInt64.ofNat ((e + 1022) * 2 ^ 52 + fraction)⟩

/-- `n as f64` for an unsigned word. -/
def ofUInt64 (n : UInt64) : F64 := ofNat n.toNat

/-- `n as f64` for a signed word. -/
def ofInt64 (n : Int64) : F64 :=
  let x := ofNat n.toInt.natAbs
  if n < 0 then ⟨x.bits + 0x8000000000000000⟩ else x

end F64

/-- The decimal texts the standard library gives a finite float. -/
structure FloatText where
  /-- `format!("{x:?}")`. -/
  debug : F64 → String
  /-- `format!("{x}")`. -/
  display : F64 → String

/-- The value of a property. -/
inductive PropertyValue where
  | null
  | bool (b : Bool)
  | int (n : Int64)
  | float (x : F64)
  | string (s : String)
  /-- Days since 1970-01-01. -/
  | date (days : Int32)
  /-- Milliseconds since the Unix epoch. -/
  | dateTime (ms : Int64)
  | duration (months days : Int32) (millis : Int64)
  deriving DecidableEq, Repr, Inhabited

/-! ## Text of the temporal values -/

namespace Temporal

/-- `{:0w}`: the decimal text of `n`, padded with zeros to width `w`, the sign counting as one
character. -/
def padInt (w : ℕ) (n : ℤ) : String :=
  let digits := toString n.natAbs
  if n < 0 then "-" ++ "".pushn '0' (w - 1 - digits.length) ++ digits
  else "".pushn '0' (w - digits.length) ++ digits

/-- `days_to_ymd`.  The intermediate values stay far inside `i64`; the divisions truncate. -/
def daysToYmd (days : Int32) : Int32 × Int32 × Int32 :=
  let jdn := days.toInt + 2440588
  let a := jdn + 32044
  let b := (4 * a + 3).tdiv 146097
  let c := a - (146097 * b).tdiv 4
  let d := (4 * c + 3).tdiv 1461
  let e := c - (1461 * d).tdiv 4
  let m := (5 * e + 2).tdiv 153
  let day := e - (153 * m + 2).tdiv 5 + 1
  let month := m + 3 - 12 * m.tdiv 10
  let year := 100 * b + d - 4800 + m.tdiv 10
  (Int32.ofInt year, Int32.ofInt month, Int32.ofInt day)

/-- `millis_to_datetime`. -/
def millisToDatetime (ms : Int64) : Int32 × Int32 × Int32 × ℤ × ℤ × ℤ × ℤ :=
  let totalSecs := ms.toInt / 1000
  let frac := ms.toInt % 1000
  let days := Int32.ofInt (totalSecs / 86400)
  let secsInDay := totalSecs % 86400
  let (y, mo, d) := daysToYmd days
  (y, mo, d, secsInDay / 3600, secsInDay % 3600 / 60, secsInDay % 60, frac)

/-- `duration_to_string`. -/
def durationToString (months days : Int32) (millis : Int64) : String :=
  let years := months.toInt.tdiv 12
  let remMonths := months.toInt.tmod 12
  let hours := millis.toInt.tdiv 3600000
  let rem := millis.toInt.tmod 3600000
  let minutes := rem.tdiv 60000
  let secs := (rem.tmod 60000).tdiv 1000
  let frac := rem.tmod 1000
  let date := (if years ≠ 0 then toString years ++ "Y" else "") ++
    (if remMonths ≠ 0 then toString remMonths ++ "M" else "") ++
    (if days ≠ 0 then toString days.toInt ++ "D" else "")
  let time :=
    if hours ≠ 0 ∨ minutes ≠ 0 ∨ secs ≠ 0 ∨ frac ≠ 0 then
      "T" ++ (if hours ≠ 0 then toString hours ++ "H" else "") ++
        (if minutes ≠ 0 then toString minutes ++ "M" else "") ++
        (if frac ≠ 0 then toString secs ++ "." ++ padInt 3 frac ++ "S"
          else if secs ≠ 0 then toString secs ++ "S" else "")
    else ""
  let s := date ++ time
  if s = "" then "PT0S" else "P" ++ s

/-- The text of a date, `{:04}-{:02}-{:02}`. -/
def dateToString (days : Int32) : String :=
  let (y, m, d) := daysToYmd days
  padInt 4 y.toInt ++ "-" ++ padInt 2 m.toInt ++ "-" ++ padInt 2 d.toInt

/-- The text of a date and time, `{:04}-{:02}-{:02}T{:02}:{:02}:{:02}.{:03}Z`. -/
def dateTimeToString (ms : Int64) : String :=
  let (y, mo, d, h, mi, s, frac) := millisToDatetime ms
  padInt 4 y.toInt ++ "-" ++ padInt 2 mo.toInt ++ "-" ++ padInt 2 d.toInt ++ "T" ++
    padInt 2 h ++ ":" ++ padInt 2 mi ++ ":" ++ padInt 2 s ++ "." ++ padInt 3 frac ++ "Z"

end Temporal

/-- `Display` of a float: the standard library spells the non-finite ones `NaN`, `inf`, `-inf`. -/
def F64.toDisplay (txt : FloatText) (x : F64) : String :=
  if x.isFinite then txt.display x
  else if x.isNan then "NaN"
  else if x.isSignNegative then "-inf" else "inf"

/-- `Display` of a property value. -/
def PropertyValue.toDisplay (txt : FloatText) : PropertyValue → String
  | .null => "null"
  | .bool b => toString b
  | .int n => toString n.toInt
  | .float x => x.toDisplay txt
  | .string s => "\"" ++ s ++ "\""
  | .date days => Temporal.dateToString days
  | .dateTime ms => Temporal.dateTimeToString ms
  | .duration months days millis => Temporal.durationToString months days millis

end Maharit
