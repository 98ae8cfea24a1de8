import MaharitDb.Core.PropertyValue

/-!
# Comparing floats

The comparisons of 64-bit floats the executor and the property index make.  Zeros of both signs are
equal, and a comparison with a NaN is never true.
-/

namespace Maharit

namespace F64

/-- The bits without the sign. -/
def magnitude (x : F64) : ℕ := (x.bits &&& 0x7FFFFFFFFFFFFFFF).toNat

/-- A number that orders the floats other than NaN: magnitudes grow with their bits. -/
def orderKey (x : F64) : ℤ := if x.isSignNegative then -(x.magnitude : ℤ) else x.magnitude

/-- `partial_cmp`. -/
def partialCmp (x y : F64) : Option Ordering :=
  if x.isNan || y.isNan then none else some (compare x.orderKey y.orderKey)

/-- `==` -/
def numEq (x y : F64) : Bool := x.partialCmp y == some .eq

/-- `<=` -/
def le (x y : F64) : Bool := x.partialCmp y == some .lt || x.partialCmp y == some .eq

/-- The value of a finite float, in units of the least positive one, `2 ^ -1074`. -/
def scaled (x : F64) : ℤ :=
  let exponent : ℕ := x.magnitude / 2 ^ 52
  let fraction : ℕ := x.magnitude % 2 ^ 52
  let value : ℤ := if exponent = 0 then fraction else (2 ^ 52 + fraction) * 2 ^ (exponent - 1)
  if x.isSignNegative then -value else value

/-- `(x - y).abs() < f64::EPSILON`.  The difference is rounded before it is compared with `2 ^ -52`;
it rounds to less exactly when it is below the middle between `2 ^ -52` and the float before, which
is `2 ^ -52 - 2 ^ -106`. -/
def closeTo (x y : F64) : Bool :=
  x.isFinite && y.isFinite && decide ((x.scaled - y.scaled).natAbs < (2 ^ 54 - 1) * 2 ^ 968)

/-- `x.floor() as i64`, clamped to the range of the type. -/
def floorInt64 (x : F64) : Int64 :=
  if x.isNan then 0
  else if le (ofInt64 Int64.maxValue) x then Int64.maxValue
  else if le x (ofInt64 Int64.minValue) then Int64.minValue
  else Int64.ofInt (x.scaled / 2 ^ 1074)

/-- `x.ceil() as i64`, clamped to the range of the type. -/
def ceilInt64 (x : F64) : Int64 :=
  if x.isNan then 0
  else if le (ofInt64 Int64.maxValue) x then Int64.maxValue
  else if le x (ofInt64 Int64.minValue) then Int64.minValue
  else Int64.ofInt (-(-x.scaled / 2 ^ 1074))

/-- `f64::MAX` -/
def max : F64 := ⟨0x7FEFFFFFFFFFFFFF⟩

/-- `f64::MIN` -/
def min : F64 := ⟨0xFFEFFFFFFFFFFFFF⟩

end F64

end Maharit
