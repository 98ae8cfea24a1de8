import MaharitDb.Core.PropertyValue
import MaharitDb.Lib.DecimalText
import MaharitDb.Lib.DoubleRounding
import MaharitDb.Lib.NumberText

/-!
# Values in cells

`parse_value` of the CSV loaders, and the readings of the standard library that it tries: an integer, a float in its
decimal and its special spellings, and the words for truth values and null.
-/

namespace Maharit

namespace Io

open NumberText

/-- `parse::<i64>`. -/
def parseI64 (s : String) : Option Int64 := (readInt 64 s.toList).map Int64.ofInt

/-- The text of an integer is read as it. -/
lemma parseI64_toString (n : Int64) : parseI64 (toString n.toInt) = some n := by
  have hdigits : IsDigits (DecimalText.paddedDigits 0 n.toInt.natAbs) := by
    obtain ⟨c, t, ht, -⟩ := DecimalText.paddedDigits_eq_cons 0 n.toInt.natAbs
    exact ⟨by rw [ht]; exact List.cons_ne_nil c t, fun d hd => DecimalText.isDigit_of_mem hd⟩
  have hvalue : value (DecimalText.paddedDigits 0 n.toInt.natAbs) = n.toInt.natAbs :=
    DecimalText.ofDigitChars_paddedDigits 0 _
  have hlow := n.le_toInt
  have hhigh := n.toInt_lt
  have hread : readInt 64 (DecimalText.intText 0 n.toInt) = some n.toInt := by
    rw [DecimalText.intText]
    by_cases hneg : n.toInt < 0
    · rw [if_pos hneg, List.singleton_append, readInt, readDigits, if_pos ⟨hdigits, by rw [hvalue]; omega⟩, hvalue,
        Option.map_some]
      congr 1
      omega
    · rw [if_neg hneg, List.nil_append, readInt_of_digits hdigits, hvalue, if_pos (by omega)]
      congr 1
      omega
  rw [parseI64, DecimalText.toList_toString_int, hread, Option.map_some, Int64.ofInt_toInt]

/-! ## Floats -/

/-- The bits of a double without a sign. -/
def magnitudeBits : Doubles.Magnitude → ℕ
  | .finite x =>
    if x = 0 then 0
    else (1074 - Doubles.fractionBits x).toNat * 2 ^ 52 + (x * 2 ^ Doubles.fractionBits x).floor.toNat
  | .infinite => 2047 * 2 ^ 52

/-- A float with a sign. -/
def signed (negative : Bool) (bits : ℕ) : F64 := ⟨UInt64.ofNat (bits + if negative then 2 ^ 63 else 0)⟩

/-- A sign in front of a text. -/
def splitSign : List Char → Bool × List Char
  | '-' :: cs => (true, cs)
  | '+' :: cs => (false, cs)
  | cs => (false, cs)

/-- Digits, perhaps with a point: the number without the point, and the digits after it. -/
def parseMantissa (cs : List Char) : Option (ℕ × ℕ) :=
  match splitFirst '.' cs with
  | some (whole, frac) => if IsDigits (whole ++ frac) then some (value (whole ++ frac), frac.length) else none
  | none => if IsDigits cs then some (value cs, 0) else none

/-- Digits with a sign. -/
def parseExponent (cs : List Char) : Option ℤ :=
  let (negative, digits) := splitSign cs
  if IsDigits digits then some (if negative then -(value digits : ℤ) else value digits) else none

/-- A number with an exponent, if there is one. -/
def parseNumber (cs : List Char) : Option ℚ := do
  let (mantissa, exponent) ←
    match splitFirst 'e' (cs.map fun c => if c = 'E' then 'e' else c) with
    | some (mantissa, exponent) => (parseExponent exponent).map fun e => (mantissa, e)
    | none => some (cs, 0)
  let (n, fraction) ← parseMantissa mantissa
  return n * 10 ^ (exponent - fraction)

/-- `parse::<f64>`. -/
def parseF64 (s : String) : Option F64 :=
  let (negative, cs) := splitSign s.toList
  let word := String.ofList (cs.map Char.toLower)
  if word = "inf" ∨ word = "infinity" then some (signed negative (2047 * 2 ^ 52))
  else if word = "nan" then some (signed negative (2047 * 2 ^ 52 + 2 ^ 51))
  else (parseNumber cs).map fun x => signed negative (magnitudeBits (.ofRat x))

/-! ## Cells -/

/-- The word that a cell is without regard to case.  No character beyond ASCII has a letter of `true`, `false` or `null`
as its lower case. -/
def parseWord (s : String) : Option PropertyValue :=
  match String.ofList (s.toList.map Char.toLower) with
  | "true" => some (.bool true)
  | "false" => some (.bool false)
  | "null" => some .null
  | "" => some .null
  | _ => none

/-- A cell as the two CSV loaders read it. -/
def parseCell (s : String) : PropertyValue :=
  match parseI64 s with
  | some n => .int n
  | none =>
    match parseF64 s with
    | some x => .float x
    | none => (parseWord s).getD (.string s)

example : parseCell "-12" = .int (-12) := by decide +kernel

example : parseCell "TRUE" = .bool true := by decide +kernel

end Io

end Maharit
