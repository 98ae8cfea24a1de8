import MaharitDb.Core.FloatOrder
import Mathlib.Tactic

/-!
# Integers as floats

`n as f64` rounds to the nearest float.  Rounding keeps the order of the integers but not their
difference: two integers beyond `2 ^ 53` may become one float.
-/

namespace Maharit

namespace F64

/-- The fraction of the float nearest to `n`, with the leading one. -/
def roundedFraction (n : ℕ) : ℕ :=
  if n.log2 ≤ 52 then n <<< (52 - n.log2)
  else
    let shift := n.log2 - 52
    if 2 ^ shift < 2 * (n % 2 ^ shift) ∨ (2 * (n % 2 ^ shift) = 2 ^ shift ∧ (n >>> shift) % 2 = 1) then
      n >>> shift + 1
    else n >>> shift

/-- The bits of the float nearest to `n`. -/
def roundedBits (n : ℕ) : ℕ := if n = 0 then 0 else (n.log2 + 1022) * 2 ^ 52 + roundedFraction n

lemma ofNat_eq (n : ℕ) : ofNat n = ⟨UInt64.ofNat (roundedBits n)⟩ := by
  unfold ofNat roundedBits roundedFraction
  by_cases hn : n = 0
  · rw [if_pos hn, if_pos hn]
    rfl
  · rw [if_neg hn, if_neg hn]

/-- The fraction lies between its leading one and the next power of two. -/
lemma roundedFraction_bounds {n : ℕ} (hn : n ≠ 0) :
    2 ^ 52 ≤ roundedFraction n ∧ roundedFraction n ≤ 2 ^ 53 := by
  have hlow : 2 ^ n.log2 ≤ n := Nat.log2_self_le hn
  have hhigh : n < 2 ^ (n.log2 + 1) := Nat.lt_log2_self
  unfold roundedFraction
  by_cases he : n.log2 ≤ 52
  · rw [if_pos he, Nat.shiftLeft_eq]
    have hpow : 2 ^ n.log2 * 2 ^ (52 - n.log2) = 2 ^ 52 := by
      rw [← pow_add, Nat.add_sub_cancel' he]
    have hpow' : 2 ^ (n.log2 + 1) * 2 ^ (52 - n.log2) = 2 ^ 53 := by
      rw [← pow_add]
      congr 1
      omega
    constructor
    · rw [← hpow]
      exact Nat.mul_le_mul_right _ hlow
    · rw [← hpow']
      exact Nat.mul_le_mul_right _ hhigh.le
  · rw [if_neg he]
    have hq : 2 ^ 52 ≤ n >>> (n.log2 - 52) ∧ n >>> (n.log2 - 52) < 2 ^ 53 := by
      rw [Nat.shiftRight_eq_div_pow, Nat.le_div_iff_mul_le (by positivity),
        Nat.div_lt_iff_lt_mul (by positivity), ← pow_add, ← pow_add]
      have h52 : 52 + (n.log2 - 52) = n.log2 := by omega
      have h53 : 53 + (n.log2 - 52) = n.log2 + 1 := by omega
      rw [h52, h53]
      exact ⟨hlow, hhigh⟩
    dsimp only
    split_ifs <;> omega

/-- Rounding keeps the order. -/
lemma roundedBits_mono {m n : ℕ} (h : m ≤ n) : roundedBits m ≤ roundedBits n := by
  unfold roundedBits
  by_cases hm : m = 0
  · rw [if_pos hm]
    exact Nat.zero_le _
  have hn : n ≠ 0 := by omega
  rw [if_neg hm, if_neg hn]
  obtain ⟨-, hmhigh⟩ := roundedFraction_bounds hm
  obtain ⟨hnlow, -⟩ := roundedFraction_bounds hn
  have hlog : m.log2 ≤ n.log2 := by
    rw [Nat.log2_eq_log_two, Nat.log2_eq_log_two]
    exact Nat.log_mono_right h
  rcases hlog.lt_or_eq with hlt | heq
  · omega
  · -- With the same exponent the fractions are compared.
    have hfraction : roundedFraction m ≤ roundedFraction n := by
      unfold roundedFraction
      rw [heq]
      by_cases he : n.log2 ≤ 52
      · rw [if_pos he, if_pos he, Nat.shiftLeft_eq, Nat.shiftLeft_eq]
        exact Nat.mul_le_mul_right _ h
      · rw [if_neg he, if_neg he]
        have hdiv := Nat.div_le_div_right (c := 2 ^ (n.log2 - 52)) h
        have hmdiv := Nat.div_add_mod m (2 ^ (n.log2 - 52))
        have hndiv := Nat.div_add_mod n (2 ^ (n.log2 - 52))
        simp only [Nat.shiftRight_eq_div_pow]
        rcases hdiv.lt_or_eq with hq | hq
        · split_ifs <;> omega
        · have hmod : m % 2 ^ (n.log2 - 52) ≤ n % 2 ^ (n.log2 - 52) := by
            rw [hq] at hmdiv
            omega
          rw [hq]
          split_ifs <;> omega
    omega

/-- The exponent of a rounded word is never all ones. -/
lemma roundedBits_lt {n : ℕ} (hn : n < 2 ^ 64) : roundedBits n < 2047 * 2 ^ 52 := by
  unfold roundedBits
  by_cases h : n = 0
  · rw [if_pos h]
    positivity
  · rw [if_neg h]
    have hlog : n.log2 < 64 := (Nat.log2_lt h).mpr hn
    obtain ⟨-, hhigh⟩ := roundedFraction_bounds h
    omega

/-- The three readings of the bits of a word. -/
lemma exponent_toNat (w : UInt64) : ((w >>> 52) &&& 0x7FF).toNat = w.toNat / 2 ^ 52 % 2 ^ 11 := by
  have hmask : (0x7FF : ℕ) = 2 ^ 11 - 1 := rfl
  rw [UInt64.toNat_and, UInt64.toNat_shiftRight]
  change (w.toNat >>> 52) &&& 0x7FF = _
  rw [hmask, Nat.and_two_pow_sub_one_eq_mod, Nat.shiftRight_eq_div_pow]

lemma magnitude_toNat (x : F64) : x.magnitude = x.bits.toNat % 2 ^ 63 := by
  have hmask : (0x7FFFFFFFFFFFFFFF : ℕ) = 2 ^ 63 - 1 := rfl
  rw [magnitude, UInt64.toNat_and]
  change x.bits.toNat &&& 0x7FFFFFFFFFFFFFFF = _
  rw [hmask, Nat.and_two_pow_sub_one_eq_mod]

lemma isSignNegative_iff (x : F64) : x.isSignNegative = true ↔ 2 ^ 63 ≤ x.bits.toNat := by
  have hlt : x.bits.toNat < 2 ^ 64 := x.bits.toNat_lt
  rw [isSignNegative, beq_iff_eq, ← UInt64.toNat_inj, UInt64.toNat_shiftRight]
  change x.bits.toNat >>> 63 = 1 ↔ _
  rw [Nat.shiftRight_eq_div_pow]
  omega

/-- A float whose exponent is not all ones is a number, ordered by its magnitude and its sign. -/
lemma orderKey_of_bits {x : F64} {c : ℕ} {negative : Bool} (hc : c < 2047 * 2 ^ 52)
    (hx : x.bits.toNat = c + if negative then 2 ^ 63 else 0) :
    x.isNan = false ∧ x.orderKey = if negative then -(c : ℤ) else c := by
  have hmagnitude : x.magnitude = c := by
    rw [magnitude_toNat, hx]
    split_ifs <;> omega
  have hsign : x.isSignNegative = negative := by
    rw [Bool.eq_iff_iff, isSignNegative_iff, hx]
    cases negative with
    | false => simp; omega
    | true => simp
  have hexponent : ((x.bits >>> 52) &&& 0x7FF).toNat < 2047 := by
    rw [exponent_toNat, hx]
    split_ifs <;> omega
  constructor
  · have hne : (x.bits >>> 52) &&& 0x7FF ≠ 0x7FF := by
      intro h
      rw [h] at hexponent
      exact absurd hexponent (by decide)
    rw [isNan, beq_false_of_ne hne]
    rfl
  · rw [orderKey, hmagnitude, hsign]

/-- The place of an integer among the floats. -/
def roundedKey (n : Int64) : ℤ :=
  if n < 0 then -(roundedBits n.toInt.natAbs : ℤ) else roundedBits n.toInt.natAbs

/-- An integer as a float is a number. -/
lemma ofInt64_spec (n : Int64) : (ofInt64 n).isNan = false ∧ (ofInt64 n).orderKey = roundedKey n := by
  have habs : n.toInt.natAbs < 2 ^ 64 := by
    have hlow := n.le_toInt
    have hhigh := n.toInt_lt
    omega
  have hbits := roundedBits_lt habs
  unfold roundedKey
  have hword : (ofInt64 n).bits.toNat =
      roundedBits n.toInt.natAbs + if decide (n < 0) then 2 ^ 63 else 0 := by
    rw [ofInt64, ofNat_eq]
    by_cases hn : n < 0
    · rw [if_pos hn]
      simp only [hn, decide_true, if_true]
      have hsign : (0x8000000000000000 : UInt64).toNat = 2 ^ 63 := rfl
      rw [UInt64.toNat_add, UInt64.toNat_ofNat_of_lt' (by simp [UInt64.size]; omega), hsign]
      exact Nat.mod_eq_of_lt (by omega)
    · rw [if_neg hn]
      simp only [hn, decide_false, Bool.false_eq_true, if_false, Nat.add_zero]
      rw [UInt64.toNat_ofNat_of_lt' (by simp [UInt64.size]; omega)]
  simpa using orderKey_of_bits hbits hword

/-- Rounding keeps the order of the integers. -/
lemma roundedKey_mono {m n : Int64} (h : m.toInt ≤ n.toInt) : roundedKey m ≤ roundedKey n := by
  have hneg : ∀ k : Int64, k < 0 ↔ k.toInt < 0 := fun k => by
    rw [Int64.lt_iff_toInt_lt]
    rfl
  unfold roundedKey
  by_cases hm : m < 0 <;> by_cases hn : n < 0
  · rw [if_pos hm, if_pos hn]
    rw [hneg] at hm hn
    have hle : roundedBits n.toInt.natAbs ≤ roundedBits m.toInt.natAbs := roundedBits_mono (by omega)
    omega
  · rw [if_pos hm, if_neg hn]
    omega
  · rw [hneg] at hm hn
    omega
  · rw [if_neg hm, if_neg hn]
    rw [hneg] at hm hn
    have hle : roundedBits m.toInt.natAbs ≤ roundedBits n.toInt.natAbs := roundedBits_mono (by omega)
    omega

end F64

end Maharit
