import Mathlib.Tactic
import Mathlib.Data.Int.Log

/-!
# Rounding to doubles

A rational number that is not negative is rounded to the nearest double, to the even one of two that are equally
near.  Doubles are compared with the natural numbers that they are exactly, and a quotient of natural numbers is
rounded by its remainder.
-/

namespace Doubles

/-- The nearest integer, of two the even one. -/
def roundInt (x : ℚ) : ℤ :=
  let k := ⌊x⌋
  if x - k < 1 / 2 then k
  else if 1 / 2 < x - k then k + 1
  else k + k % 2

/-- The binary digits after the point that a double near `x` has. -/
def fractionBits (x : ℚ) : ℤ := min 1074 (52 - Int.log 2 x)

/-- The nearest double, without a bound on its exponent. -/
def nearest (x : ℚ) : ℚ := roundInt (x * 2 ^ fractionBits x) / 2 ^ fractionBits x

/-- A double without a sign. -/
inductive Magnitude where
  | finite (x : ℚ)
  | infinite

namespace Magnitude

/-- The double of a rational number. -/
def ofRat (x : ℚ) : Magnitude := if nearest x < 2 ^ 1024 then finite (nearest x) else infinite

/-- The product with a whole number. -/
def scale (c : ℕ) : Magnitude → Magnitude
  | finite x => ofRat (x * c)
  | infinite => infinite

/-- The whole part, at most `bound`. -/
def floor (bound : ℤ) : Magnitude → ℤ
  | finite x => min ⌊x⌋ bound
  | infinite => bound

end Magnitude

/-! ## Rounding a quotient -/

@[simp]
lemma roundInt_intCast (n : ℤ) : roundInt (n : ℚ) = n := by
  unfold roundInt
  rw [Int.floor_intCast]
  norm_num

/-- A quotient is rounded by its remainder. -/
lemma roundInt_div (a : ℕ) {b : ℕ} (hb : 0 < b) : roundInt ((a : ℚ) / b) =
    if 2 * (a % b) < b then ((a / b : ℕ) : ℤ)
    else if b < 2 * (a % b) then ((a / b : ℕ) : ℤ) + 1
    else ((a / b : ℕ) : ℤ) + ((a / b : ℕ) : ℤ) % 2 := by
  have hpos : (0 : ℚ) < b := by exact_mod_cast hb
  have hfloor : ⌊(a : ℚ) / b⌋ = ((a / b : ℕ) : ℤ) := by
    rw [Int.floor_eq_iff]
    constructor
    · rw [le_div_iff₀ hpos]
      exact_mod_cast Nat.div_mul_le_self a b
    · rw [div_lt_iff₀ hpos]
      exact_mod_cast Nat.lt_mul_of_div_lt (Nat.lt_succ_self (a / b)) hb
  have hrest : (a : ℚ) / b - ((a / b : ℕ) : ℤ) = ((a % b : ℕ) : ℚ) / b := by
    have hsplit : (b : ℚ) * ((a / b : ℕ) : ℚ) + ((a % b : ℕ) : ℚ) = a := by exact_mod_cast Nat.div_add_mod a b
    rw [eq_div_iff hpos.ne', sub_mul, div_mul_cancel₀ _ hpos.ne', Int.cast_natCast]
    linarith
  have hless : ((a % b : ℕ) : ℚ) / b < 1 / 2 ↔ 2 * (a % b) < b := by
    rw [div_lt_div_iff₀ hpos (by norm_num)]
    constructor
    · intro h
      have hnat : (a % b) * 2 < 1 * b := by exact_mod_cast h
      omega
    · intro h
      have hnat : (a % b) * 2 < 1 * b := by omega
      exact_mod_cast hnat
  have hmore : 1 / 2 < ((a % b : ℕ) : ℚ) / b ↔ b < 2 * (a % b) := by
    rw [div_lt_div_iff₀ (by norm_num) hpos]
    constructor
    · intro h
      have hnat : 1 * b < (a % b) * 2 := by exact_mod_cast h
      omega
    · intro h
      have hnat : 1 * b < (a % b) * 2 := by omega
      exact_mod_cast hnat
  unfold roundInt
  dsimp only
  rw [hfloor, hrest]
  simp only [hless, hmore]

/-! ## The nearest double -/

/-- A number is rounded after 53 binary digits. -/
lemma nearest_eq {x : ℚ} {t : ℤ} (hlow : 2 ^ 52 ≤ x * 2 ^ t) (hhigh : x * 2 ^ t < 2 ^ 53) (ht : t ≤ 1074) :
    nearest x = roundInt (x * 2 ^ t) / 2 ^ t := by
  have htwo : (0 : ℚ) < 2 ^ t := by positivity
  have hx : 0 < x := by
    by_contra hneg
    have hle : x * 2 ^ t ≤ 0 := mul_nonpos_of_nonpos_of_nonneg (not_lt.mp hneg) htwo.le
    norm_num at hlow
    linarith
  have hcancel : ∀ n : ℤ, (2 : ℚ) ^ n = 2 ^ (n + t) / 2 ^ t := by
    intro n
    rw [zpow_add₀ (by norm_num), mul_div_cancel_right₀ _ htwo.ne']
  have hlog : Int.log 2 x = 52 - t := by
    refine le_antisymm ?_ ?_
    · rw [← Int.lt_add_one_iff]
      refine (Int.lt_zpow_iff_log_lt (by norm_num) hx).mp ?_
      have hexp : 52 - t + 1 + t = 53 := by ring
      rw [Nat.cast_ofNat, hcancel, hexp, lt_div_iff₀ htwo]
      exact_mod_cast hhigh
    · refine (Int.zpow_le_iff_le_log (by norm_num) hx).mp ?_
      have hexp : 52 - t + t = 52 := by ring
      rw [Nat.cast_ofNat, hcancel, hexp, div_le_iff₀ htwo]
      exact_mod_cast hlow
  have hbits : fractionBits x = t := by
    rw [fractionBits, hlog]
    omega
  rw [nearest, hbits]

/-- A quotient by a power of two is rounded after 53 binary digits. -/
lemma nearest_div_pow {m s t : ℕ} (hlow : 2 ^ (52 + s) ≤ m) (hhigh : m < 2 ^ (53 + s)) (hst : s ≤ t)
    (ht : t - s ≤ 1074) :
    nearest ((m : ℚ) / 2 ^ t) = roundInt ((m : ℚ) / (2 ^ s : ℕ)) / 2 ^ (t - s) := by
  have hpos : (0 : ℚ) < ((2 ^ s : ℕ) : ℚ) := by positivity
  have hquotient : (m : ℚ) / 2 ^ t * 2 ^ ((t - s : ℕ) : ℤ) = (m : ℚ) / ((2 ^ s : ℕ) : ℚ) := by
    have hsplit : (2 : ℚ) ^ t = 2 ^ s * 2 ^ (t - s) := by rw [← pow_add, Nat.add_sub_cancel' hst]
    rw [hsplit, zpow_natCast]
    push_cast
    field_simp
  rw [nearest_eq (t := ((t - s : ℕ) : ℤ)), hquotient, zpow_natCast]
  · rw [hquotient, le_div_iff₀ hpos]
    rw [pow_add] at hlow
    exact_mod_cast hlow
  · rw [hquotient, div_lt_iff₀ hpos]
    rw [pow_add] at hhigh
    exact_mod_cast hhigh
  · exact_mod_cast ht

/-- A number of whole digits is moved by at most 1. -/
lemma nearest_bounds_of_lt {x : ℚ} (hx : 0 ≤ x) (hlt : x < 2 ^ 53) : 0 ≤ nearest x ∧ nearest x ≤ x + 1 := by
  have hbits : 0 ≤ fractionBits x := by
    have hlog : Int.log 2 x ≤ 52 := by
      rcases hx.eq_or_lt with rfl | hpos
      · rw [Int.log_zero_right]
        norm_num
      · rw [← Int.lt_add_one_iff]
        refine (Int.lt_zpow_iff_log_lt (by norm_num) hpos).mp ?_
        exact_mod_cast hlt
    unfold fractionBits
    omega
  have hpow : (1 : ℚ) ≤ 2 ^ fractionBits x := one_le_zpow₀ (by norm_num) hbits
  have hpos : (0 : ℚ) < 2 ^ fractionBits x := by positivity
  have hround : 0 ≤ roundInt (x * 2 ^ fractionBits x) ∧
      (roundInt (x * 2 ^ fractionBits x) : ℚ) ≤ x * 2 ^ fractionBits x + 1 := by
    have hscaled : 0 ≤ x * 2 ^ fractionBits x := mul_nonneg hx hpos.le
    generalize x * 2 ^ fractionBits x = y at hscaled
    have hfloor := Int.floor_nonneg.mpr hscaled
    have hle := Int.floor_le y
    unfold roundInt
    dsimp only
    split_ifs with hless hmore
    · exact ⟨hfloor, by linarith⟩
    · push_cast
      exact ⟨by omega, by linarith⟩
    · have hparity : ((⌊y⌋ % 2 : ℤ) : ℚ) ≤ 1 := by
        have hint : ⌊y⌋ % 2 ≤ 1 := by omega
        exact_mod_cast hint
      push_cast
      exact ⟨by omega, by linarith⟩
  unfold nearest
  constructor
  · have hcast : (0 : ℚ) ≤ roundInt (x * 2 ^ fractionBits x) := by exact_mod_cast hround.1
    exact div_nonneg hcast hpos.le
  · rw [div_le_iff₀ hpos]
    nlinarith [hround.2]

/-- A number of whole digits is rounded to a finite double. -/
lemma Magnitude.ofRat_of_lt {x : ℚ} (hx : 0 ≤ x) (hlt : x < 2 ^ 52) : Magnitude.ofRat x = .finite (nearest x) := by
  have hbounds := (nearest_bounds_of_lt hx (hlt.trans (by norm_num))).2
  have hlarge : (2 : ℚ) ^ 53 ≤ 2 ^ 1024 := pow_le_pow_right₀ (by norm_num) (by norm_num)
  rw [ofRat, if_pos]
  refine lt_of_lt_of_le ?_ hlarge
  norm_num at hlt ⊢
  linarith

/-- A natural number that is a double. -/
def IsDouble (n : ℕ) : Prop := ∃ m k, m < 2 ^ 53 ∧ n = m * 2 ^ k

/-- The whole numbers below `2 ^ 53`. -/
lemma isDouble_of_lt {n : ℕ} (h : n < 2 ^ 53) : IsDouble n := ⟨n, 0, h, by rw [pow_zero, mul_one]⟩

lemma nearest_zero : nearest 0 = 0 := by
  have hzero : roundInt 0 = 0 := roundInt_intCast 0
  rw [nearest, zero_mul, hzero, Int.cast_zero, zero_div]

/-- The nearest double of a whole number of at most 53 binary digits. -/
lemma nearest_of_lt {n : ℕ} (h : n < 2 ^ 53) : nearest n = n := by
  rcases Nat.eq_zero_or_pos n with rfl | hpos
  · rw [Nat.cast_zero, nearest_zero]
  have hlog : n.log2 ≤ 52 := by
    have hlt := (Nat.log2_lt hpos.ne').mpr h
    omega
  have hlow : 2 ^ 52 ≤ n * 2 ^ (52 - n.log2) := by
    calc 2 ^ 52 = 2 ^ n.log2 * 2 ^ (52 - n.log2) := by rw [← pow_add, Nat.add_sub_cancel' hlog]
      _ ≤ n * 2 ^ (52 - n.log2) := Nat.mul_le_mul_right _ (Nat.log2_self_le hpos.ne')
  have hhigh : n * 2 ^ (52 - n.log2) < 2 ^ 53 := by
    calc n * 2 ^ (52 - n.log2) < 2 ^ (n.log2 + 1) * 2 ^ (52 - n.log2) :=
          Nat.mul_lt_mul_of_pos_right Nat.lt_log2_self (by positivity)
      _ = 2 ^ 53 := by
        rw [← pow_add]
        congr 1
        omega
  have hcast : (n : ℚ) * 2 ^ ((52 - n.log2 : ℕ) : ℤ) = ((n * 2 ^ (52 - n.log2) : ℕ) : ℤ) := by
    rw [zpow_natCast]
    push_cast
    rfl
  rw [nearest_eq (t := ((52 - n.log2 : ℕ) : ℤ)), hcast, roundInt_intCast, ← hcast, mul_div_cancel_right₀]
  · positivity
  · rw [hcast]
    exact_mod_cast hlow
  · rw [hcast]
    exact_mod_cast hhigh
  · omega

lemma Magnitude.ofRat_natCast {n : ℕ} (h : n < 2 ^ 53) : Magnitude.ofRat n = .finite n := by
  have hbound : (n : ℚ) < 2 ^ 1024 := by
    have hlt : (n : ℚ) < 2 ^ 53 := by exact_mod_cast h
    refine hlt.trans_le ?_
    exact pow_le_pow_right₀ (by norm_num) (by norm_num)
  rw [ofRat, nearest_of_lt h, if_pos hbound]

/-- The nearest double of a whole number of more binary digits: the last ones are rounded away. -/
lemma nearest_of_ge {n j : ℕ} (hlow : 2 ^ (52 + j) ≤ n) (hhigh : n < 2 ^ (53 + j)) :
    nearest n = roundInt ((n : ℚ) / (2 ^ j : ℕ)) * 2 ^ j := by
  have hpow : (2 : ℚ) ^ (-(j : ℤ)) = 1 / ((2 ^ j : ℕ) : ℚ) := by
    rw [zpow_neg, zpow_natCast, one_div]
    push_cast
    rfl
  have hpos : (0 : ℚ) < ((2 ^ j : ℕ) : ℚ) := by positivity
  have hquotient : (n : ℚ) * 2 ^ (-(j : ℤ)) = (n : ℚ) / ((2 ^ j : ℕ) : ℚ) := by
    rw [hpow]
    ring
  rw [nearest_eq (t := -(j : ℤ)), hquotient, hpow]
  · push_cast
    field_simp
  · rw [hquotient, le_div_iff₀ hpos]
    rw [pow_add] at hlow
    exact_mod_cast hlow
  · rw [hquotient, div_lt_iff₀ hpos]
    rw [pow_add] at hhigh
    exact_mod_cast hhigh
  · omega

/-- A whole number beyond `2 ^ 53` has some digits too many. -/
lemma exists_extra {n : ℕ} (h : 2 ^ 53 ≤ n) : ∃ j, 2 ^ (52 + j) ≤ n ∧ n < 2 ^ (53 + j) ∧ 0 < j := by
  have hne : n ≠ 0 := by
    have hpos : 0 < 2 ^ 53 := by positivity
    omega
  have hlog : 53 ≤ n.log2 := (Nat.le_log2 hne).mpr h
  refine ⟨n.log2 - 52, ?_, ?_, by omega⟩
  · have hexp : 52 + (n.log2 - 52) = n.log2 := by omega
    rw [hexp]
    exact Nat.log2_self_le hne
  · have hexp : 53 + (n.log2 - 52) = n.log2 + 1 := by omega
    rw [hexp]
    exact Nat.lt_log2_self

/-- The whole numbers that are doubles are their own nearest doubles, and no others. -/
lemma nearest_eq_self_iff (n : ℕ) : nearest n = n ↔ IsDouble n := by
  rcases lt_or_ge n (2 ^ 53) with hlt | hge
  · exact iff_of_true (nearest_of_lt hlt) (isDouble_of_lt hlt)
  obtain ⟨j, hlow, hhigh, -⟩ := exists_extra hge
  have hpos : 0 < 2 ^ j := by positivity
  have hself : nearest n = n ↔ 2 ^ j ∣ n := by
    rw [nearest_of_ge hlow hhigh]
    constructor
    · intro heq
      have hint : roundInt ((n : ℚ) / (2 ^ j : ℕ)) * 2 ^ j = (n : ℤ) := by exact_mod_cast heq
      exact_mod_cast Dvd.intro_left _ hint
    · rintro ⟨m, rfl⟩
      rw [roundInt_div _ hpos, Nat.mul_mod_right, if_pos (by omega), Nat.mul_div_cancel_left m hpos]
      push_cast
      ring
  rw [hself]
  constructor
  · rintro ⟨m, rfl⟩
    refine ⟨m, j, ?_, Nat.mul_comm _ _⟩
    rw [Nat.add_comm, pow_add] at hhigh
    exact Nat.lt_of_mul_lt_mul_left hhigh
  · rintro ⟨m, k, hm, rfl⟩
    have hlt : 2 ^ (52 + j) < 2 ^ (53 + k) := by
      calc 2 ^ (52 + j) ≤ m * 2 ^ k := hlow
        _ < 2 ^ 53 * 2 ^ k := Nat.mul_lt_mul_of_pos_right hm (by positivity)
        _ = 2 ^ (53 + k) := by rw [pow_add]
    have hexp := (Nat.pow_lt_pow_iff_right (by norm_num : 1 < 2)).mp hlt
    exact Dvd.dvd.mul_left (pow_dvd_pow 2 (by omega)) m

/-- What is rounded away is at most half of the last digit. -/
lemma nearest_bounds {n j : ℕ} (hlow : 2 ^ (52 + j) ≤ n) (hhigh : n < 2 ^ (53 + j)) :
    ∃ m : ℕ, nearest n = ((m * 2 ^ j : ℕ) : ℚ) ∧ m * 2 ^ j ≤ n + 2 ^ j ∧ n ≤ m * 2 ^ j + 2 ^ j := by
  have hpos : 0 < 2 ^ j := by positivity
  have hsplit := Nat.div_add_mod' n (2 ^ j)
  have hrest := Nat.mod_lt n hpos
  obtain ⟨m, hm, hround⟩ : ∃ m : ℕ, (m = n / 2 ^ j ∨ m = n / 2 ^ j + 1) ∧
      roundInt ((n : ℚ) / (2 ^ j : ℕ)) = m := by
    rw [roundInt_div _ hpos]
    split_ifs
    · exact ⟨n / 2 ^ j, Or.inl rfl, rfl⟩
    · exact ⟨n / 2 ^ j + 1, Or.inr rfl, by push_cast; rfl⟩
    · rcases Nat.mod_two_eq_zero_or_one (n / 2 ^ j) with heven | hodd
      · exact ⟨n / 2 ^ j, Or.inl rfl, by omega⟩
      · exact ⟨n / 2 ^ j + 1, Or.inr rfl, by omega⟩
  refine ⟨m, ?_, ?_, ?_⟩
  · rw [nearest_of_ge hlow hhigh, hround]
    push_cast
    rfl
  · rcases hm with rfl | rfl
    · omega
    · rw [Nat.add_mul, Nat.one_mul]
      omega
  · rcases hm with rfl | rfl
    · omega
    · rw [Nat.add_mul, Nat.one_mul]
      omega

end Doubles
