import MaharitDb.Core.CalendarText
import MaharitDb.Lib.DecimalText
import MaharitDb.Lib.DoubleRounding
import MaharitDb.Lib.NumberText

/-!
# Reading durations

`parse_duration` of `maharit-core/src/property.rs`, on lists of characters, against `duration_to_string`.  A part of the
text is a row of numbers with their units.  Numbers are read as doubles, so that a second with a fraction may lose a
millisecond; and what is left after the last unit is not looked at.
-/

namespace Maharit.Temporal

open NumberText DecimalText Doubles

/-! ## The source's functions -/

/-- `ch.is_ascii_digit() || ch == '.'`. -/
def IsNumeric (ch : Char) : Prop := ch.isDigit = true ∨ ch = '.'

instance (ch : Char) : Decidable (IsNumeric ch) := inferInstanceAs (Decidable (_ ∨ _))

/-- `parse::<f64>` of digits and points. -/
def parseF64 (cs : List Char) : Option Magnitude :=
  match splitFirst '.' cs with
  | some (whole, frac) =>
    if IsDigits (whole ++ frac) then some (.ofRat (value (whole ++ frac) / 10 ^ frac.length)) else none
  | none => if IsDigits cs then some (.ofRat (value cs)) else none

/-- `n as i32`. -/
def asI32 (n : Magnitude) : Int32 := Int32.ofInt (n.floor (2 ^ 31 - 1))

/-- `n as i64`. -/
def asI64 (n : Magnitude) : Int64 := Int64.ofInt (n.floor (2 ^ 63 - 1))

/-- The units of the date part, on the months and the days. -/
def dateUnit (ch : Char) (n : Magnitude) (total : Int32 × Int32) : Option (Int32 × Int32) :=
  match ch with
  | 'Y' => some (total.1 + asI32 n * 12, total.2)
  | 'M' => some (total.1 + asI32 n, total.2)
  | 'W' => some (total.1, total.2 + asI32 n * 7)
  | 'D' => some (total.1, total.2 + asI32 n)
  | _ => none

/-- The units of the time part, on the milliseconds. -/
def timeUnit (ch : Char) (n : Magnitude) (millis : Int64) : Option Int64 :=
  match ch with
  | 'H' => some (millis + asI64 (n.scale 3600000))
  | 'M' => some (millis + asI64 (n.scale 60000))
  | 'S' => some (millis + asI64 (n.scale 1000))
  | _ => none

/-- The number that is collected; without one it is 0. -/
def collected (num : List Char) : Option Magnitude := if num = [] then some (.finite 0) else parseF64 num

section Part

variable {σ : Type} (unit : Char → Magnitude → σ → Option σ)

/-- One character: it belongs to a number, or it is the unit of the number before it. -/
def partStep (state : List Char × σ) (ch : Char) : Option (List Char × σ) :=
  if IsNumeric ch then some (state.1 ++ [ch], state.2)
  else do
    let n ← collected state.1
    let total ← unit ch n state.2
    return ([], total)

/-- The loop over the characters of a part. -/
def parsePart (part : List Char) (total : σ) : Option σ := (part.foldlM (partStep unit) ([], total)).map Prod.snd

end Part

/-- The date part and the time part; without a `T` there is no time to read. -/
def parts (s : List Char) : List Char × List Char := (splitFirst 'T' s).getD (s, [])

/-- `parse_duration`. -/
def parseDuration (s : List Char) : Option (Int32 × Int32 × Int64) :=
  match s with
  | 'P' :: s => do
      let (months, days) ← parsePart dateUnit (parts s).1 (0, 0)
      let millis ← parsePart timeUnit (parts s).2 0
      return (months, days, millis)
  | _ => none

/-! ## What is read -/

/-- Digits, perhaps with a point before, in or after them. -/
def IsNumber (num : List Char) : Prop :=
  IsDigits num ∨ ∃ whole frac, num = whole ++ '.' :: frac ∧ IsDigits (whole ++ frac)

/-- A part is a row of units, each with a number before it or with none, and some numeric characters after them. -/
inductive ReadablePart (units : List Char) : List Char → Prop where
  | rest {num : List Char} (hnum : ∀ c ∈ num, IsNumeric c) : ReadablePart units num
  | item {num : List Char} {u : Char} {part : List Char} (hnum : ∀ c ∈ num, IsNumeric c)
      (hnumber : num = [] ∨ IsNumber num) (hunit : u ∈ units) (hpart : ReadablePart units part) :
      ReadablePart units (num ++ u :: part)

/-- A duration is read: it starts with `P` and its parts are rows of their units. -/
def ReadableDuration (s : List Char) : Prop :=
  ∃ t, s = 'P' :: t ∧ ReadablePart ['Y', 'M', 'W', 'D'] (parts t).1 ∧ ReadablePart ['H', 'M', 'S'] (parts t).2

/-- A part ends with a number that has no unit. -/
def EndsWithNumber (part : List Char) : Prop := ∃ c ∈ part.getLast?, IsNumeric c

/-- Characters of the text are left over. -/
def HasLeftover (s : List Char) : Prop :=
  ∃ t, s = 'P' :: t ∧ (EndsWithNumber (parts t).1 ∨ EndsWithNumber (parts t).2)

lemma parseF64_isSome {num : List Char} : (parseF64 num).isSome ↔ IsNumber num := by
  unfold parseF64 IsNumber
  rcases hsplit : splitFirst '.' num with - | ⟨whole, frac⟩
  · have hpoint := splitFirst_eq_none hsplit
    have hnot : ¬ ∃ whole frac, num = whole ++ '.' :: frac ∧ IsDigits (whole ++ frac) := by
      rintro ⟨whole, frac, rfl, -⟩
      exact hpoint (List.mem_append_right whole List.mem_cons_self)
    simp [hnot]
  · obtain ⟨rfl, hwhole⟩ := splitFirst_eq_some hsplit
    have hnot : ¬ IsDigits (whole ++ '.' :: frac) := fun hdigits =>
      absurd (hdigits.digits '.' (List.mem_append_right whole List.mem_cons_self)) (by decide)
    dsimp only
    constructor
    · intro hsome
      by_cases hdigits : IsDigits (whole ++ frac)
      · exact Or.inr ⟨whole, frac, rfl, hdigits⟩
      · rw [if_neg hdigits] at hsome
        cases hsome
    · rintro (hdigits | ⟨whole', frac', heq, hdigits⟩)
      · exact absurd hdigits hnot
      · have hwhole' : '.' ∉ whole' := by
          intro hmem
          exact absurd (hdigits.digits '.' (List.mem_append_left frac' hmem)) (by decide)
        have hsplit' := splitFirst_append hwhole' frac'
        rw [← heq, hsplit, Option.some_inj, Prod.mk.injEq] at hsplit'
        rw [hsplit'.1, hsplit'.2, if_pos hdigits]
        rfl

lemma collected_isSome {num : List Char} : (collected num).isSome ↔ num = [] ∨ IsNumber num := by
  unfold collected
  by_cases hnil : num = []
  · rw [if_pos hnil]
    exact iff_of_true rfl (Or.inl hnil)
  · rw [if_neg hnil, parseF64_isSome, or_iff_right hnil]

section Part

variable {σ : Type} {unit : Char → Magnitude → σ → Option σ} {units : List Char}

lemma ReadablePart.inv {num : List Char} {u : Char} {part : List Char} (hunits : ∀ u ∈ units, ¬ IsNumeric u)
    (hnum : ∀ c ∈ num, IsNumeric c) (hu : ¬ IsNumeric u) (h : ReadablePart units (num ++ u :: part)) :
    (num = [] ∨ IsNumber num) ∧ u ∈ units ∧ ReadablePart units part := by
  generalize htext : num ++ u :: part = text at h
  rcases h with hall | ⟨hnum', hnumber, hunit, hpart⟩
  · rw [← htext] at hall
    exact absurd (hall u (List.mem_append_right num List.mem_cons_self)) hu
  · -- both texts start with the same number
    rename_i num' u' part'
    have htake : ∀ {n : List Char} {v : Char} (r : List Char), (∀ c ∈ n, IsNumeric c) → ¬ IsNumeric v →
        (n ++ v :: r).takeWhile (fun c => decide (IsNumeric c)) = n := by
      intro n v r hn hv
      rw [List.takeWhile_append_of_pos fun c hc => decide_eq_true (hn c hc),
        List.takeWhile_cons_of_neg (by simpa using hv), List.append_nil]
    have hsame : num = num' := by
      rw [← htake part hnum hu, htext, htake part' hnum' (hunits u' hunit)]
    subst hsame
    obtain ⟨rfl, rfl⟩ := List.cons.inj (List.append_cancel_left htext)
    exact ⟨hnumber, hunit, hpart⟩

/-- The loop gets through exactly the readable parts. -/
lemma foldlM_partStep_isSome (hunits : ∀ u ∈ units, ¬ IsNumeric u)
    (hunit : ∀ u n total, (unit u n total).isSome ↔ u ∈ units) (part : List Char) :
    ∀ (num : List Char) (total : σ), (∀ c ∈ num, IsNumeric c) →
      ((part.foldlM (partStep unit) (num, total)).isSome ↔ ReadablePart units (num ++ part)) := by
  induction part with
  | nil =>
    intro num total hnum
    rw [List.append_nil, List.foldlM_nil]
    exact iff_of_true rfl (.rest hnum)
  | cons c part ih =>
    intro num total hnum
    rw [List.foldlM_cons]
    by_cases hc : IsNumeric c
    · have hnum' : ∀ d ∈ num ++ [c], IsNumeric d := by
        intro d hd
        rcases List.mem_append.mp hd with hd | hd
        · exact hnum d hd
        · rwa [List.mem_singleton.mp hd]
      have hassoc : num ++ c :: part = num ++ [c] ++ part := by simp
      rw [partStep, if_pos hc, hassoc]
      exact ih (num ++ [c]) total hnum'
    · rw [partStep, if_neg hc]
      constructor
      · intro hsome
        obtain ⟨result, hresult⟩ := Option.isSome_iff_exists.mp hsome
        obtain ⟨⟨num', total'⟩, hstep, hrest⟩ := Option.bind_eq_some_iff.mp hresult
        obtain ⟨n, hn, hstep⟩ := Option.bind_eq_some_iff.mp hstep
        obtain ⟨total'', htotal, heq⟩ := Option.bind_eq_some_iff.mp hstep
        obtain ⟨rfl, rfl⟩ := Prod.mk.inj (Option.some_inj.mp heq)
        have hnumber : num = [] ∨ IsNumber num := collected_isSome.mp (by rw [hn]; rfl)
        have hin : c ∈ units := (hunit c n total).mp (by rw [htotal]; rfl)
        have hpart := (ih [] total'' (by simp)).mp (by rw [hrest]; rfl)
        exact .item hnum hnumber hin hpart
      · intro hread
        obtain ⟨hnumber, hin, hpart⟩ := hread.inv hunits hnum hc
        obtain ⟨n, hn⟩ := Option.isSome_iff_exists.mp (collected_isSome.mpr hnumber)
        obtain ⟨total', htotal⟩ := Option.isSome_iff_exists.mp ((hunit c n total).mpr hin)
        have hrest := (ih [] total' (by simp)).mpr hpart
        simp only [hn, htotal, Option.bind_eq_bind, Option.bind_some]
        exact hrest

lemma parsePart_isSome (hunits : ∀ u ∈ units, ¬ IsNumeric u)
    (hunit : ∀ u n total, (unit u n total).isSome ↔ u ∈ units) (part : List Char) (total : σ) :
    (parsePart unit part total).isSome ↔ ReadablePart units part := by
  rw [parsePart, Option.isSome_map]
  exact foldlM_partStep_isSome hunits hunit part [] total (by simp)

end Part

lemma dateUnit_isSome (u : Char) (n : Magnitude) (total : Int32 × Int32) :
    (dateUnit u n total).isSome ↔ u ∈ ['Y', 'M', 'W', 'D'] := by
  unfold dateUnit
  split <;> simp_all

lemma timeUnit_isSome (u : Char) (n : Magnitude) (millis : Int64) :
    (timeUnit u n millis).isSome ↔ u ∈ ['H', 'M', 'S'] := by
  unfold timeUnit
  split <;> simp_all

/-- `parse_duration` accepts exactly the readable durations. -/
lemma parseDuration_isSome (s : List Char) : (parseDuration s).isSome ↔ ReadableDuration s := by
  unfold parseDuration ReadableDuration
  split
  · rename_i t
    have hdate := parsePart_isSome (by simp [IsNumeric]) dateUnit_isSome (parts t).1 (0, 0)
    have htime := parsePart_isSome (by simp [IsNumeric]) timeUnit_isSome (parts t).2 0
    constructor
    · intro hsome
      rcases hd : parsePart dateUnit (parts t).1 (0, 0) with - | total
      · simp [hd] at hsome
      rcases ht : parsePart timeUnit (parts t).2 0 with - | millis
      · simp [hd, ht] at hsome
      exact ⟨t, rfl, hdate.mp (by rw [hd]; rfl), htime.mp (by rw [ht]; rfl)⟩
    · rintro ⟨t', heq, hread, hread'⟩
      obtain rfl : t = t' := by simpa using heq
      obtain ⟨total, hd⟩ := Option.isSome_iff_exists.mp (hdate.mpr hread)
      obtain ⟨millis, ht⟩ := Option.isSome_iff_exists.mp (htime.mpr hread')
      rw [hd, ht]
      rfl
  · rename_i hshape
    refine iff_of_false (by simp) ?_
    rintro ⟨t, rfl, -⟩
    exact hshape t rfl

/-! ## Seconds with a fraction -/

/-- So many milliseconds are read as one less: the double nearest to the seconds is too small, and the product with
1000 is not rounded up to a whole number. -/
def LosesMillisecond (k : ℕ) : Prop :=
  ∃ t, 1000 * 2 ^ 52 ≤ k * 2 ^ t ∧ k * 2 ^ t < 1024 * 2 ^ 52 ∧ 256 < k * 2 ^ t % 1000 ∧ k * 2 ^ t % 1000 < 500

/-- The binary digits that a double of some milliseconds has, in seconds. -/
lemma exists_digits {k : ℕ} (hk : 0 < k) (hk' : k < 60000) :
    ∃ t, 20 ≤ t ∧ t ≤ 62 ∧ 1000 * 2 ^ 52 ≤ k * 2 ^ t ∧ k * 2 ^ t < 1000 * 2 ^ 53 := by
  have hne : k * 1024 / 1000 ≠ 0 := by omega
  have hlow := Nat.log2_self_le hne
  have hhigh : k * 1024 / 1000 < 2 ^ ((k * 1024 / 1000).log2 + 1) := Nat.lt_log2_self
  have hsmall : (k * 1024 / 1000).log2 < 16 := (Nat.log2_lt hne).mpr (by omega)
  generalize (k * 1024 / 1000).log2 = j at hlow hhigh hsmall
  refine ⟨62 - j, by omega, by omega, ?_⟩
  interval_cases j <;> norm_num at hlow hhigh ⊢ <;> omega

lemma losesMillisecond_iff {k t : ℕ} (hlow : 1000 * 2 ^ 52 ≤ k * 2 ^ t) (hhigh : k * 2 ^ t < 1000 * 2 ^ 53) :
    LosesMillisecond k ↔ k * 2 ^ t < 1024 * 2 ^ 52 ∧ 256 < k * 2 ^ t % 1000 ∧ k * 2 ^ t % 1000 < 500 := by
  constructor
  · rintro ⟨t', hlow', hhigh', hrest⟩
    have hsame : t' = t := by
      rcases lt_trichotomy t t' with hlt | heq | hlt
      · -- the number would be doubled at least
        exfalso
        have hpow : 2 ^ (t + 1) ≤ 2 ^ t' := Nat.pow_le_pow_right (by norm_num) hlt
        have hdouble := Nat.mul_le_mul_left k hpow
        rw [pow_succ, ← Nat.mul_assoc] at hdouble
        omega
      · exact heq.symm
      · exfalso
        have hpow : 2 ^ (t' + 1) ≤ 2 ^ t := Nat.pow_le_pow_right (by norm_num) hlt
        have hdouble := Nat.mul_le_mul_left k hpow
        rw [pow_succ, ← Nat.mul_assoc] at hdouble
        omega
    subst hsame
    exact ⟨hhigh', hrest⟩
  · rintro ⟨hhigh', hrest⟩
    exact ⟨t, hlow, hhigh', hrest⟩

lemma floor_div_pow {k u : ℕ} {e : ℤ} (he : 0 ≤ e) (he' : e < 2 ^ u) :
    ⌊((k * 2 ^ u + e : ℤ) : ℚ) / 2 ^ u⌋ = k := by
  have hpos : (0 : ℚ) < 2 ^ u := by positivity
  have hlow : (0 : ℚ) ≤ (e : ℚ) := by exact_mod_cast he
  have hhigh : (e : ℚ) < 2 ^ u := by exact_mod_cast he'
  rw [Int.floor_eq_iff]
  push_cast
  constructor
  · rw [le_div_iff₀ hpos]
    linarith
  · rw [div_lt_iff₀ hpos, add_mul]
    linarith

/-- The milliseconds of seconds with a fraction. -/
lemma floor_thousandths {k : ℕ} (hk : 0 < k) (hk' : k < 60000) :
    (LosesMillisecond k → ⌊nearest (nearest ((k : ℚ) / 1000) * 1000)⌋ = (k : ℤ) - 1) ∧
      (¬ LosesMillisecond k → ⌊nearest (nearest ((k : ℚ) / 1000) * 1000)⌋ = k) := by
  obtain ⟨t, ht, ht', hlow, hhigh⟩ := exists_digits hk hk'
  rw [losesMillisecond_iff hlow hhigh]
  -- the number of seconds, and the fraction of its double
  have hquotient : (k : ℚ) / 1000 * 2 ^ (t : ℤ) = ((k * 2 ^ t : ℕ) : ℚ) / (1000 : ℕ) := by
    rw [zpow_natCast]
    push_cast
    ring
  have hfirst : nearest ((k : ℚ) / 1000) = roundInt (((k * 2 ^ t : ℕ) : ℚ) / (1000 : ℕ)) / 2 ^ t := by
    rw [nearest_eq (t := (t : ℤ)), hquotient, zpow_natCast]
    · rw [hquotient, le_div_iff₀ (by norm_num)]
      have hlow' : 2 ^ 52 * 1000 ≤ k * 2 ^ t := by omega
      exact_mod_cast hlow'
    · rw [hquotient, div_lt_iff₀ (by norm_num)]
      have hhigh' : k * 2 ^ t < 2 ^ 53 * 1000 := by omega
      exact_mod_cast hhigh'
    · omega
  obtain ⟨K, hK, hN⟩ : ∃ K, K = k * 2 ^ (t - 10) ∧ k * 2 ^ t = 1024 * K := by
    refine ⟨_, rfl, ?_⟩
    have hsplit : 2 ^ t = 1024 * 2 ^ (t - 10) := by
      have hpow : (1024 : ℕ) = 2 ^ 10 := by norm_num
      rw [hpow, ← pow_add, Nat.add_sub_cancel' (by omega)]
    rw [hsplit]
    ring
  obtain ⟨M, hM, hround⟩ : ∃ M : ℕ,
      (k * 2 ^ t % 1000 < 500 ∧ 1000 * M + k * 2 ^ t % 1000 = k * 2 ^ t ∨
        500 < k * 2 ^ t % 1000 ∧ 1000 * M + k * 2 ^ t % 1000 = k * 2 ^ t + 1000) ∧
      roundInt (((k * 2 ^ t : ℕ) : ℚ) / (1000 : ℕ)) = M := by
    rw [roundInt_div _ (by norm_num)]
    split_ifs
    · exact ⟨k * 2 ^ t / 1000, by omega, rfl⟩
    · exact ⟨k * 2 ^ t / 1000 + 1, by omega, by push_cast; rfl⟩
    · omega
  have hproduct : nearest ((k : ℚ) / 1000) * 1000 = ((1000 * M : ℕ) : ℚ) / 2 ^ t := by
    rw [hfirst, hround]
    push_cast
    ring
  rw [hproduct]
  by_cases hcase : 2 ^ 62 ≤ 1000 * M
  · -- the product has fewer digits after the point, and half of the last one is more than the error
    have hsecond : roundInt (((1000 * M : ℕ) : ℚ) / (2 ^ 10 : ℕ)) = K := by
      rw [roundInt_div _ (by norm_num)]
      split_ifs <;> omega
    rw [nearest_div_pow (s := 10) hcase (by omega) (by omega) (by omega), hsecond, hK]
    have hfloor := floor_div_pow (k := k) (u := t - 10) (e := 0) le_rfl (by positivity)
    push_cast at hfloor ⊢
    rw [add_zero] at hfloor
    rw [hfloor]
    exact ⟨fun hloses => by omega, fun _ => rfl⟩
  · have hK' : 2 * K = k * 2 ^ (t - 9) := by
      have hsplit : t - 9 = t - 10 + 1 := by omega
      rw [hsplit, hK, pow_succ]
      ring
    have hsecond : roundInt (((1000 * M : ℕ) : ℚ) / (2 ^ 9 : ℕ)) =
        if 256 < k * 2 ^ t % 1000 ∧ k * 2 ^ t % 1000 < 500 then ((2 * K : ℕ) : ℤ) - 1
        else if 744 ≤ k * 2 ^ t % 1000 ∨ k * 2 ^ t % 1000 < 500 then ((2 * K : ℕ) : ℤ)
        else ((2 * K : ℕ) : ℤ) + 1 := by
      rw [roundInt_div _ (by norm_num)]
      split_ifs <;> omega
    have hlow' : 2 ^ (52 + 9) ≤ 1000 * M := by omega
    have hhigh' : 1000 * M < 2 ^ (53 + 9) := by omega
    rw [nearest_div_pow hlow' hhigh' (by omega) (by omega), hsecond, hK']
    have hpow : (1 : ℤ) < 2 ^ (t - 9) := by
      have hnat : 1 < 2 ^ (t - 9) := Nat.one_lt_two_pow (by omega)
      exact_mod_cast hnat
    split_ifs with hloses hexact
    · -- one less than the whole number
      have hfloor := floor_div_pow (k := k - 1) (u := t - 9) (e := 2 ^ (t - 9) - 1) (by omega) (by omega)
      have hsame : (((k - 1 : ℕ) : ℤ) * 2 ^ (t - 9) + (2 ^ (t - 9) - 1)) = ((k * 2 ^ (t - 9) : ℕ) : ℤ) - 1 := by
        rw [Nat.cast_sub hk]
        push_cast
        ring
      rw [hsame, Nat.cast_sub hk] at hfloor
      rw [hfloor]
      exact ⟨fun _ => rfl, fun hnot => absurd ⟨by omega, hloses⟩ hnot⟩
    · have hfloor := floor_div_pow (k := k) (u := t - 9) (e := 0) le_rfl (by omega)
      have hsame : ((k : ℤ) * 2 ^ (t - 9) + 0) = ((k * 2 ^ (t - 9) : ℕ) : ℤ) := by
        push_cast
        ring
      rw [hsame] at hfloor
      rw [hfloor]
      exact ⟨fun hloses' => absurd hloses'.2 hloses, fun _ => rfl⟩
    · have hfloor := floor_div_pow (k := k) (u := t - 9) (e := 1) (by omega) hpow
      have hsame : ((k : ℤ) * 2 ^ (t - 9) + 1) = ((k * 2 ^ (t - 9) : ℕ) : ℤ) + 1 := by
        push_cast
        ring
      rw [hsame] at hfloor
      rw [hfloor]
      exact ⟨fun hloses' => absurd hloses'.2 hloses, fun _ => rfl⟩

/-! ## The text of a duration -/

/-- A number with its unit, left out when it is 0. -/
def unitText (n : ℤ) (u : Char) : List Char := if n ≠ 0 then intText 0 n ++ [u] else []

/-- The date part of `duration_to_string`. -/
def dateText (months days : ℤ) : List Char :=
  unitText (months.tdiv 12) 'Y' ++ (unitText (months.tmod 12) 'M' ++ unitText days 'D')

/-- The seconds of `duration_to_string`. -/
def secondsText (secs frac : ℤ) : List Char :=
  if frac ≠ 0 then intText 0 secs ++ '.' :: ((padInt 3 frac).toList ++ ['S']) else unitText secs 'S'

/-- The time part of `duration_to_string`. -/
def clockText (millis : ℤ) : List Char :=
  unitText (millis.tdiv 3600000) 'H' ++ (unitText ((millis.tmod 3600000).tdiv 60000) 'M' ++
    secondsText (((millis.tmod 3600000).tmod 60000).tdiv 1000) ((millis.tmod 3600000).tmod 1000))

lemma toList_unitText (n : ℤ) (u : Char) :
    (if n ≠ 0 then toString n ++ String.singleton u else "").toList = unitText n u := by
  unfold unitText
  split_ifs
  · rw [String.toList_append, toList_toString_int]
    simp
  · rfl

lemma toList_dateText (months days : ℤ) :
    ((if months.tdiv 12 ≠ 0 then toString (months.tdiv 12) ++ "Y" else "") ++
      (if months.tmod 12 ≠ 0 then toString (months.tmod 12) ++ "M" else "") ++
      (if days ≠ 0 then toString days ++ "D" else "")).toList = dateText months days := by
  rw [String.toList_append, String.toList_append, List.append_assoc]
  exact congrArg₂ _ (toList_unitText _ 'Y') (congrArg₂ _ (toList_unitText _ 'M') (toList_unitText _ 'D'))

lemma unitText_eq_nil_iff {n : ℤ} {u : Char} : unitText n u = [] ↔ n = 0 := by
  unfold unitText
  split_ifs with hn
  · simp [hn]
  · simpa using hn

lemma secondsText_eq_nil_iff {secs frac : ℤ} : secondsText secs frac = [] ↔ secs = 0 ∧ frac = 0 := by
  unfold secondsText
  split_ifs with hfrac
  · simp [hfrac]
  · rw [unitText_eq_nil_iff]
    simp_all

lemma toList_clockText (hours minutes secs frac : ℤ) :
    (if hours ≠ 0 ∨ minutes ≠ 0 ∨ secs ≠ 0 ∨ frac ≠ 0 then
      "T" ++ (if hours ≠ 0 then toString hours ++ "H" else "") ++
        (if minutes ≠ 0 then toString minutes ++ "M" else "") ++
        (if frac ≠ 0 then toString secs ++ "." ++ padInt 3 frac ++ "S"
          else if secs ≠ 0 then toString secs ++ "S" else "")
    else "").toList =
      if unitText hours 'H' ++ (unitText minutes 'M' ++ secondsText secs frac) = [] then []
      else 'T' :: (unitText hours 'H' ++ (unitText minutes 'M' ++ secondsText secs frac)) := by
  have hseconds : (if frac ≠ 0 then toString secs ++ "." ++ padInt 3 frac ++ "S"
      else if secs ≠ 0 then toString secs ++ "S" else "").toList = secondsText secs frac := by
    unfold secondsText
    split_ifs with hfrac hsecs
    · simp only [String.toList_append, toList_toString_int, List.append_assoc]
      rfl
    · simpa [hsecs] using toList_unitText secs 'S'
    · simpa [hsecs] using toList_unitText secs 'S'
  have hnil : unitText hours 'H' ++ (unitText minutes 'M' ++ secondsText secs frac) = [] ↔
      ¬ (hours ≠ 0 ∨ minutes ≠ 0 ∨ secs ≠ 0 ∨ frac ≠ 0) := by
    rw [List.append_eq_nil_iff, List.append_eq_nil_iff, unitText_eq_nil_iff, unitText_eq_nil_iff,
      secondsText_eq_nil_iff]
    tauto
  by_cases hany : hours ≠ 0 ∨ minutes ≠ 0 ∨ secs ≠ 0 ∨ frac ≠ 0
  · rw [if_pos hany, if_neg (fun h => hnil.mp h hany), String.toList_append, String.toList_append,
      String.toList_append, hseconds, List.append_assoc, List.append_assoc]
    exact congrArg₂ _ rfl (congrArg₂ _ (toList_unitText _ 'H') (congrArg₂ _ (toList_unitText _ 'M') rfl))
  · rw [if_neg hany, if_pos (hnil.mpr hany)]
    rfl

/-- What `duration_to_string` prints. -/
lemma toList_durationToString (months days : Int32) (millis : Int64) :
    (durationToString months days millis).toList =
      if dateText months.toInt days.toInt = [] ∧ clockText millis.toInt = [] then ['P', 'T', '0', 'S']
      else 'P' :: (dateText months.toInt days.toInt ++
        if clockText millis.toInt = [] then [] else 'T' :: clockText millis.toInt) := by
  have hdays : days ≠ 0 ↔ days.toInt ≠ 0 := by
    rw [not_iff_not, ← Int32.toInt_inj]
    rfl
  have hdate := toList_dateText months.toInt days.toInt
  have htime := toList_clockText (millis.toInt.tdiv 3600000) ((millis.toInt.tmod 3600000).tdiv 60000)
    (((millis.toInt.tmod 3600000).tmod 60000).tdiv 1000) ((millis.toInt.tmod 3600000).tmod 1000)
  have hmap : ∀ {s : String} {date time : List Char}, s.toList = date ++ time →
      (if s = "" then "PT0S" else "P" ++ s).toList = if date = [] ∧ time = [] then ['P', 'T', '0', 'S']
        else 'P' :: (date ++ time) := by
    intro s date time hs
    have hempty : s = "" ↔ date = [] ∧ time = [] := by
      rw [← List.append_eq_nil_iff, ← hs, String.toList_eq_nil_iff]
    by_cases hnil : s = ""
    · rw [if_pos hnil, if_pos (hempty.mp hnil)]
      rfl
    · rw [if_neg hnil, if_neg (fun h => hnil (hempty.mpr h)), String.toList_append, hs]
      rfl
  unfold durationToString
  simp only [hdays]
  rw [hmap (by rw [String.toList_append, hdate, htime])]
  refine if_congr (and_congr Iff.rfl ?_) rfl rfl
  unfold clockText
  by_cases hnil : unitText (millis.toInt.tdiv 3600000) 'H' ++ (unitText ((millis.toInt.tmod 3600000).tdiv 60000) 'M' ++
      secondsText (((millis.toInt.tmod 3600000).tmod 60000).tdiv 1000) ((millis.toInt.tmod 3600000).tmod 1000)) = []
  · rw [if_pos hnil]
    exact iff_of_true rfl hnil
  · rw [if_neg hnil]
    exact iff_of_false (List.cons_ne_nil _ _) hnil

/-! ## Reading what was printed -/

/-- What `parse_duration` makes of a date part and a time part. -/
def readParts (date time : List Char) : Option (Int32 × Int32 × Int64) :=
  (parsePart dateUnit date (0, 0)).bind fun total => (parsePart timeUnit time 0).map fun millis =>
    (total.1, total.2, millis)

lemma parseDuration_eq (t : List Char) : parseDuration ('P' :: t) = readParts (parts t).1 (parts t).2 := by
  unfold parseDuration readParts
  rcases hdate : parsePart dateUnit (parts t).1 (0, 0) with - | total
  · simp [hdate]
  · rcases htime : parsePart timeUnit (parts t).2 0 with - | millis <;> simp [hdate, htime]

section Run

variable {σ : Type} {unit : Char → Magnitude → σ → Option σ}

/-- Numeric characters are collected. -/
lemma foldlM_numeric {num : List Char} (hnum : ∀ c ∈ num, IsNumeric c) (rest : List Char) :
    ∀ (before : List Char) (total : σ), (num ++ rest).foldlM (partStep unit) (before, total) =
      rest.foldlM (partStep unit) (before ++ num, total) := by
  induction num with
  | nil =>
    intro before total
    rw [List.nil_append, List.append_nil]
  | cons c num ih =>
    intro before total
    have hc : IsNumeric c := hnum c List.mem_cons_self
    have hnum' : ∀ d ∈ num, IsNumeric d := fun d hd => hnum d (List.mem_cons_of_mem c hd)
    rw [List.cons_append, List.foldlM_cons, partStep, if_pos hc]
    have hassoc : before ++ c :: num = before ++ [c] ++ num := by simp
    rw [hassoc]
    exact ih hnum' (before ++ [c]) total

/-- A number with its unit is read. -/
lemma foldlM_item {num : List Char} {u : Char} {n : Magnitude} (hnum : ∀ c ∈ num, IsNumeric c) (hu : ¬ IsNumeric u)
    (hread : collected num = some n) (rest : List Char) (total : σ) :
    (num ++ u :: rest).foldlM (partStep unit) ([], total) =
      (unit u n total).bind fun total => rest.foldlM (partStep unit) ([], total) := by
  rw [foldlM_numeric hnum, List.nil_append, List.foldlM_cons, partStep, if_neg hu, hread]
  rcases htotal : unit u n total with - | total' <;> simp [htotal]

/-- A character that is neither numeric nor a unit is an error. -/
lemma parsePart_eq_none {c : Char} (hc : ¬ IsNumeric c) (hunit : ∀ n total, unit c n total = none)
    {part : List Char} (hmem : c ∈ part) (total : σ) : parsePart unit part total = none := by
  have hrun : ∀ (part : List Char), c ∈ part → ∀ state : List Char × σ,
      part.foldlM (partStep unit) state = none := by
    intro part hmem
    induction part with
    | nil => exact absurd hmem List.not_mem_nil
    | cons d part ih =>
      intro state
      rw [List.foldlM_cons]
      rcases List.mem_cons.mp hmem with rfl | hmem
      · rw [partStep, if_neg hc]
        rcases collected state.1 with - | n
        · rfl
        · simp [hunit]
      · rcases partStep unit state d with - | state'
        · rfl
        · exact ih hmem state'
  rw [parsePart, hrun part hmem, Option.map_none]

end Run

lemma isNumeric_of_digits {num : List Char} (h : IsDigits num) : ∀ c ∈ num, IsNumeric c := fun c hc =>
  Or.inl (h.digits c hc)

lemma isDigits_paddedDigits (zeros n : ℕ) : IsDigits (paddedDigits zeros n) := by
  obtain ⟨c, rest, hcons, -⟩ := paddedDigits_eq_cons zeros n
  refine ⟨by rw [hcons]; exact List.cons_ne_nil c rest, fun c hc => isDigit_of_mem hc⟩

lemma value_append (cs cs' : List Char) : value (cs ++ cs') = value cs * 10 ^ cs'.length + value cs' := by
  unfold value
  rw [Nat.ofDigitChars_append, Nat.ofDigitChars_eq_ofDigitChars_zero, Nat.mul_comm]

/-- A whole number is read back from its digits. -/
lemma collected_paddedDigits {zeros n : ℕ} (hn : n < 2 ^ 53) :
    collected (paddedDigits zeros n) = some (.finite n) := by
  have hdigits := isDigits_paddedDigits zeros n
  have hvalue : value (paddedDigits zeros n) = n := ofDigitChars_paddedDigits zeros n
  rw [collected, if_neg hdigits.nonempty, parseF64, splitFirst_of_not_mem (hdigits.not_mem (by decide))]
  dsimp only
  rw [if_pos hdigits, hvalue, Magnitude.ofRat_natCast hn]

lemma intText_natCast (zeros n : ℕ) : intText zeros n = paddedDigits zeros n := by
  rw [intText, if_neg (by omega), List.nil_append, Int.natAbs_natCast]

/-- A number with its unit, which may be left out, is read. -/
lemma foldlM_unitText {σ : Type} {unit : Char → Magnitude → σ → Option σ} {n : ℕ} {u : Char} (hn : n < 2 ^ 53)
    (hu : ¬ IsNumeric u) (hzero : ∀ total, unit u (.finite 0) total = some total) (rest : List Char) (total : σ) :
    (unitText n u ++ rest).foldlM (partStep unit) ([], total) =
      (unit u (.finite n) total).bind fun total => rest.foldlM (partStep unit) ([], total) := by
  unfold unitText
  by_cases hne : (n : ℤ) ≠ 0
  · have htext : intText 0 n ++ [u] ++ rest = paddedDigits 0 n ++ u :: rest := by
      simp [intText]
    rw [if_pos hne, htext]
    exact foldlM_item (isNumeric_of_digits (isDigits_paddedDigits 0 n)) hu (collected_paddedDigits hn) rest total
  · have hnat : n = 0 := by omega
    subst hnat
    rw [if_neg hne, Nat.cast_zero, hzero total]
    rfl

lemma asI32_zero : asI32 (.finite 0) = 0 := by
  have hfloor : ⌊(0 : ℚ)⌋ = 0 := Int.floor_zero
  rw [asI32, Magnitude.floor, hfloor]
  rfl

lemma asI32_natCast {n : ℕ} (h : n < 2 ^ 31) : asI32 (.finite n) = Int32.ofInt n := by
  have hfloor : ⌊(n : ℚ)⌋ = n := Int.floor_natCast n
  rw [asI32, Magnitude.floor, hfloor, min_eq_left (by omega)]

lemma asI64_scale_zero (c : ℕ) : asI64 ((Magnitude.finite 0).scale c) = 0 := by
  have hfloor : ⌊(0 : ℚ)⌋ = 0 := Int.floor_zero
  have hzero : Magnitude.ofRat 0 = .finite 0 := by simpa using Magnitude.ofRat_natCast (show 0 < 2 ^ 53 by norm_num)
  rw [Magnitude.scale, zero_mul, hzero, asI64, Magnitude.floor, hfloor]
  rfl

lemma asI64_natCast {n : ℕ} (h : n < 2 ^ 63) : asI64 (.finite n) = Int64.ofInt n := by
  have hfloor : ⌊(n : ℚ)⌋ = n := Int.floor_natCast n
  rw [asI64, Magnitude.floor, hfloor, min_eq_left (by omega)]

/-- The date part of a duration that is not negative is read back. -/
lemma parsePart_dateText {months days : ℕ} (hmonths : months < 2 ^ 31) (hdays : days < 2 ^ 31) :
    parsePart dateUnit (dateText months days) (0, 0) = some (Int32.ofInt months, Int32.ofInt days) := by
  have hyear : (months : ℤ).tdiv 12 = ((months / 12 : ℕ) : ℤ) := rfl
  have hmonth : (months : ℤ).tmod 12 = ((months % 12 : ℕ) : ℤ) := rfl
  have htotal : Int32.ofInt (months / 12 : ℕ) * 12 + Int32.ofInt (months % 12 : ℕ) = Int32.ofInt months := by
    have htwelve : (12 : Int32) = Int32.ofInt 12 := rfl
    rw [htwelve, ← Int32.ofInt_mul, ← Int32.ofInt_add]
    congr 1
    omega
  have hlast : unitText days 'D' = unitText days 'D' ++ [] := (List.append_nil _).symm
  rw [parsePart, dateText, hyear, hmonth, hlast,
    foldlM_unitText (by omega) (by decide) (fun total => by simp [dateUnit, asI32_zero]),
    dateUnit, Option.bind_some,
    foldlM_unitText (by omega) (by decide) (fun total => by simp [dateUnit, asI32_zero]),
    dateUnit, Option.bind_some,
    foldlM_unitText (by omega) (by decide) (fun total => by simp [dateUnit, asI32_zero]),
    dateUnit, Option.bind_some, asI32_natCast (by omega), asI32_natCast (by omega), asI32_natCast (by omega),
    List.foldlM_nil]
  dsimp only
  rw [Int32.zero_add, Int32.zero_add, htotal]
  rfl

/-! ## The time part -/

/-- A fraction is printed with three digits. -/
lemma length_paddedDigits {n : ℕ} (h : n < 1000) : (paddedDigits (zeros 3 n) n).length = 3 := by
  have hle : (Nat.toDigits 10 n).length ≤ 3 := (Nat.length_toDigits_le_iff (by norm_num) (by norm_num)).mpr h
  have htext : (toString n).length = (Nat.toDigits 10 n).length := by
    rw [← String.length_toList, toList_toString_nat, paddedDigits, List.replicate_zero, List.nil_append]
  rw [paddedDigits, List.length_append, List.length_replicate, zeros, if_neg (by omega), Int.natAbs_natCast, htext]
  omega

/-- The milliseconds that are read in the text of some seconds and milliseconds. -/
lemma foldlM_secondsText {k : ℕ} (hk : k < 60000) (total : Int64) :
    ∃ v : ℤ, (LosesMillisecond k → v = k - 1) ∧ (¬ LosesMillisecond k → v = k) ∧
      (secondsText (k / 1000 : ℕ) (k % 1000 : ℕ)).foldlM (partStep timeUnit) ([], total) =
        some ([], total + Int64.ofInt v) := by
  by_cases hfrac : k % 1000 = 0
  · have hloses : ¬ LosesMillisecond k := by
      rintro ⟨t, -, -, hmod, -⟩
      have hzero : k * 2 ^ t % 1000 = 0 := by rw [Nat.mul_mod, hfrac, Nat.zero_mul, Nat.zero_mod]
      omega
    refine ⟨k, fun h => absurd h hloses, fun _ => rfl, ?_⟩
    have hwhole : (Magnitude.finite ((k / 1000 : ℕ) : ℚ)).scale 1000 = .finite k := by
      have hproduct : ((k / 1000 : ℕ) : ℚ) * (1000 : ℕ) = (k : ℕ) := by
        have hnat : k / 1000 * 1000 = k := by omega
        exact_mod_cast hnat
      rw [Magnitude.scale, hproduct, Magnitude.ofRat_natCast (by omega)]
    have hlast : unitText (k / 1000 : ℕ) 'S' = unitText (k / 1000 : ℕ) 'S' ++ [] := (List.append_nil _).symm
    rw [secondsText, hfrac, if_neg (by simp), hlast,
      foldlM_unitText (by omega) (by decide) (fun total => by simp [timeUnit, asI64_scale_zero]), timeUnit,
      Option.bind_some, hwhole, asI64_natCast (by omega), List.foldlM_nil]
    rfl
  · refine ⟨⌊nearest (nearest ((k : ℚ) / 1000) * 1000)⌋, (floor_thousandths (by omega) hk).1,
      (floor_thousandths (by omega) hk).2, ?_⟩
    have hbounds : ⌊nearest (nearest ((k : ℚ) / 1000) * 1000)⌋ ≤ k := by
      by_cases hloses : LosesMillisecond k
      · rw [(floor_thousandths (by omega) hk).1 hloses]
        omega
      · rw [(floor_thousandths (by omega) hk).2 hloses]
    -- the digits of the fraction
    have hdigits := isDigits_paddedDigits 0 (k / 1000)
    have hdigits' := isDigits_paddedDigits (zeros 3 (k % 1000 : ℕ)) (k % 1000)
    have hlength : (paddedDigits (zeros 3 (k % 1000 : ℕ)) (k % 1000)).length = 3 := length_paddedDigits (by omega)
    have hvalue : value (paddedDigits 0 (k / 1000)) = k / 1000 := ofDigitChars_paddedDigits 0 _
    have hvalue' : value (paddedDigits (zeros 3 (k % 1000 : ℕ)) (k % 1000)) = k % 1000 :=
      ofDigitChars_paddedDigits _ _
    have hwhole : value (paddedDigits 0 (k / 1000) ++ paddedDigits (zeros 3 (k % 1000 : ℕ)) (k % 1000)) = k := by
      rw [value_append, hlength, hvalue, hvalue']
      omega
    have hboth : IsDigits (paddedDigits 0 (k / 1000) ++ paddedDigits (zeros 3 (k % 1000 : ℕ)) (k % 1000)) := by
      refine ⟨by simp [hdigits.nonempty], fun c hc => ?_⟩
      rcases List.mem_append.mp hc with hc | hc
      · exact hdigits.digits c hc
      · exact hdigits'.digits c hc
    have hnumeric : ∀ c ∈ paddedDigits 0 (k / 1000) ++ '.' :: paddedDigits (zeros 3 (k % 1000 : ℕ)) (k % 1000),
        IsNumeric c := by
      intro c hc
      rcases List.mem_append.mp hc with hc | hc
      · exact Or.inl (hdigits.digits c hc)
      · rcases List.mem_cons.mp hc with rfl | hc
        · exact Or.inr rfl
        · exact Or.inl (hdigits'.digits c hc)
    -- both roundings stay small
    have hsmall : (k : ℚ) / 1000 < 60 := by
      rw [div_lt_iff₀ (by norm_num)]
      have hnat : k < 60 * 1000 := hk
      exact_mod_cast hnat
    have hnonneg : (0 : ℚ) ≤ (k : ℚ) / 1000 := by positivity
    obtain ⟨hlow, hhigh⟩ := nearest_bounds_of_lt hnonneg (hsmall.trans (by norm_num))
    have hread : collected (paddedDigits 0 (k / 1000) ++ '.' :: paddedDigits (zeros 3 (k % 1000 : ℕ)) (k % 1000)) =
        some (.finite (nearest ((k : ℚ) / 1000))) := by
      have hthousand : (k : ℚ) / 10 ^ 3 = (k : ℚ) / 1000 := by norm_num
      rw [collected, if_neg (by simp), parseF64, splitFirst_append (hdigits.not_mem (by decide))]
      dsimp only
      rw [if_pos hboth, hwhole, hlength, hthousand, Magnitude.ofRat_of_lt hnonneg (hsmall.trans (by norm_num))]
    have hproduct : (Magnitude.finite (nearest ((k : ℚ) / 1000))).scale 1000 =
        .finite (nearest (nearest ((k : ℚ) / 1000) * 1000)) := by
      rw [Magnitude.scale]
      push_cast
      refine Magnitude.ofRat_of_lt (by linarith) ?_
      norm_num
      linarith
    have htext : secondsText (k / 1000 : ℕ) (k % 1000 : ℕ) =
        (paddedDigits 0 (k / 1000) ++ '.' :: paddedDigits (zeros 3 (k % 1000 : ℕ)) (k % 1000)) ++ 'S' :: [] := by
      rw [secondsText, if_pos (by omega), toList_padInt, intText_natCast, intText_natCast, List.append_assoc,
        List.cons_append]
    rw [htext, foldlM_item hnumeric (by decide) hread, timeUnit, Option.bind_some, hproduct, asI64, Magnitude.floor,
      min_eq_left (by omega), List.foldlM_nil]
    rfl

/-- The hours of 64 bits of milliseconds, as doubles. -/
lemma exists_hours {hours : ℕ} (h : hours * 3600000 < 2 ^ 63) :
    ∃ p : ℕ, (Magnitude.finite hours).scale 3600000 = .finite p ∧ 128 ∣ p ∧ p ≤ hours * 3600000 + 1024 ∧
      hours * 3600000 ≤ p + 1024 ∧ (p = hours * 3600000 ↔ IsDouble (hours * 3600000)) := by
  have hself := nearest_eq_self_iff (hours * 3600000)
  have hfinite : ∀ {p : ℕ}, nearest ((hours * 3600000 : ℕ) : ℚ) = p → p ≤ hours * 3600000 + 1024 →
      (Magnitude.finite hours).scale 3600000 = .finite p := by
    intro p hp hle
    have hbound : (p : ℚ) < 2 ^ 1024 := by
      have hlt : (p : ℚ) < 2 ^ 64 := by
        have hnat : p < 2 ^ 64 := by omega
        exact_mod_cast hnat
      exact hlt.trans_le (pow_le_pow_right₀ (by norm_num) (by norm_num))
    have hproduct : (hours : ℚ) * (3600000 : ℕ) = ((hours * 3600000 : ℕ) : ℚ) := by push_cast; rfl
    rw [Magnitude.scale, hproduct, Magnitude.ofRat, hp, if_pos hbound]
  by_cases hdouble : IsDouble (hours * 3600000)
  · exact ⟨hours * 3600000, hfinite (hself.mpr hdouble) (by omega), by omega, by omega, by omega,
      iff_of_true rfl hdouble⟩
  · -- the digits that are rounded away are more than the product with 3600000 leaves empty
    have hlarge : 2 ^ 53 ≤ hours * 3600000 := by
      by_contra hlt
      exact hdouble (isDouble_of_lt (not_le.mp hlt))
    obtain ⟨j, hlow, hhigh, -⟩ := exists_extra hlarge
    obtain ⟨m, hm, hle, hge⟩ := nearest_bounds hlow hhigh
    have hj : j ≤ 10 := by
      have hlt : 2 ^ (52 + j) < 2 ^ 63 := hlow.trans_lt h
      have hexp := (Nat.pow_lt_pow_iff_right (by norm_num : 1 < 2)).mp hlt
      omega
    have hj' : 7 ≤ j := by
      by_contra hsmall
      have hdvd : 2 ^ j ∣ hours * 3600000 := by
        have hpow : 2 ^ j ∣ 2 ^ 7 := pow_dvd_pow 2 (by omega)
        have hseven : 2 ^ 7 ∣ hours * 3600000 := ⟨hours * 28125, by ring⟩
        exact hpow.trans hseven
      obtain ⟨q, hq⟩ := hdvd
      refine hdouble ⟨q, j, ?_, by rw [hq, Nat.mul_comm]⟩
      rw [hq, Nat.add_comm, pow_add] at hhigh
      exact Nat.lt_of_mul_lt_mul_left hhigh
    have hpow : 2 ^ j ≤ 2 ^ 10 := Nat.pow_le_pow_right (by norm_num) hj
    have hdvd : 128 ∣ m * 2 ^ j := Dvd.dvd.mul_left (pow_dvd_pow 2 hj' : 2 ^ 7 ∣ 2 ^ j) m
    refine ⟨m * 2 ^ j, hfinite hm (by omega), hdvd, by omega, by omega, iff_of_false ?_ hdouble⟩
    intro heq
    rw [heq] at hm
    exact hdouble (hself.mp hm)

/-- The time part of a duration that is not negative is read back when its hours are a double and its seconds lose
nothing, and not otherwise. -/
lemma parsePart_clockText {millis : ℕ} (h : millis < 2 ^ 63) :
    ∃ result : Int64, parsePart timeUnit (clockText millis) 0 = some result ∧
      (result.toInt = millis ↔ IsDouble (millis / 3600000 * 3600000) ∧ ¬ LosesMillisecond (millis % 60000)) := by
  have hhours : (millis : ℤ).tdiv 3600000 = ((millis / 3600000 : ℕ) : ℤ) := rfl
  have hminutes : ((millis : ℤ).tmod 3600000).tdiv 60000 = ((millis % 3600000 / 60000 : ℕ) : ℤ) := rfl
  have hseconds : (((millis : ℤ).tmod 3600000).tmod 60000).tdiv 1000 = ((millis % 60000 / 1000 : ℕ) : ℤ) := by
    have hnat : millis % 3600000 % 60000 / 1000 = millis % 60000 / 1000 := by omega
    exact congrArg Nat.cast hnat
  have hfrac : ((millis : ℤ).tmod 3600000).tmod 1000 = ((millis % 60000 % 1000 : ℕ) : ℤ) := by
    have hnat : millis % 3600000 % 1000 = millis % 60000 % 1000 := by omega
    exact congrArg Nat.cast hnat
  obtain ⟨p, hp, hdvd, hle, hge, hexact⟩ := exists_hours (show millis / 3600000 * 3600000 < 2 ^ 63 by omega)
  have hmin : (Magnitude.finite ((millis % 3600000 / 60000 : ℕ) : ℚ)).scale 60000 =
      .finite ((millis % 3600000 / 60000 * 60000 : ℕ) : ℚ) := by
    have hproduct : ((millis % 3600000 / 60000 : ℕ) : ℚ) * (60000 : ℕ) =
        ((millis % 3600000 / 60000 * 60000 : ℕ) : ℚ) := by
      push_cast
      rfl
    rw [Magnitude.scale, hproduct, Magnitude.ofRat_natCast (by omega)]
  obtain ⟨v, hloses, hkeeps, hrun⟩ := foldlM_secondsText (k := millis % 60000) (by omega)
    (0 + Int64.ofInt p + Int64.ofInt (millis % 3600000 / 60000 * 60000 : ℕ))
  refine ⟨0 + Int64.ofInt p + Int64.ofInt (millis % 3600000 / 60000 * 60000 : ℕ) + Int64.ofInt v, ?_, ?_⟩
  · rw [parsePart, clockText, hhours, hminutes, hseconds, hfrac,
      foldlM_unitText (by omega) (by decide) (fun total => by simp [timeUnit, asI64_scale_zero]), timeUnit,
      Option.bind_some, hp, asI64_natCast (by omega),
      foldlM_unitText (by omega) (by decide) (fun total => by simp [timeUnit, asI64_scale_zero]), timeUnit,
      Option.bind_some, hmin, asI64_natCast (by omega), hrun]
    rfl
  · have hsum : 0 + Int64.ofInt p + Int64.ofInt (millis % 3600000 / 60000 * 60000 : ℕ) + Int64.ofInt v =
        Int64.ofInt (p + (millis % 3600000 / 60000 * 60000 : ℕ) + v) := by
      rw [Int64.zero_add, ← Int64.ofInt_add, ← Int64.ofInt_add]
    have hv : (LosesMillisecond (millis % 60000) ∧ v = (millis % 60000 : ℕ) - 1) ∨
        (¬ LosesMillisecond (millis % 60000) ∧ v = (millis % 60000 : ℕ)) := by
      by_cases hcase : LosesMillisecond (millis % 60000)
      · exact Or.inl ⟨hcase, hloses hcase⟩
      · exact Or.inr ⟨hcase, hkeeps hcase⟩
    -- the sum is too near to the milliseconds to be the same after an overflow
    have hsize : ((Int64.size : ℕ) : ℤ) = 18446744073709551616 := rfl
    have hnear : ∀ n : ℤ, n ≤ millis + 1024 → (millis : ℤ) ≤ n + 1025 → (n.bmod Int64.size = millis ↔ n = millis) := by
      intro n hn hn'
      rw [Int.bmod_def, hsize]
      split <;> omega
    rw [hsum, Int64.toInt_ofInt, ← hexact, hnear _ (by omega) (by omega)]
    rcases hv with ⟨hcase, rfl⟩ | ⟨hcase, rfl⟩
    · -- the loss of one is not made up by the hours, which are rounded by more
      refine iff_of_false (by omega) ?_
      rintro ⟨-, hnot⟩
      exact hnot hcase
    · constructor
      · intro hsame
        exact ⟨by omega, hcase⟩
      · rintro ⟨hsame, -⟩
        omega

/-! ## Durations -/

lemma not_mem_unitText {c : Char} (hdigit : c.isDigit = false) (hminus : c ≠ '-') {u : Char} (hu : c ≠ u) (n : ℤ) :
    c ∉ unitText n u := by
  unfold unitText intText
  split_ifs
  · intro hmem
    rcases List.mem_append.mp hmem with hmem | hmem
    · rcases List.mem_append.mp hmem with hmem | hmem
      · exact hminus (by simpa using hmem)
      · rw [isDigit_of_mem hmem] at hdigit
        cases hdigit
    · exact hu (by simpa using hmem)
  · intro hmem
    rcases List.mem_append.mp hmem with hmem | hmem
    · rw [List.nil_append] at hmem
      rw [isDigit_of_mem hmem] at hdigit
      cases hdigit
    · exact hu (by simpa using hmem)
  · exact List.not_mem_nil

/-- What `parse_duration` makes of a printed duration. -/
lemma parseDuration_durationToString (months days : Int32) (millis : Int64) :
    parseDuration (durationToString months days millis).toList =
      readParts (dateText months.toInt days.toInt) (clockText millis.toInt) := by
  have hdate : 'T' ∉ dateText months.toInt days.toInt := by
    simp only [dateText, List.mem_append, not_or]
    exact ⟨not_mem_unitText (by decide) (by decide) (by decide) _,
      not_mem_unitText (by decide) (by decide) (by decide) _, not_mem_unitText (by decide) (by decide) (by decide) _⟩
  rw [toList_durationToString]
  split_ifs with hempty hclock
  · -- the empty duration is printed as no seconds
    have hparts : parts ['T', '0', 'S'] = ([], ['0', 'S']) := by decide
    have hzero : parsePart timeUnit ['0', 'S'] 0 = parsePart timeUnit [] 0 := by
      have hread : collected ['0'] = some (.finite 0) := by
        have hdigits : (['0'] : List Char) = paddedDigits 0 0 := rfl
        rw [hdigits, collected_paddedDigits (by norm_num), Nat.cast_zero]
      have hitem : (['0'] ++ 'S' :: []).foldlM (partStep timeUnit) ([], 0) = _ :=
        foldlM_item (isNumeric_of_digits (by decide)) (by decide) hread [] 0
      have htext : ['0'] ++ 'S' :: [] = ['0', 'S'] := rfl
      rw [htext] at hitem
      rw [parsePart, hitem, timeUnit, asI64_scale_zero]
      rfl
    rw [parseDuration_eq, hparts, hempty.1, hempty.2]
    unfold readParts
    rw [hzero]
  · have hparts : parts (dateText months.toInt days.toInt ++ []) = (dateText months.toInt days.toInt, []) := by
      rw [List.append_nil, parts, splitFirst_of_not_mem hdate]
      rfl
    rw [parseDuration_eq, hparts, hclock]
  · have hparts : parts (dateText months.toInt days.toInt ++ 'T' :: clockText millis.toInt) =
        (dateText months.toInt days.toInt, clockText millis.toInt) := by
      rw [parts, splitFirst_append hdate]
      rfl
    rw [parseDuration_eq, hparts]

/-- A negative number is printed with a minus sign. -/
lemma mem_intText {n : ℤ} (h : n < 0) (zeros : ℕ) : '-' ∈ intText zeros n := by
  rw [intText, if_pos h]
  exact List.mem_cons_self

lemma mem_unitText {n : ℤ} (h : n < 0) (u : Char) : '-' ∈ unitText n u := by
  rw [unitText, if_pos h.ne]
  exact List.mem_append_left _ (mem_intText h 0)

/-- A negative date part is not read. -/
lemma parsePart_dateText_of_neg {months days : ℤ} (h : months < 0 ∨ days < 0) :
    parsePart dateUnit (dateText months days) (0, 0) = none := by
  refine parsePart_eq_none (c := '-') (by decide) (fun _ _ => rfl) ?_ _
  unfold dateText
  rcases h with h | h
  · have hsum := Int.mul_tdiv_add_tmod months 12
    have hpart : months.tdiv 12 < 0 ∨ months.tmod 12 < 0 := by
      by_contra hnot
      push Not at hnot
      omega
    rcases hpart with hyears | hmonths
    · exact List.mem_append_left _ (mem_unitText hyears 'Y')
    · exact List.mem_append_right _ (List.mem_append_left _ (mem_unitText hmonths 'M'))
  · exact List.mem_append_right _ (List.mem_append_right _ (mem_unitText h 'D'))

/-- A negative time part is not read. -/
lemma parsePart_clockText_of_neg {millis : ℤ} (h : millis < 0) : parsePart timeUnit (clockText millis) 0 = none := by
  refine parsePart_eq_none (c := '-') (by decide) (fun _ _ => rfl) ?_ _
  have hsum := Int.mul_tdiv_add_tmod millis 3600000
  have hsum' := Int.mul_tdiv_add_tmod (millis.tmod 3600000) 60000
  have hsum'' := Int.mul_tdiv_add_tmod ((millis.tmod 3600000).tmod 60000) 1000
  have hfrac : ((millis.tmod 3600000).tmod 60000).tmod 1000 = (millis.tmod 3600000).tmod 1000 :=
    Int.tmod_tmod_of_dvd _ (by norm_num)
  rw [hfrac] at hsum''
  unfold clockText
  by_cases hhours : millis.tdiv 3600000 < 0
  · exact List.mem_append_left _ (mem_unitText hhours 'H')
  by_cases hminutes : (millis.tmod 3600000).tdiv 60000 < 0
  · exact List.mem_append_right _ (List.mem_append_left _ (mem_unitText hminutes 'M'))
  refine List.mem_append_right _ (List.mem_append_right _ ?_)
  unfold secondsText
  by_cases hseconds : ((millis.tmod 3600000).tmod 60000).tdiv 1000 < 0
  · split_ifs
    · exact List.mem_append_left _ (mem_intText hseconds 0)
    · exact mem_unitText hseconds 'S'
  · have hneg : (millis.tmod 3600000).tmod 1000 < 0 := by omega
    rw [if_pos hneg.ne, toList_padInt]
    exact List.mem_append_right _ (List.mem_cons_of_mem _ (List.mem_append_left _ (mem_intText hneg _)))

/-- A printed duration is read back. -/
def RoundTrips (months days : Int32) (millis : Int64) : Prop :=
  parseDuration (durationToString months days millis).toList = some (months, days, millis)

lemma roundTrips_iff (months days : Int32) (millis : Int64) : RoundTrips months days millis ↔
    0 ≤ months.toInt ∧ 0 ≤ days.toInt ∧ 0 ≤ millis.toInt ∧
      IsDouble (millis.toInt.toNat / 3600000 * 3600000) ∧ ¬ LosesMillisecond (millis.toInt.toNat % 60000) := by
  unfold RoundTrips
  rw [parseDuration_durationToString]
  unfold readParts
  by_cases hdate : 0 ≤ months.toInt ∧ 0 ≤ days.toInt
  · have hmonths := months.toInt_lt
    have hdays := days.toInt_lt
    have hread := parsePart_dateText (show months.toInt.toNat < 2 ^ 31 by omega)
      (show days.toInt.toNat < 2 ^ 31 by omega)
    rw [Int.toNat_of_nonneg hdate.1, Int.toNat_of_nonneg hdate.2, Int32.ofInt_toInt, Int32.ofInt_toInt] at hread
    rw [hread, Option.bind_some]
    by_cases htime : 0 ≤ millis.toInt
    · have hmillis := millis.toInt_lt
      obtain ⟨result, hresult, hexact⟩ := parsePart_clockText (show millis.toInt.toNat < 2 ^ 63 by omega)
      rw [Int.toNat_of_nonneg htime] at hresult hexact
      have hsame : result = millis ↔ result.toInt = millis.toInt := Int64.toInt_inj.symm
      rw [hresult, Option.map_some, Option.some_inj, Prod.mk.injEq, Prod.mk.injEq, hsame, hexact]
      simp only [true_and, hdate.1, hdate.2, htime]
    · rw [parsePart_clockText_of_neg (by omega)]
      simp [htime]
  · rw [parsePart_dateText_of_neg (by omega), Option.bind_none]
    refine iff_of_false (by simp) ?_
    rintro ⟨hmonths, hdays, -⟩
    exact hdate ⟨hmonths, hdays⟩

/-- A text with something left over is rejected. -/
def RejectsLeftover (s : List Char) : Prop := HasLeftover s → parseDuration s = none

lemma rejectsLeftover_iff (s : List Char) : RejectsLeftover s ↔ ¬ (HasLeftover s ∧ ReadableDuration s) := by
  have hsome := parseDuration_isSome s
  unfold RejectsLeftover
  rw [← hsome, not_and, Bool.not_eq_true, Option.isSome_eq_false_iff, Option.isNone_iff_eq_none]

/-- The durations that are read back as they were, and the texts of which nothing is passed over. -/
theorem duration_text_iff (months days : Int32) (millis : Int64) (s : List Char) :
    (RoundTrips months days millis ↔
      0 ≤ months.toInt ∧ 0 ≤ days.toInt ∧ 0 ≤ millis.toInt ∧
        IsDouble (millis.toInt.toNat / 3600000 * 3600000) ∧ ¬ LosesMillisecond (millis.toInt.toNat % 60000)) ∧
    (RejectsLeftover s ↔ ¬ (HasLeftover s ∧ ReadableDuration s)) :=
  ⟨roundTrips_iff months days millis, rejectsLeftover_iff s⟩

/-- A negative day is not read back, and a number without a unit is passed over. -/
theorem duration_text_lost : ¬ RoundTrips 0 (-1) 0 ∧ ¬ RejectsLeftover "P5".toList := by
  constructor
  · intro h
    have hnone : parseDuration (durationToString 0 (-1) 0).toList = none := by decide
    rw [RoundTrips, hnone] at h
    cases h
  · intro h
    have hsome : parseDuration "P5".toList = some (0, 0, 0) := by decide
    have hleft : HasLeftover "P5".toList := ⟨['5'], rfl, Or.inl ⟨'5', rfl, by decide⟩⟩
    rw [h hleft] at hsome
    cases hsome

end Maharit.Temporal
