import MaharitDb.Core.PropertyValue
import MaharitDb.Lib.DecimalText

/-!
# Calendar texts

`days_to_ymd` is a formula over truncating divisions: before the year -4800 they round the other way, yet
different days have different dates.  The texts of dates, and of dates with a time, can be read back up to
the 32 bits the days are stored in.
-/

namespace Maharit.Temporal

open DecimalText

/-! ## The formula -/

/-- The year, the month and the day of `daysToYmd`, before they are stored in 32 bits. -/
def civil (days : ℤ) : ℤ × ℤ × ℤ :=
  let jdn := days + 2440588
  let a := jdn + 32044
  let b := (4 * a + 3).tdiv 146097
  let c := a - (146097 * b).tdiv 4
  let d := (4 * c + 3).tdiv 1461
  let e := c - (1461 * d).tdiv 4
  let m := (5 * e + 2).tdiv 153
  (100 * b + d - 4800 + m.tdiv 10, m + 3 - 12 * m.tdiv 10, e - (153 * m + 2).tdiv 5 + 1)

lemma tdiv_of_nonneg {x : ℤ} (hx : 0 ≤ x) (k : ℤ) : x.tdiv k = x / k := Int.tdiv_eq_ediv_of_nonneg hx

lemma tdiv_of_nonpos {x : ℤ} (hx : x ≤ 0) (k : ℤ) : x.tdiv k = -(-x / k) := by
  rw [← Int.tdiv_eq_ediv_of_nonneg (by omega : 0 ≤ -x), Int.neg_tdiv, neg_neg]

lemma civil_of_nonneg {days : ℤ} (h : -2472632 ≤ days) :
    ∃ b d m : ℤ, 0 ≤ b ∧ 0 ≤ d ∧ d ≤ 99 ∧ 0 ≤ m ∧ m ≤ 11 ∧
      12 * (civil days).1 + (civil days).2.1 = 1200 * b + 12 * d + m - 57597 ∧
      (civil days).2.2 = days + 2472633 - 146097 * b / 4 - 1461 * d / 4 - (153 * m + 2) / 5 ∧
      0 < (civil days).2.2 := by
  unfold civil
  extract_lets jdn a b c d e m
  have ha : 0 ≤ a := by omega
  have hb : b = (4 * a + 3) / 146097 := tdiv_of_nonneg (by omega) _
  have hc : c = a - 146097 * b / 4 := by rw [← tdiv_of_nonneg (by omega)]
  have hc' : 0 ≤ c ∧ c ≤ 36524 := by omega
  have hd : d = (4 * c + 3) / 1461 := tdiv_of_nonneg (by omega) _
  have he : e = c - 1461 * d / 4 := by rw [← tdiv_of_nonneg (by omega)]
  have he' : 0 ≤ e ∧ e ≤ 365 := by omega
  have hm : m = (5 * e + 2) / 153 := tdiv_of_nonneg (by omega) _
  have hday : (153 * m + 2).tdiv 5 = (153 * m + 2) / 5 := tdiv_of_nonneg (by omega) _
  have hcarry : m.tdiv 10 = m / 10 := tdiv_of_nonneg (by omega) _
  clear_value b c d e m
  refine ⟨b, d, m, ?_⟩
  dsimp only
  rw [hday, hcarry]
  refine ⟨?_, ?_, ?_, ?_, ?_, ?_, ?_, ?_⟩ <;> omega

lemma civil_of_neg {days : ℤ} (h : days < -2472632) :
    ∃ b d m : ℤ, 0 ≤ b ∧ 0 ≤ d ∧ d ≤ 99 ∧ 0 ≤ m ∧ m ≤ 11 ∧
      12 * (civil days).1 + (civil days).2.1 = -(1200 * b + 12 * d + m) - 57597 ∧
      (civil days).2.2 = days + 2472633 + 146097 * b / 4 + 1461 * d / 4 - (2 - 153 * m).tdiv 5 ∧
      (b = 0 → d = 0 → m = 0 → (civil days).2.2 ≤ 0) := by
  unfold civil
  extract_lets jdn a b c d e m
  have ha : a < 0 := by omega
  have hb : b = -(-(4 * a + 3) / 146097) := tdiv_of_nonpos (by omega) _
  have hc : c = a + 146097 * (-b) / 4 := by 
    have := tdiv_of_nonpos (x := 146097 * b) (by omega) 4
    omega
  have hc' : c ≤ -1 ∧ -36525 ≤ c := by omega
  have hd : d = -(-(4 * c + 3) / 1461) := tdiv_of_nonpos (by omega) _
  have he : e = c + 1461 * (-d) / 4 := by 
    have := tdiv_of_nonpos (x := 1461 * d) (by omega) 4
    omega
  have he' : e ≤ -1 ∧ -366 ≤ e := by omega
  have hm : m = -(-(5 * e + 2) / 153) := tdiv_of_nonpos (by omega) _
  have hcarry : m.tdiv 10 = -(-m / 10) := tdiv_of_nonpos (by omega) _
  have hday : (153 * m + 2).tdiv 5 = (2 - 153 * (-m)).tdiv 5 := by congr 1; omega
  have hday0 : m = 0 → (2 - 153 * (-m)).tdiv 5 = 0 := by 
    rintro hm0
    rw [hm0]
    decide
  clear_value b c d e m
  refine ⟨-b, -d, -m, ?_⟩
  dsimp only
  rw [hday, hcarry]
  refine ⟨?_, ?_, ?_, ?_, ?_, ?_, ?_, ?_⟩ <;> omega

theorem civil_injective {x y : ℤ} (h : civil x = civil y) : x = y := by
  have hmonths : 12 * (civil x).1 + (civil x).2.1 = 12 * (civil y).1 + (civil y).2.1 := by rw [h]
  have hday : (civil x).2.2 = (civil y).2.2 := by rw [h]
  by_cases hx : -2472632 ≤ x <;> by_cases hy : -2472632 ≤ y
  · obtain ⟨b, d, m, hb, hd, hd', hm, hm', hx1, hx2, -⟩ := civil_of_nonneg hx
    obtain ⟨b', d', m', hb', hd1, hd1', hm1, hm1', hy1, hy2, -⟩ := civil_of_nonneg hy
    have hmm : m = m' := by omega
    have hdd : d = d' := by omega
    have hbb : b = b' := by omega
    subst hmm hdd hbb
    omega
  · obtain ⟨b, d, m, hb, hd, hd', hm, hm', hx1, hx2, hpos⟩ := civil_of_nonneg hx
    obtain ⟨b', d', m', hb', hd1, hd1', hm1, hm1', hy1, hy2, hneg⟩ := civil_of_neg (not_le.mp hy)
    have := hneg (by omega) (by omega) (by omega)
    omega
  · obtain ⟨b, d, m, hb, hd, hd', hm, hm', hx1, hx2, hneg⟩ := civil_of_neg (not_le.mp hx)
    obtain ⟨b', d', m', hb', hd1, hd1', hm1, hm1', hy1, hy2, hpos⟩ := civil_of_nonneg hy
    have := hneg (by omega) (by omega) (by omega)
    omega
  · obtain ⟨b, d, m, hb, hd, hd', hm, hm', hx1, hx2, -⟩ := civil_of_neg (not_le.mp hx)
    obtain ⟨b', d', m', hb', hd1, hd1', hm1, hm1', hy1, hy2, -⟩ := civil_of_neg (not_le.mp hy)
    have hmm : m = m' := by omega
    have hdd : d = d' := by omega
    have hbb : b = b' := by omega
    subst hmm hdd hbb
    omega

/-- A quotient is within the divisor of the exact one. -/
lemma tdiv_bounds (x : ℤ) {k : ℤ} (hk : 0 < k) : x - k < k * x.tdiv k ∧ k * x.tdiv k < x + k := by
  have hmod := Int.mul_tdiv_add_tmod x k
  have hlt := Int.tmod_lt_of_pos x hk
  have hgt := Int.lt_tmod_of_pos x hk
  omega

/-- The parts of a date fit into 32 bits with plenty of room. -/
lemma civil_bounds {days : ℤ} (h : -2 ^ 31 ≤ days) (h' : days < 2 ^ 31) :
    (-6000000 ≤ (civil days).1 ∧ (civil days).1 ≤ 6000000) ∧
      (-400 ≤ (civil days).2.1 ∧ (civil days).2.1 ≤ 400) ∧
      -4000 ≤ (civil days).2.2 ∧ (civil days).2.2 ≤ 4000 := by
  unfold civil
  extract_lets jdn a b c d e m
  have hb := tdiv_bounds (4 * a + 3) (k := 146097) (by decide)
  have hc := tdiv_bounds (146097 * b) (k := 4) (by decide)
  have hd := tdiv_bounds (4 * c + 3) (k := 1461) (by decide)
  have he := tdiv_bounds (1461 * d) (k := 4) (by decide)
  have hm := tdiv_bounds (5 * e + 2) (k := 153) (by decide)
  have hcarry := tdiv_bounds m (k := 10) (by decide)
  have hday := tdiv_bounds (153 * m + 2) (k := 5) (by decide)
  dsimp only
  omega

lemma daysToYmd_eq (days : Int32) : daysToYmd days =
    (Int32.ofInt (civil days.toInt).1, Int32.ofInt (civil days.toInt).2.1,
      Int32.ofInt (civil days.toInt).2.2) := rfl

/-- Different days have different dates. -/
theorem daysToYmd_injective : Function.Injective daysToYmd := by
  intro x y h
  obtain ⟨⟨hx1, hx1'⟩, ⟨hx2, hx2'⟩, hx3, hx3'⟩ := civil_bounds x.le_toInt x.toInt_lt
  obtain ⟨⟨hy1, hy1'⟩, ⟨hy2, hy2'⟩, hy3, hy3'⟩ := civil_bounds y.le_toInt y.toInt_lt
  rw [daysToYmd_eq, daysToYmd_eq, Prod.mk.injEq, Prod.mk.injEq] at h
  obtain ⟨hyear, hmonth, hday⟩ := h
  have hround : ∀ p q : ℤ, -6000000 ≤ p → p ≤ 6000000 → -6000000 ≤ q → q ≤ 6000000 →
      Int32.ofInt p = Int32.ofInt q → p = q := by
    intro p q hp hp' hq hq' hpq
    have hp'' : (Int32.ofInt p).toInt = p := Int32.toInt_ofInt_of_le (by omega) (by omega)
    have hq'' : (Int32.ofInt q).toInt = q := Int32.toInt_ofInt_of_le (by omega) (by omega)
    rw [← hp'', ← hq'', hpq]
  apply Int32.toInt_inj.mp
  apply civil_injective
  refine Prod.ext (hround _ _ ?_ ?_ ?_ ?_ hyear) (Prod.ext (hround _ _ ?_ ?_ ?_ ?_ hmonth)
    (hround _ _ ?_ ?_ ?_ ?_ hday)) <;> omega

/-! ## The texts -/

/-- The zeros `padInt` writes. -/
def zeros (w : ℕ) (n : ℤ) : ℕ :=
  w - (if n < 0 then 1 else 0) - (toString n.natAbs).length

lemma toList_padInt (w : ℕ) (n : ℤ) : (padInt w n).toList = intText (zeros w n) n := by
  unfold padInt intText zeros
  by_cases hn : n < 0
  · simp only [hn, if_true, String.toList_append, toList_pushn_empty, toList_toString_nat, paddedDigits,
      List.replicate_zero, List.nil_append, List.append_assoc]
    rfl
  · simp only [hn, if_false, String.toList_append, toList_pushn_empty, toList_toString_nat, paddedDigits,
      List.replicate_zero, List.nil_append, Nat.sub_zero]

/-- A number and the character that follows it can be read back. -/
lemma padInt_append_inj {w w' : ℕ} {n n' : ℤ} {c : Char} (hc : c.isDigit = false) {r r' : List Char}
    (h : (padInt w n).toList ++ c :: r = (padInt w' n').toList ++ c :: r') : n = n' ∧ r = r' := by
  rw [toList_padInt, toList_padInt] at h
  obtain ⟨hn, hr⟩ := intText_append_inj (endsDigits_cons hc r) (endsDigits_cons hc r') h
  exact ⟨hn, List.tail_eq_of_cons_eq hr⟩

/-- The texts of year, month and day. -/
def ymdText (p : Int32 × Int32 × Int32) (r : List Char) : List Char :=
  (padInt 4 p.1.toInt).toList ++ '-' :: ((padInt 2 p.2.1.toInt).toList ++
    '-' :: ((padInt 2 p.2.2.toInt).toList ++ r))

lemma ymdText_inj {p p' : Int32 × Int32 × Int32} {r r' : List Char} (hr : EndsDigits r)
    (hr' : EndsDigits r') (h : ymdText p r = ymdText p' r') : p = p' ∧ r = r' := by
  obtain ⟨hyear, h⟩ := padInt_append_inj (by decide) h
  obtain ⟨hmonth, h⟩ := padInt_append_inj (by decide) h
  rw [toList_padInt, toList_padInt] at h
  obtain ⟨hday, h⟩ := intText_append_inj hr hr' h
  exact ⟨Prod.ext (Int32.toInt_inj.mp hyear) (Prod.ext (Int32.toInt_inj.mp hmonth)
    (Int32.toInt_inj.mp hday)), h⟩

lemma toList_dateToString (days : Int32) (r : List Char) :
    (dateToString days).toList ++ r = ymdText (daysToYmd days) r := by
  simp only [dateToString, String.toList_append, List.append_assoc, ymdText]
  rfl

/-- The text of the time of day. -/
def timeText (t : ℤ × ℤ × ℤ × ℤ) (r : List Char) : List Char :=
  'T' :: ((padInt 2 t.1).toList ++ ':' :: ((padInt 2 t.2.1).toList ++ ':' ::
    ((padInt 2 t.2.2.1).toList ++ '.' :: ((padInt 3 t.2.2.2).toList ++ 'Z' :: r))))

lemma timeText_inj {t t' : ℤ × ℤ × ℤ × ℤ} {r r' : List Char} (h : timeText t r = timeText t' r') :
    t = t' ∧ r = r' := by
  obtain ⟨hhour, h⟩ := padInt_append_inj (by decide) (List.tail_eq_of_cons_eq h)
  obtain ⟨hminute, h⟩ := padInt_append_inj (by decide) h
  obtain ⟨hsecond, h⟩ := padInt_append_inj (by decide) h
  obtain ⟨hfrac, h⟩ := padInt_append_inj (by decide) h
  exact ⟨Prod.ext hhour (Prod.ext hminute (Prod.ext hsecond hfrac)), h⟩

/-- The days since 1970-01-01, before they are stored in 32 bits. -/
def dayNumber (ms : Int64) : ℤ := ms.toInt / 1000 / 86400

/-- Hour, minute, second and millisecond. -/
def timeOfDay (ms : Int64) : ℤ × ℤ × ℤ × ℤ :=
  (ms.toInt / 1000 % 86400 / 3600, ms.toInt / 1000 % 86400 % 3600 / 60, ms.toInt / 1000 % 86400 % 60,
    ms.toInt % 1000)

lemma toList_dateTimeToString (ms : Int64) (r : List Char) :
    (dateTimeToString ms).toList ++ r =
      ymdText (daysToYmd (Int32.ofInt (dayNumber ms))) (timeText (timeOfDay ms) r) := by
  simp only [dateTimeToString, millisToDatetime, String.toList_append, List.append_assoc, ymdText,
    timeText, timeOfDay, dayNumber]
  rfl

/-- The milliseconds of as many days as 32 bits count. -/
def wrapMillis : ℤ := 2 ^ 32 * 86400000

/-- Two integers are stored alike in 32 bits. -/
lemma ofInt_eq_ofInt_iff (m n : ℤ) : Int32.ofInt m = Int32.ofInt n ↔ m % 2 ^ 32 = n % 2 ^ 32 := by
  rw [Int32.ofInt_eq_iff_bmod_eq_toInt, Int32.toInt_ofInt]
  rw [Int.bmod_eq_bmod_iff_bmod_sub_eq_zero, ← Int.dvd_iff_bmod_eq_zero]
  omega

/-- The 32 bits and the time of day tell two times apart that are not a multiple of `wrapMillis` apart. -/
lemma dayNumber_timeOfDay_iff (ms ms' : Int64) :
    (Int32.ofInt (dayNumber ms) = Int32.ofInt (dayNumber ms') ∧ timeOfDay ms = timeOfDay ms') ↔
      wrapMillis ∣ ms.toInt - ms'.toInt := by
  rw [ofInt_eq_ofInt_iff]
  simp only [dayNumber, timeOfDay, wrapMillis, Prod.mk.injEq]
  constructor
  · intro h
    omega
  · intro h
    omega

/-- Two times are written alike if and only if they are a multiple of `wrapMillis` apart. -/
theorem dateTimeToString_eq_iff (ms ms' : Int64) :
    dateTimeToString ms = dateTimeToString ms' ↔ wrapMillis ∣ ms.toInt - ms'.toInt := by
  rw [← dayNumber_timeOfDay_iff]
  constructor
  · intro h
    have hlist := congrArg (fun s => s.toList ++ []) h
    simp only [toList_dateTimeToString] at hlist
    obtain ⟨hdate, htime⟩ := ymdText_inj (endsDigits_cons (by decide) _) (endsDigits_cons (by decide) _) hlist
    exact ⟨daysToYmd_injective hdate, (timeText_inj htime).1⟩
  · rintro ⟨hdays, htime⟩
    have hlist : (dateTimeToString ms).toList ++ [] = (dateTimeToString ms').toList ++ [] := by
      rw [toList_dateTimeToString, toList_dateTimeToString, hdays, htime]
    rw [List.append_nil, List.append_nil] at hlist
    exact String.toList_inj.mp hlist

end Maharit.Temporal
