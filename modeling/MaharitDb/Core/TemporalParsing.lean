import Mathlib.Data.List.DropRight
import MaharitDb.Core.CalendarRoundTrip
import MaharitDb.Lib.NumberText

/-!
# Reading dates and times

`parse_date` and `parse_datetime` of `maharit-core/src/property.rs`, on lists of characters.  A text denotes a date or
an instant when it is put together from digits in the documented way.  The two functions read more than that: signed
numbers, days that the month does not have, hours and minutes of any size; and a fraction of more than three digits is
taken for milliseconds.
-/

namespace Maharit.Temporal

open Gregorian NumberText

/-! ## The source's functions -/

/-- `parse::<i32>`. -/
def parseI32 (cs : List Char) : Option Int32 := (readInt 32 cs).map Int32.ofInt

/-- `parse_date`. -/
def parseDate (s : List Char) : Option Int32 :=
  match s.splitOn '-' with
  | [y, m, d] => do
      let y ← parseI32 y
      let m ← parseI32 m
      let d ← parseI32 d
      if ¬ (1 ≤ m.toInt ∧ m.toInt ≤ 12) ∨ ¬ (1 ≤ d.toInt ∧ d.toInt ≤ 31) then none
      else some (ymdToDays y m d)
  | _ => none

/-- `datetime_to_millis`. -/
def datetimeToMillis (y mo d h mi s frac : Int32) : Int64 :=
  Int64.ofInt ((ymdToDays y mo d).toInt * 86400000 + h.toInt * 3600000 + mi.toInt * 60000 + s.toInt * 1000 +
    frac.toInt)

/-- The milliseconds of a fraction with a number of digits. -/
def fractionMillis (length : ℕ) (frac : Int32) : Int32 :=
  match length with
  | 1 => frac * 100
  | 2 => frac * 10
  | _ => frac

/-- The seconds and the milliseconds of a time. -/
def parseSeconds (sec : List Char) : Option (Int32 × Int32) :=
  match splitFirst '.' sec with
  | some (s, frac) => do
      let s ← parseI32 s
      let n ← parseI32 frac
      return (s, fractionMillis frac.length n)
  | none => (parseI32 sec).map fun s => (s, 0)

/-- The pieces of a time after its minutes; what comes after the seconds is not looked at. -/
def parseRest : List (List Char) → Option (Int32 × Int32)
  | sec :: _ => parseSeconds sec
  | [] => some (0, 0)

/-- The hour, the minute, the second and the milliseconds of a time. -/
def parseTime (time : List Char) : Option (Int32 × Int32 × Int32 × Int32) :=
  match time.splitOn ':' with
  | h :: m :: rest => do
      let h ← parseI32 h
      let m ← parseI32 m
      let (s, frac) ← parseRest rest
      return (h, m, s, frac)
  | _ => none

/-- `parse_datetime`. -/
def parseDatetime (s : List Char) : Option Int64 := do
  let (date, time) ← splitFirst 'T' (s.rdropWhile (· = 'Z'))
  let days ← parseDate date
  let (h, m, s, frac) ← parseTime time
  return datetimeToMillis (daysToYmd days).1 (daysToYmd days).2.1 (daysToYmd days).2.2 h m s frac

/-! ## What a text denotes -/

/-- A number that is written with digits only. -/
abbrev Numeral := { cs : List Char // IsDigits cs }

/-- A date as it is written. -/
structure WrittenDate where
  year : Numeral
  month : Numeral
  day : Numeral

namespace WrittenDate

/-- `YYYY-MM-DD`. -/
def text (w : WrittenDate) : List Char := w.year.1 ++ '-' :: (w.month.1 ++ '-' :: w.day.1)

/-- The date is in the calendar. -/
def Exists (w : WrittenDate) : Prop := IsDate (value w.year.1) (value w.month.1) (value w.day.1)

/-- The days since 1970-01-01. -/
def number (w : WrittenDate) : ℤ := Gregorian.dayNumber (value w.year.1) (value w.month.1) (value w.day.1)

end WrittenDate

/-- A time of day as it is written: the seconds may be missing, and their fraction. -/
structure WrittenTime where
  hour : Numeral
  minute : Numeral
  second : Option (Numeral × Option Numeral)

namespace WrittenTime

/-- The text of seconds. -/
def secondText (s : Numeral × Option Numeral) : List Char :=
  s.1.1 ++ match s.2 with
    | some f => '.' :: f.1
    | none => []

/-- `HH:MM:SS.fff`. -/
def text (w : WrittenTime) : List Char :=
  w.hour.1 ++ ':' :: (w.minute.1 ++ match w.second with
    | some s => ':' :: secondText s
    | none => [])

/-- The hour, the minute and the second are in range. -/
structure InRange (w : WrittenTime) : Prop where
  hour : value w.hour.1 < 24
  minute : value w.minute.1 < 60
  second : ∀ s, w.second = some s → value s.1.1 < 60

/-- The milliseconds of seconds: a fraction is cut off after its third digit. -/
def secondMillis : Option (Numeral × Option Numeral) → ℕ
  | some (s, some f) => value s.1 * 1000 + 1000 * value f.1 / 10 ^ f.1.length
  | some (s, none) => value s.1 * 1000
  | none => 0

/-- The milliseconds since midnight. -/
def millis (w : WrittenTime) : ℕ :=
  value w.hour.1 * 3600000 + value w.minute.1 * 60000 + secondMillis w.second

/-- A fraction has at most three digits, or they are zeros. -/
def PlainFraction (w : WrittenTime) : Prop :=
  ∀ s f, w.second = some (s, some f) → f.1.length ≤ 3 ∨ value f.1 = 0

end WrittenTime

/-- A date with a time as it is written. -/
structure WrittenInstant where
  date : WrittenDate
  time : WrittenTime
  /-- A `Z` is at the end. -/
  zone : Bool

namespace WrittenInstant

/-- `YYYY-MM-DDTHH:MM:SS.fffZ`. -/
def text (w : WrittenInstant) : List Char :=
  w.date.text ++ 'T' :: w.time.text ++ if w.zone then ['Z'] else []

/-- The milliseconds since 1970-01-01. -/
def millis (w : WrittenInstant) : ℤ := w.date.number * 86400000 + w.time.millis

end WrittenInstant

/-! ## Dates -/

/-- The pieces of a text are read as a month and a day that some month has. -/
def ReadableDate (s : List Char) : Prop :=
  ∃ ys ms ds y m d, s.splitOn '-' = [ys, ms, ds] ∧ parseI32 ys = some y ∧ parseI32 ms = some m ∧
    parseI32 ds = some d ∧ (1 ≤ m.toInt ∧ m.toInt ≤ 12) ∧ 1 ≤ d.toInt ∧ d.toInt ≤ 31

lemma parseDate_isSome (s : List Char) : (parseDate s).isSome ↔ ReadableDate s := by
  unfold parseDate ReadableDate
  split
  · rename_i ys ms ds hsplit
    rw [hsplit]
    constructor
    · intro hsome
      rcases hy : parseI32 ys with - | y
      · simp [hy] at hsome
      rcases hm : parseI32 ms with - | m
      · simp [hm] at hsome
      rcases hd : parseI32 ds with - | d
      · simp [hd] at hsome
      simp only [hy, hm, hd, Option.bind_eq_bind, Option.bind_some] at hsome
      split at hsome
      · cases hsome
      · rename_i hrange
        push Not at hrange
        exact ⟨ys, ms, ds, y, m, d, rfl, hy, hm, hd, hrange⟩
    · rintro ⟨ys', ms', ds', y, m, d, heq, hy, hm, hd, hrange⟩
      obtain ⟨rfl, rfl, rfl⟩ : ys = ys' ∧ ms = ms' ∧ ds = ds' := by simpa using heq
      have hin : ¬ (¬ (1 ≤ m.toInt ∧ m.toInt ≤ 12) ∨ ¬ (1 ≤ d.toInt ∧ d.toInt ≤ 31)) := by
        push Not
        exact hrange
      simp only [hy, hm, hd, Option.bind_eq_bind, Option.bind_some, if_neg hin]
      rfl
  · rename_i hshape
    refine iff_of_false (by simp) ?_
    rintro ⟨ys, ms, ds, -, -, -, hsplit, -⟩
    exact hshape ys ms ds hsplit

namespace WrittenDate

variable {w : WrittenDate}

lemma splitOn_text (w : WrittenDate) : w.text.splitOn '-' = [w.year.1, w.month.1, w.day.1] := by
  have hyear := w.year.2.not_mem (c := '-') (by decide)
  have hmonth := w.month.2.not_mem (c := '-') (by decide)
  have hday := w.day.2.not_mem (c := '-') (by decide)
  rw [text, splitOn_cons hyear, splitOn_cons hmonth, splitOn_of_not_mem hday]

/-- A text is written in one way. -/
lemma text_injective : Function.Injective text := by
  intro w w' h
  have hsplit := w.splitOn_text
  rw [h, w'.splitOn_text] at hsplit
  obtain ⟨hyear, hmonth, hday⟩ : w'.year.1 = w.year.1 ∧ w'.month.1 = w.month.1 ∧ w'.day.1 = w.day.1 := by
    simpa using hsplit
  obtain ⟨y, m, d⟩ := w
  obtain ⟨y', m', d'⟩ := w'
  simp only [mk.injEq]
  exact ⟨Subtype.ext hyear.symm, Subtype.ext hmonth.symm, Subtype.ext hday.symm⟩

/-- A numeral of 32 bits. -/
lemma parseI32_numeral {n : Numeral} (h : value n.1 < 2 ^ 31) : parseI32 n.1 = some (Int32.ofInt (value n.1)) := by
  rw [parseI32, readInt_of_digits n.2, if_pos h, Option.map_some]

lemma parseI32_numeral_none {n : Numeral} (h : ¬ value n.1 < 2 ^ 31) : parseI32 n.1 = none := by
  rw [parseI32, readInt_of_digits n.2, if_neg h, Option.map_none]

lemma toInt_ofInt_nat {n : ℕ} (h : n < 2 ^ 31) : (Int32.ofInt n).toInt = n :=
  Int32.toInt_ofInt_of_le (by omega) (by omega)

/-- The month and the day of a date that exists are small. -/
lemma Exists.bounds (h : w.Exists) : (1 ≤ value w.month.1 ∧ value w.month.1 ≤ 12) ∧
    1 ≤ value w.day.1 ∧ value w.day.1 ≤ 31 := by
  have hpos := h.month_pos
  have hle := h.month_le
  have hday := h.day_pos
  have hday' := h.day_le
  have hlength : Gregorian.daysInMonth (value w.year.1) (value w.month.1) ≤ 31 := by
    unfold Gregorian.daysInMonth
    split_ifs <;> norm_num
  omega

/-- A year whose days fit into 32 bits fits. -/
lemma Exists.year_lt (h : w.Exists) (hnumber : w.number < 2 ^ 31) : value w.year.1 < 2 ^ 31 := by
  obtain ⟨⟨hmonth, hmonth'⟩, hday, -⟩ := h.bounds
  simp only [number, Gregorian.dayNumber, marchYear, marchMonth] at hnumber
  split_ifs at hnumber <;> omega

/-- What `parse_date` reads in a date that exists. -/
lemma Exists.parseDate (h : w.Exists) : parseDate w.text = if value w.year.1 < 2 ^ 31 then
    some (ymdToDays (Int32.ofInt (value w.year.1)) (Int32.ofInt (value w.month.1)) (Int32.ofInt (value w.day.1)))
    else none := by
  obtain ⟨hmonth, hday⟩ := h.bounds
  unfold Temporal.parseDate
  rw [w.splitOn_text]
  dsimp only
  by_cases hyear : value w.year.1 < 2 ^ 31
  · have hin : ¬ (¬ (1 ≤ (Int32.ofInt (value w.month.1)).toInt ∧ (Int32.ofInt (value w.month.1)).toInt ≤ 12) ∨
        ¬ (1 ≤ (Int32.ofInt (value w.day.1)).toInt ∧ (Int32.ofInt (value w.day.1)).toInt ≤ 31)) := by
      rw [toInt_ofInt_nat (by omega), toInt_ofInt_nat (by omega)]
      omega
    rw [if_pos hyear, parseI32_numeral hyear, parseI32_numeral (by omega), parseI32_numeral (by omega)]
    simp only [Option.bind_eq_bind, Option.bind_some, if_neg hin]
  · rw [if_neg hyear, parseI32_numeral_none hyear]
    rfl

/-- The days of a date that exists, stored in 32 bits. -/
lemma Exists.ymdToDays (h : w.Exists) (hyear : value w.year.1 < 2 ^ 31) :
    Temporal.ymdToDays (Int32.ofInt (value w.year.1)) (Int32.ofInt (value w.month.1))
      (Int32.ofInt (value w.day.1)) = Int32.ofInt w.number := by
  obtain ⟨hmonth, hday⟩ := h.bounds
  have hdate : IsDate (Int32.ofInt (value w.year.1)).toInt (Int32.ofInt (value w.month.1)).toInt
      (Int32.ofInt (value w.day.1)).toInt := by
    rw [toInt_ofInt_nat hyear, toInt_ofInt_nat (by omega), toInt_ofInt_nat (by omega)]
    exact h
  rw [ymdToDays_eq hdate, toInt_ofInt_nat hyear, toInt_ofInt_nat (by omega), toInt_ofInt_nat (by omega), julianDays_eq]
  have hsupported : SupportedYear (marchYear (value w.year.1) (value w.month.1)) := by
    unfold SupportedYear marchYear
    split_ifs <;> omega
  rw [if_pos hsupported, add_zero]
  rfl

end WrittenDate

/-- `parse_date` is exact on a text: it accepts exactly the dates that exist, and the days it returns are those of the
date that is written. -/
structure DateExact (s : List Char) : Prop where
  accepts : (parseDate s).isSome ↔ ∃ w : WrittenDate, w.text = s ∧ w.Exists
  back : ∀ days (w : WrittenDate), parseDate s = some days → w.text = s →
    (daysToYmd days).1.toInt = value w.year.1 ∧ (daysToYmd days).2.1.toInt = value w.month.1 ∧
      (daysToYmd days).2.2.toInt = value w.day.1

/-- Days whose date exists are the number of that date. -/
lemma toInt_eq_dayNumber {days : Int32}
    (h : IsDate (daysToYmd days).1.toInt (daysToYmd days).2.1.toInt (daysToYmd days).2.2.toInt) :
    days.toInt = Gregorian.dayNumber (daysToYmd days).1.toInt (daysToYmd days).2.1.toInt
      (daysToYmd days).2.2.toInt := by
  obtain ⟨⟨hy, hy'⟩, ⟨hm, hm'⟩, hd, hd'⟩ := civil_bounds days.le_toInt days.toInt_lt
  have hround : ∀ n : ℤ, -6000000 ≤ n → n ≤ 6000000 → (Int32.ofInt n).toInt = n := fun n hn hn' =>
    Int32.toInt_ofInt_of_le (by omega) (by omega)
  rw [daysToYmd_eq] at h ⊢
  dsimp only at h ⊢
  rw [hround _ hy hy', hround _ (by omega) (by omega), hround _ (by omega) (by omega)] at h ⊢
  have hlow : -2472632 ≤ days.toInt := by
    by_contra hlt
    have hnonpos := civil_day_nonpos (not_le.mp hlt)
    have hpos := h.day_pos
    omega
  rw [civil_eq_civilDate hlow]
  exact (dayNumber_civilDate days.toInt).symm

/-- `parse_date` is exact on a text if and only if what it reads denotes a date that exists, and a date that is
denoted is not out of reach of 32 bits. -/
lemma dateExact_iff (s : List Char) : DateExact s ↔
    (ReadableDate s → ∃ w : WrittenDate, w.text = s ∧ w.Exists) ∧
      ∀ w : WrittenDate, w.text = s → w.Exists → w.number < 2 ^ 31 := by
  constructor
  · intro hexact
    refine ⟨fun hread => hexact.accepts.mp ((parseDate_isSome s).mpr hread), ?_⟩
    rintro w rfl hexists
    obtain ⟨days, hdays⟩ := Option.isSome_iff_exists.mp (hexact.accepts.mpr ⟨w, rfl, hexists⟩)
    obtain ⟨hyear, hmonth, hday⟩ := hexact.back days w hdays rfl
    have hdate : IsDate (daysToYmd days).1.toInt (daysToYmd days).2.1.toInt (daysToYmd days).2.2.toInt := by
      rw [hyear, hmonth, hday]
      exact hexists
    have hnumber := toInt_eq_dayNumber hdate
    rw [hyear, hmonth, hday] at hnumber
    have hlt := days.toInt_lt
    have heq : w.number = days.toInt := hnumber.symm
    omega
  · rintro ⟨hread, hfits⟩
    refine ⟨?_, ?_⟩
    · constructor
      · intro hsome
        exact hread ((parseDate_isSome s).mp hsome)
      · rintro ⟨w, rfl, hexists⟩
        rw [hexists.parseDate, if_pos (hexists.year_lt (hfits w rfl hexists))]
        rfl
    · rintro days w hdays rfl
      obtain ⟨w', htext, hexists⟩ := hread ((parseDate_isSome _).mp (by rw [hdays]; rfl))
      obtain rfl := WrittenDate.text_injective htext
      have hnumber := hfits w' rfl hexists
      have hyear := hexists.year_lt hnumber
      obtain ⟨hmonth, hday⟩ := hexists.bounds
      rw [hexists.parseDate, if_pos hyear, Option.some_inj] at hdays
      have hexact : IsDate (Int32.ofInt (value w'.year.1)).toInt (Int32.ofInt (value w'.month.1)).toInt
          (Int32.ofInt (value w'.day.1)).toInt := by
        rw [WrittenDate.toInt_ofInt_nat hyear, WrittenDate.toInt_ofInt_nat (by omega),
          WrittenDate.toInt_ofInt_nat (by omega)]
        exact hexists
      have hround := hexact
      have hyear' := WrittenDate.toInt_ofInt_nat hyear
      have hmonth' := WrittenDate.toInt_ofInt_nat (n := value w'.month.1) (by omega)
      have hday' := WrittenDate.toInt_ofInt_nat (n := value w'.day.1) (by omega)
      have hdays' : days.toInt = Gregorian.dayNumber (Int32.ofInt (value w'.year.1)).toInt
          (Int32.ofInt (value w'.month.1)).toInt (Int32.ofInt (value w'.day.1)).toInt := by
        rw [← hdays]
        refine toInt_ymdToDays hexact (by omega) ?_
        rw [hyear', hmonth', hday']
        exact hnumber
      rw [daysToYmd_of_dayNumber hexact (by omega) hdays']
      exact ⟨hyear', hmonth', hday'⟩

/-! ## Instants -/

/-- Seconds are read: one number, or two with a point between them. -/
def ReadableSeconds (sec : List Char) : Prop :=
  match splitFirst '.' sec with
  | some (s, frac) => (∃ n, parseI32 s = some n) ∧ ∃ n, parseI32 frac = some n
  | none => ∃ n, parseI32 sec = some n

/-- The pieces of a time are read, whatever is after the seconds. -/
def ReadableTime (time : List Char) : Prop :=
  ∃ hs ms rest h m, time.splitOn ':' = hs :: ms :: rest ∧ parseI32 hs = some h ∧ parseI32 ms = some m ∧
    ∀ sec ∈ rest.head?, ReadableSeconds sec

/-- A date and a time are read, apart from `Z` at the end. -/
def ReadableInstant (s : List Char) : Prop :=
  ∃ date time, splitFirst 'T' (s.rdropWhile (· = 'Z')) = some (date, time) ∧ ReadableDate date ∧ ReadableTime time

lemma parseSeconds_isSome (sec : List Char) : (parseSeconds sec).isSome ↔ ReadableSeconds sec := by
  unfold parseSeconds ReadableSeconds
  split
  · rename_i s frac hsplit
    rcases hs : parseI32 s with - | n
    · simp
    rcases hfrac : parseI32 frac with - | k
    · simp
    simp
  · rename_i hsplit
    rcases hsec : parseI32 sec with - | n <;> simp

lemma parseTime_isSome (time : List Char) : (parseTime time).isSome ↔ ReadableTime time := by
  unfold parseTime ReadableTime
  split
  · rename_i hs ms rest hsplit
    rw [hsplit]
    have hrest : (parseRest rest).isSome ↔ ∀ sec ∈ rest.head?, ReadableSeconds sec := by
      rcases rest with - | ⟨sec, rest⟩
      · simp [parseRest]
      · simpa [parseRest] using parseSeconds_isSome sec
    constructor
    · intro hsome
      rcases hh : parseI32 hs with - | h
      · simp [hh] at hsome
      rcases hm : parseI32 ms with - | m
      · simp [hm] at hsome
      rcases hread : parseRest rest with - | ⟨s, frac⟩
      · simp [hh, hm, hread] at hsome
      exact ⟨hs, ms, rest, h, m, rfl, hh, hm, hrest.mp (by rw [hread]; rfl)⟩
    · rintro ⟨hs', ms', rest', h, m, heq, hh, hm, hsec⟩
      obtain ⟨rfl, rfl, rfl⟩ : hs = hs' ∧ ms = ms' ∧ rest = rest' := by simpa using heq
      obtain ⟨⟨s, frac⟩, hread⟩ := Option.isSome_iff_exists.mp (hrest.mpr hsec)
      simp only [hh, hm, hread, Option.bind_eq_bind, Option.bind_some]
      rfl
  · rename_i hshape
    refine iff_of_false (by simp) ?_
    rintro ⟨hs, ms, rest, -, -, hsplit, -⟩
    exact hshape hs ms rest hsplit

lemma parseDatetime_isSome (s : List Char) : (parseDatetime s).isSome ↔ ReadableInstant s := by
  unfold parseDatetime ReadableInstant
  rcases hsplit : splitFirst 'T' (s.rdropWhile (· = 'Z')) with - | ⟨date, time⟩
  · simp
  rcases hdate : parseDate date with - | days
  · have hnot : ¬ ReadableDate date := by
      rw [← parseDate_isSome, hdate]
      exact Bool.false_ne_true
    simp [hdate, hnot]
  rcases htime : parseTime time with - | ⟨h, m, s, frac⟩
  · have hnot : ¬ ReadableTime time := by
      rw [← parseTime_isSome, htime]
      exact Bool.false_ne_true
    simp [hdate, htime, hnot]
  have hread : ReadableDate date := (parseDate_isSome date).mp (by rw [hdate]; rfl)
  have hread' : ReadableTime time := (parseTime_isSome time).mp (by rw [htime]; rfl)
  simp [hdate, htime, hread, hread']

/-- No instant of 32-bit parts overflows. -/
lemma toInt_datetimeToMillis (y mo d h mi s frac : Int32) : (datetimeToMillis y mo d h mi s frac).toInt =
    (ymdToDays y mo d).toInt * 86400000 + h.toInt * 3600000 + mi.toInt * 60000 + s.toInt * 1000 + frac.toInt := by
  have hdays := (ymdToDays y mo d).le_toInt
  have hdays' := (ymdToDays y mo d).toInt_lt
  have hhour := h.le_toInt
  have hhour' := h.toInt_lt
  have hminute := mi.le_toInt
  have hminute' := mi.toInt_lt
  have hsecond := s.le_toInt
  have hsecond' := s.toInt_lt
  have hfrac := frac.le_toInt
  have hfrac' := frac.toInt_lt
  exact Int64.toInt_ofInt_of_le (by omega) (by omega)

/-- What `parse_datetime` takes the digits of a fraction for. -/
def storedFraction (length n : ℕ) : ℕ :=
  match length with
  | 1 => n * 100
  | 2 => n * 10
  | _ => n

lemma toInt_fractionMillis {length n : ℕ} (hn : n < 2 ^ 31) (hlength : n < 10 ^ length) :
    (fractionMillis length (Int32.ofInt n)).toInt = storedFraction length n := by
  unfold fractionMillis storedFraction
  split
  · have hsmall : n < 10 := by simpa using hlength
    interval_cases n <;> rfl
  · have hsmall : n < 100 := by simpa using hlength
    interval_cases n <;> rfl
  · exact WrittenDate.toInt_ofInt_nat hn

/-- A fraction is stored exactly when it has at most three digits or is zero. -/
lemma storedFraction_eq_iff {length n : ℕ} (hpos : length ≠ 0) (hn : n < 10 ^ length) :
    storedFraction length n = 1000 * n / 10 ^ length ↔ length ≤ 3 ∨ n = 0 := by
  rcases length with - | _ | _ | _ | length
  · exact absurd rfl hpos
  · refine iff_of_true ?_ (Or.inl (by omega))
    simp only [storedFraction]
    omega
  · refine iff_of_true ?_ (Or.inl (by omega))
    simp only [storedFraction]
    omega
  · refine iff_of_true ?_ (Or.inl (by omega))
    simp [storedFraction]
  · have hdrop : 1000 * n / 10 ^ (length + 1 + 1 + 1 + 1) = n / 10 ^ (length + 1) := by
      have hsplit : 10 ^ (length + 1 + 1 + 1 + 1) = 1000 * 10 ^ (length + 1) := by ring
      rw [hsplit, Nat.mul_div_mul_left _ _ (by norm_num)]
    have hstored : storedFraction (length + 1 + 1 + 1 + 1) n = n := rfl
    rw [hdrop, hstored]
    constructor
    · intro heq
      right
      by_contra hne
      have hbase : 1 < 10 ^ (length + 1) := Nat.one_lt_pow (Nat.succ_ne_zero length) (by norm_num)
      have hlt := Nat.div_lt_self (Nat.pos_of_ne_zero hne) hbase
      omega
    · rintro (hle | rfl)
      · omega
      · simp

namespace WrittenTime

variable {w : WrittenTime}

lemma not_mem_secondText {c : Char} (hdigit : c.isDigit = false) (hpoint : c ≠ '.')
    (s : Numeral × Option Numeral) : c ∉ secondText s := by
  have hsecond := s.1.2.not_mem hdigit
  unfold secondText
  rcases s with ⟨n, - | f⟩
  · simpa using hsecond
  · have hfraction := f.2.not_mem hdigit
    simp only [List.mem_append, List.mem_cons, not_or]
    exact ⟨hsecond, hpoint, hfraction⟩

lemma not_mem_text {c : Char} (hdigit : c.isDigit = false) (hcolon : c ≠ ':') (hpoint : c ≠ '.')
    (w : WrittenTime) : c ∉ w.text := by
  have hhour := w.hour.2.not_mem hdigit
  have hminute := w.minute.2.not_mem hdigit
  unfold text
  rcases hw : w.second with - | s
  · simp only [List.mem_append, List.mem_cons, List.not_mem_nil, not_or]
    exact ⟨hhour, hcolon, hminute, not_false⟩
  · simp only [List.mem_append, List.mem_cons, not_or]
    exact ⟨hhour, hcolon, hminute, hcolon, not_mem_secondText hdigit hpoint s⟩

lemma splitOn_text (w : WrittenTime) : w.text.splitOn ':' =
    w.hour.1 :: w.minute.1 :: (w.second.map secondText).toList := by
  have hhour := w.hour.2.not_mem (c := ':') (by decide)
  have hminute := w.minute.2.not_mem (c := ':') (by decide)
  unfold text
  rw [splitOn_cons hhour]
  rcases w.second with - | s
  · dsimp only
    rw [List.append_nil, splitOn_of_not_mem hminute]
    rfl
  · dsimp only
    rw [splitOn_cons hminute, splitOn_of_not_mem (not_mem_secondText (by decide) (by decide) s)]
    rfl

/-- The milliseconds of seconds as they are stored. -/
def storedSecondMillis : Option (Numeral × Option Numeral) → ℕ
  | some (s, some f) => value s.1 * 1000 + storedFraction f.1.length (value f.1)
  | some (s, none) => value s.1 * 1000
  | none => 0

lemma toInt_parseI32 {n : Numeral} {k : Int32} (h : parseI32 n.1 = some k) : value n.1 < 2 ^ 31 ∧ k.toInt = value n.1 := by
  by_cases hvalue : value n.1 < 2 ^ 31
  · rw [WrittenDate.parseI32_numeral hvalue, Option.some_inj] at h
    rw [← h]
    exact ⟨hvalue, WrittenDate.toInt_ofInt_nat hvalue⟩
  · rw [WrittenDate.parseI32_numeral_none hvalue] at h
    cases h

/-- What is read in the seconds of a text. -/
lemma parseRest_second {second : Option (Numeral × Option Numeral)} {s frac : Int32}
    (h : parseRest (second.map secondText).toList = some (s, frac)) :
    s.toInt * 1000 + frac.toInt = storedSecondMillis second ∧
      storedSecondMillis second < secondMillis second + 2 ^ 31 := by
  have hfrac := frac.toInt_lt
  rcases second with - | ⟨n, - | f⟩
  · obtain ⟨rfl, rfl⟩ : 0 = s ∧ 0 = frac := by simpa [parseRest] using h
    exact ⟨rfl, by norm_num [storedSecondMillis, secondMillis]⟩
  · have hpoint := n.2.not_mem (c := '.') (by decide)
    have hread : parseRest ((some (n, none)).map secondText).toList = (parseI32 n.1).map fun s => (s, 0) := by
      simp [parseRest, secondText, parseSeconds, splitFirst_of_not_mem hpoint]
    rw [hread] at h
    obtain ⟨k, hk, heq⟩ := Option.map_eq_some_iff.mp h
    obtain ⟨rfl, rfl⟩ := Prod.mk.inj heq
    obtain ⟨-, hvalue⟩ := toInt_parseI32 hk
    simp [storedSecondMillis, secondMillis, hvalue]
  · have hpoint := n.2.not_mem (c := '.') (by decide)
    have hread : parseRest ((some (n, some f)).map secondText).toList = (parseI32 n.1).bind fun s =>
        (parseI32 f.1).bind fun k => some (s, fractionMillis f.1.length k) := by
      simp [parseRest, secondText, parseSeconds, splitFirst_append hpoint]
    rw [hread] at h
    obtain ⟨k, hk, h⟩ := Option.bind_eq_some_iff.mp h
    obtain ⟨l, hl, heq⟩ := Option.bind_eq_some_iff.mp h
    obtain ⟨rfl, rfl⟩ := Prod.mk.inj (Option.some_inj.mp heq)
    obtain ⟨-, hvalue⟩ := toInt_parseI32 hk
    obtain ⟨hlt, hvalue'⟩ := toInt_parseI32 hl
    have hfraction : l = Int32.ofInt (value f.1) := by rw [← hvalue', Int32.ofInt_toInt]
    rw [hfraction, toInt_fractionMillis hlt (value_lt f.2.digits)] at hfrac ⊢
    rw [hvalue]
    refine ⟨by simp [storedSecondMillis], ?_⟩
    simp only [storedSecondMillis, secondMillis]
    generalize 1000 * value f.1 / 10 ^ f.1.length = cut
    omega

/-- What `parse_datetime` reads in a time. -/
lemma parseTime_text {h m s frac : Int32} (hread : parseTime w.text = some (h, m, s, frac)) :
    h.toInt = value w.hour.1 ∧ m.toInt = value w.minute.1 ∧
      s.toInt * 1000 + frac.toInt = storedSecondMillis w.second ∧
      storedSecondMillis w.second < secondMillis w.second + 2 ^ 31 := by
  unfold parseTime at hread
  rw [w.splitOn_text] at hread
  simp only [Option.bind_eq_bind] at hread
  obtain ⟨h', hh, hread⟩ := Option.bind_eq_some_iff.mp hread
  obtain ⟨m', hm, hread⟩ := Option.bind_eq_some_iff.mp hread
  obtain ⟨⟨s', frac'⟩, hs, heq⟩ := Option.bind_eq_some_iff.mp hread
  obtain ⟨rfl, rfl, rfl, rfl⟩ : h' = h ∧ m' = m ∧ s' = s ∧ frac' = frac := by simpa using heq
  exact ⟨(toInt_parseI32 hh).2, (toInt_parseI32 hm).2, parseRest_second hs⟩

/-- The stored milliseconds are those of the time when its fraction is plain. -/
lemma storedSecondMillis_eq_iff (w : WrittenTime) :
    value w.hour.1 * 3600000 + value w.minute.1 * 60000 + storedSecondMillis w.second = w.millis ↔ w.PlainFraction := by
  unfold millis PlainFraction
  rcases w.second with - | ⟨n, - | f⟩
  · simp [storedSecondMillis, secondMillis]
  · simp [storedSecondMillis, secondMillis]
  · have hlength : f.1.length ≠ 0 := fun hzero => f.2.nonempty (List.length_eq_zero_iff.mp hzero)
    have hfraction := storedFraction_eq_iff hlength (value_lt f.2.digits)
    simp only [storedSecondMillis, secondMillis]
    constructor
    · rintro heq s f' hsome
      obtain ⟨rfl, rfl⟩ : n = s ∧ f = f' := by simpa using hsome
      exact hfraction.mp (by omega)
    · intro hplain
      rw [hfraction.mpr (hplain n f rfl)]

end WrittenTime

namespace WrittenInstant

variable {w : WrittenInstant}

/-- The date and the time of a text are taken apart. -/
lemma splitFirst_text (w : WrittenInstant) :
    splitFirst 'T' (w.text.rdropWhile (· = 'Z')) = some (w.date.text, w.time.text) := by
  have hdate : ∀ {c : Char}, c.isDigit = false → c ≠ '-' → c ∉ w.date.text := by
    intro c hdigit hdash
    have hyear := w.date.year.2.not_mem hdigit
    have hmonth := w.date.month.2.not_mem hdigit
    have hday := w.date.day.2.not_mem hdigit
    simp only [WrittenDate.text, List.mem_append, List.mem_cons, not_or]
    exact ⟨hyear, hdash, hmonth, hdash, hday⟩
  have hzone : 'Z' ∉ w.date.text ++ 'T' :: w.time.text := by
    have htime := WrittenTime.not_mem_text (c := 'Z') (by decide) (by decide) (by decide) w.time
    simp only [List.mem_append, List.mem_cons, not_or]
    exact ⟨hdate (by decide) (by decide), by decide, htime⟩
  have hplain : (w.date.text ++ 'T' :: w.time.text).rdropWhile (· = 'Z') = w.date.text ++ 'T' :: w.time.text := by
    rw [List.rdropWhile_eq_self_iff]
    intro hne hlast
    have hmem := List.getLast_mem hne
    rw [of_decide_eq_true hlast] at hmem
    exact hzone hmem
  have htrim : w.text.rdropWhile (· = 'Z') = w.date.text ++ 'T' :: w.time.text := by
    unfold text
    rcases w.zone with - | -
    · rw [if_neg Bool.false_ne_true, List.append_nil]
      exact hplain
    · rw [if_pos rfl, List.rdropWhile_concat_pos _ _ _ (by simp)]
      exact hplain
  rw [htrim]
  exact splitFirst_append (hdate (by decide) (by decide)) w.time.text

/-- What `parse_datetime` reads in an instant whose date exists. -/
lemma parseDatetime_text {ms : Int64} (hexists : w.date.Exists) (h : parseDatetime w.text = some ms) :
    value w.date.year.1 < 2 ^ 31 ∧ ms.toInt = (ymdToDays (daysToYmd (Int32.ofInt w.date.number)).1
      (daysToYmd (Int32.ofInt w.date.number)).2.1 (daysToYmd (Int32.ofInt w.date.number)).2.2).toInt * 86400000 +
      ((value w.time.hour.1 * 3600000 + value w.time.minute.1 * 60000 +
        WrittenTime.storedSecondMillis w.time.second : ℕ) : ℤ) ∧
      WrittenTime.storedSecondMillis w.time.second < WrittenTime.secondMillis w.time.second + 2 ^ 31 := by
  unfold parseDatetime at h
  rw [w.splitFirst_text] at h
  simp only [Option.bind_eq_bind, Option.bind_some] at h
  obtain ⟨days, hdays, h⟩ := Option.bind_eq_some_iff.mp h
  obtain ⟨⟨hour, minute, second, frac⟩, htime, heq⟩ := Option.bind_eq_some_iff.mp h
  obtain ⟨hhour, hminute, hsecond, hbound⟩ := WrittenTime.parseTime_text htime
  have hyear : value w.date.year.1 < 2 ^ 31 := by
    by_contra hyear
    rw [hexists.parseDate, if_neg hyear] at hdays
    cases hdays
  rw [hexists.parseDate, if_pos hyear, Option.some_inj, hexists.ymdToDays hyear] at hdays
  refine ⟨hyear, ?_, hbound⟩
  rw [← Option.some_inj.mp heq, ← hdays, toInt_datetimeToMillis, hhour, hminute]
  push_cast
  rw [← hsecond]
  ring

/-- A date that exists has no negative number of days since the year 0. -/
lemma number_bounds (hexists : w.date.Exists) : -719528 ≤ w.date.number := by
  obtain ⟨⟨hmonth, hmonth'⟩, hday, -⟩ := hexists.bounds
  simp only [WrittenDate.number, Gregorian.dayNumber, marchYear, marchMonth]
  split_ifs <;> omega

/-- The days of a date that fits are converted there and back. -/
lemma days_round_trip (hexists : w.date.Exists) (hfits : w.date.number < 2 ^ 31) :
    (ymdToDays (daysToYmd (Int32.ofInt w.date.number)).1 (daysToYmd (Int32.ofInt w.date.number)).2.1
      (daysToYmd (Int32.ofInt w.date.number)).2.2).toInt = w.date.number := by
  have hyear := hexists.year_lt hfits
  obtain ⟨hmonth, hday⟩ := hexists.bounds
  have hyear' := WrittenDate.toInt_ofInt_nat hyear
  have hmonth' := WrittenDate.toInt_ofInt_nat (n := value w.date.month.1) (by omega)
  have hday' := WrittenDate.toInt_ofInt_nat (n := value w.date.day.1) (by omega)
  have hlow := number_bounds hexists
  have hnumber : (Int32.ofInt w.date.number).toInt = w.date.number := Int32.toInt_ofInt_of_le (by omega) hfits
  have hdate : IsDate (Int32.ofInt (value w.date.year.1)).toInt (Int32.ofInt (value w.date.month.1)).toInt
      (Int32.ofInt (value w.date.day.1)).toInt := by
    rw [hyear', hmonth', hday']
    exact hexists
  have hback : daysToYmd (Int32.ofInt w.date.number) = (Int32.ofInt (value w.date.year.1),
      Int32.ofInt (value w.date.month.1), Int32.ofInt (value w.date.day.1)) := by
    refine daysToYmd_of_dayNumber hdate (by omega) ?_
    rw [hnumber, hyear', hmonth', hday']
    rfl
  rw [hback, hexists.ymdToDays hyear, hnumber]

/-- The days just beyond 32 bits come back as negative ones. -/
lemma days_wrapped (k : Fin 24) :
    (ymdToDays (daysToYmd (Int32.ofInt (2 ^ 31 + k))).1 (daysToYmd (Int32.ofInt (2 ^ 31 + k))).2.1
      (daysToYmd (Int32.ofInt (2 ^ 31 + k))).2.2).toInt < 0 := by
  revert k
  decide

end WrittenInstant

/-- `parse_datetime` is exact on a text: what it accepts is a date that exists with a time in range, and what it returns
is that instant. -/
def InstantExact (s : List Char) : Prop :=
  ∀ ms, parseDatetime s = some ms →
    ∃ w : WrittenInstant, w.text = s ∧ w.date.Exists ∧ w.time.InRange ∧ ms.toInt = w.millis

/-- `parse_datetime` is exact on a text if and only if what it reads denotes a date that exists, within the days of 32
bits, and a time in range whose fraction has at most three digits or is zero. -/
lemma instantExact_iff (s : List Char) : InstantExact s ↔
    (ReadableInstant s → ∃ w : WrittenInstant, w.text = s ∧ w.date.Exists ∧ w.date.number < 2 ^ 31 ∧
      w.time.InRange ∧ w.time.PlainFraction) := by
  constructor
  · intro hexact hread
    obtain ⟨ms, hms⟩ := Option.isSome_iff_exists.mp ((parseDatetime_isSome s).mpr hread)
    obtain ⟨w, rfl, hexists, hrange, hmillis⟩ := hexact ms hms
    obtain ⟨hyear, hstored, hbound⟩ := WrittenInstant.parseDatetime_text hexists hms
    have hdays := Int32.toInt_lt (ymdToDays (daysToYmd (Int32.ofInt w.date.number)).1
      (daysToYmd (Int32.ofInt w.date.number)).2.1 (daysToYmd (Int32.ofInt w.date.number)).2.2)
    have hfits : w.date.number < 2 ^ 31 := by
      -- the days that are lost would have to be made up by the milliseconds of the fraction
      by_contra hnot
      have hnear : w.date.number < 2 ^ 31 + 24 := by
        unfold WrittenInstant.millis WrittenTime.millis at hmillis
        omega
      obtain ⟨k, hk⟩ : ∃ k : Fin 24, w.date.number = 2 ^ 31 + k :=
        ⟨⟨(w.date.number - 2 ^ 31).toNat, by omega⟩, by simp; omega⟩
      have hneg := WrittenInstant.days_wrapped k
      rw [← hk] at hneg
      unfold WrittenInstant.millis WrittenTime.millis at hmillis
      omega
    refine ⟨w, rfl, hexists, hfits, hrange, w.time.storedSecondMillis_eq_iff.mp ?_⟩
    rw [WrittenInstant.days_round_trip hexists hfits, hmillis] at hstored
    unfold WrittenInstant.millis at hstored
    omega
  · intro hcondition ms hms
    have hread := (parseDatetime_isSome s).mp (by rw [hms]; rfl)
    obtain ⟨w, rfl, hexists, hfits, hrange, hplain⟩ := hcondition hread
    obtain ⟨-, hstored, -⟩ := WrittenInstant.parseDatetime_text hexists hms
    refine ⟨w, rfl, hexists, hrange, ?_⟩
    rw [hstored, WrittenInstant.days_round_trip hexists hfits, w.time.storedSecondMillis_eq_iff.mpr hplain]
    rfl

/-- The texts on which the two functions are exact. -/
theorem parse_exact_iff (s : List Char) :
    (DateExact s ↔ (ReadableDate s → ∃ w : WrittenDate, w.text = s ∧ w.Exists) ∧
      ∀ w : WrittenDate, w.text = s → w.Exists → w.number < 2 ^ 31) ∧
    (InstantExact s ↔ (ReadableInstant s → ∃ w : WrittenInstant, w.text = s ∧ w.date.Exists ∧
      w.date.number < 2 ^ 31 ∧ w.time.InRange ∧ w.time.PlainFraction)) :=
  ⟨dateExact_iff s, instantExact_iff s⟩

/-- The 30th of February is accepted, and so is the hour 99. -/
theorem parse_not_exact : ¬ DateExact "2023-02-30".toList ∧ ¬ InstantExact "2023-01-01T99:00".toList := by
  constructor
  · intro hexact
    obtain ⟨w, htext, hexists⟩ := hexact.accepts.mp (by decide)
    have hsplit := w.splitOn_text
    rw [htext] at hsplit
    have hpieces : ["2023".toList, "02".toList, "30".toList] = [w.year.1, w.month.1, w.day.1] := hsplit
    obtain ⟨hyear, hmonth, hday⟩ : "2023".toList = w.year.1 ∧ "02".toList = w.month.1 ∧ "30".toList = w.day.1 := by
      simpa using hpieces
    unfold WrittenDate.Exists at hexists
    rw [← hyear, ← hmonth, ← hday] at hexists
    exact absurd hexists (by decide)
  · intro hexact
    obtain ⟨w, htext, -, hrange, -⟩ := hexact 1672887600000 (by decide)
    have hsplit := w.splitFirst_text
    rw [htext] at hsplit
    have hparts : some ("2023-01-01".toList, "99:00".toList) = some (w.date.text, w.time.text) := hsplit
    have htime : "99:00".toList = w.time.text := congrArg Prod.snd (Option.some_inj.mp hparts)
    have hsplit' := w.time.splitOn_text
    rw [← htime] at hsplit'
    have hpieces : "99".toList :: ["00".toList] = w.time.hour.1 :: w.time.minute.1 ::
        (w.time.second.map WrittenTime.secondText).toList := hsplit'
    have hhour := hrange.hour
    rw [← (List.cons.inj hpieces).1] at hhour
    exact absurd hhour (by decide)

end Maharit.Temporal
