import Mathlib.Tactic

/-!
# Decimal texts

The decimal text of an integer, possibly padded with zeros, as a list of characters.  Whatever follows it,
as long as it does not start with a digit, the integer can be read back from it.
-/

namespace DecimalText

/-- The rest of a text does not start with a digit. -/
def EndsDigits (r : List Char) : Prop := ∀ c ∈ r.head?, c.isDigit = false

lemma endsDigits_nil : EndsDigits [] := by
  intro c hc
  simp at hc

lemma endsDigits_cons {c : Char} (hc : c.isDigit = false) (r : List Char) : EndsDigits (c :: r) := by
  intro c' hc'
  rw [List.head?_cons, Option.mem_some_iff] at hc'
  rwa [← hc']

/-- The digits of a number after some zeros. -/
def paddedDigits (zeros n : ℕ) : List Char := List.replicate zeros '0' ++ Nat.toDigits 10 n

lemma isDigit_of_mem {zeros n : ℕ} {c : Char} (hc : c ∈ paddedDigits zeros n) : c.isDigit = true := by
  rcases List.mem_append.mp hc with hzero | hdigit
  · rw [List.eq_of_mem_replicate hzero]
    decide
  · exact Nat.isDigit_of_mem_toDigits (by decide) (by decide) hdigit

/-- Padding does not change the number that is read. -/
lemma ofDigitChars_paddedDigits (zeros n : ℕ) : Nat.ofDigitChars 10 (paddedDigits zeros n) 0 = n := by
  rw [paddedDigits, Nat.ofDigitChars_append, Nat.ofDigitChars_replicate_zero, Nat.mul_zero]
  exact Nat.ofDigitChars_ten_toDigits

/-- There is at least one digit. -/
lemma paddedDigits_eq_cons (zeros n : ℕ) :
    ∃ c t, paddedDigits zeros n = c :: t ∧ c.isDigit = true := by
  have hne : paddedDigits zeros n ≠ [] :=
    fun h => Nat.toDigits_ne_nil (List.append_eq_nil_iff.mp h).2
  obtain ⟨c, t, ht⟩ := List.exists_cons_of_ne_nil hne
  refine ⟨c, t, ht, ?_⟩
  have hmem : c ∈ paddedDigits zeros n := by
    rw [ht]
    exact List.mem_cons_self
  exact isDigit_of_mem hmem

/-- The digits in front of the rest are those `takeWhile` takes. -/
lemma takeWhile_paddedDigits (zeros n : ℕ) {r : List Char} (hr : EndsDigits r) :
    (paddedDigits zeros n ++ r).takeWhile Char.isDigit = paddedDigits zeros n := by
  have hall : ∀ c ∈ paddedDigits zeros n, c.isDigit = true := fun c hc => isDigit_of_mem hc
  rw [List.takeWhile_append_of_pos hall]
  have hrest : r.takeWhile Char.isDigit = [] := by
    cases r with
    | nil => rfl
    | cons c r =>
      have hc : c.isDigit = false := hr c rfl
      rw [List.takeWhile_cons, hc]
      simp
  rw [hrest, List.append_nil]

/-- A number and what follows it can be read back. -/
lemma paddedDigits_append_inj {zeros zeros' n n' : ℕ} {r r' : List Char} (hr : EndsDigits r)
    (hr' : EndsDigits r') (h : paddedDigits zeros n ++ r = paddedDigits zeros' n' ++ r') :
    n = n' ∧ r = r' := by
  have hdigits : paddedDigits zeros n = paddedDigits zeros' n' := by
    rw [← takeWhile_paddedDigits zeros n hr, h, takeWhile_paddedDigits zeros' n' hr']
  constructor
  · calc
      n = Nat.ofDigitChars 10 (paddedDigits zeros n) 0 := (ofDigitChars_paddedDigits zeros n).symm
      _ = Nat.ofDigitChars 10 (paddedDigits zeros' n') 0 := by rw [hdigits]
      _ = n' := ofDigitChars_paddedDigits zeros' n'
  · rw [hdigits] at h
    exact List.append_cancel_left h

/-- The text of an integer: a minus sign if it is negative, some zeros and the digits. -/
def intText (zeros : ℕ) (n : ℤ) : List Char :=
  (if n < 0 then ['-'] else []) ++ paddedDigits zeros n.natAbs

/-- The first character is a minus sign or a digit. -/
lemma intText_eq_cons (zeros : ℕ) (n : ℤ) :
    ∃ c t, intText zeros n = c :: t ∧ (c = '-' ∨ c.isDigit = true) := by
  obtain ⟨c, t, ht, hc⟩ := paddedDigits_eq_cons zeros n.natAbs
  rw [intText]
  split
  · exact ⟨'-', paddedDigits zeros n.natAbs, rfl, Or.inl rfl⟩
  · exact ⟨c, t, ht, Or.inr hc⟩

/-- Digits do not start with a minus sign. -/
lemma paddedDigits_append_ne_minus {zeros n : ℕ} {r r' : List Char} :
    paddedDigits zeros n ++ r ≠ '-' :: r' := by
  obtain ⟨c, t, ht, hc⟩ := paddedDigits_eq_cons zeros n
  intro h
  rw [ht, List.cons_append, List.cons.injEq] at h
  rw [h.1] at hc
  exact absurd hc (by decide)

/-- An integer and what follows it can be read back. -/
theorem intText_append_inj {zeros zeros' : ℕ} {n n' : ℤ} {r r' : List Char} (hr : EndsDigits r)
    (hr' : EndsDigits r') (h : intText zeros n ++ r = intText zeros' n' ++ r') : n = n' ∧ r = r' := by
  unfold intText at h
  by_cases hn : n < 0 <;> by_cases hn' : n' < 0
  · -- both are negative
    simp only [hn, hn', if_true, List.cons_append, List.cons.injEq,
      true_and] at h
    obtain ⟨habs, hrest⟩ := paddedDigits_append_inj hr hr' h
    exact ⟨by omega, hrest⟩
  · simp only [hn, hn', if_true, if_false, List.cons_append,
      List.nil_append] at h
    exact absurd h.symm paddedDigits_append_ne_minus
  · simp only [hn, hn', if_true, if_false, List.cons_append,
      List.nil_append] at h
    exact absurd h paddedDigits_append_ne_minus
  · -- neither is negative
    simp only [hn, hn', if_false, List.nil_append] at h
    obtain ⟨habs, hrest⟩ := paddedDigits_append_inj hr hr' h
    exact ⟨by omega, hrest⟩

/-! ## The texts of the standard library -/

lemma toList_toString_nat (n : ℕ) : (toString n).toList = paddedDigits 0 n := by
  rw [Nat.toString_eq_repr, Nat.toList_repr]
  rfl

lemma toList_toString_int (n : ℤ) : (toString n).toList = intText 0 n := by
  rw [Int.toString_eq_repr, Int.repr_eq_if, intText]
  by_cases hn : n < 0
  · have habs : (-n).toNat = n.natAbs := by omega
    rw [if_neg (by omega), if_pos hn, habs, String.toList_append, Nat.toList_repr]
    rfl
  · have habs : n.toNat = n.natAbs := by omega
    rw [if_pos (by omega), if_neg hn, habs, Nat.toList_repr]
    rfl

/-- `pushn` on the empty string. -/
lemma toList_pushn_empty (c : Char) (k : ℕ) : ("".pushn c k).toList = List.replicate k c := by
  rw [String.pushn_eq_repeat_push]
  induction k with
  | zero => rfl
  | succ k ih => rw [Nat.repeat, String.toList_push, ih, List.replicate_succ']

end DecimalText
