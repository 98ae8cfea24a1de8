import Mathlib.Tactic

/-!
# Numbers in texts

Reading a number of a fixed width: an optional sign and digits, as standard libraries read them.  A text is cut at a
character into pieces, and the pieces of a text are what it was put together from.
-/

namespace NumberText

/-- Digits, at least one. -/
structure IsDigits (cs : List Char) : Prop where
  nonempty : cs ≠ []
  digits : ∀ c ∈ cs, c.isDigit = true

instance (cs : List Char) : Decidable (IsDigits cs) :=
  decidable_of_iff (cs ≠ [] ∧ cs.all Char.isDigit = true)
    ⟨fun h => ⟨h.1, List.all_eq_true.mp h.2⟩, fun h => ⟨h.nonempty, List.all_eq_true.mpr h.digits⟩⟩

/-- The number that digits stand for. -/
def value (cs : List Char) : ℕ := Nat.ofDigitChars 10 cs 0

/-- Digits without a sign. -/
def readDigits (bound : ℕ) (cs : List Char) : Option ℕ :=
  if IsDigits cs ∧ value cs < bound then some (value cs) else none

/-- An integer of `w` bits: digits, perhaps with a sign. -/
def readInt (w : ℕ) : List Char → Option ℤ
  | '-' :: cs => (readDigits (2 ^ (w - 1) + 1) cs).map fun n : ℕ => -(n : ℤ)
  | '+' :: cs => (readDigits (2 ^ (w - 1)) cs).map fun n : ℕ => (n : ℤ)
  | cs => (readDigits (2 ^ (w - 1)) cs).map fun n : ℕ => (n : ℤ)

lemma IsDigits.not_mem {cs : List Char} (h : IsDigits cs) {c : Char} (hc : c.isDigit = false) : c ∉ cs := by
  intro hmem
  rw [h.digits c hmem] at hc
  cases hc

lemma readInt_of_digits {w : ℕ} {cs : List Char} (h : IsDigits cs) :
    readInt w cs = if value cs < 2 ^ (w - 1) then some (value cs : ℤ) else none := by
  have hread : readInt w cs = (readDigits (2 ^ (w - 1)) cs).map fun n : ℕ => (n : ℤ) := by
    unfold readInt
    split
    · exact absurd (h.digits '-' List.mem_cons_self) (by decide)
    · exact absurd (h.digits '+' List.mem_cons_self) (by decide)
    · rfl
  rw [hread, readDigits]
  by_cases hvalue : value cs < 2 ^ (w - 1)
  · rw [if_pos ⟨h, hvalue⟩, if_pos hvalue, Option.map_some]
  · rw [if_neg fun hand => hvalue hand.2, if_neg hvalue, Option.map_none]

/-- A number that is read has `w` bits. -/
lemma readInt_bounds {w : ℕ} {cs : List Char} {n : ℤ} (h : readInt w cs = some n) :
    -2 ^ (w - 1) ≤ n ∧ n < 2 ^ (w - 1) := by
  have hpos : (0 : ℤ) < 2 ^ (w - 1) := by positivity
  have hbound : ∀ {bound k : ℕ} {ds : List Char}, readDigits bound ds = some k → k < bound := by
    intro bound k ds hk
    unfold readDigits at hk
    split at hk
    · rename_i hand
      cases hk
      exact hand.2
    · cases hk
  unfold readInt at h
  split at h
  · obtain ⟨k, hk, rfl⟩ := Option.map_eq_some_iff.mp h
    have hlt := hbound hk
    have hle : (k : ℤ) ≤ 2 ^ (w - 1) := by exact_mod_cast Nat.lt_succ_iff.mp hlt
    omega
  · obtain ⟨k, hk, rfl⟩ := Option.map_eq_some_iff.mp h
    have hlt : (k : ℤ) < 2 ^ (w - 1) := by exact_mod_cast hbound hk
    omega
  · obtain ⟨k, hk, rfl⟩ := Option.map_eq_some_iff.mp h
    have hlt : (k : ℤ) < 2 ^ (w - 1) := by exact_mod_cast hbound hk
    omega

lemma digit_le {c : Char} (h : c.isDigit = true) : c.toNat - '0'.toNat ≤ 9 := by
  have hbounds : 48 ≤ c.val ∧ c.val ≤ 57 := by simpa [Char.isDigit] using h
  have hhigh : c.toNat ≤ 57 := UInt32.le_iff_toNat_le.mp hbounds.2
  have hzero : '0'.toNat = 48 := rfl
  omega

/-- Digits stand for a number of so many digits. -/
lemma value_lt {cs : List Char} (h : ∀ c ∈ cs, c.isDigit = true) : value cs < 10 ^ cs.length := by
  unfold value
  induction cs with
  | nil => simp
  | cons c cs ih =>
    have hrest := ih fun d hd => h d (List.mem_cons_of_mem c hd)
    have hdigit := digit_le (h c List.mem_cons_self)
    rw [Nat.ofDigitChars_cons, Nat.ofDigitChars_eq_ofDigitChars_zero, Nat.mul_zero, Nat.zero_add, List.length_cons,
      pow_succ]
    nlinarith [Nat.mul_le_mul_left (10 ^ cs.length) hdigit]

/-! ## Cutting a text -/

/-- What is before and after the first occurrence of a character. -/
def splitFirst (c : Char) (cs : List Char) : Option (List Char × List Char) :=
  if c ∈ cs then some (cs.takeWhile (· ≠ c), (cs.dropWhile (· ≠ c)).tail) else none

lemma splitFirst_append {c : Char} {before : List Char} (h : c ∉ before) (after : List Char) :
    splitFirst c (before ++ c :: after) = some (before, after) := by
  have hbefore : ∀ d ∈ before, decide (d ≠ c) = true := by
    intro d hd
    refine decide_eq_true fun heq => h ?_
    rwa [← heq]
  have hmem : c ∈ before ++ c :: after := List.mem_append_right before List.mem_cons_self
  rw [splitFirst, if_pos hmem, List.takeWhile_append_of_pos hbefore, List.dropWhile_append_of_pos hbefore,
    List.takeWhile_cons_of_neg (by simp), List.dropWhile_cons_of_neg (by simp), List.append_nil, List.tail_cons]

lemma splitFirst_eq_some {c : Char} {cs before after : List Char} (h : splitFirst c cs = some (before, after)) :
    cs = before ++ c :: after ∧ c ∉ before := by
  have hmem : c ∈ cs := by
    by_contra hnot
    rw [splitFirst, if_neg hnot] at h
    cases h
  obtain ⟨first, rest, rfl, hfirst⟩ := List.eq_append_cons_of_mem hmem
  rw [splitFirst_append hfirst, Option.some_inj, Prod.mk.injEq] at h
  rw [← h.1, ← h.2]
  exact ⟨rfl, hfirst⟩

lemma splitFirst_eq_none {c : Char} {cs : List Char} (h : splitFirst c cs = none) : c ∉ cs := by
  intro hmem
  rw [splitFirst, if_pos hmem] at h
  cases h

lemma splitFirst_of_not_mem {c : Char} {cs : List Char} (h : c ∉ cs) : splitFirst c cs = none := if_neg h

/-- The pieces of a text are what it is put together from. -/
lemma splitOn_cons {c : Char} {piece : List Char} (h : c ∉ piece) (rest : List Char) :
    (piece ++ c :: rest).splitOn c = piece :: rest.splitOn c := by
  induction piece with
  | nil =>
    rw [List.nil_append, List.splitOn_cons_eq_if_modifyHead, if_pos (by simp)]
  | cons d piece ih =>
    have hd : d ≠ c := fun heq => h (heq ▸ List.mem_cons_self)
    have hpiece : c ∉ piece := fun hmem => h (List.mem_cons_of_mem d hmem)
    rw [List.cons_append, List.splitOn_cons_eq_if_modifyHead, if_neg (by simpa using hd), ih hpiece,
      List.modifyHead_cons]

lemma splitOn_of_not_mem {c : Char} {cs : List Char} (h : c ∉ cs) : cs.splitOn c = [cs] := by
  induction cs with
  | nil => simp
  | cons d cs ih =>
    have hd : d ≠ c := fun heq => h (heq ▸ List.mem_cons_self)
    have hrest : c ∉ cs := fun hmem => h (List.mem_cons_of_mem d hmem)
    rw [List.splitOn_cons_eq_if_modifyHead, if_neg (by simpa using hd), ih hrest, List.modifyHead_cons]

end NumberText
