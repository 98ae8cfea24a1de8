import MaharitDb.Lib.DecimalText
import Mathlib.Data.List.DropRight

/-!
# Texts without blanks around them

Removing what stands before the first and after the last character that is not blank, and the white space of Unicode.
-/

namespace TrimmedText

section Trim

variable {α : Type*} {blank : α → Bool}

/-- The list without the blank elements at its start and at its end. -/
def trim (blank : α → Bool) (l : List α) : List α := (l.dropWhile blank).rdropWhile blank

/-- A list whose first and last elements are not blank stays as it is. -/
lemma trim_eq_self {l : List α} (hfirst : ∀ a ∈ l.head?, blank a = false) (hlast : ∀ a ∈ l.getLast?, blank a = false) :
    trim blank l = l := by
  have hdrop : l.dropWhile blank = l := by
    rcases l with - | ⟨a, l⟩
    · rfl
    · exact List.dropWhile_cons_of_neg (by simpa using hfirst a rfl)
  rw [trim, hdrop, List.rdropWhile_eq_self_iff]
  intro hne
  have hlast' := hlast (l.getLast hne) (List.getLast?_eq_some_getLast hne)
  simpa using hlast'

/-- The first element of a trimmed list is not blank. -/
lemma head?_trim {l : List α} : ∀ a ∈ (trim blank l).head?, blank a = false := by
  intro a ha
  obtain ⟨rest, hrest⟩ := List.rdropWhile_prefix blank (l.dropWhile blank)
  have hhead : a ∈ (l.dropWhile blank).head? := by
    rw [← hrest, List.head?_append, Option.mem_def, Option.or_eq_some_iff]
    exact Or.inl ha
  have hnot := List.head?_dropWhile_not blank l
  rw [Option.mem_def.mp hhead] at hnot
  exact hnot

lemma getLast?_trim {l : List α} : ∀ a ∈ (trim blank l).getLast?, blank a = false := by
  intro a ha
  have hne : trim blank l ≠ [] := by
    intro hnil
    rw [hnil] at ha
    cases ha
  rw [List.getLast?_eq_some_getLast hne, Option.mem_some_iff] at ha
  have hnot := List.rdropWhile_last_not blank (l.dropWhile blank) hne
  rw [← ha]
  exact eq_false_of_ne_true hnot

theorem trim_trim (l : List α) : trim blank (trim blank l) = trim blank l := trim_eq_self head?_trim getLast?_trim

end Trim

/-- `char::is_whitespace`: the characters with the property `White_Space`. -/
def isWhitespace (c : Char) : Bool :=
  let n := c.toNat
  (9 ≤ n && n ≤ 13) || n == 0x20 || n == 0x85 || n == 0xA0 || n == 0x1680 || (0x2000 ≤ n && n ≤ 0x200A) ||
    n == 0x2028 || n == 0x2029 || n == 0x202F || n == 0x205F || n == 0x3000

/-- `str::trim`. -/
def trimText (s : String) : String := String.ofList (trim isWhitespace s.toList)

lemma toList_trimText (s : String) : (trimText s).toList = trim isWhitespace s.toList := String.toList_ofList

lemma trimText_trimText (s : String) : trimText (trimText s) = trimText s := by
  rw [trimText, toList_trimText, trim_trim]
  rfl

/-- A text without white space stays as it is. -/
lemma trimText_eq_self {s : String} (h : ∀ c ∈ s.toList, isWhitespace c = false) : trimText s = s := by
  rw [trimText, trim_eq_self (fun c hc => h c (List.mem_of_mem_head? hc)) fun c hc => h c (List.mem_of_getLast? hc),
    String.ofList_toList]

lemma isWhitespace_of_isDigit {c : Char} (h : c.isDigit = true) : isWhitespace c = false := by
  have hbounds : 48 ≤ c.val ∧ c.val ≤ 57 := by simpa [Char.isDigit] using h
  have hlow : 48 ≤ c.toNat := UInt32.le_iff_toNat_le.mp hbounds.1
  have hhigh : c.toNat ≤ 57 := UInt32.le_iff_toNat_le.mp hbounds.2
  simp only [isWhitespace, Bool.or_eq_false_iff, Bool.and_eq_false_imp, decide_eq_true_eq, decide_eq_false_iff_not,
    beq_eq_false_iff_ne]
  omega

/-- The text of an integer has no white space. -/
lemma trimText_toString_int (n : ℤ) : trimText (toString n) = toString n := by
  refine trimText_eq_self fun c hc => ?_
  rw [DecimalText.toList_toString_int, DecimalText.intText] at hc
  rcases List.mem_append.mp hc with hsign | hdigit
  · split_ifs at hsign
    · obtain rfl := List.mem_singleton.mp hsign
      decide
    · cases hsign
  · exact isWhitespace_of_isDigit (DecimalText.isDigit_of_mem hdigit)

end TrimmedText
