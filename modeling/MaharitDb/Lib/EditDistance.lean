import Mathlib.Tactic

/-!
# Edit distance

The distance of Levenshtein between two lists, by the table that is filled row by row and of which only the last
row is kept.  Renaming the elements of both lists never makes the distance greater.
-/

namespace EditDistance

variable {α β : Type*} [DecidableEq α] [DecidableEq β]

/-- The entries of a row after the first one: `left` is the entry before, the list the row above. -/
def fillRow (a : α) : (left : ℕ) → List α → List ℕ → List ℕ
  | left, b :: bs, diagonal :: above :: row =>
      let entry := min (min (above + 1) (left + 1)) (diagonal + if a = b then 0 else 1)
      entry :: fillRow a entry bs (above :: row)
  | _, _, _ => []

/-- The row of the `i`-th element. -/
def nextRow (b : List α) (row : List ℕ) (e : α × ℕ) : List ℕ := (e.2 + 1) :: fillRow e.1 (e.2 + 1) b row

/-- The last row of the table. -/
def lastRow (a b : List α) : List ℕ := a.zipIdx.foldl (nextRow b) (List.range (b.length + 1))

/-- The distance; the table has a row for each element of the longer list. -/
def levenshteinDistance (a b : List α) : ℕ :=
  if a.length < b.length then (lastRow b a)[a.length]?.getD 0 else (lastRow a b)[b.length]?.getD 0

/-- A row that is nowhere greater. -/
abbrev RowLe (row row' : List ℕ) : Prop := List.Forall₂ (· ≤ ·) row row'

lemma fillRow_le (f : α → β) (a : α) {left left' : ℕ} (hleft : left ≤ left') (b : List α)
    {row row' : List ℕ} (hrow : RowLe row row') :
    RowLe (fillRow (f a) left (b.map f) row) (fillRow a left' b row') := by
  induction b generalizing left left' row row' with
  | nil => exact List.Forall₂.nil
  | cons b bs ih =>
    cases hrow with
    | nil => exact List.Forall₂.nil
    | cons hdiagonal hrow =>
      cases hrow with
      | nil => exact List.Forall₂.nil
      | cons habove hrow =>
        have hcost : (if f a = f b then 0 else 1) ≤ (if a = b then 0 else 1 : ℕ) := by
          by_cases hab : a = b
          · simp [hab]
          · rw [if_neg hab]
            split <;> omega
        have hentry : ∀ {d d' u u' l l' : ℕ}, d ≤ d' → u ≤ u' → l ≤ l' →
            min (min (u + 1) (l + 1)) (d + if f a = f b then 0 else 1) ≤
              min (min (u' + 1) (l' + 1)) (d' + if a = b then 0 else 1) := by
          intro d d' u u' l l' hd hu hl
          omega
        exact List.Forall₂.cons (hentry hdiagonal habove hleft)
          (ih (hentry hdiagonal habove hleft) (List.Forall₂.cons habove hrow))

lemma lastRow_le (f : α → β) (a b : List α) : RowLe (lastRow (a.map f) (b.map f)) (lastRow a b) := by
  have hfold : ∀ (entries : List (α × ℕ)) {row row' : List ℕ}, RowLe row row' →
      RowLe ((entries.map fun e => (f e.1, e.2)).foldl (nextRow (b.map f)) row)
        (entries.foldl (nextRow b) row') := by
    intro entries
    induction entries with
    | nil => exact fun hrow => hrow
    | cons e entries ih =>
      intro row row' hrow
      exact ih (List.Forall₂.cons le_rfl (fillRow_le f e.1 le_rfl b hrow))
  have hzip : (a.map f).zipIdx = a.zipIdx.map fun e => (f e.1, e.2) := by
    rw [List.zipIdx_map]
    rfl
  rw [lastRow, lastRow, hzip, List.length_map]
  exact hfold a.zipIdx (List.forall₂_same.mpr fun n _ => le_rfl)

lemma getD_le {row row' : List ℕ} (h : RowLe row row') (n : ℕ) : row[n]?.getD 0 ≤ row'[n]?.getD 0 := by
  induction h generalizing n with
  | nil => exact le_rfl
  | cons hentry _ ih =>
    cases n with
    | zero => exact hentry
    | succ n => exact ih n

/-- Renaming the elements does not make two lists more different. -/
theorem levenshteinDistance_map_le (f : α → β) (a b : List α) :
    levenshteinDistance (a.map f) (b.map f) ≤ levenshteinDistance a b := by
  unfold levenshteinDistance
  rw [List.length_map, List.length_map]
  split
  · exact getD_le (lastRow_le f b a) _
  · exact getD_le (lastRow_le f a b) _

example : levenshteinDistance "kitten".toList "sitting".toList = 3 := by decide

end EditDistance
