import Mathlib.Order.Bounds.Basic
import MaharitDb.Lib.EditDistance

/-!
# Edit scripts

The distance of Levenshtein is the least number of edits that turn one list into the other.  A script goes through
both lists once, from the front; every sequence of edits is worth a script that is no longer.  The table is filled
from the front as well, so its entries are about prefixes: reversed, these grow at the front.
-/

namespace EditDistance

variable {α : Type*} {a b c : List α} {x y : α} {m n : ℕ}

/-- One edit: at the front an element is put in, taken out or replaced, or the edit is behind the first element. -/
inductive Edit : List α → List α → Prop where
  | insert (x : α) (a : List α) : Edit a (x :: a)
  | delete (x : α) (a : List α) : Edit (x :: a) a
  | substitute (x y : α) (a : List α) : Edit (x :: a) (y :: a)
  | cons (x : α) {a b : List α} (h : Edit a b) : Edit (x :: a) (x :: b)

/-- A number of edits, one after another, turn a list into another. -/
inductive Edits : ℕ → List α → List α → Prop where
  | refl (a : List α) : Edits 0 a a
  | step {n : ℕ} {a b c : List α} (h : Edits n a b) (hedit : Edit b c) : Edits (n + 1) a c

/-! ## Edits from both ends and in both directions -/

lemma Edit.symm (h : Edit a b) : Edit b a := by
  induction h with
  | insert x a => exact .delete x a
  | delete x a => exact .insert x a
  | substitute x y a => exact .substitute y x a
  | cons x _ ih => exact .cons x ih

lemma Edit.append_right (h : Edit a b) (c : List α) : Edit (a ++ c) (b ++ c) := by
  induction h with
  | insert x a => exact .insert x (a ++ c)
  | delete x a => exact .delete x (a ++ c)
  | substitute x y a => exact .substitute x y (a ++ c)
  | cons x _ ih => exact .cons x ih

lemma Edit.append_left (h : Edit a b) (c : List α) : Edit (c ++ a) (c ++ b) := by
  induction c with
  | nil => exact h
  | cons x c ih => exact .cons x ih

lemma Edit.reverse (h : Edit a b) : Edit a.reverse b.reverse := by
  induction h with
  | insert x a =>
    have hlast := (Edit.insert x []).append_left a.reverse
    rwa [List.append_nil, ← List.reverse_cons] at hlast
  | delete x a =>
    have hlast := (Edit.delete x []).append_left a.reverse
    rwa [List.append_nil, ← List.reverse_cons] at hlast
  | substitute x y a =>
    have hlast := (Edit.substitute x y []).append_left a.reverse
    rwa [← List.reverse_cons, ← List.reverse_cons] at hlast
  | cons x _ ih =>
    rw [List.reverse_cons, List.reverse_cons]
    exact ih.append_right [x]

lemma Edits.cons (x : α) (h : Edits n a b) : Edits n (x :: a) (x :: b) := by
  induction h with
  | refl a => exact .refl (x :: a)
  | step _ hedit ih => exact .step ih (.cons x hedit)

lemma Edits.head (hedit : Edit a b) (h : Edits n b c) : Edits (n + 1) a c := by
  induction h with
  | refl b => exact .step (.refl a) hedit
  | step _ hlast ih => exact .step (ih hedit) hlast

lemma Edits.symm (h : Edits n a b) : Edits n b a := by
  induction h with
  | refl a => exact .refl a
  | step _ hedit ih => exact ih.head hedit.symm

lemma edits_comm : Edits n a b ↔ Edits n b a := ⟨Edits.symm, Edits.symm⟩

lemma Edits.reverse (h : Edits n a b) : Edits n a.reverse b.reverse := by
  induction h with
  | refl a => exact .refl a.reverse
  | step _ hedit ih => exact .step ih hedit.reverse

lemma edits_reverse : Edits n a.reverse b.reverse ↔ Edits n a b := by
  refine ⟨fun h => ?_, Edits.reverse⟩
  have hback := h.reverse
  rwa [List.reverse_reverse, List.reverse_reverse] at hback

/-! ## Scripts -/

/-- A pass through two lists in which so many elements are not kept. -/
inductive Script : ℕ → List α → List α → Prop where
  | nil : Script 0 [] []
  | keep (x : α) {n : ℕ} {a b : List α} (h : Script n a b) : Script n (x :: a) (x :: b)
  | substitute (x y : α) {n : ℕ} {a b : List α} (h : Script n a b) : Script (n + 1) (x :: a) (y :: b)
  | insert (y : α) {n : ℕ} {a b : List α} (h : Script n a b) : Script (n + 1) a (y :: b)
  | delete (x : α) {n : ℕ} {a b : List α} (h : Script n a b) : Script (n + 1) (x :: a) b

lemma Script.refl (a : List α) : Script 0 a a := by
  induction a with
  | nil => exact .nil
  | cons x a ih => exact .keep x ih

/-- The edits of a script, made one after another. -/
lemma Script.edits (h : Script n a b) : Edits n a b := by
  induction h with
  | nil => exact .refl []
  | keep x _ ih => exact ih.cons x
  | substitute x y _ ih => exact .step (ih.cons x) (.substitute x y _)
  | insert y _ ih => exact .step ih (.insert y _)
  | delete x _ ih => exact .step (ih.cons x) (.delete x _)

/-- An edit after a script is worth a script with one edit more. -/
lemma Script.edit (h : Script n a b) (hedit : Edit b c) : ∃ m ≤ n + 1, Script m a c := by
  induction h generalizing c with
  | nil =>
    obtain ⟨x, -⟩ := hedit
    exact ⟨1, le_rfl, .insert x .nil⟩
  | @keep x n a b h ih =>
    rcases hedit with ⟨y, _⟩ | ⟨_, _⟩ | ⟨_, y, _⟩ | ⟨_, hedit⟩
    · exact ⟨n + 1, le_rfl, .insert y (.keep x h)⟩
    · exact ⟨n + 1, le_rfl, .delete x h⟩
    · exact ⟨n + 1, le_rfl, .substitute x y h⟩
    · obtain ⟨m, hm, hscript⟩ := ih hedit
      exact ⟨m, hm, .keep x hscript⟩
  | @substitute x y n a b h ih =>
    rcases hedit with ⟨z, _⟩ | ⟨_, _⟩ | ⟨_, z, _⟩ | ⟨_, hedit⟩
    · exact ⟨n + 2, le_rfl, .insert z (.substitute x y h)⟩
    · exact ⟨n + 1, by omega, .delete x h⟩
    · exact ⟨n + 1, by omega, .substitute x z h⟩
    · obtain ⟨m, hm, hscript⟩ := ih hedit
      exact ⟨m + 1, by omega, .substitute x y hscript⟩
  | @insert y n a b h ih =>
    rcases hedit with ⟨z, _⟩ | ⟨_, _⟩ | ⟨_, z, _⟩ | ⟨_, hedit⟩
    · exact ⟨n + 2, le_rfl, .insert z (.insert y h)⟩
    · exact ⟨n, by omega, h⟩
    · exact ⟨n + 1, by omega, .insert z h⟩
    · obtain ⟨m, hm, hscript⟩ := ih hedit
      exact ⟨m + 1, by omega, .insert y hscript⟩
  | @delete x n a b h ih =>
    obtain ⟨m, hm, hscript⟩ := ih hedit
    exact ⟨m + 1, by omega, .delete x hscript⟩

/-- A sequence of edits is worth a script that is no longer. -/
lemma Edits.script (h : Edits n a b) : ∃ m ≤ n, Script m a b := by
  induction h with
  | refl a => exact ⟨0, le_rfl, .refl a⟩
  | step _ hedit ih =>
    obtain ⟨m, hm, hscript⟩ := ih
    obtain ⟨k, hk, hscript'⟩ := hscript.edit hedit
    exact ⟨k, by omega, hscript'⟩

/-! ## The shortest script -/

/-- The length of the shortest script. -/
abbrev Least (a b : List α) (n : ℕ) : Prop := IsLeast {k | Script k a b} n

lemma Least.edits (h : Least a b n) : IsLeast {k | Edits k a b} n := by
  refine ⟨h.1.edits, fun k hk => ?_⟩
  obtain ⟨m, hm, hscript⟩ := Edits.script hk
  exact (h.2 hscript).trans hm

lemma least_nil_left (b : List α) : Least [] b b.length := by
  induction b with
  | nil => exact ⟨.nil, fun k _ => Nat.zero_le k⟩
  | cons y b ih =>
    refine ⟨.insert y ih.1, fun k hk => ?_⟩
    obtain ⟨⟩ | ⟨⟩ | ⟨⟩ | ⟨-, h⟩ | ⟨⟩ := hk
    exact Nat.succ_le_succ (ih.2 h)

lemma least_nil_right (a : List α) : Least a [] a.length := by
  induction a with
  | nil => exact ⟨.nil, fun k _ => Nat.zero_le k⟩
  | cons x a ih =>
    refine ⟨.delete x ih.1, fun k hk => ?_⟩
    obtain ⟨⟩ | ⟨⟩ | ⟨⟩ | ⟨⟩ | ⟨-, h⟩ := hk
    exact Nat.succ_le_succ (ih.2 h)

/-- An entry of the table from the three entries before it. -/
lemma Least.entry [DecidableEq α] {diagonal above left : ℕ} (hdiagonal : Least a b diagonal) (habove : Least a (y :: b) above)
    (hleft : Least (x :: a) b left) :
    Least (x :: a) (y :: b) (min (min (above + 1) (left + 1)) (diagonal + if x = y then 0 else 1)) := by
  constructor
  · have hcross : Script (diagonal + if x = y then 0 else 1) (x :: a) (y :: b) := by
      by_cases hxy : x = y
      · rw [if_pos hxy, hxy]
        exact .keep y hdiagonal.1
      · rw [if_neg hxy]
        exact .substitute x y hdiagonal.1
    rcases min_choice (min (above + 1) (left + 1)) (diagonal + if x = y then 0 else 1) with hmin | hmin
    · rcases min_choice (above + 1) (left + 1) with hmin' | hmin'
      · rw [hmin, hmin']
        exact .delete x habove.1
      · rw [hmin, hmin']
        exact .insert y hleft.1
    · rw [hmin]
      exact hcross
  · intro k hk
    obtain ⟨⟩ | ⟨-, h⟩ | ⟨-, -, h⟩ | ⟨-, h⟩ | ⟨-, h⟩ := hk
    · have hle := hdiagonal.2 h
      rw [if_pos rfl]
      exact (min_le_right _ _).trans hle
    · have hle := hdiagonal.2 h
      have hcost : (if x = y then 0 else 1 : ℕ) ≤ 1 := by
        split <;> omega
      omega
    · have hle := hleft.2 h
      omega
    · have hle := habove.2 h
      omega

/-! ## The table -/

/-- The entries of a row to the right of a column: the elements of the first list up to the row are reversed, and
those of the second list up to the column. -/
def Entries (a : List α) : List α → List α → List ℕ → Prop
  | _, [], [] => True
  | b, y :: bs, n :: row => Least a (y :: b) n ∧ Entries a (y :: b) bs row
  | _, _, _ => False

lemma Entries.fillRow [DecidableEq α] {bs : List α} {row : List ℕ} {left diagonal : ℕ} (hleft : Least (x :: a) b left)
    (hdiagonal : Least a b diagonal) (h : Entries a b bs row) :
    Entries (x :: a) b bs (fillRow x left bs (diagonal :: row)) := by
  induction bs generalizing b row left diagonal with
  | nil =>
    cases row with
    | nil => trivial
    | cons n row => exact h.elim
  | cons y bs ih =>
    cases row with
    | nil => exact h.elim
    | cons above row =>
      obtain ⟨habove, hrow⟩ := h
      have hentry := Least.entry hdiagonal habove hleft
      exact ⟨hentry, ih hentry habove hrow⟩

/-- A row of the table. -/
def Row (a bs : List α) : List ℕ → Prop
  | n :: row => Least a [] n ∧ Entries a [] bs row
  | [] => False

lemma row_range (bs : List α) : Row [] bs (List.range (bs.length + 1)) := by
  have hentries : ∀ b : List α, Entries [] b bs (List.range' (b.length + 1) bs.length) := by
    induction bs with
    | nil => exact fun _ => trivial
    | cons y bs ih => exact fun b => ⟨least_nil_left (y :: b), ih (y :: b)⟩
  rw [List.range_eq_range', List.range'_succ]
  exact ⟨least_nil_left [], hentries []⟩

lemma Row.nextRow [DecidableEq α] {bs : List α} {row : List ℕ} (h : Row a bs row) (x : α) :
    Row (x :: a) bs (nextRow bs row (x, a.length)) := by
  cases row with
  | nil => exact h.elim
  | cons n row =>
    obtain ⟨hfirst, hrow⟩ := h
    have hnext := least_nil_right (x :: a)
    exact ⟨hnext, hrow.fillRow hnext hfirst⟩

lemma row_lastRow [DecidableEq α] (as bs : List α) : Row as.reverse bs (lastRow as bs) := by
  have hfold : ∀ (as a : List α) (row : List ℕ), Row a bs row →
      Row (as.reverse ++ a) bs ((as.zipIdx a.length).foldl (EditDistance.nextRow bs) row) := by
    intro as
    induction as with
    | nil => exact fun a row h => h
    | cons x as ih =>
      intro a row h
      have hrest := ih (x :: a) _ (h.nextRow x)
      rwa [List.reverse_cons, List.append_assoc, List.singleton_append]
  have h := hfold as [] _ (row_range bs)
  rwa [List.append_nil] at h

lemma Entries.last {bs : List α} {row : List ℕ} {first : ℕ} (hfirst : Least a b first) (h : Entries a b bs row) :
    Least a (bs.reverse ++ b) ((first :: row)[bs.length]?.getD 0) := by
  induction bs generalizing b row first with
  | nil => exact hfirst
  | cons y bs ih =>
    cases row with
    | nil => exact h.elim
    | cons n row =>
      obtain ⟨hentry, hrow⟩ := h
      have hlast := ih hentry hrow
      rwa [List.reverse_cons, List.append_assoc, List.singleton_append]

lemma Row.last {bs : List α} {row : List ℕ} (h : Row a bs row) : Least a bs.reverse (row[bs.length]?.getD 0) := by
  cases row with
  | nil => exact h.elim
  | cons n row =>
    have hlast := h.2.last h.1
    rwa [List.append_nil] at hlast

/-! ## The distance -/

variable [DecidableEq α]

lemma isLeast_lastRow (a b : List α) : IsLeast {n | Edits n a b} ((lastRow a b)[b.length]?.getD 0) := by
  have h := (row_lastRow a b).last.edits
  simpa only [edits_reverse] using h

/-- The distance is the least number of edits that turn the first list into the second. -/
theorem isLeast_levenshteinDistance (a b : List α) : IsLeast {n | Edits n a b} (levenshteinDistance a b) := by
  unfold levenshteinDistance
  split
  · have hset : {n | Edits n a b} = {n | Edits n b a} := Set.ext fun n => edits_comm
    rw [hset]
    exact isLeast_lastRow b a
  · exact isLeast_lastRow a b

theorem levenshteinDistance_comm (a b : List α) : levenshteinDistance a b = levenshteinDistance b a := by
  have hset : {n | Edits n a b} = {n | Edits n b a} := Set.ext fun n => edits_comm
  have h := isLeast_levenshteinDistance a b
  rw [hset] at h
  exact h.unique (isLeast_levenshteinDistance b a)

theorem levenshteinDistance_eq_zero (a b : List α) : levenshteinDistance a b = 0 ↔ a = b := by
  have h := isLeast_levenshteinDistance a b
  constructor
  · intro hzero
    rw [hzero] at h
    obtain ⟨⟩ := h.1
    rfl
  · rintro rfl
    exact Nat.le_zero.mp (h.2 (.refl a))

end EditDistance
