import Mathlib.Algebra.BigOperators.Group.List.Basic

/-!
# Work divided between threads

A list is divided at positions that nobody knows, its parts are worked off independently, and the results are joined in
the order of the parts.  Mapping and adding up come to the same however the list is divided.
-/

/-- How a list is divided. -/
inductive Division where
  /-- One thread works it off. -/
  | whole
  /-- It is divided at a position. -/
  | divided (position : ℕ) (left right : Division)

namespace Division

variable {A B M : Type*}

/-- `par_iter().map(f).collect()`. -/
def map (f : A → B) : Division → List A → List B
  | whole, l => l.map f
  | divided i left right, l => left.map f (l.take i) ++ right.map f (l.drop i)

/-- `par_iter().sum()`. -/
def sum [AddMonoid M] : Division → List M → M
  | whole, l => l.sum
  | divided i left right, l => left.sum (l.take i) + right.sum (l.drop i)

@[simp] theorem map_eq (f : A → B) (d : Division) (l : List A) : d.map f l = l.map f := by
  induction d generalizing l with
  | whole => rfl
  | divided i left right ihleft ihright =>
    rw [map, ihleft, ihright, ← List.map_append, List.take_append_drop]

@[simp] theorem sum_eq [AddMonoid M] (d : Division) (l : List M) : d.sum l = l.sum := by
  induction d generalizing l with
  | whole => rfl
  | divided i left right ihleft ihright =>
    rw [sum, ihleft, ihright, ← List.sum_append, List.take_append_drop]

end Division
