import Mathlib.Data.Set.Basic
import Mathlib.Tactic

/-!
# First occurrences

Removing from a list the elements that occurred before, by value.  `keepFirst` starts with a set of elements
that count as seen.  Removing duplicates of a part first does not change what is left of the whole.
-/

namespace FirstOccurrences

open Classical in
/-- The elements that are not in the set, each at its first occurrence. -/
noncomputable def keepFirst {α : Type*} (seen : Set α) : List α → List α
  | [] => []
  | a :: l => if a ∈ seen then keepFirst seen l else a :: keepFirst (insert a seen) l

variable {α : Type*} {seen : Set α} {l l' : List α}

lemma keepFirst_cons_of_mem {a : α} (ha : a ∈ seen) : keepFirst seen (a :: l) = keepFirst seen l := by
  rw [keepFirst, if_pos ha]

lemma keepFirst_cons_of_notMem {a : α} (ha : a ∉ seen) :
    keepFirst seen (a :: l) = a :: keepFirst (insert a seen) l := by
  rw [keepFirst, if_neg ha]

/-- What is left is what was there and not seen. -/
lemma mem_keepFirst {b : α} : b ∈ keepFirst seen l ↔ b ∈ l ∧ b ∉ seen := by
  induction l generalizing seen with
  | nil => simp [keepFirst]
  | cons a l ih =>
    by_cases ha : a ∈ seen
    · rw [keepFirst_cons_of_mem ha, ih, List.mem_cons]
      constructor
      · intro h
        exact ⟨Or.inr h.1, h.2⟩
      · rintro ⟨rfl | hb, hseen⟩
        · exact absurd ha hseen
        · exact ⟨hb, hseen⟩
    · rw [keepFirst_cons_of_notMem ha, List.mem_cons, ih, List.mem_cons, Set.mem_insert_iff]
      constructor
      · rintro (rfl | ⟨hb, hseen⟩)
        · exact ⟨Or.inl rfl, ha⟩
        · exact ⟨Or.inr hb, fun h => hseen (Or.inr h)⟩
      · rintro ⟨rfl | hb, hseen⟩
        · exact Or.inl rfl
        · by_cases hba : b = a
          · exact Or.inl hba
          · exact Or.inr ⟨hb, fun h => h.elim hba hseen⟩

/-- The elements of the first part count as seen in the second one. -/
lemma keepFirst_append : keepFirst seen (l ++ l') = keepFirst seen l ++ keepFirst (seen ∪ {b | b ∈ l}) l' := by
  induction l generalizing seen with
  | nil =>
    have hnil : {b : α | b ∈ ([] : List α)} = ∅ := by simp
    rw [List.nil_append, keepFirst, List.nil_append, hnil, Set.union_empty]
  | cons a l ih =>
    rw [List.cons_append]
    by_cases ha : a ∈ seen
    · have hset : seen ∪ {b | b ∈ a :: l} = seen ∪ {b | b ∈ l} := by
        ext b
        simp only [Set.mem_union, Set.mem_ofPred_eq, List.mem_cons]
        constructor
        · rintro (hb | rfl | hb)
          exacts [Or.inl hb, Or.inl ha, Or.inr hb]
        · rintro (hb | hb)
          exacts [Or.inl hb, Or.inr (Or.inr hb)]
      rw [keepFirst_cons_of_mem ha, keepFirst_cons_of_mem ha, ih, hset]
    · have hset : seen ∪ {b | b ∈ a :: l} = insert a seen ∪ {b | b ∈ l} := by
        ext b
        simp only [Set.mem_union, Set.mem_ofPred_eq, List.mem_cons, Set.mem_insert_iff]
        tauto
      rw [keepFirst_cons_of_notMem ha, keepFirst_cons_of_notMem ha, ih, hset, List.cons_append]

/-- Duplicates removed early are removed late as well. -/
lemma keepFirst_keepFirst_append : keepFirst seen (keepFirst seen l ++ l') = keepFirst seen (l ++ l') := by
  have hself : keepFirst seen (keepFirst seen l) = keepFirst seen l := by
    induction l generalizing seen with
    | nil => rfl
    | cons a l ih =>
      by_cases ha : a ∈ seen
      · rw [keepFirst_cons_of_mem ha, ih]
      · rw [keepFirst_cons_of_notMem ha, keepFirst_cons_of_notMem ha, ih]
  have hset : seen ∪ {b | b ∈ keepFirst seen l} = seen ∪ {b | b ∈ l} := by
    ext b
    simp only [Set.mem_union, Set.mem_ofPred_eq, mem_keepFirst]
    constructor
    · rintro (hb | hb)
      exacts [Or.inl hb, Or.inr hb.1]
    · rintro (hb | hb)
      · exact Or.inl hb
      · by_cases hseen : b ∈ seen
        exacts [Or.inl hseen, Or.inr ⟨hb, hseen⟩]
  rw [keepFirst_append, keepFirst_append, hself, hset]

/-- A list without repetitions and without seen elements keeps everything. -/
lemma keepFirst_eq_self (hnodup : l.Nodup) (hseen : ∀ a ∈ l, a ∉ seen) : keepFirst seen l = l := by
  induction l generalizing seen with
  | nil => rfl
  | cons a l ih =>
    obtain ⟨hal, hl⟩ := List.nodup_cons.mp hnodup
    have hrest : keepFirst (insert a seen) l = l := by
      refine ih hl fun b hb hmem => ?_
      rcases Set.mem_insert_iff.mp hmem with rfl | hmem
      · exact hal hb
      · exact hseen b (List.mem_cons_of_mem a hb) hmem
    rw [keepFirst_cons_of_notMem (hseen a List.mem_cons_self), hrest]

end FirstOccurrences
