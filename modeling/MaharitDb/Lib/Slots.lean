import Mathlib.Data.List.GetD
import Mathlib.Tactic

/-!
# Vectors of slots

A vector whose entries are addressed by position, with a default for positions behind its end
(an empty slot, an empty set).  The first three lemmas say what is found at a position after an entry
was set, changed in place, or pushed; then the occupied slots are counted and ranked.  Two orders of
the same free slots differ by a renaming of the slots.
-/

namespace Slots

variable {α : Type*}

/-- Reading after an entry was set. -/
theorem getD_set (l : List α) (i j : ℕ) (v d : α) :
    (l.set i v).getD j d = if j = i ∧ i < l.length then v else l.getD j d := by
  simp only [List.getD_eq_getElem?_getD, List.getElem?_set]
  by_cases hji : i = j
  · subst hji
    by_cases hlen : i < l.length
    · simp [hlen]
    · simp [hlen]
  · simp [hji, Ne.symm hji]

/-- Reading after an entry was pushed. -/
theorem getD_push (l : List α) (j : ℕ) (v d : α) :
    (l ++ [v]).getD j d = if j = l.length then v else l.getD j d := by
  by_cases hlt : j < l.length
  · rw [List.getD_append _ _ _ _ hlt, if_neg (Nat.ne_of_lt hlt)]
  · by_cases hj : j = l.length
    · subst hj
      simp [List.getD_eq_getElem?_getD]
    · have hgt : l.length < j := by omega
      rw [if_neg hj, List.getD_eq_default _ _ (by simp; omega), List.getD_eq_default _ _ hgt.le]

/-- Reading after an entry was changed in place, when there is an entry or the change keeps the
default. -/
theorem getD_modify (l : List α) (i j : ℕ) (f : α → α) {d : α} (h : f d = d ∨ i < l.length) :
    (l.modify i f).getD j d = if j = i then f (l.getD j d) else l.getD j d := by
  simp only [List.getD_eq_getElem?_getD, List.getElem?_modify]
  by_cases hji : i = j
  · subst hji
    cases hi : l[i]? with
    | some a => simp
    | none =>
      have hlen : l.length ≤ i := List.getElem?_eq_none_iff.mp hi
      have hd : f d = d := h.resolve_right (not_lt.mpr hlen)
      simp [hd]
  · simp [hji, Ne.symm hji]

/-- A vector of defaults reads as the default everywhere. -/
theorem getD_replicate (k j : ℕ) (d : α) : (List.replicate k d).getD j d = d := by
  by_cases h : j < k
  · rw [List.getD_eq_getElem _ _ (by simpa using h), List.getElem_replicate]
  · exact List.getD_eq_default _ _ (by simpa using not_lt.mp h)

/-! ## Occupied slots -/

/-- The contents of the occupied slots. -/
theorem mem_filterMap_id {l : List (Option α)} {v : α} :
    v ∈ l.filterMap id ↔ ∃ i, l.getD i none = some v := by
  simp only [List.mem_filterMap, id, exists_eq_right]
  constructor
  · intro hv
    obtain ⟨i, hi, hget⟩ := List.getElem_of_mem hv
    exact ⟨i, by rw [List.getD_eq_getElem _ _ hi, hget]⟩
  · rintro ⟨i, hi⟩
    have hlt : i < l.length := by
      by_contra hge
      rw [List.getD_eq_default _ _ (not_lt.mp hge)] at hi
      cases hi
    rw [List.getD_eq_getElem _ _ hlt] at hi
    exact hi ▸ List.getElem_mem hlt

/-- Contents that know their position come in the order of the positions. -/
theorem pairwise_map_filterMap_id {l : List (Option α)} {key : α → ℕ}
    (h : ∀ i v, l.getD i none = some v → key v = i) :
    ((l.filterMap id).map key).Pairwise (· < ·) := by
  have hpair : l.Pairwise fun o o' => ∀ v ∈ o, ∀ v' ∈ o', key v < key v' := by
    rw [List.pairwise_iff_getElem]
    intro i j hi hj hij v hv v' hv'
    have hkey := h i v (by rw [List.getD_eq_getElem _ _ hi, hv])
    have hkey' := h j v' (by rw [List.getD_eq_getElem _ _ hj, hv'])
    omega
  refine List.pairwise_map.mpr (List.pairwise_filterMap.mpr (hpair.imp ?_))
  intro o o' ho v hv v' hv'
  exact ho v hv v' hv'

theorem length_filterMap_id (l : List (Option α)) :
    (l.filterMap id).length = l.countP Option.isSome := by
  rw [List.length_filterMap_eq_countP]
  rfl

/-- Filling an empty slot. -/
theorem countP_set_some {l : List (Option α)} {i : ℕ} (hi : i < l.length) (h : l.getD i none = none)
    (v : α) : (l.set i (some v)).countP Option.isSome = l.countP Option.isSome + 1 := by
  have hget : l[i] = none := by
    rwa [List.getD_eq_getElem _ _ hi] at h
  rw [List.countP_set hi, hget]
  simp

/-- Replacing the content of an occupied slot. -/
theorem countP_set_of_some {l : List (Option α)} {i : ℕ} {w : α} (h : l.getD i none = some w)
    (v : α) : (l.set i (some v)).countP Option.isSome = l.countP Option.isSome := by
  have hi : i < l.length := by
    by_contra hge
    rw [List.getD_eq_default _ _ (not_lt.mp hge)] at h
    cases h
  have hget : l[i] = some w := by
    rwa [List.getD_eq_getElem _ _ hi] at h
  have hpos : 0 < l.countP Option.isSome :=
    List.countP_pos_iff.mpr ⟨some w, hget ▸ List.getElem_mem hi, rfl⟩
  rw [List.countP_set hi, hget]
  simp only [Option.isSome_some, if_true]
  omega

/-- Emptying an occupied slot. -/
theorem countP_set_none {l : List (Option α)} {i : ℕ} {w : α} (h : l.getD i none = some w) :
    (l.set i none).countP Option.isSome = l.countP Option.isSome - 1 := by
  have hi : i < l.length := by
    by_contra hge
    rw [List.getD_eq_default _ _ (not_lt.mp hge)] at h
    cases h
  have hget : l[i] = some w := by
    rwa [List.getD_eq_getElem _ _ hi] at h
  rw [List.countP_set hi, hget]
  simp

/-- Changing the content of a slot in place. -/
theorem countP_modify_map (l : List (Option α)) (i : ℕ) (f : α → α) :
    (l.modify i (Option.map f)).countP Option.isSome = l.countP Option.isSome := by
  induction l generalizing i with
  | nil => simp
  | cons o l ih =>
    cases i with
    | zero => simp [List.countP_cons]
    | succ i => simp [List.countP_cons, ih]

/-- Appending empty slots. -/
theorem countP_append_replicate_none (l : List (Option α)) (k : ℕ) :
    (l ++ List.replicate k none).countP Option.isSome = l.countP Option.isSome := by
  simp [List.countP_replicate]

/-! ## Ranks -/

/-- The number of occupied slots before a slot: its position among the occupied ones. -/
def rank (l : List (Option α)) (i : ℕ) : ℕ := ((l.take i).filterMap id).length

/-- The contents of the occupied slots, by their ranks. -/
theorem getElem?_rank {l : List (Option α)} {i : ℕ} {v : α} (h : l.getD i none = some v) :
    (l.filterMap id)[rank l i]? = some v := by
  induction l generalizing i with
  | nil => cases h
  | cons o l ih =>
    cases i with
    | zero =>
      obtain rfl : o = some v := h
      rfl
    | succ i =>
      have htail := ih (i := i) h
      cases o with
      | none => simpa [rank] using htail
      | some w => simpa [rank] using htail

theorem rank_lt {l : List (Option α)} {i : ℕ} {v : α} (h : l.getD i none = some v) :
    rank l i < (l.filterMap id).length := by
  have hget := getElem?_rank h
  by_contra hge
  rw [List.getElem?_eq_none (not_lt.mp hge)] at hget
  cases hget

/-- Every position among the occupied slots is the rank of one. -/
theorem exists_rank {l : List (Option α)} {k : ℕ} (h : k < (l.filterMap id).length) :
    ∃ i v, l.getD i none = some v ∧ rank l i = k := by
  induction l generalizing k with
  | nil => cases h
  | cons o l ih =>
    cases o with
    | none =>
      obtain ⟨i, v, hi, hrank⟩ := ih h
      exact ⟨i + 1, v, hi, by simpa [rank] using hrank⟩
    | some w =>
      cases k with
      | zero => exact ⟨0, w, rfl, rfl⟩
      | succ k =>
        obtain ⟨i, v, hi, hrank⟩ := ih (k := k) (by simpa using h)
        exact ⟨i + 1, v, hi, by simpa [rank] using hrank⟩

/-- Two occupied slots of the same rank are one slot. -/
theorem rank_injOn {l : List (Option α)} {i j : ℕ} {v w : α} (hi : l.getD i none = some v)
    (hj : l.getD j none = some w) (h : rank l i = rank l j) : i = j := by
  induction l generalizing i j with
  | nil => cases hi
  | cons o l ih =>
    cases i with
    | zero =>
      cases j with
      | zero => rfl
      | succ j =>
        obtain rfl : o = some v := hi
        simp [rank] at h
    | succ i =>
      cases j with
      | zero =>
        obtain rfl : o = some w := hj
        simp [rank] at h
      | succ j =>
        refine congrArg (· + 1) (ih hi hj ?_)
        cases o with
        | none => simpa [rank] using h
        | some w => simpa [rank] using h

/-- A list without repetitions is renamed to any of its rearrangements, and nothing else is
renamed. -/
theorem exists_perm_map_eq [DecidableEq α] {l l' : List α} (h : l.Perm l') (hnodup : l.Nodup) :
    ∃ τ : Equiv.Perm α, l.map τ = l' ∧ ∀ x ∉ l, τ x = x := by
  induction h with
  | nil => exact ⟨1, rfl, fun _ _ => rfl⟩
  | @cons x l l' _ ih =>
    obtain ⟨hx, hnodup⟩ := List.nodup_cons.mp hnodup
    obtain ⟨τ, hmap, hfix⟩ := ih hnodup
    refine ⟨τ, ?_, fun y hy => hfix y fun h => hy (List.mem_cons_of_mem _ h)⟩
    rw [List.map_cons, hmap, hfix x hx]
  | swap x y l =>
    refine ⟨Equiv.swap y x, ?_, ?_⟩
    · simp only [List.nodup_cons, List.mem_cons, not_or] at hnodup
      obtain ⟨⟨-, hy⟩, hx, -⟩ := hnodup
      have hrest : l.map (Equiv.swap y x) = l := by
        conv_rhs => rw [← List.map_id l]
        refine List.map_congr_left fun z hz => ?_
        exact Equiv.swap_apply_of_ne_of_ne (fun h => hy (h ▸ hz)) (fun h => hx (h ▸ hz))
      simp [hrest]
    · intro z hz
      simp only [List.mem_cons, not_or] at hz
      exact Equiv.swap_apply_of_ne_of_ne hz.1 hz.2.1
  | @trans l l' l'' hl _ ih ih' =>
    obtain ⟨τ, hmap, hfix⟩ := ih hnodup
    obtain ⟨τ', hmap', hfix'⟩ := ih' (hl.nodup_iff.mp hnodup)
    refine ⟨τ' * τ, ?_, ?_⟩
    · rw [← hmap', ← hmap, List.map_map]
      rfl
    · intro x hx
      rw [Equiv.Perm.mul_apply, hfix x hx, hfix' x (fun h => hx (hl.mem_iff.mpr h))]

end Slots
