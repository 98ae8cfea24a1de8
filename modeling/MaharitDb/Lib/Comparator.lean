import Mathlib.Data.Set.Basic
import Mathlib.Order.Compare
import Mathlib.Tactic

/-!
# Comparators

A comparison function that answers an `Ordering` and need not be a total order on its whole type.
`TransOn` says that its `≤` is transitive on a set; together with `Std.OrientedCmp` that makes it a total
preorder there.  A comparator is transitive on a set only when no element ties with two others of which
one is strictly smaller.
-/

namespace Comparator

variable {α : Type*} (cmp : α → α → Ordering)

/-- The `≤` of the comparator is transitive on the set. -/
def TransOn (S : Set α) : Prop :=
  ∀ a ∈ S, ∀ b ∈ S, ∀ c ∈ S, (cmp a b).isLE = true → (cmp b c).isLE = true → (cmp a c).isLE = true

variable {cmp} {S T : Set α}

lemma TransOn.mono (h : TransOn cmp T) (hST : S ⊆ T) : TransOn cmp S :=
  fun a ha b hb c hc => h a (hST ha) b (hST hb) c (hST hc)

/-- A comparator that tells nothing apart. -/
lemma transOn_of_eq (h : ∀ a ∈ S, ∀ b ∈ S, cmp a b = .eq) : TransOn cmp S := by
  intro a ha b _ c hc _ _
  rw [h a ha c hc]
  rfl

/-- A comparator that compares by a key of a linear order is transitive everywhere. -/
lemma transOn_of_key {κ : Type*} [LinearOrder κ] {key : α → κ}
    (h : ∀ a ∈ S, ∀ b ∈ S, (cmp a b).isLE = true ↔ key a ≤ key b) : TransOn cmp S := by
  intro a ha b hb c hc hab hbc
  have hle : key a ≤ key c := ((h a ha b hb).mp hab).trans ((h b hb c hc).mp hbc)
  exact (h a ha c hc).mpr hle

variable (cmp) in
/-- Comparing the other way around. -/
lemma swap_eq [Std.OrientedCmp cmp] (a b : α) : cmp b a = (cmp a b).swap := Std.OrientedCmp.eq_swap

/-- One of two elements is at most the other. -/
lemma total [Std.OrientedCmp cmp] (a b : α) : (cmp a b).isLE = true ∨ (cmp b a).isLE = true := by
  rw [swap_eq cmp a b]
  cases cmp a b <;> simp

/-- An element ties with itself. -/
lemma self_eq [Std.OrientedCmp cmp] (a : α) : cmp a a = .eq := by
  have hswap : cmp a a = (cmp a a).swap := Std.OrientedCmp.eq_swap
  cases h : cmp a a <;> simp_all

lemma isLE_of_eq {o : Ordering} (h : o = .eq) : o.isLE = true := by
  rw [h]
  rfl

lemma not_isLE_swap {o : Ordering} (h : o = .lt) : ¬ o.swap.isLE = true := by
  rw [h]
  decide

/-- No element ties with two others of which one is strictly smaller. -/
lemma TransOn.not_between [Std.OrientedCmp cmp] (h : TransOn cmp S) {x y z : α} (hx : x ∈ S) (hy : y ∈ S)
    (hz : z ∈ S) (hxy : cmp x y = .lt) (hyz : cmp y z = .eq) (hzx : cmp z x = .eq) : False := by
  have hle : (cmp y x).isLE = true := h y hy z hz x hx (isLE_of_eq hyz) (isLE_of_eq hzx)
  rw [swap_eq cmp x y] at hle
  exact not_isLE_swap hxy hle

/-- Strictly smaller, then at most. -/
lemma TransOn.lt_of_lt_of_isLE [Std.OrientedCmp cmp] (h : TransOn cmp S) {a b c : α} (ha : a ∈ S)
    (hb : b ∈ S) (hc : c ∈ S) (hab : cmp a b = .lt) (hbc : (cmp b c).isLE = true) : cmp a c = .lt := by
  have hac : (cmp a c).isLE = true := h a ha b hb c hc (by rw [hab]; rfl) hbc
  cases hcase : cmp a c with
  | lt => rfl
  | gt => rw [hcase] at hac; exact absurd hac (by decide)
  | eq =>
    have hca : (cmp c a).isLE = true := by
      rw [swap_eq cmp a c, hcase]
      rfl
    have hba : (cmp b a).isLE = true := h b hb c hc a ha hbc hca
    rw [swap_eq cmp a b] at hba
    exact absurd hba (not_isLE_swap hab)

/-- At most, then strictly smaller. -/
lemma TransOn.lt_of_isLE_of_lt [Std.OrientedCmp cmp] (h : TransOn cmp S) {a b c : α} (ha : a ∈ S)
    (hb : b ∈ S) (hc : c ∈ S) (hab : (cmp a b).isLE = true) (hbc : cmp b c = .lt) : cmp a c = .lt := by
  have hac : (cmp a c).isLE = true := h a ha b hb c hc hab (by rw [hbc]; rfl)
  cases hcase : cmp a c with
  | lt => rfl
  | gt => rw [hcase] at hac; exact absurd hac (by decide)
  | eq =>
    have hca : (cmp c a).isLE = true := by
      rw [swap_eq cmp a c, hcase]
      rfl
    have hcb : (cmp c b).isLE = true := h c hc a ha b hb hca hab
    rw [swap_eq cmp b c] at hcb
    exact absurd hcb (not_isLE_swap hbc)

/-- Ties are transitive. -/
lemma TransOn.eq_trans [Std.OrientedCmp cmp] (h : TransOn cmp S) {a b c : α} (ha : a ∈ S) (hb : b ∈ S)
    (hc : c ∈ S) (hab : cmp a b = .eq) (hbc : cmp b c = .eq) : cmp a c = .eq := by
  have hac : (cmp a c).isLE = true := h a ha b hb c hc (isLE_of_eq hab) (isLE_of_eq hbc)
  have hca : (cmp c a).isLE = true := by
    refine h c hc b hb a ha (isLE_of_eq ?_) (isLE_of_eq ?_)
    · rw [swap_eq cmp b c, hbc]
      rfl
    · rw [swap_eq cmp a b, hab]
      rfl
  rw [swap_eq cmp a c] at hca
  cases hcase : cmp a c <;> simp_all

lemma isLE_then {o o' : Ordering} :
    (o.then o').isLE = true ↔ o = .lt ∨ o = .eq ∧ o'.isLE = true := by
  cases o <;> simp

/-- A transitive comparison, refined by another one where it ties, stays transitive. -/
lemma TransOn.isLE_then_trans [Std.OrientedCmp cmp] (h : TransOn cmp S) {a b c : α} (ha : a ∈ S)
    (hb : b ∈ S) (hc : c ∈ S) {ab bc ac : Ordering}
    (hrest : ab.isLE = true → bc.isLE = true → ac.isLE = true)
    (hab : ((cmp a b).then ab).isLE = true) (hbc : ((cmp b c).then bc).isLE = true) :
    ((cmp a c).then ac).isLE = true := by
  rw [isLE_then] at hab hbc ⊢
  rcases hab with hab | ⟨hab, hab'⟩
  · have hle : (cmp b c).isLE = true := by
      rcases hbc with hbc | ⟨hbc, _⟩ <;> rw [hbc] <;> rfl
    exact Or.inl (h.lt_of_lt_of_isLE ha hb hc hab hle)
  · rcases hbc with hbc | ⟨hbc, hbc'⟩
    · exact Or.inl (h.lt_of_isLE_of_lt ha hb hc (isLE_of_eq hab) hbc)
    · exact Or.inr ⟨h.eq_trans ha hb hc hab hbc, hrest hab' hbc'⟩

/-- Turning a comparator around does not change whether it is transitive. -/
lemma transOn_swap [Std.OrientedCmp cmp] : TransOn (fun a b => (cmp a b).swap) S ↔ TransOn cmp S := by
  have hswap : ∀ a b, (cmp a b).swap = cmp b a := fun a b => Std.OrientedCmp.eq_swap.symm
  simp only [TransOn, hswap]
  constructor
  · intro h a ha b hb c hc hab hbc
    exact h c hc b hb a ha hbc hab
  · intro h a ha b hb c hc hba hcb
    exact h c hc b hb a ha hcb hba

/-! ## Sorted lists -/

section Sorting

variable (cmp) in
/-- The test the stable sort uses. -/
def le (a b : α) : Bool := (cmp a b).isLE

/-- A comparator that is transitive on the elements of a list sorts it. -/
lemma pairwise_mergeSort [Std.OrientedCmp cmp] {l : List α} (h : TransOn cmp {a | a ∈ l}) :
    (l.mergeSort (le cmp)).Pairwise fun a b => (cmp a b).isLE = true := by
  -- The elements of the list are sorted as members of it.
  have hsorted : (l.attach.mergeSort fun a b => le cmp a.1 b.1).Pairwise
      fun a b => (cmp a.1 b.1).isLE = true := by
    refine List.pairwise_mergeSort ?_ ?_ l.attach
    · intro a b c hab hbc
      exact h a.1 a.2 b.1 b.2 c.1 c.2 hab hbc
    · intro a b
      rw [Bool.or_eq_true]
      exact total a.1 b.1
  have hmap : (l.attach.mergeSort fun a b => le cmp a.1 b.1).map Subtype.val = l.mergeSort (le cmp) := by
    rw [List.map_mergeSort (s := le cmp) (f := Subtype.val) fun _ _ _ _ => rfl,
      List.attach_map_subtype_val]
  rw [← hmap]
  exact List.pairwise_map.mpr hsorted

/-- Two sorted lists of the same classes list them alike. -/
lemma map_eq_of_perm {β : Type*} {f : α → β} [Std.OrientedCmp cmp]
    (hf : ∀ a ∈ S, ∀ b ∈ S, cmp a b = .eq ↔ f a = f b) {l l' : List α} (hl : ∀ a ∈ l, a ∈ S)
    (hl' : ∀ a ∈ l', a ∈ S) (hsorted : l.Pairwise fun a b => (cmp a b).isLE = true)
    (hsorted' : l'.Pairwise fun a b => (cmp a b).isLE = true) (hperm : (l.map f).Perm (l'.map f)) :
    TransOn cmp S → l.map f = l'.map f := by
  intro h
  induction l generalizing l' with
  | nil => exact (List.nil_perm.mp hperm).symm
  | cons a l ih =>
    cases l' with
    | nil => exact absurd hperm.length_eq (by simp)
    | cons b l' =>
      -- Each head is at most the elements of the other list.
      have hhead : ∀ {c d : α} {m m' : List α}, (∀ e ∈ c :: m, e ∈ S) → (∀ e ∈ d :: m', e ∈ S) →
          (c :: m).Pairwise (fun a b => (cmp a b).isLE = true) → f d ∈ (c :: m).map f →
          (cmp c d).isLE = true := by
        intro c d m m' hm hm' hpair hd
        obtain ⟨e, he, hed⟩ := List.mem_map.mp hd
        have hle : (cmp c e).isLE = true := by
          rcases List.mem_cons.mp he with rfl | he'
          · exact isLE_of_eq (self_eq e)
          · exact List.rel_of_pairwise_cons hpair he'
        have heq : cmp e d = .eq := (hf e (hm e he) d (hm' d List.mem_cons_self)).mpr hed
        exact h c (hm c List.mem_cons_self) e (hm e he) d (hm' d List.mem_cons_self) hle (isLE_of_eq heq)
      have hab : (cmp a b).isLE = true :=
        hhead hl hl' hsorted (hperm.mem_iff.mpr (List.mem_map_of_mem List.mem_cons_self))
      have hba : (cmp b a).isLE = true :=
        hhead hl' hl hsorted' (hperm.mem_iff.mp (List.mem_map_of_mem List.mem_cons_self))
      have htie : cmp a b = .eq := by
        rw [swap_eq cmp a b] at hba
        cases hcase : cmp a b <;> simp_all
      have hsame : f a = f b := (hf a (hl a List.mem_cons_self) b (hl' b List.mem_cons_self)).mp htie
      rw [List.map_cons, List.map_cons, hsame] at hperm ⊢
      rw [ih (fun e he => hl e (List.mem_cons_of_mem _ he)) (fun e he => hl' e (List.mem_cons_of_mem _ he))
        hsorted.of_cons hsorted'.of_cons ((List.perm_cons _).mp hperm)]

/-- Two sorted rearrangements of one list tie at every position. -/
lemma tied_of_perm [Std.OrientedCmp cmp] (h : TransOn cmp S) {l l' : List α} (hl : ∀ a ∈ l, a ∈ S)
    (hsorted : l.Pairwise fun a b => (cmp a b).isLE = true)
    (hsorted' : l'.Pairwise fun a b => (cmp a b).isLE = true) (hperm : l.Perm l') {i : ℕ} {a b : α}
    (ha : l[i]? = some a) (hb : l'[i]? = some b) : cmp a b = .eq := by
  have hl' : ∀ a ∈ l', a ∈ S := fun a ha => hl a (hperm.mem_iff.mpr ha)
  -- The class of an element: what ties with it.
  have hclass : ∀ a ∈ S, ∀ b ∈ S, cmp a b = .eq ↔ {c ∈ S | cmp a c = .eq} = {c ∈ S | cmp b c = .eq} := by
    intro a ha b hb
    constructor
    · intro hab
      have hba : cmp b a = .eq := by rw [swap_eq cmp a b, hab]; rfl
      ext c
      constructor
      · rintro ⟨hc, hac⟩
        exact ⟨hc, h.eq_trans hb ha hc hba hac⟩
      · rintro ⟨hc, hbc⟩
        exact ⟨hc, h.eq_trans ha hb hc hab hbc⟩
    · intro hab
      have hmem : b ∈ {c ∈ S | cmp b c = .eq} := ⟨hb, self_eq b⟩
      rw [← hab] at hmem
      exact hmem.2
  have hmap := map_eq_of_perm hclass hl hl' hsorted hsorted' (hperm.map _) h
  have hi := congrArg (·[i]?) hmap
  simp only [List.getElem?_map, ha, hb, Option.map_some, Option.some.injEq] at hi
  exact (hclass a (hl a (List.mem_of_getElem? ha)) b (hl' b (List.mem_of_getElem? hb))).mpr hi

variable (cmp) in
/-- What a partial selection of `n` elements promises: the kept elements are followed by a pivot that none
of them exceeds and that exceeds none of the others. -/
def Selects (n : ℕ) (l kept : List α) : Prop :=
  kept.length = n ∧ ∃ pivot rest, (kept ++ pivot :: rest).Perm l ∧
    (∀ a ∈ kept, (cmp a pivot).isLE = true) ∧ ∀ b ∈ rest, (cmp pivot b).isLE = true

/-- The kept elements, sorted, tie with the first elements of the sorted list. -/
lemma Selects.tied [Std.OrientedCmp cmp] {n : ℕ} {l kept : List α} (hsel : Selects cmp n l kept)
    (h : TransOn cmp {a | a ∈ l}) {i : ℕ} {a b : α} (ha : (kept.mergeSort (le cmp))[i]? = some a)
    (hb : (l.mergeSort (le cmp))[i]? = some b) : cmp a b = .eq := by
  obtain ⟨-, pivot, rest, hperm, hkept, hrest⟩ := hsel
  have hmem : ∀ a ∈ kept ++ pivot :: rest, a ∈ l := fun a ha => hperm.mem_iff.mp ha
  have hpivot : pivot ∈ l := hmem pivot (by simp)
  -- The whole list, sorted on both sides of the cut.
  have hsorted : (kept.mergeSort (le cmp) ++ (pivot :: rest).mergeSort (le cmp)).Pairwise
      fun a b => (cmp a b).isLE = true := by
    rw [List.pairwise_append]
    refine ⟨pairwise_mergeSort (h.mono fun a ha => hmem a (List.mem_append_left _ ha)),
      pairwise_mergeSort (h.mono fun a ha => hmem a (List.mem_append_right _ ha)), ?_⟩
    intro a ha b hb
    rw [List.mem_mergeSort] at ha hb
    have hal : a ∈ l := hmem a (List.mem_append_left _ ha)
    have hbl : b ∈ l := hmem b (List.mem_append_right _ hb)
    rcases List.mem_cons.mp hb with rfl | hb
    · exact hkept a ha
    · exact h a hal pivot hpivot b hbl (hkept a ha) (hrest b hb)
  have hall : (kept.mergeSort (le cmp) ++ (pivot :: rest).mergeSort (le cmp)).Perm
      (l.mergeSort (le cmp)) :=
    ((List.mergeSort_perm kept _).append (List.mergeSort_perm (pivot :: rest) _)).trans
      (hperm.trans (List.mergeSort_perm l _).symm)
  refine tied_of_perm h ?_ hsorted (pairwise_mergeSort h) hall ?_ hb
  · intro a ha
    exact List.mem_mergeSort.mp (hall.mem_iff.mp ha)
  · have hi : i < (kept.mergeSort (le cmp)).length := (List.getElem?_eq_some_iff.mp ha).1
    rw [List.getElem?_append_left hi, ha]

/-- The first elements of a sorted rearrangement may be kept. -/
lemma selects_take {l l' : List α} (hperm : l'.Perm l)
    (hsorted : l'.Pairwise fun a b => (cmp a b).isLE = true) {n : ℕ} (hn : n < l.length) :
    Selects cmp n l (l'.take n) := by
  have hn' : n < l'.length := by
    rw [hperm.length_eq]
    exact hn
  have hsplit : l'.take n ++ l'[n] :: l'.drop (n + 1) = l' := by
    rw [← List.drop_eq_getElem_cons hn', List.take_append_drop]
  rw [← hsplit, List.pairwise_append, List.pairwise_cons] at hsorted
  obtain ⟨-, ⟨hrest, -⟩, hkept⟩ := hsorted
  refine ⟨by simp; omega, l'[n], l'.drop (n + 1), by rw [hsplit]; exact hperm, ?_, hrest⟩
  intro a ha
  exact hkept a ha l'[n] List.mem_cons_self

/-- Exchanging two tied elements keeps a list sorted. -/
lemma pairwise_swap [Std.OrientedCmp cmp] {l : List α} (h : TransOn cmp {a | a ∈ l})
    (hsorted : l.Pairwise fun a b => (cmp a b).isLE = true) {i j : ℕ} (hi : i < l.length)
    (hj : j < l.length) (htie : cmp l[i] l[j] = .eq) :
    ((l.set i l[j]).set j l[i]).Pairwise fun a b => (cmp a b).isLE = true := by
  have hswap : cmp l[j] l[i] = .eq := by
    rw [swap_eq cmp l[i] l[j], htie]
    rfl
  have hsame : ∀ m (hm : m < l.length) (hm' : m < ((l.set i l[j]).set j l[i]).length),
      ((l.set i l[j]).set j l[i])[m] ∈ l ∧ cmp ((l.set i l[j]).set j l[i])[m] l[m] = .eq := by
    intro m hm hm'
    rw [List.getElem_set, List.getElem_set]
    split_ifs with hjm him
    · subst hjm
      exact ⟨List.getElem_mem hi, htie⟩
    · subst him
      exact ⟨List.getElem_mem hj, hswap⟩
    · exact ⟨List.getElem_mem hm, self_eq _⟩
  rw [List.pairwise_iff_getElem] at hsorted ⊢
  intro p q hp hq hpq
  have hp' : p < l.length := by simpa using hp
  have hq' : q < l.length := by simpa using hq
  obtain ⟨hpmem, hptie⟩ := hsame p hp' hp
  obtain ⟨hqmem, hqtie⟩ := hsame q hq' hq
  have hqtie' : cmp l[q] ((l.set i l[j]).set j l[i])[q] = .eq := by
    rw [swap_eq cmp ((l.set i l[j]).set j l[i])[q], hqtie]
    rfl
  have hle : (cmp ((l.set i l[j]).set j l[i])[p] l[q]).isLE = true :=
    h _ hpmem _ (List.getElem_mem hp') _ (List.getElem_mem hq') (isLE_of_eq hptie)
      (hsorted p q hp' hq' hpq)
  exact h _ hpmem _ (List.getElem_mem hq') _ hqmem hle (isLE_of_eq hqtie')

/-- A selection may exchange two tied elements of the sorted list. -/
lemma exists_selects_swap [Std.OrientedCmp cmp] {l : List α} (h : TransOn cmp {a | a ∈ l}) {n i j : ℕ}
    {a b : α} (hn : n < l.length) (hi : i < n) (hij : i ≠ j) (ha : (l.mergeSort (le cmp))[i]? = some a)
    (hb : (l.mergeSort (le cmp))[j]? = some b) (htie : cmp a b = .eq) :
    ∃ kept, Selects cmp n l kept ∧ kept.mergeSort (le cmp) = kept ∧ kept[i]? = some b := by
  obtain ⟨hi', rfl⟩ := List.getElem?_eq_some_iff.mp ha
  obtain ⟨hj', rfl⟩ := List.getElem?_eq_some_iff.mp hb
  have hmem : TransOn cmp {a | a ∈ l.mergeSort (le cmp)} :=
    h.mono fun a ha => List.mem_mergeSort.mp ha
  have hsorted := pairwise_swap hmem (pairwise_mergeSort h) hi' hj' htie
  have hperm := (List.set_set_perm hi' hj').trans (List.mergeSort_perm l (le cmp))
  refine ⟨_, selects_take hperm hsorted hn, List.mergeSort_of_pairwise ?_, ?_⟩
  · exact hsorted.sublist (List.take_sublist n _)
  · rw [List.getElem?_take_of_lt hi, List.getElem?_set_ne hij.symm, List.getElem?_set_self hi']

end Sorting

end Comparator
