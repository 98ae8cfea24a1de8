import Mathlib.Algebra.BigOperators.Group.List.Lemmas
import MaharitDb.Lib.AssocMap

/-!
# Totals

Maps from keys to numbers to which the items of a list are added, each under its key.  What is added under a key is the
sum over its fibre, and the sums over all fibres add up to the sum over the list.
-/

namespace List

variable {A K M : Type*} [DecidableEq K] [AddCommMonoid M]

/-- One of different keys contributes. -/
lemma sum_map_ite_eq_of_nodup {keys : List K} (hnodup : keys.Nodup) {k : K} (hk : k ∈ keys) (x : M) :
    (keys.map fun k' => if k = k' then x else 0).sum = x := by
  induction keys with
  | nil => cases hk
  | cons a keys ih =>
    obtain ⟨ha, hnodup⟩ := nodup_cons.mp hnodup
    rw [map_cons, sum_cons]
    rcases mem_cons.mp hk with rfl | hk
    · have hzero : (keys.map fun k' => if k = k' then x else 0).sum = 0 := by
        refine sum_eq_zero fun y hy => ?_
        obtain ⟨k', hk', rfl⟩ := mem_map.mp hy
        exact if_neg fun h : k = k' => ha (h ▸ hk')
      rw [if_pos rfl, hzero, add_zero]
    · rw [if_neg fun h : k = a => ha (h ▸ hk), zero_add, ih hnodup hk]

/-- The sum over a list is that over the fibres of its keys. -/
theorem sum_map_fibers (key : A → K) (f : A → M) {keys : List K} (hnodup : keys.Nodup) {l : List A}
    (hkeys : ∀ a ∈ l, key a ∈ keys) :
    (keys.map fun k => ((l.filter (key · = k)).map f).sum).sum = (l.map f).sum := by
  induction l with
  | nil => simp
  | cons a l ih =>
    have hsplit : ∀ k, (((a :: l).filter (key · = k)).map f).sum =
        (if key a = k then f a else 0) + ((l.filter (key · = k)).map f).sum := by
      intro k
      by_cases hk : key a = k
      · rw [filter_cons_of_pos (by simpa using hk), map_cons, sum_cons, if_pos hk]
      · rw [filter_cons_of_neg (by simpa using hk), if_neg hk, zero_add]
    simp only [hsplit]
    rw [sum_map_add, sum_map_ite_eq_of_nodup hnodup (hkeys a mem_cons_self),
      ih fun b hb => hkeys b (mem_cons_of_mem _ hb), map_cons, sum_cons]

/-- The sum over the items with a property. -/
lemma sum_map_filter (p : A → Bool) (f : A → M) (l : List A) :
    ((l.filter p).map f).sum = (l.map fun a => if p a then f a else 0).sum := by
  induction l with
  | nil => rfl
  | cons a l ih =>
    by_cases hp : p a
    · simp [hp, ih]
    · simp [hp, ih]

/-- A double sum in either order. -/
lemma sum_map_comm {B : Type*} (f : A → B → M) (l : List A) (l' : List B) :
    (l.map fun a => (l'.map (f a)).sum).sum = (l'.map fun b => (l.map fun a => f a b).sum).sum := by
  induction l with
  | nil => simp
  | cons a l ih => simp only [map_cons, sum_cons, sum_map_add, ih]

end List

namespace HashMap

variable {A K V M : Type*} [DecidableEq K]

/-- The map from listed keys (`keys.iter().map(|&k| (k, f(k))).collect()`). -/
def tabulate (keys : List K) (f : K → V) : HashMap K V := keys.foldl (fun m k => m.insert k (f k)) ∅

theorem lookup_tabulate (keys : List K) (f : K → V) (k : K) :
    (tabulate keys f).lookup k = if k ∈ keys then some (f k) else none := by
  have hfold : ∀ m : HashMap K V, (keys.foldl (fun m k => m.insert k (f k)) m).lookup k =
      if k ∈ keys then some (f k) else m.lookup k := by
    induction keys with
    | nil => simp
    | cons a keys ih =>
      intro m
      rw [List.foldl_cons, ih, lookup_insert_ite]
      by_cases hk : k = a
      · simp [hk]
      · simp [hk]
  exact hfold ∅

@[simp] theorem mem_tabulate (keys : List K) (f : K → V) (k : K) : k ∈ tabulate keys f ↔ k ∈ keys := by
  rw [← AList.lookup_isSome, lookup_tabulate]
  split <;> simp [*]

/-- The value under a key, which is there (`m[&k]`). -/
def valueAt [Zero M] (m : HashMap K M) (k : K) : M := (m.lookup k).getD 0

theorem valueAt_tabulate [Zero M] {keys : List K} (f : K → M) {k : K} (hk : k ∈ keys) :
    valueAt (tabulate keys f) k = f k := by
  rw [valueAt, lookup_tabulate, if_pos hk, Option.getD_some]

/-- Add to the value under a key, which is there (`*m.get_mut(&k).unwrap() += x`). -/
def addAt [Add M] (m : HashMap K M) (k : K) (x : M) : HashMap K M := modify m k (· + x)

@[simp] theorem mem_addAt [Add M] (m : HashMap K M) (k k' : K) (x : M) : k' ∈ addAt m k x ↔ k' ∈ m :=
  mem_modify m k k' _

variable [AddCommMonoid M]

/-- Under a key the sum over its fibre is added. -/
theorem lookup_foldl_addAt (key : A → K) (value : A → M) (l : List A) (m : HashMap K M) (k : K) :
    (l.foldl (fun m a => addAt m (key a) (value a)) m).lookup k =
      (m.lookup k).map (· + ((l.filter (key · = k)).map value).sum) := by
  induction l generalizing m with
  | nil => simp
  | cons a l ih =>
    rw [List.foldl_cons, ih, addAt, lookup_modify]
    by_cases hk : k = key a
    · subst hk
      rw [if_pos rfl, List.filter_cons_of_pos (by simp)]
      cases m.lookup (key a) with
      | none => rfl
      | some x => simp [add_assoc]
    · rw [if_neg hk, List.filter_cons_of_neg (by simpa using fun h => hk h.symm)]

/-- What a map has under a key, found among its entries. -/
lemma sum_filter_entries (m : HashMap K M) (k : K) :
    ((m.entries.filter (·.1 = k)).map (·.2)).sum = valueAt m k := by
  obtain ⟨entries, hnodup⟩ := m
  show ((entries.filter (·.1 = k)).map (·.2)).sum = (entries.dlookup k).getD 0
  induction entries with
  | nil => rfl
  | cons e entries ih =>
    obtain ⟨a, x⟩ := e
    obtain ⟨ha, hnodup⟩ := List.nodupKeys_cons.mp hnodup
    have hrest := ih hnodup
    by_cases hk : a = k
    · subst hk
      rw [List.dlookup_eq_none.mpr ha, Option.getD_none] at hrest
      rw [List.filter_cons_of_pos (by simp), List.map_cons, List.sum_cons, hrest, add_zero, List.dlookup_cons_eq,
        Option.getD_some]
    · rw [List.filter_cons_of_neg (by simpa using hk), List.dlookup_cons_ne _ _ (Ne.symm hk), hrest]

/-- The sum of all values (`m.values().sum()`). -/
def total (m : HashMap K M) : M := (m.entries.map (·.2)).sum

theorem total_eq (m : HashMap K M) {keys : List K} (hnodup : keys.Nodup) (hkeys : ∀ k, k ∈ m ↔ k ∈ keys) :
    total m = (keys.map (valueAt m)).sum := by
  have hperm : m.keys.Perm keys := (List.perm_ext_iff_of_nodup m.keys_nodup hnodup).mpr hkeys
  have hvalues : m.entries.map (·.2) = m.keys.map (valueAt m) := by
    rw [AList.keys, List.keys, List.map_map]
    refine List.map_congr_left fun e he => ?_
    obtain ⟨k, v⟩ := e
    have hlookup : m.lookup k = some v := AList.mem_lookup_iff.mpr he
    simp [valueAt, hlookup]
  rw [total, hvalues]
  exact (hperm.map _).sum_eq

end HashMap
