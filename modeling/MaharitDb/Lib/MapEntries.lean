import MaharitDb.Lib.AssocMap

/-!
# The entries of a map

Counting and summing over the entries of a map, with the entry of one key apart: what a change of one key does to a
count is what it does to that entry.
-/

namespace HashMap

variable {K V : Type*} [DecidableEq K]

/-- The entries of a map, with the one of a key in front. -/
theorem perm_entries_erase (m : HashMap K V) {k : K} {v : V} (hk : m.lookup k = some v) :
    m.entries.Perm (⟨k, v⟩ :: (m.erase k).entries) := by
  have hmem : k ∈ m.entries.keys := (mem_iff_exists m k).mpr ⟨v, hk⟩
  obtain ⟨v', l₁, l₂, -, hentries, herase⟩ := List.exists_of_kerase hmem
  have hv' : m.lookup k = some v' := by
    refine (List.mem_dlookup_iff m.nodupKeys).mpr ?_
    rw [hentries]
    exact List.mem_append_right _ List.mem_cons_self
  obtain rfl : v = v' := Option.some.inj (hk.symm.trans hv')
  have hrest : (m.erase k).entries = l₁ ++ l₂ := herase
  rw [hrest, hentries]
  exact List.perm_middle

/-- A sum over the values of a map, with the value of one key apart. -/
theorem sum_entries (m : HashMap K V) (w : V → ℕ) (k : K) :
    (m.entries.map fun e => w e.2).sum =
      ((m.lookup k).map w).getD 0 + ((m.erase k).entries.map fun e => w e.2).sum := by
  cases hk : m.lookup k with
  | none =>
    have herase : m.erase k = m := erase_eq_self m (AList.lookup_eq_none.mp hk)
    simp [herase]
  | some v =>
    have hperm := (perm_entries_erase m hk).map fun e => w e.2
    rw [hperm.sum_eq]
    simp

/-- Maps with the same lookups have the same sums over their values. -/
theorem sum_entries_congr {m m' : HashMap K V} (h : ∀ k, m.lookup k = m'.lookup k) (w : V → ℕ) :
    (m.entries.map fun e => w e.2).sum = (m'.entries.map fun e => w e.2).sum := by
  have hperm : m.entries.Perm m'.entries := by
    refine List.lookup_ext m.nodupKeys m'.nodupKeys fun k v => ?_
    have hk : m.entries.dlookup k = m'.entries.dlookup k := h k
    rw [hk]
  exact (hperm.map _).sum_eq

/-- A count over the values of a map, with the value of one key apart. -/
theorem countP_entries (m : HashMap K V) (p : V → Bool) {k : K} {v : V} (hk : m.lookup k = some v) :
    m.entries.countP (fun e => p e.2) = (m.erase k).entries.countP (fun e => p e.2) + if p v then 1 else 0 := by
  rw [(perm_entries_erase m hk).countP_eq, List.countP_cons]

/-- A count over the values after one of them is changed in place. -/
theorem countP_modify (m : HashMap K V) (p : V → Bool) (f : V → V) {k : K} {v : V} (hk : m.lookup k = some v) :
    (modify m k f).entries.countP (fun e => p e.2) =
      (m.erase k).entries.countP (fun e => p e.2) + if p (f v) then 1 else 0 := by
  have hchanged : (modify m k f).lookup k = some (f v) := by
    rw [lookup_modify, if_pos rfl, hk, Option.map_some]
  have hrest : ((modify m k f).erase k).entries.Perm (m.erase k).entries := by
    refine List.lookup_ext ((modify m k f).erase k).nodupKeys (m.erase k).nodupKeys fun k' v' => ?_
    have hk' : ((modify m k f).erase k).lookup k' = (m.erase k).lookup k' := by
      rw [lookup_erase_ite, lookup_erase_ite, lookup_modify]
      by_cases hkk' : k' = k
      · rw [if_pos hkk', if_pos hkk']
      · rw [if_neg hkk', if_neg hkk', if_neg hkk']
    have hk'' : ((modify m k f).erase k).entries.dlookup k' = (m.erase k).entries.dlookup k' := hk'
    rw [hk'']
  rw [countP_entries (modify m k f) p hchanged, hrest.countP_eq]

/-- A new key adds its value to a count. -/
theorem countP_insert (m : HashMap K V) (p : V → Bool) {k : K} (hk : k ∉ m) (v : V) :
    (m.insert k v).entries.countP (fun e => p e.2) = m.entries.countP (fun e => p e.2) + if p v then 1 else 0 := by
  rw [AList.entries_insert_of_notMem hk, List.countP_cons]

/-! ## Collecting the entries of a map -/

/-- The entries, with their values converted, in a new map. -/
def collect {W : Type*} (f : V → W) (m : HashMap K V) : HashMap K W :=
  m.entries.foldl (fun m p => AList.insert p.1 (f p.2) m) ∅

theorem lookup_collect {W : Type*} (f : V → W) (m : HashMap K V) (k : K) :
    (collect f m).lookup k = (m.lookup k).map f := by
  have hfold : ∀ (entries : List (Sigma fun _ : K => V)) (r : HashMap K W), entries.NodupKeys →
      (entries.foldl (fun m p => AList.insert p.1 (f p.2) m) r).lookup k =
        ((entries.dlookup k).map f).or (r.lookup k) := by
    intro entries
    induction entries with
    | nil =>
      intro r _
      rfl
    | cons p entries ih =>
      intro r hnodup
      obtain ⟨a, v⟩ := p
      rw [List.nodupKeys_cons] at hnodup
      rw [List.foldl_cons, ih _ hnodup.2, lookup_insert_ite]
      by_cases hk : k = a
      · subst hk
        have hnone : entries.dlookup k = none := List.dlookup_eq_none.mpr hnodup.1
        simp [hnone]
      · simp [hk, List.dlookup_cons_ne entries ⟨a, v⟩ hk]
  rw [collect, hfold _ _ m.nodupKeys, AList.lookup_empty, Option.or_none]
  rfl

end HashMap
