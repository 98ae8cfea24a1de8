import Mathlib.Data.List.AList
import Mathlib.Data.Finset.Basic
import Mathlib.Tactic

/-!
# Hash maps and hash sets as association lists

A hash map is modelled by an association list without repeated keys, whose list order stands for
the map's unspecified iteration order.  The lookup, insertion and deletion lemmas come from
`AList`; this file adds the operations the standard map interface has on top of them (in-place
modification, `entry(..).or_default()`), the hash set as a map into `Unit`, and the lookup lemma of
each operation in the single form "`if` the key is the one touched".
-/

/-- A finite map with an iteration order. -/
abbrev HashMap (K V : Type*) := AList (fun _ : K => V)

/-- A finite set with an iteration order. -/
abbrev HashSet (K : Type*) := HashMap K Unit

namespace HashMap

variable {K V : Type*} [DecidableEq K]

/-- Looking up a key after an insertion. -/
theorem lookup_insert_ite (m : HashMap K V) (k k' : K) (v : V) :
    (m.insert k v).lookup k' = if k' = k then some v else m.lookup k' := by
  by_cases h : k' = k
  · subst h
    simp
  · simp [h, AList.lookup_insert_ne h]

/-- Looking up a key after a deletion. -/
theorem lookup_erase_ite (m : HashMap K V) (k k' : K) :
    (m.erase k).lookup k' = if k' = k then none else m.lookup k' := by
  by_cases h : k' = k
  · subst h
    simp
  · simp [h, AList.lookup_erase_ne h]

/-- A key is present exactly when its lookup succeeds. -/
theorem mem_iff_exists (m : HashMap K V) (k : K) : k ∈ m ↔ ∃ v, m.lookup k = some v := by
  rw [← AList.lookup_isSome, Option.isSome_iff_exists]

/-- Entering the entries of a map one after the other into a partial function. -/
theorem foldl_update_entries (entries : List (Sigma fun _ : K => V)) (hnd : entries.NodupKeys)
    (f : K → Option V) (k : K) :
    entries.foldl (fun (f : K → Option V) p => Function.update f p.1 (some p.2)) f k =
      (entries.dlookup k).or (f k) := by
  induction entries generalizing f with
  | nil => rfl
  | cons p entries ih =>
    obtain ⟨a, v⟩ := p
    rw [List.nodupKeys_cons] at hnd
    rw [List.foldl_cons, ih hnd.2]
    by_cases hk : k = a
    · subst hk
      have hnone : entries.dlookup k = none := List.dlookup_eq_none.mpr hnd.1
      simp [hnone]
    · have hne : a ≠ k := Ne.symm hk
      simp [hk, List.dlookup_cons_ne entries ⟨a, v⟩ hk]

/-- The entries of a map, entered one after the other, give its lookup function. -/
theorem foldl_update_empty (m : HashMap K V) :
    m.entries.foldl (fun (f : K → Option V) p => Function.update f p.1 (some p.2))
      (fun _ => none) = fun k => m.lookup k := by
  funext k
  rw [foldl_update_entries _ m.nodupKeys, Option.or_none]
  rfl

/-- Looking up a key after entries were inserted one after the other. -/
theorem lookup_foldl_insert (entries : List (Sigma fun _ : K => V)) (hnodup : entries.NodupKeys)
    (m : HashMap K V) (k : K) :
    (entries.foldl (fun m p => AList.insert p.1 p.2 m) m).lookup k =
      (entries.dlookup k).or (m.lookup k) := by
  induction entries generalizing m with
  | nil => rfl
  | cons p entries ih =>
    obtain ⟨a, v⟩ := p
    rw [List.nodupKeys_cons] at hnodup
    rw [List.foldl_cons, ih hnodup.2, lookup_insert_ite]
    by_cases hk : k = a
    · subst hk
      have hnone : entries.dlookup k = none := List.dlookup_eq_none.mpr hnodup.1
      simp [hnone]
    · simp [hk, List.dlookup_cons_ne entries ⟨a, v⟩ hk]

/-- Looking up a key in a list of entries after one value was replaced. -/
theorem dlookup_kreplace (entries : List (Sigma fun _ : K => V)) (k k' : K) (v : V) :
    (entries.kreplace k v).dlookup k' =
      if k' = k then (entries.dlookup k').map fun _ => v else entries.dlookup k' := by
  induction entries with
  | nil =>
    have hrep : ([] : List (Sigma fun _ : K => V)).kreplace k v = [] := rfl
    simp [hrep]
  | cons p entries ih =>
    obtain ⟨a, w⟩ := p
    by_cases ha : k = a
    · subst ha
      have hrep : (⟨k, w⟩ :: entries : List (Sigma fun _ : K => V)).kreplace k v =
          ⟨k, v⟩ :: entries := List.lookmap_cons_some _ _ (by simp)
      rw [hrep]
      by_cases hk : k' = k
      · subst hk
        simp
      · simp [hk, List.dlookup_cons_ne entries ⟨k, v⟩ hk, List.dlookup_cons_ne entries ⟨k, w⟩ hk]
    · have hrep : (⟨a, w⟩ :: entries : List (Sigma fun _ : K => V)).kreplace k v =
          ⟨a, w⟩ :: entries.kreplace k v := List.lookmap_cons_none _ _ (by simp [ha])
      rw [hrep]
      by_cases hk : k' = a
      · subst hk
        simp [Ne.symm ha]
      · have hskip : ∀ l : List (Sigma fun _ : K => V),
            (⟨a, w⟩ :: l : List (Sigma fun _ : K => V)).dlookup k' = l.dlookup k' :=
          fun l => List.dlookup_cons_ne l ⟨a, w⟩ hk
        rw [hskip, hskip, ih]

/-- Change the value stored under `k` in place, if there is one (`get_mut`). -/
def modify (m : HashMap K V) (k : K) (f : V → V) : HashMap K V :=
  match m.lookup k with
  | none => m
  | some v => m.replace k (f v)

/-- Looking up a key after an in-place change. -/
theorem lookup_modify (m : HashMap K V) (k k' : K) (f : V → V) :
    (modify m k f).lookup k' = if k' = k then (m.lookup k').map f else m.lookup k' := by
  unfold modify
  cases h : m.lookup k with
  | none =>
    by_cases hk : k' = k
    · subst hk
      simp [h]
    · simp [hk]
  | some v =>
    refine (dlookup_kreplace m.entries k k' (f v)).trans ?_
    by_cases hk : k' = k
    · subst hk
      have h' : m.entries.dlookup k' = some v := h
      simp [h, h']
    · simp [hk, AList.lookup]

/-- A change that leaves the value as it is changes nothing, not even the order. -/
theorem modify_eq_self (m : HashMap K V) (k : K) (f : V → V)
    (h : ∀ v, m.lookup k = some v → f v = v) : modify m k f = m := by
  unfold modify
  cases hv : m.lookup k with
  | none => rfl
  | some v =>
    simp only [h v hv]
    exact AList.ext (List.kreplace_self m.nodupKeys (List.of_mem_dlookup hv))

/-- Erasing a key that is absent changes nothing. -/
theorem erase_eq_self (m : HashMap K V) {k : K} (h : k ∉ m) : m.erase k = m :=
  AList.ext (List.kerase_of_notMem_keys h)

/-- An in-place change keeps the keys. -/
@[simp] theorem mem_modify (m : HashMap K V) (k k' : K) (f : V → V) : k' ∈ modify m k f ↔ k' ∈ m := by
  rw [← AList.lookup_isSome, ← AList.lookup_isSome, lookup_modify]
  split <;> simp

/-- The value stored under `k`, or the default one (`entry(k).or_default()` read back). -/
def getDefault [EmptyCollection V] (m : HashMap K V) (k : K) : V :=
  (m.lookup k).getD ∅

/-- Change the value stored under `k`, starting from the default one when there is none
(`entry(k).or_default()` followed by a mutation). -/
def modifyDefault [EmptyCollection V] (m : HashMap K V) (k : K) (f : V → V) : HashMap K V :=
  m.insert k (f (getDefault m k))

/-- Keep the entries whose key satisfies `p` (`retain`). -/
def retainKeys (m : HashMap K V) (p : K → Bool) : HashMap K V :=
  ⟨m.entries.filter fun e => p e.1, m.nodupKeys.sublist List.filter_sublist⟩

/-- Looking up a key after a `retain`. -/
theorem lookup_retainKeys (m : HashMap K V) (p : K → Bool) (k : K) :
    (retainKeys m p).lookup k = if p k then m.lookup k else none := by
  have hfilter : ∀ entries : List (Sigma fun _ : K => V),
      (entries.filter fun e => p e.1).dlookup k = if p k then entries.dlookup k else none := by
    intro entries
    induction entries with
    | nil => simp
    | cons e entries ih =>
      obtain ⟨a, v⟩ := e
      by_cases hk : k = a
      · subst hk
        by_cases hp : p k
        · simp [hp]
        · simp [hp, ih]
      · have hskip : ∀ l : List (Sigma fun _ : K => V),
            (⟨a, v⟩ :: l : List (Sigma fun _ : K => V)).dlookup k = l.dlookup k :=
          fun l => List.dlookup_cons_ne l ⟨a, v⟩ hk
        by_cases hp : p a
        · rw [List.filter_cons_of_pos (by simpa using hp), hskip, ih, hskip]
        · rw [List.filter_cons_of_neg (by simpa using hp), ih, hskip]
  exact hfilter m.entries

/-- Change every value in place (`values_mut`). -/
def mapValues (m : HashMap K V) (f : V → V) : HashMap K V :=
  ⟨m.entries.map fun e => ⟨e.1, f e.2⟩, by
    have hkeys : (m.entries.map fun e => (⟨e.1, f e.2⟩ : Sigma fun _ : K => V)).keys =
        m.entries.keys := by
      simp [List.keys, Function.comp_def]
    unfold List.NodupKeys
    rw [hkeys]
    exact m.keys_nodup⟩

/-- Looking up a key after every value was changed. -/
theorem lookup_mapValues (m : HashMap K V) (f : V → V) (k : K) :
    (mapValues m f).lookup k = (m.lookup k).map f := by
  have hmap : ∀ entries : List (Sigma fun _ : K => V),
      (entries.map fun e => (⟨e.1, f e.2⟩ : Sigma fun _ : K => V)).dlookup k =
        (entries.dlookup k).map f := by
    intro entries
    induction entries with
    | nil => rfl
    | cons e entries ih =>
      obtain ⟨a, v⟩ := e
      by_cases hk : k = a
      · subst hk
        simp
      · have hskip : ∀ (l : List (Sigma fun _ : K => V)) (w : V),
            (⟨a, w⟩ :: l : List (Sigma fun _ : K => V)).dlookup k = l.dlookup k :=
          fun l w => List.dlookup_cons_ne l ⟨a, w⟩ hk
        rw [List.map_cons, hskip, ih, hskip]
  exact hmap m.entries

/-- Keep the entries whose value satisfies `p` (`retain` on the values). -/
def retainValues (m : HashMap K V) (p : V → Bool) : HashMap K V :=
  ⟨m.entries.filter fun e => p e.2, m.nodupKeys.sublist List.filter_sublist⟩

/-- Looking up a key after a `retain` on the values. -/
theorem lookup_retainValues (m : HashMap K V) (p : V → Bool) (k : K) :
    (retainValues m p).lookup k = (m.lookup k).filter p := by
  have hfilter : ∀ entries : List (Sigma fun _ : K => V), entries.NodupKeys →
      (entries.filter fun e => p e.2).dlookup k = (entries.dlookup k).filter p := by
    intro entries hnd
    induction entries with
    | nil => rfl
    | cons e entries ih =>
      obtain ⟨a, v⟩ := e
      rw [List.nodupKeys_cons] at hnd
      by_cases hk : k = a
      · subst hk
        have hnone : entries.dlookup k = none := List.dlookup_eq_none.mpr hnd.1
        by_cases hp : p v
        · simp [hp, Option.filter]
        · simp [hp, ih hnd.2, hnone, Option.filter]
      · have hskip : ∀ l : List (Sigma fun _ : K => V),
            (⟨a, v⟩ :: l : List (Sigma fun _ : K => V)).dlookup k = l.dlookup k :=
          fun l => List.dlookup_cons_ne l ⟨a, v⟩ hk
        by_cases hp : p v
        · rw [List.filter_cons_of_pos (by simpa using hp), hskip, ih hnd.2, hskip]
        · rw [List.filter_cons_of_neg (by simpa using hp), ih hnd.2, hskip]
  exact hfilter m.entries m.nodupKeys

/-- Make sure that `k` is present (`entry(k).or_default()` on its own). -/
def ensure [EmptyCollection V] (m : HashMap K V) (k : K) : HashMap K V :=
  match m.lookup k with
  | none => m.insert k ∅
  | some _ => m

section Default

variable [EmptyCollection V]

@[simp] theorem mem_modifyDefault (m : HashMap K V) (k k' : K) (f : V → V) :
    k' ∈ modifyDefault m k f ↔ k' = k ∨ k' ∈ m :=
  AList.mem_insert m

@[simp] theorem mem_ensure (m : HashMap K V) (k k' : K) : k' ∈ ensure m k ↔ k' = k ∨ k' ∈ m := by
  unfold ensure
  cases h : m.lookup k with
  | none => exact AList.mem_insert m
  | some v =>
    have hk : k ∈ m := (mem_iff_exists m k).mpr ⟨v, h⟩
    simp only [iff_or_self]
    rintro rfl
    exact hk

/-- A key that is absent is made present by inserting the default value. -/
theorem ensure_eq_insert (m : HashMap K V) {k : K} (h : k ∉ m) : ensure m k = m.insert k ∅ := by
  unfold ensure
  rw [AList.lookup_eq_none.mpr h]

@[simp] theorem getDefault_empty (k : K) : getDefault (∅ : HashMap K V) k = ∅ := rfl

theorem getDefault_insert (m : HashMap K V) (k k' : K) (v : V) :
    getDefault (m.insert k v) k' = if k' = k then v else getDefault m k' := by
  unfold getDefault
  rw [lookup_insert_ite]
  split <;> rfl

theorem getDefault_erase (m : HashMap K V) (k k' : K) :
    getDefault (m.erase k) k' = if k' = k then ∅ else getDefault m k' := by
  unfold getDefault
  rw [lookup_erase_ite]
  split <;> rfl

/-- Making a key present does not change what is read back. -/
@[simp] theorem getDefault_ensure (m : HashMap K V) (k k' : K) :
    getDefault (ensure m k) k' = getDefault m k' := by
  unfold ensure
  cases h : m.lookup k with
  | some v => rfl
  | none =>
    rw [getDefault_insert]
    by_cases hk : k' = k
    · subst hk
      simp [getDefault, h]
    · simp [hk]

theorem getDefault_modifyDefault (m : HashMap K V) (k k' : K) (f : V → V) :
    getDefault (modifyDefault m k f) k' = if k' = k then f (getDefault m k) else getDefault m k' :=
  getDefault_insert m k k' _

/-- What is read back after a stored value was replaced. -/
theorem getDefault_replace (m : HashMap K V) {k : K} (hk : k ∈ m) (k' : K) (v : V) :
    getDefault (m.replace k v) k' = if k' = k then v else getDefault m k' := by
  obtain ⟨w, hw⟩ := (mem_iff_exists m k).mp hk
  have hlookup : (m.replace k v).lookup k' =
      if k' = k then (m.lookup k').map fun _ => v else m.lookup k' :=
    dlookup_kreplace m.entries k k' v
  unfold getDefault
  rw [hlookup]
  by_cases h : k' = k
  · subst h
    simp [hw]
  · simp [h]

/-- An in-place change that fixes the default value reads back as a change of the value read. -/
theorem getDefault_modify (m : HashMap K V) (k k' : K) (f : V → V) (hf : f ∅ = ∅) :
    getDefault (modify m k f) k' = if k' = k then f (getDefault m k) else getDefault m k' := by
  unfold getDefault
  rw [lookup_modify]
  by_cases hk : k' = k
  · subst hk
    cases m.lookup k' <;> simp [hf]
  · simp [hk]

end Default

end HashMap

namespace HashSet

variable {K : Type*} [DecidableEq K]

/-- Insert an element. -/
def add (s : HashSet K) (x : K) : HashSet K := AList.insert x () s

/-- Remove an element. -/
def remove (s : HashSet K) (x : K) : HashSet K := AList.erase x s

/-- The elements in iteration order. -/
def toList (s : HashSet K) : List K := AList.keys s

@[simp] theorem mem_add (s : HashSet K) (x y : K) : y ∈ add s x ↔ y = x ∨ y ∈ s :=
  AList.mem_insert s

@[simp] theorem mem_remove (s : HashSet K) (x y : K) : y ∈ remove s x ↔ y ≠ x ∧ y ∈ s :=
  AList.mem_erase

@[simp] theorem remove_empty (x : K) : remove (∅ : HashSet K) x = ∅ := rfl

variable {K' : Type*} [DecidableEq K']

/-- Membership in a map of sets after an element was added under `k`. -/
@[simp] theorem mem_modifyDefault_add (m : HashMap K' (HashSet K)) (k k' : K') (x y : K) :
    y ∈ HashMap.getDefault (HashMap.modifyDefault m k (add · x)) k' ↔
      k' = k ∧ y = x ∨ y ∈ HashMap.getDefault m k' := by
  rw [HashMap.getDefault_modifyDefault]
  by_cases h : k' = k
  · subst h
    simp
  · simp [h]

/-- Membership in a map of sets after an element was added under each of some keys. -/
theorem mem_foldl_modifyDefault_add (m : HashMap K' (HashSet K)) (ks : List K') (k' : K') (x y : K) :
    y ∈ HashMap.getDefault (ks.foldl (fun m k => HashMap.modifyDefault m k (add · x)) m) k' ↔
      y = x ∧ k' ∈ ks ∨ y ∈ HashMap.getDefault m k' := by
  induction ks generalizing m with
  | nil => simp
  | cons k ks ih =>
    rw [List.foldl_cons, ih, mem_modifyDefault_add, List.mem_cons]
    tauto

/-- Membership in a map of sets after an element was removed under `k`. -/
@[simp] theorem mem_modify_remove (m : HashMap K' (HashSet K)) (k k' : K') (x y : K) :
    y ∈ HashMap.getDefault (HashMap.modify m k (remove · x)) k' ↔
      ¬ (k' = k ∧ y = x) ∧ y ∈ HashMap.getDefault m k' := by
  rw [HashMap.getDefault_modify m k k' (remove · x) (remove_empty x)]
  by_cases h : k' = k
  · subst h
    simp
  · simp [h]

omit [DecidableEq K] in
@[simp] theorem mem_toList (s : HashSet K) (x : K) : x ∈ toList s ↔ x ∈ s := Iff.rfl

omit [DecidableEq K] in
theorem nodup_toList (s : HashSet K) : (toList s).Nodup := AList.keys_nodup s

end HashSet
