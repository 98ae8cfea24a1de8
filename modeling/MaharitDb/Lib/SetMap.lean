import MaharitDb.Lib.AssocMap

/-!
# Maps of sets

An element is taken out of a set of the map, and an emptied set is dropped with its key.
-/

namespace HashMap

variable {K V : Type*} [DecidableEq K] [DecidableEq V]

/-- Take an element out of the set under a key; an emptied set is dropped. -/
def removeMember (m : HashMap K (HashSet V)) (k : K) (x : V) : HashMap K (HashSet V) :=
  match m.lookup k with
  | none => m
  | some s => if (s.remove x).keys.isEmpty then m.erase k else m.replace k (s.remove x)

/-- Membership in a map of sets after an element was taken out under `k`. -/
theorem mem_removeMember (m : HashMap K (HashSet V)) (k k' : K) (x y : V) :
    y ∈ getDefault (removeMember m k x) k' ↔ y ∈ getDefault m k' ∧ ¬(k' = k ∧ y = x) := by
  unfold removeMember
  cases hlookup : m.lookup k with
  | none =>
    refine ⟨fun hmem => ⟨hmem, ?_⟩, fun h => h.1⟩
    rintro ⟨rfl, rfl⟩
    simp [getDefault, hlookup] at hmem
  | some s =>
    have hk : k ∈ m := (mem_iff_exists m k).mpr ⟨s, hlookup⟩
    have hget : getDefault m k = s := by simp [getDefault, hlookup]
    simp only
    split
    · rename_i hempty
      have hnone : ∀ a, a ∉ s.remove x := by
        intro a ha
        have hkeys : a ∈ (s.remove x).keys := ha
        rw [List.isEmpty_iff.mp hempty] at hkeys
        cases hkeys
      rw [getDefault_erase]
      by_cases hkk : k' = k
      · subst hkk
        have hy := hnone y
        rw [HashSet.mem_remove] at hy
        simp only [if_true, hget]
        constructor
        · intro hmem
          cases hmem
        · rintro ⟨hmem, hne⟩
          exact absurd ⟨fun heq => hne ⟨trivial, heq⟩, hmem⟩ hy
      · simp [hkk]
    · rw [getDefault_replace m hk]
      by_cases hkk : k' = k
      · subst hkk
        simp [hget]
        tauto
      · simp [hkk]

/-- Membership after an element was taken out under each of some keys. -/
theorem mem_foldl_removeMember (m : HashMap K (HashSet V)) (ks : List K) (k' : K) (x y : V) :
    y ∈ getDefault (ks.foldl (fun m k => removeMember m k x) m) k' ↔ y ∈ getDefault m k' ∧ ¬(k' ∈ ks ∧ y = x) := by
  induction ks generalizing m with
  | nil => simp
  | cons k ks ih =>
    rw [List.foldl_cons, ih, mem_removeMember, List.mem_cons]
    tauto

end HashMap
