import MaharitDb.Lib.AssocMap

/-!
# Partitions

Lists of sets that divide given nodes into the classes of a relation.
-/

/-- The sets are not empty, no two of them share a node, together they have exactly the given nodes, and each of them is
one class of the relation. -/
structure IsPartition {V : Type*} (nodes : List V) (R : V → V → Prop) (parts : List (HashSet V)) : Prop where
  nonempty : ∀ p ∈ parts, ∃ v, v ∈ p
  disjoint : parts.Pairwise fun p q => ∀ v, v ∈ p → v ∉ q
  cover : ∀ v, v ∈ nodes ↔ ∃ p ∈ parts, v ∈ p
  related : ∀ p ∈ parts, ∀ u ∈ p, ∀ v ∈ nodes, v ∈ p ↔ R u v

namespace IsPartition

variable {V : Type*} {nodes : List V} {R : V → V → Prop} {parts : List (HashSet V)}

/-- Two nodes share a part exactly when they are related. -/
theorem share_iff (h : IsPartition nodes R parts) {u v : V} (hu : u ∈ nodes) (hv : v ∈ nodes) :
    (∃ p ∈ parts, u ∈ p ∧ v ∈ p) ↔ R u v := by
  constructor
  · rintro ⟨p, hp, hup, hvp⟩
    exact (h.related p hp u hup v hv).mp hvp
  · intro hR
    obtain ⟨p, hp, hup⟩ := (h.cover u).mp hu
    exact ⟨p, hp, hup, (h.related p hp u hup v hv).mpr hR⟩

end IsPartition
