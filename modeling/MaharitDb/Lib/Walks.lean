import Mathlib.Tactic

/-!
# Walks

Walks in a graph in which several edges may join two nodes: the nodes and the edges that a walk passes, in order.
A path is a walk that passes no node twice.
-/

namespace Walks

variable {V E : Type*}

/-- Every edge of the list links the nodes around it. -/
def IsWalk (link : V → E → V → Prop) : List V → List E → Prop
  | [_], [] => True
  | u :: v :: nodes, e :: edges => link u e v ∧ IsWalk link (v :: nodes) edges
  | _, _ => False

/-- A walk from a node to another one. -/
structure WalksTo (link : V → E → V → Prop) (start stop : V) (nodes : List V) (edges : List E) : Prop where
  walk : IsWalk link nodes edges
  head : nodes.head? = some start
  last : nodes.getLast? = some stop

variable {link : V → E → V → Prop} {nodes : List V} {edges : List E}

lemma IsWalk.length (h : IsWalk link nodes edges) : nodes.length = edges.length + 1 := by
  induction nodes generalizing edges with
  | nil => cases edges <;> exact h.elim
  | cons u nodes ih =>
    cases nodes with
    | nil =>
      cases edges with
      | nil => rfl
      | cons e edges => exact h.elim
    | cons v nodes =>
      cases edges with
      | nil => exact h.elim
      | cons e edges => rw [List.length_cons, ih h.2, List.length_cons]

lemma IsWalk.ne_nil (h : IsWalk link nodes edges) : nodes ≠ [] := by
  rintro rfl
  have hlength := h.length
  simp at hlength

/-- A walk goes on by an edge from its last node. -/
lemma isWalk_concat {u v : V} {e : E} (hlast : nodes.getLast? = some u) :
    IsWalk link (nodes ++ [v]) (edges ++ [e]) ↔ IsWalk link nodes edges ∧ link u e v := by
  induction nodes generalizing edges with
  | nil => simp at hlast
  | cons w nodes ih =>
    cases nodes with
    | nil =>
      obtain rfl : w = u := by simpa using hlast
      cases edges with
      | nil => simp [IsWalk]
      | cons d edges => cases edges <;> simp [IsWalk]
    | cons w' nodes =>
      cases edges with
      | nil => cases nodes <;> simp [IsWalk]
      | cons d edges =>
        have hlast' : (w' :: nodes).getLast? = some u := by simpa using hlast
        simp only [List.cons_append, IsWalk]
        rw [← List.cons_append, ih hlast', and_assoc]

/-- A walk with an edge has a last one. -/
lemma IsWalk.exists_concat {v : V} {k : ℕ} (h : IsWalk link nodes edges) (hlast : nodes.getLast? = some v)
    (hk : edges.length = k + 1) :
    ∃ nodes' edges' u e, nodes = nodes' ++ [v] ∧ edges = edges' ++ [e] ∧ nodes'.getLast? = some u ∧
      IsWalk link nodes' edges' ∧ link u e v ∧ edges'.length = k := by
  obtain ⟨edges', e, rfl⟩ : ∃ edges' e, edges = edges' ++ [e] := by
    refine ⟨edges.dropLast, edges.getLast (by rintro rfl; simp at hk), ?_⟩
    exact (List.dropLast_append_getLast _).symm
  obtain ⟨nodes', rfl⟩ := List.getLast?_eq_some_iff.mp hlast
  have hlength : edges'.length = k := by simpa using hk
  have hnodes := h.length
  have hne : nodes' ≠ [] := by
    rintro rfl
    simp at hnodes
  have hu := List.getLast?_eq_some_getLast hne
  obtain ⟨hwalk, hlink⟩ := (isWalk_concat hu).mp h
  exact ⟨nodes', edges', _, e, rfl, rfl, hu, hwalk, hlink, hlength⟩

/-- Walks that agree on what they link. -/
lemma IsWalk.imp {link' : V → E → V → Prop} (himp : ∀ u e v, link u e v → link' u e v)
    (h : IsWalk link nodes edges) : IsWalk link' nodes edges := by
  induction nodes generalizing edges with
  | nil => cases edges <;> exact h.elim
  | cons u nodes ih =>
    cases nodes with
    | nil => cases edges <;> exact h
    | cons v nodes =>
      cases edges with
      | nil => exact h.elim
      | cons e edges => exact ⟨himp _ _ _ h.1, ih h.2⟩

end Walks
