import Mathlib.Data.Multiset.ZeroCons
import Mathlib.Logic.Relator
import MaharitDb.Lib.PropertyGraph

/-!
# Property graphs up to renaming

Two property graphs, possibly over different ids, that are the same up to a one-to-one renaming of
their nodes and edges.  The renaming is a relation: an id that names nothing may be unrelated.  The
updates of the two graphs at related ids keep them the same; an element put at an unused id extends
the renaming.
-/

/-- Two edges that differ by a renaming of the nodes. -/
structure EdgeData.Renamed {N N' L K V : Type*} (ρ : N → N' → Prop) (d : EdgeData N L K V)
    (d' : EdgeData N' L K V) : Prop where
  label : d.label = d'.label
  src : ρ d.src d'.src
  dst : ρ d.dst d'.dst
  props : d.props = d'.props

/-- A renaming with the pair `(a, b)` in it, and no other pair at `a` or `b`. -/
def pushPair {A B : Type*} (ρ : A → B → Prop) (a : A) (b : B) (x : A) (y : B) : Prop :=
  x = a ∧ y = b ∨ x ≠ a ∧ y ≠ b ∧ ρ x y

theorem pushPair_biUnique {A B : Type*} {ρ : A → B → Prop} (h : Relator.BiUnique ρ) (a : A) (b : B) :
    Relator.BiUnique (pushPair ρ a b) := by
  constructor
  · rintro x y z (⟨rfl, rfl⟩ | ⟨hx, hz, hxz⟩) (⟨rfl, hz'⟩ | ⟨hy, hz', hyz⟩)
    · rfl
    · exact absurd rfl hz'
    · exact absurd hz' hz
    · exact h.1 hxz hyz
  · rintro x y z (⟨rfl, rfl⟩ | ⟨hx, hy, hxy⟩) (⟨hx', rfl⟩ | ⟨hx', hz, hxz⟩)
    · rfl
    · exact absurd rfl hx'
    · exact absurd hx' hx
    · exact h.2 hxy hxz

/-- Two lists without repetitions whose elements correspond one to one, as bags. -/
theorem multisetRel_of_nodup {A B : Type*} {R : A → B → Prop} {l : List A} {l' : List B} (hl : l.Nodup)
    (hl' : l'.Nodup) (hleft : ∀ x ∈ l, ∃ y ∈ l', R x y) (hright : ∀ y ∈ l', ∃ x ∈ l, R x y)
    (huniq : ∀ x ∈ l, ∀ y ∈ l', ∀ z ∈ l', R x y → R x z → y = z)
    (huniq' : ∀ x ∈ l, ∀ y ∈ l, ∀ z ∈ l', R x z → R y z → x = y) :
    Multiset.Rel R (l : Multiset A) (l' : Multiset B) := by
  classical
  induction l generalizing l' with
  | nil =>
    have hnil : l' = [] := List.eq_nil_iff_forall_not_mem.mpr fun y hy => by
      obtain ⟨x, hx, -⟩ := hright y hy
      cases hx
    rw [hnil]
    exact .zero
  | cons x l ih =>
    obtain ⟨hx, hl⟩ := List.nodup_cons.mp hl
    obtain ⟨y, hy, hxy⟩ := hleft x List.mem_cons_self
    have hperm : (l' : Multiset B) = y ::ₘ (l'.erase y : List B) :=
      Multiset.coe_eq_coe.mpr (List.perm_cons_erase hy)
    have hmem : ∀ z, z ∈ l'.erase y ↔ z ≠ y ∧ z ∈ l' := fun z => hl'.mem_erase_iff
    rw [hperm, ← Multiset.cons_coe]
    refine .cons hxy (ih hl (hl'.erase y) ?_ ?_ ?_ ?_)
    · intro w hw
      obtain ⟨z, hz, hwz⟩ := hleft w (List.mem_cons_of_mem _ hw)
      refine ⟨z, (hmem z).mpr ⟨?_, hz⟩, hwz⟩
      rintro rfl
      have heq := huniq' w (List.mem_cons_of_mem _ hw) x List.mem_cons_self z hz hwz hxy
      exact hx (heq ▸ hw)
    · intro z hz
      obtain ⟨hne, hz⟩ := (hmem z).mp hz
      obtain ⟨w, hw, hwz⟩ := hright z hz
      rcases List.mem_cons.mp hw with rfl | hw
      · exact absurd (huniq w List.mem_cons_self z hz y hy hwz hxy) hne
      · exact ⟨w, hw, hwz⟩
    · intro w hw z hz z' hz' hwz hwz'
      exact huniq w (List.mem_cons_of_mem _ hw) z ((hmem z).mp hz).2 z' ((hmem z').mp hz').2 hwz hwz'
    · intro w hw w' hw' z hz hwz hwz'
      exact huniq' w (List.mem_cons_of_mem _ hw) w' (List.mem_cons_of_mem _ hw') z ((hmem z).mp hz).2
        hwz hwz'

/-- Related options stay related when the relation weakens on their values. -/
theorem optionRel_imp {A B : Type*} {R S : A → B → Prop} {o : Option A} {o' : Option B}
    (h : Option.Rel R o o') (himp : ∀ x y, o = some x → o' = some y → R x y → S x y) :
    Option.Rel S o o' := by
  cases h with
  | none => exact .none
  | some h => exact .some (himp _ _ rfl rfl h)

theorem optionRel_some_left {A B : Type*} {R : A → B → Prop} {x : A} {o : Option B}
    (h : Option.Rel R (some x) o) : ∃ y, o = some y ∧ R x y := by
  cases h with
  | some h => exact ⟨_, rfl, h⟩

theorem optionRel_some_right {A B : Type*} {R : A → B → Prop} {y : B} {o : Option A}
    (h : Option.Rel R o (some y)) : ∃ x, o = some x ∧ R x y := by
  cases h with
  | some h => exact ⟨_, rfl, h⟩

set_option linter.unusedSectionVars false

namespace PropertyGraph

variable {N E N' E' L K V : Type*} [DecidableEq N] [DecidableEq E] [DecidableEq N'] [DecidableEq E']
  [DecidableEq K]

/-- Two graphs that are the same up to renaming. -/
structure Renamed (ρ : N → N' → Prop) (ε : E → E' → Prop) (G : PropertyGraph N E L K V)
    (H : PropertyGraph N' E' L K V) : Prop where
  nodeUnique : Relator.BiUnique ρ
  edgeUnique : Relator.BiUnique ε
  /-- Related ids name the same node, or none. -/
  nodes : ∀ a b, ρ a b → G.nodes a = H.nodes b
  /-- Related ids name the same edge, or none. -/
  edges : ∀ e e', ε e e' → Option.Rel (EdgeData.Renamed ρ) (G.edges e) (H.edges e')
  node_left : ∀ a, (G.nodes a).isSome → ∃ b, ρ a b
  node_right : ∀ b, (H.nodes b).isSome → ∃ a, ρ a b
  edge_left : ∀ e, (G.edges e).isSome → ∃ e', ε e e'
  edge_right : ∀ e', (H.edges e').isSome → ∃ e, ε e e'

namespace Renamed

variable {ρ : N → N' → Prop} {ε : E → E' → Prop} {G : PropertyGraph N E L K V}
  {H : PropertyGraph N' E' L K V}

/-- A live edge has a related one. -/
lemma exists_edge_right (h : Renamed ρ ε G H) {e : E} {d : EdgeData N L K V} (hd : G.edges e = some d) :
    ∃ e' d', ε e e' ∧ H.edges e' = some d' ∧ d.Renamed ρ d' := by
  obtain ⟨e', he⟩ := h.edge_left e (by simp [hd])
  have hrel := h.edges e e' he
  rw [hd] at hrel
  obtain ⟨d', hd', hrel⟩ := optionRel_some_left hrel
  exact ⟨e', d', he, hd', hrel⟩

lemma exists_edge_left (h : Renamed ρ ε G H) {e' : E'} {d' : EdgeData N' L K V}
    (hd' : H.edges e' = some d') : ∃ e d, ε e e' ∧ G.edges e = some d ∧ d.Renamed ρ d' := by
  obtain ⟨e, he⟩ := h.edge_right e' (by simp [hd'])
  have hrel := h.edges e e' he
  rw [hd'] at hrel
  obtain ⟨d, hd, hrel⟩ := optionRel_some_right hrel
  exact ⟨e, d, he, hd, hrel⟩

/-- A node put at unused ids. -/
theorem putNode (h : Renamed ρ ε G H) (hG : G.Closed) (hH : H.Closed) {a : N} {b : N'}
    (ha : G.nodes a = none) (hb : H.nodes b = none) (d : NodeData L K V) :
    Renamed (pushPair ρ a b) ε (G.putNode a d) (H.putNode b d) where
  nodeUnique := pushPair_biUnique h.nodeUnique a b
  edgeUnique := h.edgeUnique
  nodes := by
    rintro x y (⟨rfl, rfl⟩ | ⟨hx, hy, hxy⟩)
    · simp [PropertyGraph.putNode]
    · simpa [PropertyGraph.putNode, hx, hy] using h.nodes x y hxy
  edges e e' he := by
    refine optionRel_imp (h.edges e e' he) fun d d' hd hd' hrel => ?_
    -- The endpoints are live, so they are not the ids that were unused.
    have hlive := hG e d hd
    have hlive' := hH e' d' hd'
    have hne : ∀ x, (G.nodes x).isSome → x ≠ a := by
      rintro x hx rfl
      simp [ha] at hx
    have hne' : ∀ y, (H.nodes y).isSome → y ≠ b := by
      rintro y hy rfl
      simp [hb] at hy
    exact ⟨hrel.label, .inr ⟨hne _ hlive.1, hne' _ hlive'.1, hrel.src⟩,
      .inr ⟨hne _ hlive.2, hne' _ hlive'.2, hrel.dst⟩, hrel.props⟩
  node_left x hx := by
    by_cases hxa : x = a
    · exact ⟨b, .inl ⟨hxa, rfl⟩⟩
    · have hlive : (G.nodes x).isSome := by simpa [PropertyGraph.putNode, hxa] using hx
      obtain ⟨y, hxy⟩ := h.node_left x hlive
      refine ⟨y, .inr ⟨hxa, ?_, hxy⟩⟩
      rintro rfl
      rw [h.nodes x y hxy, hb] at hlive
      cases hlive
  node_right y hy := by
    by_cases hyb : y = b
    · exact ⟨a, .inl ⟨rfl, hyb⟩⟩
    · have hlive : (H.nodes y).isSome := by simpa [PropertyGraph.putNode, hyb] using hy
      obtain ⟨x, hxy⟩ := h.node_right y hlive
      refine ⟨x, .inr ⟨?_, hyb, hxy⟩⟩
      rintro rfl
      rw [← h.nodes x y hxy, ha] at hlive
      cases hlive
  edge_left := h.edge_left
  edge_right := h.edge_right

/-- An edge put at unused ids. -/
theorem putEdge (h : Renamed ρ ε G H) {e : E} {e' : E'} (he : G.edges e = none) (he' : H.edges e' = none)
    {d : EdgeData N L K V} {d' : EdgeData N' L K V} (hd : d.Renamed ρ d') :
    Renamed ρ (pushPair ε e e') (G.putEdge e d) (H.putEdge e' d') where
  nodeUnique := h.nodeUnique
  edgeUnique := pushPair_biUnique h.edgeUnique e e'
  nodes := h.nodes
  edges := by
    rintro x y (⟨rfl, rfl⟩ | ⟨hx, hy, hxy⟩)
    · simpa [PropertyGraph.putEdge] using hd
    · simpa [PropertyGraph.putEdge, hx, hy] using h.edges x y hxy
  node_left := h.node_left
  node_right := h.node_right
  edge_left x hx := by
    by_cases hxe : x = e
    · exact ⟨e', .inl ⟨hxe, rfl⟩⟩
    · have hlive : (G.edges x).isSome := by simpa [PropertyGraph.putEdge, hxe] using hx
      obtain ⟨c, hc⟩ := Option.isSome_iff_exists.mp hlive
      obtain ⟨y, c', hxy, hc', -⟩ := h.exists_edge_right hc
      refine ⟨y, .inr ⟨hxe, ?_, hxy⟩⟩
      rintro rfl
      rw [he'] at hc'
      cases hc'
  edge_right y hy := by
    by_cases hye : y = e'
    · exact ⟨e, .inl ⟨rfl, hye⟩⟩
    · have hlive : (H.edges y).isSome := by simpa [PropertyGraph.putEdge, hye] using hy
      obtain ⟨c', hc'⟩ := Option.isSome_iff_exists.mp hlive
      obtain ⟨x, c, hxy, hc, -⟩ := h.exists_edge_left hc'
      refine ⟨x, .inr ⟨?_, hye, hxy⟩⟩
      rintro rfl
      rw [he] at hc
      cases hc

/-- Related nodes change the same way. -/
theorem modifyNode (h : Renamed ρ ε G H) {a : N} {b : N'} (hab : ρ a b)
    (f : NodeData L K V → NodeData L K V) : Renamed ρ ε (G.modifyNode a f) (H.modifyNode b f) where
  nodeUnique := h.nodeUnique
  edgeUnique := h.edgeUnique
  nodes x y hxy := by
    by_cases hx : x = a
    · subst hx
      obtain rfl := h.nodeUnique.2 hxy hab
      simp [PropertyGraph.modifyNode, h.nodes x y hxy]
    · have hy : y ≠ b := by
        rintro rfl
        exact hx (h.nodeUnique.1 hxy hab)
      simpa [PropertyGraph.modifyNode, hx, hy] using h.nodes x y hxy
  edges := h.edges
  node_left x hx := by
    by_cases hxa : x = a
    · exact ⟨b, hxa ▸ hab⟩
    · exact h.node_left x (by simpa [PropertyGraph.modifyNode, hxa] using hx)
  node_right y hy := by
    by_cases hyb : y = b
    · exact ⟨a, hyb ▸ hab⟩
    · exact h.node_right y (by simpa [PropertyGraph.modifyNode, hyb] using hy)
  edge_left := h.edge_left
  edge_right := h.edge_right

/-- Related edges change the same way. -/
theorem setEdgeProp (h : Renamed ρ ε G H) {e : E} {e' : E'} (he : ε e e') (k : K) (v : Option V) :
    Renamed ρ ε (G.setEdgeProp e k v) (H.setEdgeProp e' k v) where
  nodeUnique := h.nodeUnique
  edgeUnique := h.edgeUnique
  nodes := h.nodes
  edges x y hxy := by
    have hrel := h.edges x y hxy
    by_cases hx : x = e
    · subst hx
      obtain rfl := h.edgeUnique.2 hxy he
      simp only [PropertyGraph.setEdgeProp, PropertyGraph.modifyEdge, Function.update_self]
      generalize G.edges x = o at hrel
      generalize H.edges y = o' at hrel
      cases hrel with
      | none => exact .none
      | some hrel =>
        refine .some ⟨hrel.label, hrel.src, hrel.dst, ?_⟩
        simp only [hrel.props]
    · have hy : y ≠ e' := by
        rintro rfl
        exact hx (h.edgeUnique.1 hxy he)
      simpa [PropertyGraph.setEdgeProp, PropertyGraph.modifyEdge, hx, hy] using hrel
  node_left := h.node_left
  node_right := h.node_right
  edge_left x hx := by
    by_cases hxe : x = e
    · exact ⟨e', hxe ▸ he⟩
    · exact h.edge_left x (by simpa [PropertyGraph.setEdgeProp, PropertyGraph.modifyEdge, hxe] using hx)
  edge_right y hy := by
    by_cases hye : y = e'
    · exact ⟨e, hye ▸ he⟩
    · exact h.edge_right y (by simpa [PropertyGraph.setEdgeProp, PropertyGraph.modifyEdge, hye] using hy)

/-- Related edges are removed. -/
theorem deleteEdge (h : Renamed ρ ε G H) {e : E} {e' : E'} (he : ε e e') :
    Renamed ρ ε (G.deleteEdge e) (H.deleteEdge e') where
  nodeUnique := h.nodeUnique
  edgeUnique := h.edgeUnique
  nodes := h.nodes
  edges x y hxy := by
    by_cases hx : x = e
    · subst hx
      obtain rfl := h.edgeUnique.2 hxy he
      simp [PropertyGraph.deleteEdge]
    · have hy : y ≠ e' := by
        rintro rfl
        exact hx (h.edgeUnique.1 hxy he)
      simpa [PropertyGraph.deleteEdge, hx, hy] using h.edges x y hxy
  node_left := h.node_left
  node_right := h.node_right
  edge_left x hx := by
    refine h.edge_left x ?_
    by_cases hxe : x = e
    · simp [PropertyGraph.deleteEdge, hxe] at hx
    · simpa [PropertyGraph.deleteEdge, hxe] using hx
  edge_right y hy := by
    refine h.edge_right y ?_
    by_cases hye : y = e'
    · simp [PropertyGraph.deleteEdge, hye] at hy
    · simpa [PropertyGraph.deleteEdge, hye] using hy

/-- Related nodes are removed, with the same incident edges. -/
theorem deleteNode (h : Renamed ρ ε G H) {a : N} {b : N'} (hab : ρ a b) :
    Renamed ρ ε (G.deleteNode a) (H.deleteNode b) where
  nodeUnique := h.nodeUnique
  edgeUnique := h.edgeUnique
  nodes x y hxy := by
    by_cases hx : x = a
    · subst hx
      obtain rfl := h.nodeUnique.2 hxy hab
      simp [PropertyGraph.deleteNode]
    · have hy : y ≠ b := by
        rintro rfl
        exact hx (h.nodeUnique.1 hxy hab)
      simpa [PropertyGraph.deleteNode, hx, hy] using h.nodes x y hxy
  edges e e' he := by
    have hrel := h.edges e e' he
    have hsame : ∀ x y, ρ x y → (x = a ↔ y = b) := by
      intro x y hxy
      constructor
      · rintro rfl
        exact h.nodeUnique.2 hxy hab
      · rintro rfl
        exact h.nodeUnique.1 hxy hab
    simp only [PropertyGraph.deleteNode]
    generalize G.edges e = o at hrel
    generalize H.edges e' = o' at hrel
    cases hrel with
    | none => exact .none
    | @some d d' hrel =>
      simp only [Option.filter, hsame _ _ hrel.src, hsame _ _ hrel.dst, ne_eq]
      split
      · exact .some hrel
      · exact .none
  node_left x hx := by
    refine h.node_left x ?_
    by_cases hxa : x = a
    · simp [PropertyGraph.deleteNode, hxa] at hx
    · simpa [PropertyGraph.deleteNode, hxa] using hx
  node_right y hy := by
    refine h.node_right y ?_
    by_cases hyb : y = b
    · simp [PropertyGraph.deleteNode, hyb] at hy
    · simpa [PropertyGraph.deleteNode, hyb] using hy
  edge_left e he := by
    refine h.edge_left e ?_
    obtain ⟨d, hd⟩ := Option.isSome_iff_exists.mp he
    rw [(Option.filter_eq_some_iff.mp hd).1]
    rfl
  edge_right e' he' := by
    refine h.edge_right e' ?_
    obtain ⟨d', hd'⟩ := Option.isSome_iff_exists.mp he'
    rw [(Option.filter_eq_some_iff.mp hd').1]
    rfl

end Renamed

/-- Removing a node that is not there changes nothing. -/
theorem deleteNode_of_dead {G : PropertyGraph N E L K V} (hG : G.Closed) {a : N} (ha : G.nodes a = none) :
    G.deleteNode a = G := by
  ext1
  · simp [deleteNode, ← ha]
  · funext e
    simp only [deleteNode]
    cases hd : G.edges e with
    | none => rfl
    | some d =>
      have hlive := hG e d hd
      have hne : ∀ x, (G.nodes x).isSome → x ≠ a := by
        rintro x hx rfl
        simp [ha] at hx
      simp [Option.filter, hne _ hlive.1, hne _ hlive.2]

end PropertyGraph
