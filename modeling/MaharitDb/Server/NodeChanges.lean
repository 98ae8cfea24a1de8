import MaharitDb.Server.Rollback

/-!
# What the writing calls do to the nodes

A backend that keeps its nodes under their ids: each writing call changes the node of one id at most.
-/

namespace Maharit

open GraphBackend

/-- The effect of the writing calls on what `getNode` returns, and the listing of the nodes. -/
structure NodeLaws (σ : Type) [GraphBackend σ] : Prop where
  create : ∀ (g : σ) labels m, getNode (createNodeWithLabels g labels).1 m =
    if m = (createNodeWithLabels g labels).2 then
      some ⟨(createNodeWithLabels g labels).2, labels, ∅⟩
    else getNode g m
  delete : ∀ (g : σ) id m, getNode (deleteNode g id).1 m = if m = id then none else getNode g m
  setProperty : ∀ (g : σ) id key value m, getNode (setNodeProperty g id key value) m =
    if m = id then (getNode g id).map (·.setProperty key value) else getNode g m
  removeProperty : ∀ (g : σ) id key m, getNode (removeNodeProperty g id key).1 m =
    if m = id then (getNode g id).map (·.removeProperty key) else getNode g m
  addLabel : ∀ (g : σ) id label m, getNode (addNodeLabel g id label) m =
    if m = id then (getNode g id).map (·.addLabel label) else getNode g m
  removeLabel : ∀ (g : σ) id label m, getNode (removeNodeLabel g id label) m =
    if m = id then (getNode g id).map (·.removeLabel label) else getNode g m
  createEdge : ∀ (g : σ) fromNode toNode label, getNode (createEdge g fromNode toNode label).1 = getNode g
  deleteEdge : ∀ (g : σ) id, getNode (deleteEdge g id).1 = getNode g
  setEdgeProperty : ∀ (g : σ) id key value, getNode (setEdgeProperty g id key value) = getNode g
  removeEdgeProperty : ∀ (g : σ) id key, getNode (removeEdgeProperty g id key).1 = getNode g
  mem_allNodes : ∀ (g : σ) n, n ∈ allNodes g ↔ ∃ id, getNode g id = some n

namespace ConcurrentGraph

lemma addLabel_of_hasLabel {n : Node} {label : String} (h : n.hasLabel label = true) :
    n.addLabel label = n := by
  rw [Node.hasLabel_iff] at h
  rw [Node.addLabel, if_neg fun hne => hne.2 h]

lemma removeLabel_of_not_hasLabel {n : Node} {label : String} (h : ¬ n.hasLabel label = true) :
    n.removeLabel label = n := by
  rw [Node.hasLabel_iff] at h
  have hfilter : n.labels.filter (· != label) = n.labels := by
    refine List.filter_eq_self.mpr fun l hl => ?_
    rw [bne_iff_ne]
    rintro rfl
    exact h hl
  rw [Node.removeLabel, hfilter]

/-- A loop whose rounds keep the nodes keeps them. -/
lemma nodes_foldl {f : ConcurrentGraph → EdgeId → ConcurrentGraph} (hf : ∀ g e, (f g e).nodes = g.nodes)
    (g : ConcurrentGraph) (es : List EdgeId) : (es.foldl f g).nodes = g.nodes := by
  induction es generalizing g with
  | nil => rfl
  | cons e es ih => exact (ih _).trans (hf g e)

lemma nodes_deleteNode (g : ConcurrentGraph) (id : NodeId) : (g.deleteNode id).1.nodes = g.nodes.erase id := by
  unfold deleteNode
  rcases hn : g.nodes.lookup id with _ | n
  · exact (HashMap.erase_eq_self g.nodes (AList.lookup_eq_none.mp hn)).symm
  · have hout : ∀ (g : ConcurrentGraph) e, (dropOutgoing g e).nodes = g.nodes := by
      intro g e
      unfold dropOutgoing
      split <;> rfl
    have hinc : ∀ (g : ConcurrentGraph) e, (dropIncoming g e).nodes = g.nodes := by
      intro g e
      unfold dropIncoming
      split <;> rfl
    exact (nodes_foldl hinc _ _).trans (nodes_foldl hout _ _)

lemma lookup_modify_ite (nodes : HashMap NodeId Node) (id m : NodeId) (f : Node → Node) :
    (HashMap.modify nodes id f).lookup m = if m = id then (nodes.lookup id).map f else nodes.lookup m := by
  rw [HashMap.lookup_modify]
  split
  · rename_i hm
    rw [hm]
  · rfl

/-- The concurrent graph, consistent or not. -/
theorem nodeLaws : NodeLaws ConcurrentGraph where
  create g labels m := HashMap.lookup_insert_ite g.nodes _ m _
  delete g id m := by
    change (g.deleteNode id).1.nodes.lookup m = _
    rw [nodes_deleteNode, HashMap.lookup_erase_ite]
    rfl
  setProperty g id key value m := lookup_modify_ite g.nodes id m _
  removeProperty g id key m := lookup_modify_ite g.nodes id m _
  addLabel g id label m := by
    change (g.addNodeLabel id label).nodes.lookup m = if m = id then (g.nodes.lookup id).map _ else g.nodes.lookup m
    unfold addNodeLabel
    by_cases hm : m = id
    · subst hm
      rcases hn : g.nodes.lookup m with _ | n
      · simp [hn]
      · by_cases hlabel : n.hasLabel label = true
        · simp [hn, hlabel, addLabel_of_hasLabel hlabel]
        · simp [hlabel]
    · rcases hn : g.nodes.lookup id with _ | n
      · simp [hm]
      · by_cases hlabel : n.hasLabel label = true
        · simp [hm, hlabel]
        · simp [hm, hlabel]
  removeLabel g id label m := by
    change (g.removeNodeLabel id label).nodes.lookup m =
      if m = id then (g.nodes.lookup id).map _ else g.nodes.lookup m
    unfold removeNodeLabel
    by_cases hm : m = id
    · subst hm
      rcases hn : g.nodes.lookup m with _ | n
      · simp [hn]
      · by_cases hlabel : n.hasLabel label = true
        · simp [hlabel]
        · simp [hn, hlabel, removeLabel_of_not_hasLabel hlabel]
    · rcases hn : g.nodes.lookup id with _ | n
      · simp [hm]
      · by_cases hlabel : n.hasLabel label = true
        · simp [hm, hlabel]
        · simp [hm, hlabel]
  createEdge g fromNode toNode label := by
    change (g.createEdge fromNode toNode label).1.nodes.lookup = g.nodes.lookup
    unfold createEdge
    split
    · rfl
    · split <;> rfl
  deleteEdge g id := by
    change (g.deleteEdge id).1.nodes.lookup = g.nodes.lookup
    unfold deleteEdge
    split <;> rfl
  setEdgeProperty g id key value := rfl
  removeEdgeProperty g id key := rfl
  mem_allNodes g n := by
    change n ∈ g.nodes.entries.map (·.2) ↔ ∃ id, g.nodes.lookup id = some n
    rw [List.mem_map]
    constructor
    · rintro ⟨⟨id, n⟩, hmem, rfl⟩
      exact ⟨id, AList.mem_lookup_iff.mpr hmem⟩
    · rintro ⟨id, hid⟩
      exact ⟨⟨id, n⟩, AList.mem_lookup_iff.mp hid, rfl⟩

end ConcurrentGraph

namespace RecordingGraph

variable {J : JsonText}

/-- A recorder does to the nodes what the graph it wraps does. -/
theorem nodeLaws : NodeLaws (RecordingGraph J) where
  create r labels m := by
    refine Eq.trans ?_ (ConcurrentGraph.nodeLaws.create r.graph labels m)
    exact congrArg (fun g : ConcurrentGraph => getNode g m) (apply_graph r (.createNodeWithLabels labels))
  delete r id m := by
    refine Eq.trans ?_ (ConcurrentGraph.nodeLaws.delete r.graph id m)
    exact congrArg (fun g : ConcurrentGraph => getNode g m) (apply_graph r (.deleteNode id))
  setProperty r id key value m := by
    refine Eq.trans ?_ (ConcurrentGraph.nodeLaws.setProperty r.graph id key value m)
    exact congrArg (fun g : ConcurrentGraph => getNode g m) (apply_graph r (.setNodeProperty id key value))
  removeProperty r id key m := by
    refine Eq.trans ?_ (ConcurrentGraph.nodeLaws.removeProperty r.graph id key m)
    exact congrArg (fun g : ConcurrentGraph => getNode g m) (apply_graph r (.removeNodeProperty id key))
  addLabel r id label m := by
    refine Eq.trans ?_ (ConcurrentGraph.nodeLaws.addLabel r.graph id label m)
    exact congrArg (fun g : ConcurrentGraph => getNode g m) (apply_graph r (.addNodeLabel id label))
  removeLabel r id label m := by
    refine Eq.trans ?_ (ConcurrentGraph.nodeLaws.removeLabel r.graph id label m)
    exact congrArg (fun g : ConcurrentGraph => getNode g m) (apply_graph r (.removeNodeLabel id label))
  createEdge r fromNode toNode label := by
    refine Eq.trans ?_ (ConcurrentGraph.nodeLaws.createEdge r.graph fromNode toNode label)
    exact congrArg (fun g : ConcurrentGraph => getNode g) (apply_graph r (.createEdge fromNode toNode label))
  deleteEdge r id := by
    refine Eq.trans ?_ (ConcurrentGraph.nodeLaws.deleteEdge r.graph id)
    exact congrArg (fun g : ConcurrentGraph => getNode g) (apply_graph r (.deleteEdge id))
  setEdgeProperty r id key value := by
    refine Eq.trans ?_ (ConcurrentGraph.nodeLaws.setEdgeProperty r.graph id key value)
    exact congrArg (fun g : ConcurrentGraph => getNode g) (apply_graph r (.setEdgeProperty id key value))
  removeEdgeProperty r id key := by
    refine Eq.trans ?_ (ConcurrentGraph.nodeLaws.removeEdgeProperty r.graph id key)
    exact congrArg (fun g : ConcurrentGraph => getNode g) (apply_graph r (.removeEdgeProperty id key))
  mem_allNodes r := ConcurrentGraph.nodeLaws.mem_allNodes r.graph

end RecordingGraph

end Maharit
