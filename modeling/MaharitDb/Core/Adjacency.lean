import Mathlib.Logic.Relation
import MaharitDb.Core.GraphContent

/-!
# The graph that the algorithms read

The algorithms of `maharit-core` (`algorithms.rs`, `traversal.rs`) read a graph through its lists of nodes and edges
and through the edges that leave or enter a node.  In a graph that the operations built these lists describe one
directed graph with parallel edges, every edge of which joins two listed nodes.
-/

namespace Maharit

namespace Graph

/-- The ids of the live nodes (`graph.nodes().map(|n| n.id)`). -/
def nodeIds (g : Graph) : List NodeId := (g.nodes.filterMap id).map Node.id

/-- The live edges (`graph.edges()`). -/
def allEdges (g : Graph) : List Edge := g.edges.filterMap id

/-! ## Nodes and their slots -/

/-- A node knows the slot it is stored in. -/
def KnowsSlots (g : Graph) : Prop := ∀ id n, g.getNode id = some n → n.id = id

variable {g g' : Graph}

lemma KnowsSlots.of_nodes (hg : g.KnowsSlots) (h : g'.nodes = g.nodes) : g'.KnowsSlots := by
  intro id n hn
  rw [getNode, h] at hn
  exact hg id n hn

lemma StoresNode.knowsSlots {id : NodeId} {n : Node} (h : StoresNode g g' id n) (hg : g.KnowsSlots)
    (hn : n.id = id) : g'.KnowsSlots := by
  intro m d hd
  rw [h.getNode] at hd
  by_cases hm : m = id
  · rw [if_pos hm] at hd
    rw [← Option.some.inj hd, hn, hm]
  · rw [if_neg hm] at hd
    exact hg m d hd

lemma KnowsSlots.modifyNode (hg : g.KnowsSlots) (id : NodeId) {f : Node → Node} (hf : ∀ n, (f n).id = n.id) :
    (g.modifyNode id f).KnowsSlots := by
  intro m d hd
  rw [getNode_modifyNode] at hd
  split at hd
  · obtain ⟨n, hn, rfl⟩ := Option.map_eq_some_iff.mp hd
    rw [hf]
    exact hg m n hn
  · exact hg m d hd

/-- A node in its slot was exchanged for one with the same id. -/
lemma KnowsSlots.set (hg : g.KnowsSlots) {id : NodeId} {n n' : Node} (hn : g.getNode id = some n)
    (hid : n'.id = n.id) (h : g'.nodes = g.nodes.set id.toNat (some n')) : g'.KnowsSlots := by
  intro m d hd
  rw [getNode, h, getD_set_uint _ _ _ _ _ (toNat_lt_of_getNode (by simp [hn]))] at hd
  by_cases hm : m = id
  · rw [if_pos hm] at hd
    rw [← Option.some.inj hd, hid, hm]
    exact hg id n hn
  · rw [if_neg hm] at hd
    exact hg m d hd

lemma KnowsSlots.addNodeLabel (hg : g.KnowsSlots) (id : NodeId) (label : String) :
    (g.addNodeLabel id label).KnowsSlots := by
  unfold Graph.addNodeLabel
  cases hn : g.getNode id with
  | none => exact hg
  | some n =>
    dsimp only
    split
    · exact hg
    · refine hg.set hn ?_ rfl
      unfold Node.addLabel
      split <;> rfl

lemma KnowsSlots.removeNodeLabel (hg : g.KnowsSlots) (id : NodeId) (label : String) :
    (g.removeNodeLabel id label).KnowsSlots := by
  unfold Graph.removeNodeLabel
  cases hn : g.getNode id with
  | none => exact hg
  | some n =>
    dsimp only
    split
    · obtain ⟨ix, hix⟩ := foldl_labelIndexRemove_eq
        { g with nodes := g.nodes.set id.toNat (some (n.removeLabel label)) } id [label]
      rw [List.foldl_cons, List.foldl_nil] at hix
      rw [hix]
      exact hg.set hn (rfl : (n.removeLabel label).id = n.id) rfl
    · exact hg

lemma KnowsSlots.createNodeWithIdAndLabels (hg : g.KnowsSlots) (hvalid : g.Valid) (id : NodeId)
    (labels : List String) : (g.createNodeWithIdAndLabels id labels).1.KnowsSlots := by
  cases hnode : g.getNode id with
  | some n =>
    have hsame : (g.createNodeWithIdAndLabels id labels).1 = g := by
      simp [Graph.createNodeWithIdAndLabels, hnode]
    rwa [hsame]
  | none => exact (hvalid.storesNode_withId hnode labels).knowsSlots hg rfl

lemma nodes_createEdgeWithId (g : Graph) (id : EdgeId) (fromNode toNode : NodeId) (label : String) :
    (g.createEdgeWithId id fromNode toNode label).1.nodes = g.nodes := by
  have hgrow : (g.growEdges id).nodes = g.nodes := by
    unfold growEdges
    split <;> rfl
  rcases createEdgeWithId_cases g id fromNode toNode label with hsame | ⟨-, -, -, hfill⟩
  · rw [hsame]
  · rw [hfill]
    exact hgrow

/-- A call of a writing operation leaves every node in its slot. -/
theorem KnowsSlots.apply (hg : g.KnowsSlots) (hvalid : g.Valid) (hfits : g.Fits) (outOrder inOrder : IterOrder)
    (c : WriteCall) : (@WriteCall.apply _ (backend outOrder inOrder) g c).KnowsSlots := by
  cases c with
  | createNodeWithLabels labels => exact (hvalid.createsNode hfits.nodes_lt labels).toStoresNode.knowsSlots hg rfl
  | createEdge fromNode toNode label => exact hg.of_nodes (nodes_createEdge g fromNode toNode label)
  | deleteNode id =>
    intro m d hd
    have hget := hvalid.getNode_deleteNode outOrder inOrder id m
    rw [show (g.deleteNode outOrder inOrder id).1.getNode m = some d from hd] at hget
    by_cases hm : m = id
    · rw [if_pos hm] at hget
      cases hget
    · rw [if_neg hm] at hget
      exact hg m d hget.symm
  | deleteEdge id => exact hg.of_nodes (nodes_deleteEdge g id)
  | setNodeProperty id key value => exact hg.modifyNode id fun _ => rfl
  | removeNodeProperty id key => exact hg.modifyNode id fun _ => rfl
  | addNodeLabel id label => exact hg.addNodeLabel id label
  | removeNodeLabel id label => exact hg.removeNodeLabel id label
  | setEdgeProperty id key value => exact hg.of_nodes rfl
  | removeEdgeProperty id key => exact hg.of_nodes rfl
  | restoreNode id labels => exact hg.createNodeWithIdAndLabels hvalid id labels
  | restoreEdge id fromNode toNode label => exact hg.of_nodes (nodes_createEdgeWithId g id fromNode toNode label)

theorem Built.knowsSlots (h : g.Built) : g.KnowsSlots := by
  induction h with
  | new =>
    intro id n hn
    simp [Graph.new, getNode] at hn
  | apply h outOrder inOrder c hfits ih =>
    obtain ⟨hvalid, hfits'⟩ := h.valid
    exact ih.apply hvalid hfits' outOrder inOrder c

/-- The graph after some calls on the empty one. -/
def ofCalls (calls : List WriteCall) : Graph := @WriteCall.run _ (backend .listed .listed) new calls

/-- The calls build a graph when its vectors stay within their bounds. -/
theorem built_ofCalls (calls : List WriteCall) (hfits : ∀ k ≤ calls.length, (ofCalls (calls.take k)).Fits) :
    (ofCalls calls).Built := by
  induction calls using List.reverseRecOn with
  | nil => exact .new
  | append_singleton calls c ih =>
    have hlast : ofCalls (calls ++ [c]) = @WriteCall.apply _ (backend .listed .listed) (ofCalls calls) c :=
      @WriteCall.run_append _ (backend .listed .listed) new calls [c]
    have hbuilt : (ofCalls calls).Built := by
      refine ih fun k hk => ?_
      have hprefix := hfits k (hk.trans (by simp))
      rwa [List.take_append_of_le_length hk] at hprefix
    have hall := hfits (calls ++ [c]).length le_rfl
    rw [List.take_length, hlast] at hall
    rw [hlast]
    exact hbuilt.apply .listed .listed c hall

/-! ## What the lists describe -/

/-- The lists of nodes and of edges describe one graph. -/
structure Adjacent (g : Graph) : Prop where
  nodup_nodeIds : g.nodeIds.Nodup
  mem_nodeIds : ∀ id, id ∈ g.nodeIds ↔ (g.getNode id).isSome
  mem_allEdges : ∀ e, e ∈ g.allEdges ↔ g.getEdge e.id = some e
  nodup_allEdges : g.allEdges.Nodup
  fromNode_mem : ∀ e ∈ g.allEdges, e.fromNode ∈ g.nodeIds
  toNode_mem : ∀ e ∈ g.allEdges, e.toNode ∈ g.nodeIds
  mem_outgoing : ∀ u e, e ∈ g.getOutgoingEdges u ↔ e ∈ g.allEdges ∧ e.fromNode = u
  nodup_outgoing : ∀ u, (g.getOutgoingEdges u).Nodup
  mem_incoming : ∀ u e, e ∈ g.getIncomingEdges u ↔ e ∈ g.allEdges ∧ e.toNode = u
  nodup_incoming : ∀ u, (g.getIncomingEdges u).Nodup

theorem Built.adjacent (h : g.Built) : g.Adjacent := by
  obtain ⟨hvalid, hfits⟩ := h.valid
  have hnodes := mem_slots hfits.nodes_lt h.knowsSlots
  have hedges : ∀ e, e ∈ g.allEdges ↔ g.getEdge e.id = some e := mem_slots hfits.edges_lt hvalid.edge_id
  have hmem : ∀ id, id ∈ g.nodeIds ↔ (g.getNode id).isSome := by
    intro id
    rw [Option.isSome_iff_exists, nodeIds, List.mem_map]
    constructor
    · rintro ⟨n, hn, rfl⟩
      exact ⟨n, (hnodes n).mp hn⟩
    · rintro ⟨n, hn⟩
      have hid := h.knowsSlots id n hn
      subst hid
      exact ⟨n, (hnodes n).mpr hn, rfl⟩
  refine { nodup_nodeIds := nodup_slots hfits.nodes_lt h.knowsSlots, mem_nodeIds := hmem, mem_allEdges := hedges,
           nodup_allEdges := (nodup_slots hfits.edges_lt hvalid.edge_id).of_map, fromNode_mem := ?_,
           toNode_mem := ?_, mem_outgoing := ?_, nodup_outgoing := fun _ => hvalid.nodup_filterMap_edges _,
           mem_incoming := ?_, nodup_incoming := fun _ => hvalid.nodup_filterMap_edges _ }
  · exact fun e he => (hmem _).mpr (hvalid.endpoints _ e ((hedges e).mp he)).1
  · exact fun e he => (hmem _).mpr (hvalid.endpoints _ e ((hedges e).mp he)).2
  · intro u e
    rw [hedges]
    refine hvalid.mem_filterMap_edges.trans (and_congr_right fun he => ?_)
    rw [hvalid.outgoing u e.id]
    exact ⟨fun ⟨e', he', hu⟩ => Option.some.inj (he.symm.trans he') ▸ hu, fun hu => ⟨e, he, hu⟩⟩
  · intro u e
    rw [hedges]
    refine hvalid.mem_filterMap_edges.trans (and_congr_right fun he => ?_)
    rw [hvalid.incoming u e.id]
    exact ⟨fun ⟨e', he', hu⟩ => Option.some.inj (he.symm.trans he') ▸ hu, fun hu => ⟨e, he, hu⟩⟩

/-! ## Walking along the edges -/

/-- An edge leads from one node to the other. -/
def Links (g : Graph) (u v : NodeId) : Prop := ∃ e ∈ g.allEdges, e.fromNode = u ∧ e.toNode = v

/-- A walk along edges leads from one node to the other. -/
def Reaches (g : Graph) : NodeId → NodeId → Prop := Relation.ReflTransGen g.Links

lemma Adjacent.links_iff (h : g.Adjacent) {u v : NodeId} :
    g.Links u v ↔ ∃ e ∈ g.getOutgoingEdges u, e.toNode = v := by
  constructor
  · rintro ⟨e, he, rfl, rfl⟩
    exact ⟨e, (h.mem_outgoing _ e).mpr ⟨he, rfl⟩, rfl⟩
  · rintro ⟨e, he, rfl⟩
    obtain ⟨he, hu⟩ := (h.mem_outgoing _ e).mp he
    exact ⟨e, he, hu, rfl⟩

lemma Adjacent.links_iff' (h : g.Adjacent) {u v : NodeId} :
    g.Links u v ↔ ∃ e ∈ g.getIncomingEdges v, e.fromNode = u := by
  constructor
  · rintro ⟨e, he, rfl, rfl⟩
    exact ⟨e, (h.mem_incoming _ e).mpr ⟨he, rfl⟩, rfl⟩
  · rintro ⟨e, he, rfl⟩
    obtain ⟨he, hv⟩ := (h.mem_incoming _ e).mp he
    exact ⟨e, he, rfl, hv⟩

lemma Adjacent.links_mem (h : g.Adjacent) {u v : NodeId} (hlink : g.Links u v) :
    u ∈ g.nodeIds ∧ v ∈ g.nodeIds := by
  obtain ⟨e, he, rfl, rfl⟩ := hlink
  exact ⟨h.fromNode_mem e he, h.toNode_mem e he⟩

/-- A walk from a live node stays on live nodes. -/
lemma Adjacent.reaches_mem (h : g.Adjacent) {u v : NodeId} (hreach : g.Reaches u v) (hu : u ∈ g.nodeIds) :
    v ∈ g.nodeIds := by
  induction hreach with
  | refl => exact hu
  | tail _ hlink _ => exact (h.links_mem hlink).2

end Graph

end Maharit
