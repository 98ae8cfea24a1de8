import MaharitDb.Core.ConcurrentGraphContent

/-!
# What the reading operations of a backend agree on

The executor reads a graph through many operations: by id, by label, by endpoint.  In a coherent
state they all describe the nodes `getNode` and the edges `getEdge` return.  A consistent concurrent
graph is coherent.
-/

namespace Maharit

namespace GraphBackend

variable {σ : Type} [GraphBackend σ]

/-- The reading operations describe the same nodes and edges. -/
structure Coherent (g : σ) : Prop where
  nodeHasAllLabels : ∀ id labels, GraphBackend.nodeHasAllLabels g id labels = true ↔
    ∃ n, getNode g id = some n ∧ ∀ l ∈ labels, l ∈ n.labels
  getNodeProperty : ∀ id key,
    GraphBackend.getNodeProperty g id key = (getNode g id).bind (·.getProperty key)
  containsNode : ∀ id, GraphBackend.containsNode g id = true ↔ ∃ n, getNode g id = some n
  mem_nodeIds : ∀ id, id ∈ nodeIds g ↔ ∃ n, getNode g id = some n
  nodup_nodeIds : (nodeIds g).Nodup
  mem_nodesByLabel : ∀ id l, id ∈ nodesByLabel g l ↔ ∃ n, getNode g id = some n ∧ l ∈ n.labels
  nodup_nodesByLabel : ∀ l, (nodesByLabel g l).Nodup
  mem_outgoingEdges : ∀ id e, e ∈ outgoingEdges g id ↔ getEdge g e.id = some e ∧ e.fromNode = id
  nodup_outgoingEdges : ∀ id, (outgoingEdges g id).Nodup
  mem_incomingEdges : ∀ id e, e ∈ incomingEdges g id ↔ getEdge g e.id = some e ∧ e.toNode = id
  nodup_incomingEdges : ∀ id, (incomingEdges g id).Nodup

/-- The listings and the counts describe the same nodes and edges too. -/
structure Listed (g : σ) : Prop extends Coherent g where
  node_id : ∀ id n, getNode g id = some n → n.id = id
  edge_id : ∀ id e, getEdge g id = some e → e.id = id
  mem_allNodes : ∀ n, n ∈ allNodes g ↔ getNode g n.id = some n
  nodup_allNodes : (allNodes g).Nodup
  mem_edgeIds : ∀ id, id ∈ edgeIds g ↔ ∃ e, getEdge g id = some e
  nodup_edgeIds : (edgeIds g).Nodup
  mem_allEdges : ∀ e, e ∈ allEdges g ↔ getEdge g e.id = some e
  nodup_allEdges : (allEdges g).Nodup
  hasIncidentEdges : ∀ id, GraphBackend.hasIncidentEdges g id = true ↔
    ∃ e, e ∈ outgoingEdges g id ∨ e ∈ incomingEdges g id
  nodeCount : GraphBackend.nodeCount g = (nodeIds g).length
  edgeCount : GraphBackend.edgeCount g = (edgeIds g).length

/-- The properties of a node are those of the node that `getNode` returns. -/
structure NodeReads (g : σ) : Prop where
  getNodeProperty : ∀ id key,
    GraphBackend.getNodeProperty g id key = (getNode g id).bind (·.getProperty key)
  containsNode : ∀ id n, getNode g id = some n → GraphBackend.containsNode g id = true

end GraphBackend

namespace ConcurrentGraph

/-- Consistent or not, a concurrent graph reads the properties off its nodes. -/
theorem nodeReads (g : ConcurrentGraph) : GraphBackend.NodeReads g where
  getNodeProperty _ _ := rfl
  containsNode id n hn := decide_eq_true ((HashMap.mem_iff_exists g.nodes id).mpr ⟨n, hn⟩)

variable {g : ConcurrentGraph}

/-- The edges read through a set of ids. -/
lemma Consistent.mem_filterMap_edges (hg : g.Consistent) {ids : HashSet EdgeId} {e : Edge} :
    e ∈ ids.toList.filterMap g.edges.lookup ↔ g.edges.lookup e.id = some e ∧ e.id ∈ ids := by
  rw [List.mem_filterMap]
  constructor
  · rintro ⟨id, hid, he⟩
    have heid := hg.edge_id id e he
    subst heid
    exact ⟨he, hid⟩
  · rintro ⟨he, hid⟩
    exact ⟨e.id, hid, he⟩

lemma Consistent.nodup_filterMap_edges (hg : g.Consistent) (ids : HashSet EdgeId) :
    (ids.toList.filterMap g.edges.lookup).Nodup := by
  refine (HashSet.nodup_toList ids).filterMap fun id id' e he he' => ?_
  exact (hg.edge_id id e he).symm.trans (hg.edge_id id' e he')

/-- A consistent graph is coherent. -/
theorem Consistent.coherent (hg : g.Consistent) : GraphBackend.Coherent g where
  nodeHasAllLabels id labels := by
    change ((g.nodes.lookup id).map fun n => labels.all n.hasLabel).getD false = true ↔
      ∃ n, g.nodes.lookup id = some n ∧ ∀ l ∈ labels, l ∈ n.labels
    cases g.nodes.lookup id with
    | none => simp
    | some n => simp
  getNodeProperty _ _ := rfl
  containsNode id := by
    change decide (id ∈ g.nodes) = true ↔ ∃ n, g.nodes.lookup id = some n
    rw [decide_eq_true_iff, HashMap.mem_iff_exists]
  mem_nodeIds id := HashMap.mem_iff_exists g.nodes id
  nodup_nodeIds := AList.keys_nodup g.nodes
  mem_nodesByLabel id l := hg.labelIndex l id
  nodup_nodesByLabel l := HashSet.nodup_toList _
  mem_outgoingEdges id e := by
    refine hg.mem_filterMap_edges.trans (and_congr_right fun he => ?_)
    rw [hg.outgoing id e.id]
    constructor
    · rintro ⟨e', he', rfl⟩
      rw [Option.some.inj (he.symm.trans he')]
    · rintro rfl
      exact ⟨e, he, rfl⟩
  nodup_outgoingEdges id := hg.nodup_filterMap_edges _
  mem_incomingEdges id e := by
    refine hg.mem_filterMap_edges.trans (and_congr_right fun he => ?_)
    rw [hg.incoming id e.id]
    constructor
    · rintro ⟨e', he', rfl⟩
      rw [Option.some.inj (he.symm.trans he')]
    · rintro rfl
      exact ⟨e, he, rfl⟩
  nodup_incomingEdges id := hg.nodup_filterMap_edges _

/-- The values stored in a map, when each knows its key. -/
lemma mem_entries_map {K V : Type} [DecidableEq K] {m : HashMap K V} {key : V → K}
    (hkey : ∀ k v, m.lookup k = some v → key v = k) (v : V) :
    v ∈ m.entries.map (·.2) ↔ m.lookup (key v) = some v := by
  rw [List.mem_map]
  constructor
  · rintro ⟨⟨k, w⟩, hmem, rfl⟩
    have hlookup : m.lookup k = some w := AList.mem_lookup_iff.mpr hmem
    rw [hkey k w hlookup]
    exact hlookup
  · intro hlookup
    exact ⟨⟨key v, v⟩, AList.mem_lookup_iff.mp hlookup, rfl⟩

lemma nodup_entries_map {K V : Type} [DecidableEq K] {m : HashMap K V} {key : V → K}
    (hkey : ∀ k v, m.lookup k = some v → key v = k) : (m.entries.map (·.2)).Nodup := by
  refine List.Nodup.of_map key ?_
  rw [List.map_map]
  have hkeys : m.entries.map (key ∘ (·.2)) = m.keys := by
    refine List.map_congr_left fun p hp => ?_
    exact hkey p.1 p.2 (AList.mem_lookup_iff.mpr hp)
  rw [hkeys]
  exact AList.keys_nodup m

/-- A consistent graph lists what it stores. -/
theorem Consistent.listed (hg : g.Consistent) : GraphBackend.Listed g where
  toCoherent := hg.coherent
  node_id := hg.node_id
  edge_id := hg.edge_id
  mem_allNodes := mem_entries_map hg.node_id
  nodup_allNodes := nodup_entries_map hg.node_id
  mem_edgeIds id := HashMap.mem_iff_exists g.edges id
  nodup_edgeIds := AList.keys_nodup g.edges
  mem_allEdges := mem_entries_map hg.edge_id
  nodup_allEdges := nodup_entries_map hg.edge_id
  hasIncidentEdges id := by
    have hlist : ∀ ids : HashSet EdgeId, (∀ e, e ∈ ids → ∃ c, g.edges.lookup e = some c) →
        ((!ids.toList.isEmpty) = true ↔ ∃ c, c ∈ ids.toList.filterMap g.edges.lookup) := by
      intro ids hlive
      rw [Bool.not_eq_true', List.isEmpty_eq_false_iff_exists_mem]
      constructor
      · rintro ⟨e, he⟩
        obtain ⟨c, hc⟩ := hlive e he
        exact ⟨c, List.mem_filterMap.mpr ⟨e, he, hc⟩⟩
      · rintro ⟨c, hc⟩
        obtain ⟨e, he, -⟩ := List.mem_filterMap.mp hc
        exact ⟨e, he⟩
    change (!(g.getOutgoingEdges id).isEmpty || !(g.getIncomingEdges id).isEmpty) = true ↔ _
    rw [Bool.or_eq_true, getOutgoingEdges, getIncomingEdges, hlist, hlist, ← exists_or]
    · rfl
    · intro e he
      obtain ⟨c, hc, -⟩ := (hg.incoming id e).mp he
      exact ⟨c, hc⟩
    · intro e he
      obtain ⟨c, hc, -⟩ := (hg.outgoing id e).mp he
      exact ⟨c, hc⟩
  nodeCount := (List.length_map _).symm
  edgeCount := (List.length_map _).symm

end ConcurrentGraph

end Maharit
